import Lowering.Proofs.Emission.BodyLaws
import Lowering.Proofs.Emission.Growth
import Lowering.Proofs.Running

/-!
# Requests as framed forms

Each way of lowering a tree writes the forms of the tree, and around them only what belongs to a
function or a function literal. Main statements: every run that starts with a typed tree is such a
frame around its core, and a law of emission governs every core.
-/

namespace Lowering

namespace Request

/-- The function around the tree. -/
def signature? : Request → Option Signature
  | .method signature | .lambda signature => some signature
  | .expression .. => none

/-- What is written for the tree itself: the body of a function, the expressions of a lambda that is
a block, or the value in place. -/
inductive Core (env : Env) (e : Expr) : Request → Emit Unit → Prop
  | method (sig : Signature) : Core env e (.method sig) (Emit.bodyText env e (some sig.result))
  | lambda (sig : Signature) (hexprs : e.exprs? = none) :
      Core env e (.lambda sig) (Emit.bodyText env e (some sig.result))
  | block (sig : Signature) {exprs : List Expr} (hexprs : e.exprs? = some exprs) :
      Core env e (.lambda sig)
        (Emit.returningLast env (some sig.result) (!sig.result.isVoid) exprs)
  | literal (expected thisType superType : Option HostType) :
      Core env e (.expression expected thisType superType) (Emit.bodyText env e expected)
  | inPlace (expected thisType superType : Option HostType) (hplain : e.Plain) :
      Core env e (.expression expected thisType superType) (Emit.expression env e)

/-- The exceptions that the function around the tree declares. -/
def throws : Request → List HostType
  | .method signature | .lambda signature => signature.throws
  | .expression .. => []

/-- What holds when lowering comes to the tree; what is around it is `guarded` or not. -/
structure Starts (r : Request) (guarded : Bool) (t : Sink) : Prop extends t.Prepared where
  bindings : ∀ sig, r.signature? = some sig → t.bindings = sig.bindings
  braces : ∀ sig, r.signature? = some sig → GuardedAfter guarded [] t.journal

variable {c : Compiler} {e : Expr} {types : ResolvedTypes} {r : Request}

theorem journal_sink (c : Compiler) (r : Request) : (r.sink c).journal = [] := by
  cases r with
  | expression expected thisType superType => cases thisType <;> cases superType <;> rfl
  | _ => rfl

private theorem prepared_sink (c : Compiler) (r : Request) : (r.sink c).Prepared := by
  have hfaithful : (r.sink c).Faithful := by
    rw [Sink.Faithful, journal_sink]
    cases r with
    | expression expected thisType superType => cases thisType <;> cases superType <;> rfl
    | _ => rfl
  have hbindings : (r.sink c).bindings = [] := by
    rw [hfaithful.bindings_eq, journal_sink]
    rfl
  refine ⟨hfaithful, by simp [journal_sink], by simp [hbindings], fun past hpast => ?_⟩
  rw [journal_sink, List.suffix_nil] at hpast
  rw [hpast, hbindings]
  exact List.suffix_rfl

private theorem prepared_openScope (c : Compiler) (r : Request) :
    (r.sink c).openScope.Prepared ∧ (r.sink c).openScope.bindings = [] := by
  have hprepared := prepared_sink c r
  refine ⟨(Sink.Opens.refl.openScope).prepared hprepared, ?_⟩
  rw [Sink.bindings_openScope, hprepared.faithful.bindings_eq, journal_sink]
  rfl

private theorem frames_typedThen {s : Sink} {start : Sink → Prop} {core : Emit Unit}
    {expectation : Expectation} {context : TypingContext} {act : Env → Emit Unit}
    (hinfer : e.infer c.hierarchy expectation context = .ok types)
    (h : Emit.Frames start core (act (c.env types)) s.openScope) :
    Emit.Frames start core (c.typedThen e expectation context act) s := by
  rw [Compiler.typedThen, hinfer, ofExcept_ok, pure_bind]
  exact h.inScope.after fun _ => Emit.does_pure (fun _ => .refl) types

private theorem starts_of_introduces {sig : Signature} (hr : r.signature? = some sig)
    {t u : Sink} (ht : Emit.Introduces sig.bindings (r.sink c).openScope t) {guarded : Bool}
    (hu : t.Guards guarded u) : r.Starts guarded u where
  toPrepared := hu.opens.prepared (ht.opens.prepared (prepared_openScope c r).1)
  bindings sig' hsig' := by
    obtain rfl : sig = sig' := Option.some.inj (hr.symm.trans hsig')
    rw [Sink.bindings, hu.scopes, ← Sink.bindings, ht.bindings, (prepared_openScope c r).2,
      List.append_nil]
  braces _ _ := by
    have hbraces : bracesAfter t.journal = bracesAfter [] := by
      rw [ht.braces, ← journal_sink c r]
      rfl
    cases guarded with
    | true =>
      obtain ⟨before, hbefore, hopen⟩ := hu.braces
      exact ⟨before, hbefore, hbraces ▸ hopen⟩
    | false => exact hu.braces.trans hbraces

private theorem frames_function {sig : Signature} (hr : r.signature? = some sig)
    {core outer : Emit Unit} {guarded : Bool}
    (h : ∀ (start : Sink → Prop) (t : Sink), (∀ u, t.Guards guarded u → start u) →
      Emit.Frames start core outer t) :
    Emit.Frames (r.Starts guarded) core (do Emit.declareSignature sig; outer)
      (r.sink c).openScope := by
  obtain ⟨_, t, hrun, ht⟩ := Emit.introduces_signature sig (r.sink c).openScope
  exact .before hrun (h (r.Starts guarded) t fun u hu => starts_of_introduces hr ht hu)

theorem blockContents_eq {env : Env} {exprs : List Expr} (hexprs : e.exprs? = some exprs)
    (expected : Option HostType) : Emit.blockContents env e expected =
      Emit.returningLast env expected (!expected.any (·.isVoid)) exprs := by
  rw [Emit.blockContents, hexprs]

private theorem frames_body (env : Env) (e : Expr) (expected : Option HostType)
    (declared : List HostType) (start : Sink → Prop) (t : Sink)
    (hstart : ∀ u, t.Guards (env.needsRethrow e declared) u → start u) :
    Emit.Frames start (Emit.bodyText env e expected) (Emit.body env e expected declared) t := by
  rw [Emit.body, Emit.functionBody_eq]
  exact (Emit.frames_guarding _ hstart).traced _ _

private theorem frames_inlineValue {env : Env} {expected thisType superType : Option HostType}
    {s : Sink} (hs : s.Prepared) (guarded : Bool) :
    ∃ core, (expression expected thisType superType).Core env e core ∧
      Emit.Frames ((expression expected thisType superType).Starts guarded) core
        (Emit.inlineValue env e expected) s := by
  have hstarts {t : Sink} (ht : t.Prepared) :
      (expression expected thisType superType).Starts guarded t :=
    ⟨ht, nofun, nofun⟩
  by_cases hplace : !e.exitsEarly && !env.needsRethrow e [] && s.canInline e
  · have hinline : s.canInline e := by simp_all
    have hplain : e.Plain := Sink.plain_of_canInline (fun _ _ => hs.not_binds rfl) hinline
    refine ⟨_, .inPlace _ _ _ hplain, .traced (Emit.frames_get ?_) _ _⟩
    rw [if_pos hplace]
    exact Emit.frames_self (hstarts hs)
  · refine ⟨_, .literal _ _ _, .traced (Emit.frames_get ?_) _ _⟩
    rw [if_neg hplace]
    have hopen : (expression expected thisType superType).Starts guarded s.openScope :=
      hstarts (Sink.Opens.refl.openScope.prepared hs)
    exact (Emit.frames_functionLiteral e expected _ hopen fun t u ht hu =>
      hstarts (hu.prepared ht.toPrepared)).inScope

/-- Every way of lowering a typed tree frames a core. -/
theorem exists_core (hinfer : r.infer c e = .ok types) :
    ∃ core, r.Core (c.env types) e core ∧
      Emit.Frames (r.Starts ((c.env types).needsRethrow e r.throws)) core (r.emission c e)
        (r.sink c) := by
  cases r with
  | method sig =>
    refine ⟨_, .method sig, ?_⟩
    rw [emission, Compiler.methodBody]
    apply frames_typedThen hinfer
    exact frames_function rfl (frames_body _ _ _ _)
  | lambda sig =>
    cases hexprs : e.exprs? with
    | none =>
      refine ⟨_, .lambda sig hexprs, ?_⟩
      rw [emission, Compiler.lambdaBody]
      apply frames_typedThen hinfer
      rw [hexprs]
      exact frames_function rfl (frames_body _ _ _ _)
    | some exprs =>
      refine ⟨_, .block sig hexprs, ?_⟩
      rw [emission, Compiler.lambdaBody]
      apply frames_typedThen hinfer
      rw [hexprs]
      refine frames_function rfl fun start t hstart => ?_
      rw [blockContents_eq hexprs]
      exact Emit.frames_guarding _ hstart
  | expression expected thisType superType =>
    obtain ⟨hthis, hsuper⟩ := object?_sink c expected thisType superType
    obtain ⟨core, hcore, hframes⟩ := frames_inlineValue (prepared_openScope c _).1
      ((c.env types).needsRethrow e [])
    refine ⟨core, hcore, ?_⟩
    rw [emission, Compiler.expression]
    refine Emit.frames_get ?_
    rw [hthis, hsuper]
    exact frames_typedThen hinfer hframes

/-- What type inference rejects leaves the sink as it is. -/
theorem run_emission_of_infer_error {f : Failure} (hinfer : r.infer c e = .error f) :
    (r.emission c e).run.run (r.sink c) = (.error f, r.sink c) :=
  r.run_emission_of_error (by rwa [contextIn_sink])

/-- What holds of every core holds from where lowering comes to the tree to where it has only to
finish what is around it. -/
theorem exists_inner {ok failed : Sink → Sink → Prop} (hinfer : r.infer c e = .ok types)
    (h : ∀ core, r.Core (c.env types) e core → ∀ s, Emit.Obeys ok failed core s) :
    ∃ t u, r.Starts ((c.env types).needsRethrow e r.throws) t ∧
      u.Closes ((r.emission c e).run.run (r.sink c)).2 ∧ (ok t u ∨ failed t u) ∧
      (((r.emission c e).run.run (r.sink c)).1.isOk → ok t u) := by
  obtain ⟨core, hcore, t, hstarts, hcloses, hok⟩ := exists_core hinfer
  have hobeys := h core hcore t
  unfold Emit.Obeys at hobeys
  cases hrun : core.run.run t with
  | mk result u =>
    rw [hrun] at hobeys hcloses hok
    refine ⟨t, u, hstarts, hcloses, ?_, fun hsucceeds => ?_⟩
    · cases result with
      | ok => exact .inl hobeys
      | error => exact .inr hobeys
    · cases result with
      | ok => exact hobeys
      | error => exact Bool.noConfusion (hok hsucceeds)

section

variable {among : Expr → HostType → Prop} {ok failed : Sink → Sink → Prop}

/-- A law governs every core of a tree whose nodes it covers and whose lookups it allows. -/
theorem Core.obeys_of_looksUp {uses : NodeId → NameKey → Prop} (law : Emit.Law among ok failed uses)
    {env : Env} {core : Emit Unit} (hcore : r.Core env e core)
    (h : ∀ part ∈ e.occurrences, among part (Emit.hoistedType env part))
    (hkeys : e.LooksUp env.types uses) (s : Sink) : Emit.Obeys ok failed core s := by
  cases hcore with
  | method | lambda | literal => exact law.bodyText env h hkeys _ s
  | @block sig exprs hexprs =>
    have hchildren : e.children = exprs := by
      cases e <;> simp_all [Expr.exprs?, Expr.children]
    subst hchildren
    exact law.returningLast env _ _ (fun child hchild part hpart =>
      h part (Expr.mem_occurrences_of_mem_children hchild hpart)) (fun _ => hkeys.child) s
  | inPlace => exact law.expression env hkeys s

variable (law : Emit.Law among ok failed)
include law

/-- A law that allows every lookup governs every core of a tree whose nodes it covers. -/
theorem Core.obeys {env : Env} {core : Emit Unit} (hcore : r.Core env e core)
    (h : ∀ part ∈ e.occurrences, among part (Emit.hoistedType env part)) (s : Sink) :
    Emit.Obeys ok failed core s :=
  hcore.obeys_of_looksUp law h (e.looksUp_any _) s

/-- Lowering a typed tree keeps every law that covers its nodes, from where it comes to the tree to
where it has only to finish what is around it. -/
theorem exists_obeying (hinfer : r.infer c e = .ok types)
    (h : ∀ part ∈ e.occurrences, among part (Emit.hoistedType (c.env types) part)) :
    ∃ t u, r.Starts ((c.env types).needsRethrow e r.throws) t ∧
      u.Closes ((r.emission c e).run.run (r.sink c)).2 ∧ (ok t u ∨ failed t u) ∧
      (((r.emission c e).run.run (r.sink c)).1.isOk → ok t u) :=
  exists_inner hinfer fun _ hcore => hcore.obeys law h

end

/-- While a typed tree is lowered the journal grows, and if that succeeds all locals that are used
are declared. -/
theorem exists_growth (hinfer : r.infer c e = .ok types) :
    ∃ t u, r.Starts ((c.env types).needsRethrow e r.throws) t ∧ t.Yields u ∧
      u.Closes ((r.emission c e).run.run (r.sink c)).2 ∧
      (((r.emission c e).run.run (r.sink c)).1.isOk → t.Completes u) := by
  obtain ⟨t, u, hstarts, hcloses, hgrowth, hcompletes⟩ :=
    exists_obeying (Emit.law_growth fun _ _ => True) hinfer fun _ _ => trivial
  refine ⟨t, u, hstarts, ?_, hcloses, fun hok => hcompletes hok hstarts.faithful⟩
  rcases hgrowth with hok | hfailed
  · exact (hok hstarts.faithful).toYields
  · exact hfailed hstarts.faithful

/-- Uses, fields and effects belong to the forms of the tree, not to what is around it. -/
theorem between_of_not_quiet {s t u : Sink} (hs : s.Prepared) (ht : s.journal <:+ t.journal)
    (hu : t.Closes u) {e : Entry} {past : List Entry} (he : e.isQuiet = false)
    (h : e :: past <:+ u.journal) : s.journal <:+ past ∧ e :: past <:+ t.journal := by
  obtain ⟨tail, htail, hquiet⟩ := hu.exists_journal
  have hnew : e ∉ tail := fun hmem => by simp [hquiet e hmem] at he
  have hjournal : e :: past <:+ t.journal := cons_suffix_of_not_mem hnew (htail ▸ h)
  refine ⟨?_, hjournal⟩
  rcases suffix_or_suffix_of_cons ht hjournal with hle | hle
  · exact absurd (hs.quiet e (hle.subset List.mem_cons_self)) (by simp [he])
  · exact hle

end Request

end Lowering
