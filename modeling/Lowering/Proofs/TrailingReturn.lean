import Lowering.Proofs.Emission.Entries
import Lowering.Proofs.Framing

/-!
# The return that a body adds

A body of a method adds a return after its statements unless it exits early. A lambda that is a
block looks at the last expression only: it adds a return if that has a value and does not exit
early. Main statements: how many returns each of them adds, and that they stand in the outermost
block, or in the `try` around it.
-/

namespace Lowering

/-- From `s` to `t`, `n` returns were added, with all braces closed that were opened since. -/
structure Sink.Returns (n : Nat) (s t : Sink) : Prop extends s.Completes t where
  count : t.journal.count .implicitReturn = s.journal.count .implicitReturn + n
  outermost : ∀ past, s.journal <:+ past → .implicitReturn :: past <:+ t.journal →
    bracesAfter past = bracesAfter s.journal

namespace Sink.Returns

variable {s t u : Sink} {m n : Nat}

theorem trans (h : Returns m s t) (h' : Returns n t u) : Returns (m + n) s u where
  toCompletes := h.toCompletes.trans h'.toCompletes
  count := by rw [h'.count, h.count, Nat.add_assoc]
  outermost past hstart hpast := by
    rcases suffix_or_suffix_of_cons h'.grows.suffix hpast with hle | hle
    · exact h.outermost past hstart hle
    · exact (h'.outermost past hle hpast).trans h.settles.braces

/-- Forms add no return. -/
theorem of_forms (h : s.Completes t) (hlogs : s.Logs (· ≠ .implicitReturn) t) :
    Returns 0 s t where
  toCompletes := h
  count := by
    obtain ⟨added, hadded, hallowed⟩ := hlogs
    have hnone : added.count .implicitReturn = 0 :=
      List.count_eq_zero.mpr fun hmem => hallowed _ hmem rfl
    rw [hadded, List.count_append, hnone, Nat.zero_add, Nat.add_zero]
  outermost past hstart hpast := by
    obtain ⟨added, hadded, hallowed⟩ := hlogs
    have hnew : .implicitReturn ∉ added := fun hmem => hallowed _ hmem rfl
    exact absurd (cons_suffix_of_not_mem hnew (hadded ▸ hpast)) (not_cons_suffix hstart)

end Sink.Returns

namespace Emit

variable {α β : Type} {env : Env} {m n : Nat}

/-- Where `act` succeeds, it added `n` returns. -/
def Returns (n : Nat) (act : Emit α) : Prop :=
  ∀ s, Obeys (fun s t => s.Faithful → s.Returns n t) (fun _ _ => True) act s

private theorem law_forms : FormLaw (fun _ _ => True)
    (fun s t => (s.Faithful → s.Completes t) ∧ s.Logs (· ≠ .implicitReturn) t)
    (fun s t => (s.Faithful → s.Yields t) ∧ s.Logs (· ≠ .implicitReturn) t) :=
  (law_growth _).toFormLaw.and (formLaw_logs (by rintro e he rfl; cases he) nofun)

namespace Returns

variable {act : Emit α} {next : α → Emit β}

theorem of_forms
    (h : ∀ s, Obeys (fun s t => (s.Faithful → s.Completes t) ∧ s.Logs (· ≠ .implicitReturn) t)
      (fun s t => (s.Faithful → s.Yields t) ∧ s.Logs (· ≠ .implicitReturn) t) act s) :
    Returns 0 act := fun s =>
  (h s).imp (fun _ hforms hs => .of_forms (hforms.1 hs) hforms.2) fun _ _ => trivial

theorem bind (h : Returns m act) (hnext : ∀ a, Returns n (next a)) :
    Returns (m + n) (act >>= next) := fun s =>
  (h s).bind (fun a t _ => hnext a t)
    (fun _ _ ht hu hs => (ht hs).trans (hu (ht hs).faithful)) (fun _ _ => trivial)
    fun _ _ _ _ => trivial

theorem statement (needed : Bool) (e : Expr) : Returns 0 (statement env needed e) :=
  .of_forms (law_forms.statement env (fun _ _ => trivial) (e.looksUp_any _) needed)

/-- A return is added in the braces that are open. -/
theorem returning {act : Emit Unit} (h : Returns 0 act) : Returns 1 (Emit.returning act) := by
  have hnewLine : Returns 0 newLine := .of_forms law_forms.newLine
  have hwrite : Returns 1 (write .implicitReturn) := fun s hs =>
    { toCompletes := .write hs rfl rfl nofun
      count := by simp [Sink.write]
      outermost := fun past hstart hpast => by
        rcases List.suffix_cons_iff.mp hpast with heq | hpast
        · rw [(List.cons.inj heq).2]
        · exact absurd hpast (not_cons_suffix hstart) }
  exact hnewLine.bind fun _ => hwrite.bind fun _ => h

theorem returningIf {returned : Bool} {act : Emit Unit} (h : Returns 0 act) :
    Returns returned.toNat (if returned then Emit.returning act else pure ()) := by
  cases returned with
  | true => exact h.returning
  | false => exact .of_forms (law_forms.pure ())

end Returns

theorem returns_bodyText (e : Expr) (expected : Option HostType) :
    Returns (!expected.any (·.isVoid) && !e.exitsEarly).toNat (bodyText env e expected) := by
  rw [bodyText_eq, ← Nat.zero_add (Bool.toNat _)]
  exact (Returns.statement _ e).bind fun _ =>
    .returningIf (.of_forms (law_forms.bodyValue (e.looksUp_any _) expected))

end Emit

/-- The last expression of a block has a value and does not exit early. -/
def Env.returnsLast (env : Env) (exprs : List Expr) : Bool :=
  exprs.getLast?.any fun last => !env.isVoid last && !last.exitsEarly

namespace Emit

variable {env : Env}

theorem returns_returningLast (expected : Option HostType) (returns : Bool) (exprs : List Expr) :
    Returns (returns && env.returnsLast exprs).toNat
      (returningLast env expected returns exprs) := by
  induction exprs with
  | nil =>
    rw [Env.returnsLast, List.getLast?_nil, Option.any_none, Bool.and_false]
    exact .of_forms (law_forms.pure ())
  | cons first rest ih =>
    rw [← Nat.zero_add (Bool.toNat _)]
    cases rest with
    | nil =>
      rw [returningLast_singleton, Env.returnsLast, List.getLast?_singleton, Option.any_some,
        ← Bool.and_assoc]
      exact (Returns.statement _ first).bind fun _ =>
        .returningIf (.of_forms (law_forms.lastValue (first.looksUp_any _) expected))
    | cons second rest => exact (Returns.statement false first).bind fun _ => ih

end Emit

/-- One return was added if `returns`, and none otherwise; around it there is no brace but that of a
`try` around all statements, if `guarded`. -/
structure Sink.Trails (returns guarded : Bool) (s : Sink) : Prop where
  count : s.journal.count .implicitReturn = returns.toNat
  outermost : ∀ past, .implicitReturn :: past <:+ s.journal → GuardedAfter guarded [] past

private theorem count_implicitReturn_of_quiet {es : List Entry} (h : ∀ e ∈ es, e.isQuiet) :
    es.count .implicitReturn = 0 :=
  List.count_eq_zero.mpr fun hmem => by cases h _ hmem

private theorem Expr.exitsEarly_of_exprs? {e : Expr} {exprs : List Expr}
    (hexprs : e.exprs? = some exprs) : e.exitsEarly = exprs.any exitsEarly := by
  cases e with
  | block node exprs' =>
    obtain rfl := Option.some.inj hexprs
    rw [exitsEarly]
    clear hexprs
    induction exprs' with
    | nil => rfl
    | cons first rest ih => rw [anyExitsEarly, ih, List.any_cons]
  | _ => cases hexprs

namespace Request

variable {c : Compiler} {env : Env} {e : Expr} {r : Request} {sig : Signature}

/-- A function adds a return if its result has a value. -/
def addsReturn (env : Env) (e : Expr) : Request → Bool
  | .lambda _ => e.exprs?.elim (!e.exitsEarly) env.returnsLast
  | .method _ | .expression .. => !e.exitsEarly

theorem Core.returns {core : Emit Unit} (hcore : r.Core env e core)
    (hr : r.signature? = some sig) :
    Emit.Returns (!sig.result.isVoid && r.addsReturn env e).toNat core := by
  cases hcore with
  | method sig' =>
    obtain rfl : sig' = sig := Option.some.inj hr
    exact Emit.returns_bodyText e _
  | lambda sig' hexprs =>
    obtain rfl : sig' = sig := Option.some.inj hr
    rw [addsReturn, hexprs]
    exact Emit.returns_bodyText e _
  | block sig' hexprs =>
    obtain rfl : sig' = sig := Option.some.inj hr
    rw [addsReturn, hexprs]
    exact Emit.returns_returningLast _ _ _
  | _ => cases hr

/-- The body of a function whose result has a value trails with a return as the function says. -/
theorem trails_of_lower {out : Lowered} (hr : r.signature? = some sig)
    (hlower : r.lower c e = .ok out) :
    ∃ s, (r.emission c e).run.run (r.sink c) = (.ok out.types, s) ∧ out.source = s.text ∧
      s.Trails (!sig.result.isVoid && r.addsReturn (c.env out.types) e)
        ((c.env out.types).needsRethrow e sig.throws) := by
  obtain ⟨s, hrun, hsource⟩ := exists_run_of_lower hlower
  obtain ⟨t, u, hstarts, hcloses, _, hok⟩ :=
    exists_inner (infer_of_lower hlower) fun core hcore t => hcore.returns hr t
  rw [hrun] at hcloses hok
  have hreturns := hok rfl hstarts.faithful
  have hthrows : r.throws = sig.throws := by
    cases r with
    | expression => cases hr
    | _ => exact congrArg Signature.throws (Option.some.inj hr)
  refine ⟨s, hrun, hsource, ?_, fun past hpast => ?_⟩
  · obtain ⟨tail, htail, hquiet⟩ := hcloses.exists_journal
    rw [htail, List.count_append, count_implicitReturn_of_quiet hquiet, hreturns.count,
      count_implicitReturn_of_quiet hstarts.quiet, Nat.zero_add, Nat.zero_add]
  · obtain ⟨hstart, hpast⟩ :=
      between_of_not_quiet hstarts.toPrepared hreturns.grows.suffix hcloses rfl hpast
    rw [← hthrows]
    exact (hstarts.braces sig hr).mono hstart (hreturns.outermost past hstart hpast)

/-- A lambda that is a block and has a result adds a return if the last expression of the block has
a value and does not exit early; as a method body, the same block adds one if no expression of it
exits early. Both put it into the `try` if there is one, and both decide the same if the last
expression has a value and none before it exits early. -/
theorem lower_block_returns {exprs : List Expr} {out : Lowered} (hexprs : e.exprs? = some exprs)
    (hresult : sig.result.isVoid = false) (hlower : (lambda sig).lower c e = .ok out) :
    let env := c.env out.types
    let guarded := env.needsRethrow e sig.throws
    (∃ s, ((lambda sig).emission c e).run.run ((lambda sig).sink c) = (.ok out.types, s) ∧
      out.source = s.text ∧ s.Trails (env.returnsLast exprs) guarded) ∧
    (∀ out', (method sig).lower c e = .ok out' →
      ∃ s, ((method sig).emission c e).run.run ((method sig).sink c) = (.ok out.types, s) ∧
        out'.source = s.text ∧ s.Trails (!e.exitsEarly) guarded) ∧
    ∀ last, exprs.getLast? = some last → env.isVoid last = false →
      (∀ x ∈ exprs.dropLast, x.exitsEarly = false) → env.returnsLast exprs = !e.exitsEarly := by
  intro env guarded
  refine ⟨?_, fun out' hlower' => ?_, fun last hlast hvoid hbefore => ?_⟩
  · have htrails := trails_of_lower (r := .lambda sig) rfl hlower
    simpa [hresult, addsReturn, hexprs] using htrails
  · have hinfer : (method sig).infer c e = .ok out.types := infer_of_lower (r := .lambda sig) hlower
    have hsame : out'.types = out.types :=
      Except.ok.inj ((infer_of_lower hlower').symm.trans hinfer)
    have htrails := trails_of_lower (r := .method sig) rfl hlower'
    rw [hsame] at htrails
    simpa [hresult, addsReturn] using htrails
  · have hsplit : exprs = exprs.dropLast ++ [last] :=
      (List.dropLast_append_getLast? last hlast).symm
    have hany : exprs.dropLast.any Expr.exitsEarly = false := by
      simpa [List.any_eq_false] using hbefore
    rw [Expr.exitsEarly_of_exprs? hexprs, hsplit, List.any_append, hany]
    simp [Env.returnsLast, hvoid]

private def saving : Expr :=
  .call ⟨0, {}⟩ { name := "save", kind := .staticMethod } none []

private def returning (value : Int) : Expr :=
  .ret ⟨2, {}⟩ (some (.literal ⟨1, {}⟩ (.int value)))

private def savingFirst : Expr :=
  .block ⟨4, {}⟩ [saving, .literal ⟨3, {}⟩ (.int 2)]

/-- A lambda that returns the number in a block after a statement. -/
theorem lower_block_returns_number :
    let sig : Signature := { result := .int }
    let value : Expr := .literal ⟨3, {}⟩ (.int 2)
    savingFirst.exprs? = some [saving, value] ∧ sig.result.isVoid = false ∧
      ∃ out s, (lambda sig).lower ⟨.empty, {}⟩ savingFirst = .ok out ∧
        ((lambda sig).emission ⟨.empty, {}⟩ savingFirst).run.run
          ((lambda sig).sink ⟨.empty, {}⟩) = (.ok out.types, s) ∧
        out.source = "\nsave();\nreturn (2);" ∧ s.Trails true false := by
  intro sig value
  have hlowers : ((lambda sig).lower ⟨.empty, {}⟩ savingFirst).toOption.map (fun out =>
      (out.source, (Compiler.env ⟨.empty, {}⟩ out.types).returnsLast [saving, value],
        (Compiler.env ⟨.empty, {}⟩ out.types).needsRethrow savingFirst [])) =
      some ("\nsave();\nreturn (2);", true, false) := by decide +kernel
  obtain ⟨out, hlower, hout⟩ := exists_of_toOption_map hlowers
  simp only [Prod.mk.injEq] at hout
  obtain ⟨hsource, hreturns, hguarded⟩ := hout
  obtain ⟨⟨s, hrun, _, htrails⟩, _⟩ := lower_block_returns (rfl : savingFirst.exprs? = _) rfl hlower
  have htrails : s.Trails true false := hreturns ▸ hguarded ▸ htrails
  exact ⟨rfl, rfl, out, s, hlower, hrun, hsource, htrails⟩

/-- After a statement without a value a lambda adds no return, and it adds one after an expression
that has returned already. -/
theorem lower_block_falls_through :
    let r : Request := .lambda { result := .int }
    let saves : Expr := .block ⟨4, {}⟩ [saving]
    let returns : Expr := .block ⟨4, {}⟩ [returning 1, .literal ⟨3, {}⟩ (.int 2)]
    let source (e : Expr) := (r.lower ⟨.empty, {}⟩ e).toOption.map (·.source)
    let added (e : Expr) := ((r.emission ⟨.empty, {}⟩ e).run.run
      (r.sink ⟨.empty, {}⟩)).2.journal.count .implicitReturn
    saves.exitsEarly = false ∧ added saves = 0 ∧ source saves = some "\nsave();" ∧
      returns.exitsEarly = true ∧ added returns = 1 ∧
      source returns = some "\nreturn 1;\nreturn (2);" := by
  decide +kernel

end Request

end Lowering
