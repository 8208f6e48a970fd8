import Lowering.Proofs.Emission.Bodies
import Lowering.Proofs.Sink.Frames
import Lowering.Proofs.Sink.FreshName

/-!
# Around the forms

Before the forms of a tree are written, lowering binds what the tree can refer to and opens the
braces of a function; afterwards it only closes them again. Main statements: a body and a single
value are the forms of the tree inside such a frame, whether or not writing them fails.
-/

namespace Lowering

namespace Emit

variable {α β : Type} {env : Env} {s : Sink} {start : Sink → Prop} {inner : Emit Unit}

/-! ## What always succeeds -/

/-- `act` always succeeds and does to a sink what `R` says. -/
def Does (R : Sink → Sink → Prop) (act : Emit α) : Prop :=
  ∀ s, ∃ a t, act.run.run s = (.ok a, t) ∧ R s t

theorem Does.bind {R : Sink → Sink → Prop} {act : Emit α} {next : α → Emit β}
    (htrans : ∀ {s t u}, R s t → R t u → R s u) (h : Does R act) (hnext : ∀ a, Does R (next a)) :
    Does R (act >>= next) := by
  intro s
  obtain ⟨a, t, hrun, ht⟩ := h s
  obtain ⟨b, u, hrun', hu⟩ := hnext a t
  exact ⟨b, u, by rw [run_bind, hrun]; exact hrun', htrans ht hu⟩

theorem does_modify {R : Sink → Sink → Prop} {f : Sink → Sink} (h : ∀ s, R s (f s)) :
    Does R (modify f : Emit PUnit) :=
  fun s => ⟨⟨⟩, f s, rfl, h s⟩

theorem does_pure {R : Sink → Sink → Prop} (h : ∀ s, R s s) (a : α) : Does R (pure a : Emit α) :=
  fun s => ⟨a, s, rfl, h s⟩

private theorem does_openTry : Does (Sink.Guards true) openTry := fun s =>
  ⟨(), _, rfl, ⟨((((Sink.Opens.refl (s := s)).write rfl).write rfl).write rfl).indent, rfl⟩,
    _, List.suffix_rfl, rfl⟩

private theorem does_closeBrace (brace : Brace) : Does Sink.Closes (closeBrace brace) := fun _ =>
  ⟨(), _, rfl, (Sink.Closes.refl.dedent.write rfl).write rfl⟩

private theorem does_write {e : Entry} (he : e.isFraming) : Does Sink.Closes (write e) := fun _ =>
  ⟨(), _, rfl, Sink.Closes.refl.write he⟩

private theorem does_openBrace (brace : Brace) : Does Sink.Closes (openBrace brace) := fun _ =>
  ⟨(), _, rfl, (Sink.Closes.refl.write rfl).indent⟩

private theorem does_append (text : String) : Does Sink.Closes (append text) :=
  does_write rfl

private theorem does_newLine : Does Sink.Closes newLine := fun _ =>
  ⟨(), _, rfl, Sink.Closes.refl.write rfl⟩

private theorem does_handler (env : Env) (number : Nat) (name : String) :
    Does Sink.Closes (handler env (.synthetic number) name) := by
  refine .bind .trans (does_closeBrace _) fun _ => .bind .trans (does_append _) fun _ =>
    .bind .trans (does_write rfl) fun _ => .bind .trans (does_append _) fun _ =>
    .bind .trans (does_openBrace _) fun _ => ?_
  split
  · exact .bind .trans does_newLine fun _ => .bind .trans (does_append _) fun _ =>
      does_closeBrace _
  · exact .bind .trans (does_append _) fun _ => does_closeBrace _

private theorem does_rethrow : Does Sink.Closes (rethrow env) := by
  intro s
  obtain ⟨a, t, hrun, ht⟩ := does_handler env s.nextSynthetic
    (freshName s.freshKey.2.reserved env.settings.catchVariable) (s.freshKey.2.bind
      (.synthetic s.nextSynthetic) (freshName s.freshKey.2.reserved env.settings.catchVariable))
  have hname : s.Closes (s.freshKey.2.bind (.synthetic s.nextSynthetic)
      (freshName s.freshKey.2.reserved env.settings.catchVariable)) :=
    Sink.Closes.refl.freshKey.bind _ (freshName_not_mem _ _)
  exact ⟨a, t, hrun, hname.trans ht⟩

/-! ## Frames -/

/-- Every run of `outer` from `s` is one of `inner` from a sink of which `start` holds, after which
only what is around it was finished; where `outer` succeeds, `inner` does. -/
def Frames (start : Sink → Prop) (inner : Emit Unit) (outer : Emit α) (s : Sink) : Prop :=
  ∃ t, start t ∧ (inner.run.run t).2.Closes (outer.run.run s).2 ∧
    ((outer.run.run s).1.isOk → (inner.run.run t).1.isOk)

theorem frames_self (h : start s) : Frames start inner inner s :=
  ⟨s, h, .refl, id⟩

theorem Frames.after {outer : Emit α} {next : α → Emit β} (h : Frames start inner outer s)
    (hnext : ∀ a, Does Sink.Closes (next a)) : Frames start inner (outer >>= next) s := by
  obtain ⟨t, ht, hcloses, hok⟩ := h
  refine ⟨t, ht, ?_, ?_⟩ <;> rw [run_bind]
  · cases hrun : outer.run.run s with
    | mk result u =>
      rw [hrun] at hcloses
      cases result with
      | error f => exact hcloses
      | ok a =>
        obtain ⟨b, v, hrun', hv⟩ := hnext a u
        dsimp only
        rw [hrun']
        exact hcloses.trans hv
  · cases hrun : outer.run.run s with
    | mk result u =>
      rw [hrun] at hok
      cases result with
      | error f => exact hok
      | ok a => exact fun _ => hok rfl

theorem Frames.before {act : Emit α} {next : α → Emit β} {a : α} {t : Sink}
    (hrun : act.run.run s = (.ok a, t)) (h : Frames start inner (next a) t) :
    Frames start inner (act >>= next) s := by
  unfold Frames at h ⊢
  rwa [run_bind, hrun]

theorem frames_get {next : Sink → Emit α} (h : Frames start inner (next s) s) :
    Frames start inner (get >>= next) s :=
  h

theorem Frames.inScope {outer : Emit α} (h : Frames start inner outer s.openScope) :
    Frames start inner (Emit.inScope outer) s := by
  obtain ⟨t, ht, hcloses, hok⟩ := h
  exact ⟨t, ht, hcloses.closeScope, hok⟩

theorem Frames.traced {outer : Emit α} (h : Frames start inner outer s) (id : NodeId)
    (debug : Bool) : Frames start inner (Emit.traced id debug outer) s := by
  refine .before rfl (h.after fun a => .bind .trans (fun u => ⟨⟨⟩, _, rfl, ?_⟩) fun _ =>
    does_pure (fun _ => .refl) a)
  exact Sink.Closes.refl.finishRegion _ _ _

theorem frames_guarding (guarded : Bool) (hstart : ∀ t, s.Guards guarded t → start t) :
    Frames start inner (guarding env guarded inner) s := by
  cases guarded with
  | false =>
    change Frames start inner (inner >>= fun _ => pure ()) s
    exact (frames_self (hstart s ⟨⟨.refl, rfl⟩, rfl⟩)).after fun _ => does_pure (fun _ => .refl) ()
  | true =>
    change Frames start inner (openTry >>= fun _ => inner >>= fun _ => rethrow env) s
    obtain ⟨_, t, hrun, ht⟩ := does_openTry s
    exact .before hrun ((frames_self (hstart t ht)).after fun _ => does_rethrow)

/-- The statements of a function and the return of its value. -/
def bodyText (env : Env) (e : Expr) (expected : Option HostType) : Emit Unit := do
  let returns := !expected.any (·.isVoid) && !e.exitsEarly
  statement env (returns && !env.isVoid e) e
  if returns then
    newLine
    write .implicitReturn
    if env.isVoid e then
      append (HostType.defaultLiteral expected)
    else
      expression env e
    append ";"

theorem functionBody_eq (e : Expr) (expected : Option HostType) (guarded : Bool) :
    functionBody env e expected guarded = guarding env guarded (bodyText env e expected) := rfl

/-! ## Function literals -/

/-- A function literal from its first text on. -/
def literalText (env : Env) (e : Expr) (expected : Option HostType) (guarded : Bool)
    (callable result : String) : Emit Unit := do
  append callable
  openBrace .literal
  newLine
  append result
  openBrace .method
  functionBody env e expected guarded
  closeBrace .method
  closeBrace .literal
  append ".apply()"

/-- Before the text, a function literal only gives instances other names. -/
theorem exists_functionLiteral_eq (env : Env) (e : Expr) (expected : Option HostType)
    (guarded : Bool) :
    ∃ callable result, functionLiteral env e expected guarded =
      (do aliasInstances; literalText env e expected guarded callable result) := by
  cases hvoid : expected.any (·.isVoid)
  all_goals
    simp only [functionLiteral, hvoid, literalText]
    exact ⟨_, _, rfl⟩

private theorem enters_write {e : Entry} (he : e.isFraming) : Does Sink.Enters (write e) := fun _ =>
  ⟨(), _, rfl, Sink.Opens.refl.write he, rfl⟩

private theorem enters_openBrace (brace : Brace) : Does Sink.Enters (openBrace brace) := fun _ =>
  ⟨(), _, rfl, (Sink.Opens.refl.write rfl).indent, rfl⟩

private theorem enters_newLine : Does Sink.Enters newLine := fun _ =>
  ⟨(), _, rfl, Sink.Opens.refl.write rfl, rfl⟩

private theorem opens_bind {key : NameKey} (hkey : key.isGenerated = false) (name : String) :
    Does Sink.Opens (modify (·.bind key name) : Emit PUnit) :=
  does_modify fun _ => Sink.Opens.refl.bind hkey name

theorem opens_aliasInstances : Does Sink.Opens aliasInstances := by
  refine .bind .trans (fun s => ⟨s, s, rfl, .refl⟩) fun sink => ?_
  split
  · exact does_pure (fun _ => .refl) ()
  · refine .bind .trans (opens_bind rfl _) fun _ => .bind .trans (fun s => ⟨s, s, rfl, .refl⟩)
      fun sink => ?_
    split
    · exact does_pure (fun _ => .refl) ()
    · exact opens_bind rfl _

theorem Frames.opening {R : Sink → Sink → Prop} {act : Emit α} {next : α → Emit β}
    (hact : Does R act) (h : ∀ a t, R s t → Frames start inner (next a) t) :
    Frames start inner (act >>= next) s := by
  obtain ⟨a, t, hrun, ht⟩ := hact s
  exact .before hrun (h a t ht)

theorem frames_literalText (e : Expr) (expected : Option HostType) (guarded : Bool)
    (callable result : String) (hstart : ∀ t, s.Enters t → start t) :
    Frames start (bodyText env e expected) (literalText env e expected guarded callable result)
      s := by
  refine .opening (enters_write rfl) fun _ t₁ h₁ => .opening (enters_openBrace _) fun _ t₂ h₂ =>
    .opening enters_newLine fun _ t₃ h₃ => .opening (enters_write rfl) fun _ t₄ h₄ =>
    .opening (enters_openBrace _) fun _ t₅ h₅ => ?_
  have hopen : s.Enters t₅ := (((h₁.trans h₂).trans h₃).trans h₄).trans h₅
  rw [functionBody_eq]
  exact (frames_guarding guarded fun u hu => hstart u (hopen.trans hu.toEnters)).after fun _ =>
    .bind .trans (does_closeBrace _) fun _ => .bind .trans (does_closeBrace _) fun _ =>
    does_append _

theorem frames_functionLiteral (e : Expr) (expected : Option HostType) (guarded : Bool)
    (hs : start s) (hstart : ∀ s t, start s → s.Opens t → start t) :
    Frames start (bodyText env e expected) (functionLiteral env e expected guarded) s := by
  obtain ⟨callable, result, hliteral⟩ := exists_functionLiteral_eq env e expected guarded
  rw [hliteral]
  exact .opening opens_aliasInstances fun _ t ht =>
    frames_literalText e expected guarded callable result fun u hu =>
      hstart s u hs (ht.trans hu.opens)

/-! ## Signatures -/

end Emit

/-- What a signature binds, latest first. -/
def Signature.bindings (sig : Signature) : List (NameKey × String) :=
  (sig.params.reverse.map fun param => (.parameter param.1, identifier param.1)) ++
    (sig.superType.map fun type => (NameKey.instanceOf type.hash, "super")).toList ++
    (sig.thisType.map fun type => (NameKey.instanceOf type.hash, "this")).toList

namespace Emit

/-- To the bindings of `s`, only `added` were added, and nothing was written. -/
structure Introduces (added : List (NameKey × String)) (s t : Sink) : Prop where
  opens : s.Opens t
  bindings : t.bindings = added ++ s.bindings
  braces : bracesAfter t.journal = bracesAfter s.journal
  journal : t.journal = added.map (fun b => .bind b.1 b.2) ++ s.journal
  level : t.level = s.level

private theorem Does.introduces {added later : List (NameKey × String)} {act : Emit α}
    {next : α → Emit β} (h : Does (Introduces added) act)
    (hnext : ∀ a, Does (Introduces later) (next a)) :
    Does (Introduces (later ++ added)) (act >>= next) := by
  intro s
  obtain ⟨a, t, hrun, ht⟩ := h s
  obtain ⟨b, u, hrun', hu⟩ := hnext a t
  refine ⟨b, u, by rw [run_bind, hrun]; exact hrun', ht.opens.trans hu.opens, ?_,
    hu.braces.trans ht.braces, ?_, hu.level.trans ht.level⟩
  · rw [hu.bindings, ht.bindings, List.append_assoc]
  · rw [hu.journal, ht.journal, List.map_append, List.append_assoc]

private theorem introduces_instance (keyword : String) (type : Option HostType) :
    Does (Introduces (type.map fun type => (.instanceOf type.hash, keyword)).toList)
      (declareInstance keyword type) := by
  cases type with
  | none => exact fun s => ⟨(), s, rfl, .refl, rfl, rfl, rfl, rfl⟩
  | some type =>
    exact fun s =>
      ⟨(), _, rfl, (Sink.Opens.refl.setObject _ _).bind rfl _, rfl, rfl, rfl, rfl⟩

private theorem introduces_params (params : List (String × HostType)) :
    Does (Introduces (params.reverse.map fun param => (.parameter param.1, identifier param.1)))
      (declareParams params) := by
  induction params with
  | nil => exact fun s => ⟨(), s, rfl, .refl, rfl, rfl, rfl, rfl⟩
  | cons param params ih =>
    rw [List.reverse_cons, List.map_append]
    exact .introduces
      (fun s => ⟨⟨⟩, _, rfl, Sink.Opens.refl.bind rfl _, rfl, rfl, rfl, rfl⟩) fun _ => ih

theorem introduces_signature (sig : Signature) :
    Does (Introduces sig.bindings) (declareSignature sig) := by
  exact .introduces (introduces_instance _ _) fun _ =>
    .introduces (introduces_instance _ _) fun _ => introduces_params _

end Emit

end Lowering
