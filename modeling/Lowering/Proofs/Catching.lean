import Lowering.Proofs.Emission.Lasting
import Lowering.Proofs.Framing
import Lowering.Proofs.Hierarchy.UpperBound
import Lowering.Proofs.Thrown

/-!
# What the clause of a `try` catches

The clause of a `try` is written for exceptions that must not escape, but it always names
`Exception`. Main statements: which unhandled exceptions are below it; and that of the classes below
`Throwable` only `Throwable` itself is not, wherever exceptions and errors are all that is right
below it.
-/

namespace Lowering

namespace Hierarchy

variable {h : Hierarchy} {types : ResolvedTypes} {declared : List HostType} {e : Expr} {m : String}
  {args : List HostType}

/-- Up from the class, only exceptions and errors are right below `Throwable`, which is not below
exceptions itself. -/
structure SplitsThrowable (h : Hierarchy) (m : String) : Prop where
  below : ∀ name ∈ h.ancestors m, throwableName ∈ h.parents name →
    name = exceptionName ∨ name = errorName
  above : exceptionName ∉ h.ancestors throwableName

instance : Decidable (h.SplitsThrowable m) :=
  decidable_of_iff (_ ∧ _) ⟨fun hs => ⟨hs.1, hs.2⟩, fun hs => ⟨hs.below, hs.above⟩⟩

/-- Where `Throwable` is split, each class below it is an exception, an error or `Throwable`. -/
theorem SplitsThrowable.cases (hsplits : h.SplitsThrowable m)
    (hthrowable : h.isSubclass m throwableName) :
    m = throwableName ∨ h.isSubtype (.cls m args) (.named exceptionName) ∨
      h.isSubtype (.cls m args) (.named errorName) := by
  have hmem : throwableName ∈ h.ancestors m := by
    simpa [isSubclass, throwableName, HostType.objectName] using hthrowable
  rcases mem_ancestors_cases hmem (by decide) with hself | ⟨below, hbelow, hparent⟩
  · exact .inl hself.symm
  · right
    rcases hsplits.below below hbelow hparent with rfl | rfl
    · exact .inl (isSubtype_of_mem_ancestors hbelow)
    · exact .inr (isSubtype_of_mem_ancestors hbelow)

/-- All unhandled exceptions of a tree are below `Exception` just if nothing in the tree would be
unhandled in a function that declares it. -/
theorem unhandled_isSubtype_iff :
    (∀ t ∈ h.unhandled (types.thrownTypes e) declared, h.isSubtype t (.named exceptionName)) ↔
      ¬ h.LetsEscape types (.named exceptionName :: declared) e := by
  constructor
  · rintro hall ⟨part, hpart, t, hthrows, hescapes⟩
    have hunhandled : t ∈ h.unhandled (types.thrownTypes e) declared :=
      mem_unhandled.mpr ⟨⟨part, hpart, hthrows⟩, mt (.mono (List.subset_cons_self _ _)) hescapes⟩
    exact hescapes (.inr (.inr ⟨_, List.mem_cons_self, hall t hunhandled⟩))
  · intro hnone t ht
    obtain ⟨⟨part, hpart, hthrows⟩, hescapes⟩ := mem_unhandled.mp ht
    have hpermits : h.Permits (.named exceptionName :: declared) t := by
      by_contra hescapes'
      exact hnone ⟨part, hpart, t, hthrows, hescapes'⟩
    rcases hpermits with hruntime | herror | ⟨d, hd, hsub⟩
    · exact absurd (.inl hruntime) hescapes
    · exact absurd (.inr (.inl herror)) hescapes
    · rcases List.mem_cons.mp hd with rfl | hd
      · exact hsub
      · exact absurd (.inr (.inr ⟨d, hd, hsub⟩)) hescapes

/-- Of the unhandled classes below a `Throwable` that is split, `Throwable` alone is not below
`Exception`. -/
theorem isSubtype_exception_iff
    (hunhandled : .cls m args ∈ h.unhandled (types.thrownTypes e) declared)
    (hthrowable : h.isSubclass m throwableName) (hsplits : h.SplitsThrowable m) :
    h.isSubtype (.cls m args) (.named exceptionName) ↔ m ≠ throwableName := by
  constructor
  · rintro hsub rfl
    exact hsplits.above (mem_ancestors_of_isSubtype hsub (by decide))
  · intro hne
    obtain hself | hexception | herror := hsplits.cases hthrowable
    · exact absurd hself hne
    · exact hexception
    · exact absurd (.inr (.inl herror)) (mem_unhandled.mp hunhandled).2

end Hierarchy

/-! ## Clauses -/

/-- A clause for an `Exception` was written; only clauses declare generated keys. -/
def Sink.Catches (s : Sink) : Prop :=
  ∃ n name, .declaration (.synthetic n) "Exception" name ∈ s.journal

theorem Sink.lasting_catches : Lasting Catches := fun _ _ hretains ⟨n, name, hmem⟩ =>
  ⟨n, name, hretains.journal.subset hmem⟩

namespace Emit

variable {α β : Type} {env : Env} {P : Sink → Prop}

namespace Leaves

theorem freshKey {next : NameKey → Emit β} (h : ∀ n, Leaves P (next (.synthetic n))) :
    Leaves P ((modifyGet (·.freshKey) : Emit NameKey) >>= next) := fun s =>
  h s.nextSynthetic s.freshKey.2

theorem inScope {act : Emit α} (h : Leaves P act) (hP : Sink.Lasting P) :
    Leaves P (Emit.inScope act) := fun s => by
  have hact := h s.openScope
  unfold Obeys at hact ⊢
  rw [run_inScope]
  cases hrun : act.run.run s.openScope with
  | mk result t =>
    rw [hrun] at hact
    cases result with
    | ok a => exact hP _ _ (.closeScope t) hact
    | error f => trivial

end Leaves

private theorem leaves_clause (env : Env) (n : Nat) (name : String) :
    Leaves Sink.Catches (clause env (.synthetic n, name)) := by
  have hdeclaration : Leaves Sink.Catches (write (.declaration (.synthetic n) "Exception" name)) :=
    fun s => ⟨n, name, List.mem_cons_self⟩
  exact .before fun _ => hdeclaration.andThen Sink.lasting_catches fun _ =>
    law_any.bind (law_any.append _) fun _ => law_continues.enclosing .handler
      (law_continues.rethrown _)

/-- A `try` has its clause. -/
theorem leaves_guarding_true (env : Env) (act : Emit Unit) :
    Leaves Sink.Catches (guarding env true act) := by
  have hrethrow : Leaves Sink.Catches (rethrow env) := by
    rw [rethrow_eq_clause]
    exact .freshKey fun n => .before fun name => .before fun _ => leaves_clause env n name
  exact .before fun _ => .before fun _ => hrethrow

theorem leaves_body {e : Expr} {declared : List HostType} (expected : Option HostType)
    (hescapes : env.needsRethrow e declared) :
    Leaves Sink.Catches (body env e expected declared) := by
  rw [body, functionBody_eq, hescapes]
  exact (leaves_guarding_true env _).traced _ _ Sink.lasting_catches

theorem leaves_functionLiteral (env : Env) (e : Expr) (expected : Option HostType) :
    Leaves Sink.Catches (functionLiteral env e expected true) := by
  obtain ⟨callable, result, hliteral⟩ := exists_functionLiteral_eq env e expected true
  have hbody : Leaves Sink.Catches (functionBody env e expected true) := by
    rw [functionBody_eq]
    exact leaves_guarding_true env _
  have hmethod := hbody.enclosing Sink.lasting_catches .method
  rw [hliteral, literalText_eq]
  refine .before fun _ => .before fun _ => ?_
  refine .andThen ?_ Sink.lasting_catches fun _ => law_any.append _
  exact Leaves.enclosing (.before fun _ => .before fun _ => hmethod) Sink.lasting_catches .literal

theorem leaves_inlineValue {e : Expr} (expected : Option HostType)
    (hescapes : env.needsRethrow e []) : Leaves Sink.Catches (inlineValue env e expected) := by
  have hliteral : Leaves Sink.Catches (Emit.inScope (functionLiteral env e expected true)) :=
    (leaves_functionLiteral env e expected).inScope Sink.lasting_catches
  refine .traced (.before fun s => ?_) _ _ Sink.lasting_catches
  simpa [hescapes] using hliteral

end Emit

namespace Request

variable {c : Compiler} {e : Expr} {r : Request} {out : Lowered}

/-- The output has a clause for an `Exception`. -/
def Catches (c : Compiler) (e : Expr) (r : Request) (out : Lowered) : Prop :=
  ∃ s, (r.emission c e).run.run (r.sink c) = (.ok out.types, s) ∧ out.source = s.text ∧ s.Catches

private theorem leaves_contents {env : Env} (hescapes : env.needsRethrow e r.throws) :
    Emit.Leaves Sink.Catches (r.contents env e) := by
  cases r with
  | method sig => exact .before fun _ => Emit.leaves_body _ hescapes
  | lambda sig =>
    refine .before fun _ => ?_
    split
    · rw [show env.needsRethrow e sig.throws = true from hescapes]
      exact Emit.leaves_guarding_true env _
    · exact Emit.leaves_body _ hescapes
  | expression expected => exact Emit.leaves_inlineValue expected hescapes

theorem catches_of_lower (hlower : r.lower c e = .ok out)
    (hunhandled : c.hierarchy.unhandled (out.types.thrownTypes e) r.throws ≠ []) :
    r.Catches c e out := by
  have hescapes : (c.env out.types).needsRethrow e r.throws := by
    rw [Env.needsRethrow, Bool.not_eq_true', ← Bool.not_eq_true, List.isEmpty_iff]
    exact hunhandled
  obtain ⟨s, hemission, hsource⟩ := exists_run_of_lower hlower
  obtain ⟨-, t, hrun, rfl⟩ := r.exists_contents_of_run hemission
  have hcatches : t.Catches := Emit.Obeys.of_run_ok (leaves_contents hescapes _) hrun
  exact ⟨_, hemission, hsource, Sink.lasting_catches _ _ (.closeScope t) hcatches⟩

/-- Where something unhandled is thrown, the output catches `Exception`. All that is unhandled is
below `Exception` if and only if a function that declares it lets nothing escape, and of the classes
below a `Throwable` that is split only `Throwable` itself is not. -/
theorem lower_catches (hlower : r.lower c e = .ok out) :
    let unhandled := c.hierarchy.unhandled (out.types.thrownTypes e) r.throws
    (unhandled ≠ [] → r.Catches c e out) ∧
    ((∀ t ∈ unhandled, c.hierarchy.isSubtype t (.named exceptionName)) ↔
      ¬ c.hierarchy.LetsEscape out.types (.named exceptionName :: r.throws) e) ∧
    ∀ m args, .cls m args ∈ unhandled → c.hierarchy.isSubclass m throwableName →
      c.hierarchy.SplitsThrowable m →
      (c.hierarchy.isSubtype (.cls m args) (.named exceptionName) ↔ m ≠ throwableName) := by
  exact ⟨catches_of_lower hlower, Hierarchy.unhandled_isSubtype_iff,
    fun m args => Hierarchy.isSubtype_exception_iff⟩

private def callFinalize : Expr :=
  .call ⟨0, {}⟩
    { name := "finalize", kind := .method, type := some (.primitive .void),
      throws := [.cls throwableName [], .cls "java.io.IOException" []] } none []

private theorem exists_lower_callFinalize :
    ∃ out, (method { result := .void }).lower {} callFinalize = .ok out ∧
      Hierarchy.unhandled (Compiler.hierarchy {}) (out.types.thrownTypes callFinalize) [] =
        [.cls throwableName [], .cls "java.io.IOException" []] := by
  have hlower : ((method { result := .void }).lower {} callFinalize).toOption.map (fun out =>
      Hierarchy.unhandled (Compiler.hierarchy {}) (out.types.thrownTypes callFinalize) []) =
      some [.cls throwableName [], .cls "java.io.IOException" []] := by
    decide +kernel
  exact exists_of_toOption_map hlower

theorem lower_catches_some :
    ∃ out, (method { result := .void }).lower {} callFinalize = .ok out ∧
      (method { result := .void }).Catches {} callFinalize out ∧
      Hierarchy.isSubtype (Compiler.hierarchy {}) (.cls "java.io.IOException" [])
        (.named exceptionName) := by
  obtain ⟨out, hlower, hunhandled⟩ := exists_lower_callFinalize
  have hsplits : Hierarchy.SplitsThrowable (Compiler.hierarchy {}) "java.io.IOException" := by
    decide +kernel
  have hthrowable : Hierarchy.isSubclass (Compiler.hierarchy {}) "java.io.IOException"
      throwableName := by
    decide +kernel
  obtain ⟨hcatches, -, hexception⟩ := lower_catches hlower
  refine ⟨out, hlower, hcatches ?_, (hexception _ _ ?_ hthrowable hsplits).mpr (by decide)⟩
  · simp [throws, hunhandled]
  · simp [throws, hunhandled]

/-- The clause for an `Exception` does not catch a `Throwable`. -/
theorem lower_catches_no_throwable :
    ¬ ∀ (c : Compiler) (e : Expr) (r : Request) (out : Lowered), r.lower c e = .ok out →
      r.Catches c e out → ∀ t ∈ c.hierarchy.unhandled (out.types.thrownTypes e) r.throws,
        c.hierarchy.isSubtype t (.named exceptionName) := by
  intro hall
  obtain ⟨out, hlower, hunhandled⟩ := exists_lower_callFinalize
  have hcatches : (method { result := .void }).Catches {} callFinalize out :=
    catches_of_lower hlower (by simp [throws, hunhandled])
  have hthrowable := hall _ _ _ _ hlower hcatches (.cls throwableName [])
    (by simp [throws, hunhandled])
  revert hthrowable
  decide +kernel

end Request

end Lowering
