import Mathlib.Tactic.ByContra
import Lowering.Proofs.Hierarchy.Join
import Lowering.Typing.Infer

/-!
# Classification

What an expectation finds out about a type. It compares the type with what is asked for only where
both tell enough. Main statements: classification as a relation, and that a type is classified
exactly where it is accepted.
-/

namespace Lowering

/-- `e` asks for `expected`, and `actual` tells enough to be compared with it. -/
structure Expectation.Checks (e : Expectation) (actual expected : HostType) : Prop where
  type : e.type = some expected
  isAny : expected.isAny = false
  isParam : expected.isParam = false
  actual : actual.isBlank = false

namespace Expectation

variable {h : Hierarchy} {e : Expectation} {actual expected : HostType} {span : Span}
  {conformance : Conformance}

/-- How `actual` conforms to `e`. -/
inductive Classifies (h : Hierarchy) (e : Expectation) (actual : HostType) : Conformance → Prop
  | unchecked (hfree : ∀ expected, ¬ e.Checks actual expected) : Classifies h e actual .subtype
  | exact (hchecks : e.Checks actual actual) (hexact : e.conformance = .exact) :
      Classifies h e actual .exact
  | subtype {expected : HostType} (hchecks : e.Checks actual expected)
      (hexact : e.conformance ≠ .exact) (hsub : h.isSubtype actual expected) :
      Classifies h e actual .subtype
  | conversion {expected : HostType} (hchecks : e.Checks actual expected)
      (hconversion : e.conformance = .conversion) (hsub : h.isSubtype actual expected = false)
      (hconvertible : h.isConvertible actual expected) : Classifies h e actual .conversion

theorem Checks.eq {other : HostType} (hchecks : e.Checks actual expected)
    (hother : e.Checks actual other) : expected = other :=
  Option.some.inj (hchecks.type.symm.trans hother.type)

private theorem checks {type : HostType} (htype : e.type = some type)
    (hdefinite : ¬ (actual.isVoid || actual.isAny || type.isParam || type.isAny)) :
    e.Checks actual type := by
  simp only [Bool.or_eq_true, not_or, Bool.not_eq_true] at hdefinite
  obtain ⟨⟨⟨hvoid, hany⟩, hparam⟩, hexpected⟩ := hdefinite
  exact ⟨htype, hexpected, hparam, by simp [HostType.isBlank, hvoid, hany]⟩

theorem classify_of_not_checks (hfree : ∀ expected, ¬ e.Checks actual expected) :
    e.classify h actual span = .ok .subtype := by
  cases htype : e.type with
  | none => simp [classify, htype]
  | some type =>
    have hvague : actual.isVoid || actual.isAny || type.isParam || type.isAny := by
      by_contra hdefinite
      exact hfree type (checks htype hdefinite)
    simp only [classify, htype, hvague, if_true]

theorem classify_of_checks (hchecks : e.Checks actual expected) :
    e.classify h actual span =
      if e.conformance = .exact then
        if actual = expected then .ok .exact else .error (.mismatch expected actual span)
      else if h.isSubtype actual expected then .ok .subtype
      else if e.conformance = .conversion ∧ h.isConvertible actual expected then .ok .conversion
      else .error (.mismatch expected actual span) := by
  have hactual : (actual.isVoid || actual.isAny) = false := hchecks.actual
  simp [classify, hchecks.type, hactual, hchecks.isParam, hchecks.isAny]

theorem classify_eq_ok : e.classify h actual span = .ok conformance ↔
    e.Classifies h actual conformance := by
  constructor
  · intro hclassify
    by_cases hfree : ∀ expected, ¬ e.Checks actual expected
    · rw [classify_of_not_checks hfree] at hclassify
      cases hclassify
      exact .unchecked hfree
    · obtain ⟨expected, hchecks⟩ := not_forall_not.mp hfree
      rw [classify_of_checks hchecks] at hclassify
      split at hclassify
      · rename_i hexact
        split at hclassify
        · rename_i heq
          cases hclassify
          exact .exact (heq ▸ hchecks) hexact
        · cases hclassify
      · rename_i hexact
        split at hclassify
        · rename_i hsub
          cases hclassify
          exact .subtype hchecks hexact hsub
        · rename_i hsub
          split at hclassify
          · rename_i hconvertible
            cases hclassify
            exact .conversion hchecks hconvertible.1 (Bool.eq_false_iff.mpr hsub) hconvertible.2
          · cases hclassify
  · intro hclassifies
    cases hclassifies with
    | unchecked hfree => exact classify_of_not_checks hfree
    | exact hchecks hexact => simp [classify_of_checks hchecks, hexact]
    | subtype hchecks hexact hsub => simp [classify_of_checks hchecks, hexact, hsub]
    | conversion hchecks hconversion hsub hconvertible =>
      simp [classify_of_checks hchecks, hconversion, hsub, hconvertible]

/-- A value of type `actual` can stand where `e` is asked for. -/
def Accepts (h : Hierarchy) (e : Expectation) (actual : HostType) : Prop :=
  ∀ expected, e.Checks actual expected →
    e.conformance = .exact ∧ actual = expected ∨ e.conformance ≠ .exact ∧
      (h.isSubtype actual expected ∨
        e.conformance = .conversion ∧ h.isConvertible actual expected)

theorem Classifies.accepts (hclassifies : e.Classifies h actual conformance) :
    e.Accepts h actual := by
  intro expected hchecks
  cases hclassifies with
  | unchecked hfree => exact absurd hchecks (hfree expected)
  | exact hchecks' hexact => exact .inl ⟨hexact, hchecks'.eq hchecks⟩
  | subtype hchecks' hexact hsub => exact .inr ⟨hexact, .inl (hchecks'.eq hchecks ▸ hsub)⟩
  | conversion hchecks' hconversion _ hconvertible =>
    exact .inr ⟨by simp [hconversion], .inr ⟨hconversion, hchecks'.eq hchecks ▸ hconvertible⟩⟩

/-- A type is classified as soon as it is accepted. -/
theorem Accepts.exists_classifies (haccepts : e.Accepts h actual) :
    ∃ conformance, e.Classifies h actual conformance := by
  by_cases hfree : ∀ expected, ¬ e.Checks actual expected
  · exact ⟨_, .unchecked hfree⟩
  · obtain ⟨expected, hchecks⟩ := not_forall_not.mp hfree
    rcases haccepts expected hchecks with ⟨hexact, rfl⟩ | ⟨hexact, hconforms⟩
    · exact ⟨_, .exact hchecks hexact⟩
    · cases hsub : h.isSubtype actual expected with
      | true => exact ⟨_, .subtype hchecks hexact hsub⟩
      | false =>
        obtain ⟨hconversion, hconvertible⟩ := hconforms.resolve_left (by simp [hsub])
        exact ⟨_, .conversion hchecks hconversion hsub hconvertible⟩

end Expectation

end Lowering
