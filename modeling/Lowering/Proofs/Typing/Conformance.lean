import Lowering.Proofs.Typing.Fitting

/-!
# Conformance of recorded types

What is left of a classification when the types of several offers for one node are merged. Main
statements: merging two plausible offers gives a plausible one, which is sound as soon as its own
type is accepted.
-/

namespace Lowering

namespace Expectation

variable {h : Hierarchy} {e : Expectation} {expected : HostType}

/-- A refined type that is checked is what is asked for, or it was checked before. -/
theorem checks_refine {type : HostType} (hchecks : e.Checks (Typing.refine e type) expected) :
    Typing.refine e type = expected ∨ Typing.refine e type = type ∧ e.Checks type expected := by
  cases hany : type.isAny with
  | true =>
    exact .inl (by simp [Typing.refine, hchecks.type, hchecks.isParam, hchecks.isAny, hany])
  | false =>
    rw [refine_eq_self hany] at hchecks ⊢
    exact .inr ⟨rfl, hchecks⟩

theorem Accepts.refine {type : HostType} (haccepts : e.Accepts h type) :
    e.Accepts h (Typing.refine e type) := by
  intro expected hchecks
  rcases checks_refine hchecks with heq | ⟨heq, hchecks⟩
  · by_cases hexact : e.conformance = .exact
    · exact .inl ⟨hexact, heq⟩
    · exact .inr ⟨hexact, .inl (heq ▸ h.isSubtype_self _)⟩
  · rw [heq]
    exact haccepts expected hchecks

end Expectation

namespace Resolution

variable {h : Hierarchy} {span : Span} {r old new : Resolution}

/-- The resolution says what is true: its type conforms to its expectation in the way that is
recorded. -/
structure Sound (h : Hierarchy) (r : Resolution) : Prop where
  isReturn : r.isReturn = r.expectation.isReturn
  exact : r.conformance = .exact → r.expectation.conformance = .exact
  conforms : ∀ expected, r.expectation.Checks r.actual expected →
    match r.conformance with
    | .exact => r.actual = expected
    | .subtype => h.isSubtype r.actual expected
    | .conversion => r.expectation.conformance = .conversion ∧ h.isConvertible r.actual expected

/-- What holds of a resolution before its type is classified as a whole: offers of several types may
have been merged into it. -/
structure Plausible (h : Hierarchy) (r : Resolution) : Prop where
  isReturn : r.isReturn = r.expectation.isReturn
  exact : r.conformance = .exact → r.expectation.conformance = .exact
  conversion : r.conformance = .conversion → r.expectation.conformance = .conversion
  subtype : r.conformance = .subtype → ∀ expected, r.expectation.Checks r.actual expected →
    h.isSubtype r.actual expected ∨ r.actual.primitive? = none ∧ expected.primitive? = none

theorem plausible_of_classifies {e : Expectation} {type : HostType} {conformance : Conformance}
    (hclassifies : e.Classifies h type conformance) :
    Plausible h ⟨e, Typing.refine e type, conformance, e.isReturn⟩ where
  isReturn := rfl
  exact hexact := by
    obtain rfl : conformance = .exact := hexact
    cases hclassifies with
    | exact _ hexact => exact hexact
  conversion hconversion := by
    obtain rfl : conformance = .conversion := hconversion
    cases hclassifies with
    | conversion _ hconversion => exact hconversion
  subtype hsubtype expected hchecks := by
    obtain rfl : conformance = .subtype := hsubtype
    rcases Expectation.checks_refine hchecks with heq | ⟨heq, hchecks⟩
    · exact .inl (heq ▸ h.isSubtype_self _)
    · cases hclassifies with
      | unchecked hfree => exact absurd hchecks (hfree expected)
      | subtype hchecks' _ hsub => exact .inl (by rwa [heq, ← hchecks'.eq hchecks])

/-- The cases of a successful merge under one expectation. -/
theorem merge_eq_ok (hmerge : old.merge h span new = .ok r) :
    r = old ∨ r = new ∨ old.isBlank = false ∧ new.isBlank = false ∧ old.conformance ≠ .exact ∧
      new.conformance ≠ .exact ∧ r = {
        expectation := old.expectation
        actual := h.join old.actual new.actual
        conformance := if new.conformance = .conversion then .conversion else old.conformance
        isReturn := old.isReturn || new.isReturn } := by
  unfold merge at hmerge
  split at hmerge
  · exact .inl (Except.ok.inj hmerge).symm
  · rename_i hkept
    split at hmerge
    · exact .inr (.inl (Except.ok.inj hmerge).symm)
    · rename_i hgiven
      split at hmerge
      · cases hmerge
      · rename_i hexact
        obtain ⟨hold, hnew⟩ := not_or.mp hexact
        refine .inr (.inr ⟨Bool.eq_false_iff.mpr hgiven, ?_, hold, hnew,
          (Except.ok.inj hmerge).symm⟩)
        exact Bool.eq_false_iff.mpr (not_or.mp hkept).2

private theorem conforms_join {a b expected : HostType} (ha : a.isBlank = false)
    (hb : b.isBlank = false) (hany : expected.isAny = false)
    (haconforms : h.isSubtype a expected ∨ a.primitive? = none ∧ expected.primitive? = none)
    (hbconforms : h.isSubtype b expected ∨ b.primitive? = none ∧ expected.primitive? = none) :
    h.isSubtype (h.join a b) expected ∨
      (h.join a b).primitive? = none ∧ expected.primitive? = none := by
  cases hexpected : expected.primitive? with
  | some t =>
    obtain rfl : expected = .primitive t := by
      cases expected <;> simp_all [HostType.primitive?]
    have hat := haconforms.resolve_right fun h => by cases h.2
    have hbt := hbconforms.resolve_right fun h => by cases h.2
    exact .inl (Hierarchy.isSubtype_join_primitive ha hb hat hbt)
  | none =>
    have hreference {type : HostType} (hconforms : h.isSubtype type expected ∨
        type.primitive? = none ∧ expected.primitive? = none) : type.primitive? = none :=
      hconforms.elim (Hierarchy.primitive?_of_isSubtype hexpected hany) (·.1)
    exact .inr ⟨Hierarchy.primitive?_join (hreference haconforms) (hreference hbconforms), rfl⟩

/-- Merging plausible resolutions gives a plausible one. -/
theorem Plausible.merge (hold : old.Plausible h) (hnew : new.Plausible h)
    (hsame : old.expectation = new.expectation) (hmerge : old.merge h span new = .ok r) :
    r.Plausible h := by
  rcases merge_eq_ok hmerge with rfl | rfl | ⟨holdBlank, hnewBlank, holdExact, hnewExact, rfl⟩
  · exact hold
  · exact hnew
  refine ⟨?_, fun hexact => ?_, fun hconversion => ?_, fun hsubtype expected hchecks => ?_⟩
  · change (old.isReturn || new.isReturn) = old.expectation.isReturn
    rw [hold.isReturn, hnew.isReturn, hsame, Bool.or_self]
  · dsimp only at hexact
    split at hexact
    · cases hexact
    · exact absurd hexact holdExact
  · dsimp only at hconversion ⊢
    split at hconversion
    · exact hsame ▸ hnew.conversion ‹_›
    · exact hold.conversion hconversion
  · dsimp only at hsubtype hchecks ⊢
    split at hsubtype
    · cases hsubtype
    · rename_i hnewConversion
      have hnewSubtype : new.conformance = .subtype := by
        cases hconformance : new.conformance <;> simp_all
      refine conforms_join holdBlank hnewBlank hchecks.isAny (hold.subtype hsubtype expected ?_)
        (hnew.subtype hnewSubtype expected ?_)
      · exact ⟨hchecks.type, hchecks.isAny, hchecks.isParam, holdBlank⟩
      · exact ⟨hsame ▸ hchecks.type, hchecks.isAny, hchecks.isParam, hnewBlank⟩

/-- A plausible resolution is sound if its type as a whole is accepted. -/
theorem Plausible.sound (hr : r.Plausible h) (haccepts : r.expectation.Accepts h r.actual) :
    r.Sound h where
  isReturn := hr.isReturn
  exact := hr.exact
  conforms expected hchecks := by
    have hconforms := haccepts expected hchecks
    split
    · rename_i hexact
      exact (hconforms.resolve_right fun h => h.1 (hr.exact hexact)).2
    · rename_i hsubtype
      rcases hr.subtype hsubtype expected hchecks with hsub | ⟨hreference, hreference'⟩
      · exact hsub
      · rcases hconforms with ⟨_, heq⟩ | ⟨_, hsub | ⟨_, hconvertible⟩⟩
        · exact heq ▸ h.isSubtype_self _
        · exact hsub
        · rwa [Hierarchy.isConvertible_of_primitive?_eq_none hreference hreference']
            at hconvertible
    · rename_i hconversion
      refine ⟨hr.conversion hconversion, ?_⟩
      rcases hconforms with ⟨_, heq⟩ | ⟨_, hsub | ⟨_, hconvertible⟩⟩
      · exact heq ▸ Hierarchy.isConvertible_of_isSubtype (h.isSubtype_self _)
      · exact Hierarchy.isConvertible_of_isSubtype hsub
      · exact hconvertible

end Resolution

end Lowering
