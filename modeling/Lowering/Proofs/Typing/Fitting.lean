import Lowering.Proofs.Typing.Classification
import Lowering.Proofs.Typing.Judgement

/-!
# Types that fit an expectation

What a type is like that was checked against an expectation, and what becomes of two such types for
one node. Main statements: a blend of types that fit fits, and offers that fit never conflict.
-/

namespace Lowering

/-- Nothing but `expected` will do, for values that have a type at all. -/
structure Expectation.Demands (e : Expectation) (expected : HostType) : Prop where
  type : e.type = some expected
  conformance : e.conformance = .exact
  isParam : expected.isParam = false
  isAny : expected.isAny = false

/-- What can be recorded under `e` once it was checked. -/
structure Resolution.Fits (e : Expectation) (r : Resolution) : Prop where
  expectation : r.expectation = e
  refined : Typing.refine e r.actual = r.actual
  demanded : ∀ expected, e.Demands expected → r.actual = expected ∨ r.actual.isVoid
  exact : r.conformance = .exact → ∃ expected, e.Demands expected

theorem refine_idem (e : Expectation) (type : HostType) :
    Typing.refine e (Typing.refine e type) = Typing.refine e type := by
  cases hexpected : e.type with
  | none => simp only [Typing.refine, hexpected]
  | some expected =>
    simp only [Typing.refine, hexpected]
    by_cases hgives : (type.isAny && !expected.isParam && !expected.isAny) = true
    · have hany : expected.isAny = false := by simp_all
      rw [if_pos hgives]
      simp only [hany, Bool.false_and, Bool.false_eq_true, if_false]
    · simp only [if_neg hgives]

theorem refine_eq_self {e : Expectation} {type : HostType} (h : type.isAny = false) :
    Typing.refine e type = type := by
  unfold Typing.refine
  split <;> simp [h]

private theorem isAny_greater? {h : Hierarchy} {a b type : HostType} (ha : a.isAny = false)
    (hb : b.isAny = false) (htype : h.greater? a b = some type) : type.isAny = false := by
  rcases Hierarchy.greater?_eq_some htype with ⟨rfl, _⟩ | ⟨rfl, _⟩
  · exact hb
  · exact ha

private theorem isAny_numericJoin? {a b type : HostType}
    (htype : Hierarchy.numericJoin? a b = some type) : type.isAny = false := by
  unfold Hierarchy.numericJoin? at htype
  split at htype
  · split at htype
    · obtain ⟨_, _, rfl⟩ := Option.map_eq_some_iff.mp htype
      rfl
    · cases htype
  · cases htype

private theorem isAny_classJoin (h : Hierarchy) (a b : HostType) :
    (h.classJoin a b).isAny = false := by
  unfold Hierarchy.classJoin
  split
  · split <;> rfl
  · rfl

theorem isAny_boxed {type : HostType} (h : type.isAny = false) :
    type.boxed.isAny = false := by
  cases type <;> simp_all [HostType.boxed, HostType.named, HostType.isAny]

theorem Hierarchy.isAny_join (h : Hierarchy) {a b : HostType} (ha : a.isAny = false)
    (hb : b.isAny = false) : (h.join a b).isAny = false := by
  unfold join
  split
  · rename_i type htype
    cases hgreater : h.greater? a b with
    | some greater =>
      obtain rfl : greater = type := by simpa [hgreater] using htype
      exact isAny_greater? ha hb hgreater
    | none => exact isAny_numericJoin? (by simpa [hgreater] using htype)
  · split
    · cases hgreater : h.greater? a.boxed b.boxed with
      | some type => exact isAny_greater? (isAny_boxed ha) (isAny_boxed hb) hgreater
      | none => exact isAny_classJoin h _ _
    · exact isAny_classJoin h _ _

theorem refine_blend (h : Hierarchy) {e : Expectation} {a b : HostType}
    (ha : Typing.refine e a = a) (hb : Typing.refine e b = b) :
    Typing.refine e (h.blend a b) = h.blend a b := by
  unfold Hierarchy.blend
  split
  · exact ha
  · rename_i hkept
    split
    · exact hb
    · rename_i hgiven
      refine refine_eq_self (h.isAny_join ?_ ?_) <;> simp_all

private theorem classify_demanded {h : Hierarchy} {e : Expectation} {type expected : HostType}
    {span : Span} {conformance : Conformance}
    (hclassify : e.classify h type span = .ok conformance) (hexpected : e.Demands expected) :
    type = expected ∨ type.isVoid ∨ type.isAny := by
  cases hblank : type.isBlank with
  | true => exact .inr (Bool.or_eq_true_iff.mp hblank)
  | false =>
    have hchecks : e.Checks type expected :=
      ⟨hexpected.type, hexpected.isAny, hexpected.isParam, hblank⟩
    have haccepts := (Expectation.classify_eq_ok.mp hclassify).accepts expected hchecks
    exact .inl (haccepts.resolve_right fun h => h.1 hexpected.conformance).2

private theorem demands_of_classify {h : Hierarchy} {e : Expectation} {type : HostType}
    {span : Span} (hclassify : e.classify h type span = .ok .exact) :
    ∃ expected, e.Demands expected := by
  cases Expectation.classify_eq_ok.mp hclassify with
  | exact hchecks hexact => exact ⟨_, hchecks.type, hexact, hchecks.isParam, hchecks.isAny⟩

theorem Resolution.fits_of_classify {h : Hierarchy} {e : Expectation} {type : HostType}
    {span : Span} {conformance : Conformance} (hclassify : e.classify h type span = .ok conformance)
    (isReturn : Bool) : Fits e ⟨e, Typing.refine e type, conformance, isReturn⟩ where
  expectation := rfl
  refined := refine_idem e type
  demanded expected hexpected := by
    cases hany : type.isAny with
    | true => exact .inl (by simp [Typing.refine, hexpected.type, hexpected.isParam,
        hexpected.isAny, hany])
    | false =>
      rw [refine_eq_self hany]
      exact (classify_demanded hclassify hexpected).imp_right fun h => by simpa [hany] using h
  exact hexact := by
    obtain rfl : conformance = .exact := hexact
    exact demands_of_classify hclassify

private theorem blend_eq (h : Hierarchy) (old new : Resolution) :
    h.blend old.actual new.actual =
      if old.actual = new.actual ∨ new.isBlank then old.actual
      else if old.isBlank then new.actual
      else h.join old.actual new.actual :=
  rfl

/-- What two resolutions are merged into has the blend of their types. -/
theorem Resolution.actual_merge {h : Hierarchy} {span : Span} {old new r : Resolution}
    (hmerge : old.merge h span new = .ok r) : r.actual = h.blend old.actual new.actual := by
  rw [blend_eq]
  unfold merge at hmerge
  split at hmerge
  · exact Except.ok.inj hmerge ▸ (if_pos ‹_›).symm
  · rw [if_neg ‹_›]
    split at hmerge
    · exact Except.ok.inj hmerge ▸ (if_pos ‹_›).symm
    · rw [if_neg ‹_›]
      split at hmerge
      · cases hmerge
      · exact Except.ok.inj hmerge ▸ rfl

/-- Offers that fit never conflict. -/
theorem Resolution.merge_of_fits (h : Hierarchy) (span : Span) {e : Expectation}
    {old new : Resolution} (hold : old.Fits e) (hnew : new.Fits e) :
    ∃ r, old.merge h span new = .ok r ∧ r.Fits e ∧ r.actual = h.blend old.actual new.actual := by
  by_cases hkept : old.actual = new.actual ∨ new.isBlank
  · exact ⟨old, by rw [merge, if_pos hkept], hold, by rw [blend_eq, if_pos hkept]⟩
  by_cases hgiven : old.isBlank
  · exact ⟨new, by rw [merge, if_neg hkept, if_pos hgiven], hnew,
      by rw [blend_eq, if_neg hkept, if_pos hgiven]⟩
  have hfree (expected : HostType) : ¬ e.Demands expected := fun hexpected => by
    have hold' := hold.demanded expected hexpected
    have hnew' := hnew.demanded expected hexpected
    simp only [isBlank] at hkept hgiven
    rcases hold' with hold' | hold' <;> rcases hnew' with hnew' | hnew' <;> simp_all
  have hinexact {r : Resolution} (hr : r.Fits e) : r.conformance ≠ .exact := fun hexact =>
    (hr.exact hexact).elim hfree
  have hjoin : h.blend old.actual new.actual = h.join old.actual new.actual := by
    rw [blend_eq, if_neg hkept, if_neg hgiven]
  have hmerge : old.merge h span new = .ok {
      expectation := old.expectation
      actual := h.join old.actual new.actual
      conformance := if new.conformance = .conversion then .conversion else old.conformance
      isReturn := old.isReturn || new.isReturn } := by
    rw [merge, if_neg hkept, if_neg hgiven, if_neg (not_or.mpr ⟨hinexact hold, hinexact hnew⟩)]
  refine ⟨_, hmerge, ⟨hold.expectation, ?_, ?_, fun hexact => ?_⟩, hjoin.symm⟩
  · exact hjoin ▸ refine_blend h hold.refined hnew.refined
  · exact fun expected hexpected => absurd hexpected (hfree expected)
  · dsimp only at hexact
    split at hexact
    · cases hexact
    · exact hold.exact hexact

end Lowering
