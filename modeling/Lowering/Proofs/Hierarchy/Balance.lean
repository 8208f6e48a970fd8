import Lowering.Proofs.Hierarchy.Join
import Lowering.Proofs.Typing.Judgement

/-!
# Blends in either order

A blend of two types can depend on which of them comes first: where both tell nothing, where each is
below the other, and where the search for a common class starts. Main statement: blends in either
order are the same exactly for balanced types, which are those where none of this makes a
difference.
-/

namespace Lowering.Hierarchy

variable {h : Hierarchy} {a b : HostType}

/-- Two types between which the order does not decide. -/
inductive Balanced (h : Hierarchy) (a b : HostType) : Prop
  | same (heq : a = b)
  /-- Only one of them tells something. -/
  | blank (hblank : a.isBlank ≠ b.isBlank)
  /-- One is below the other, and not also the other way round. -/
  | ranked (ha : a.isBlank = false) (hb : b.isBlank = false)
      (hranked : h.isSubtype a b ≠ h.isSubtype b a)
  /-- There is a number that both widen to. -/
  | numeric (ha : a.isBlank = false) (hb : b.isBlank = false) (hgreater : h.greater? a b = none)
      (hnumeric : (numericJoin? a b).isSome)
  /-- Their boxes are the same, or one is below the other. -/
  | boxed (ha : a.isBlank = false) (hb : b.isBlank = false) (hgreater : h.greater? a b = none)
      (hranked : a.boxed = b.boxed ∨ h.isSubtype a.boxed b.boxed ≠ h.isSubtype b.boxed a.boxed)
  /-- The nearest class above both is the same, seen from either. -/
  | nearest (ha : a.isBlank = false) (hb : b.isBlank = false) (hgreater : h.greater? a b = none)
      (hboxes : h.greater? a.boxed b.boxed = none)
      (hnearest : h.classJoin a.boxed b.boxed = h.classJoin b.boxed a.boxed)

/-! ## The parts of a join in either order -/

private theorem greater?_of_ranked (hranked : h.isSubtype a b ≠ h.isSubtype b a) :
    ∃ t, h.greater? a b = some t ∧ h.greater? b a = some t := by
  unfold greater?
  cases hab : h.isSubtype a b <;> cases hba : h.isSubtype b a <;> simp_all

private theorem greater?_comm_of_none (hgreater : h.greater? a b = none) :
    h.greater? b a = none :=
  greater?_eq_none.mpr (greater?_eq_none.mp hgreater).symm

private theorem greater?_cases (h : Hierarchy) (a b : HostType) :
    h.isSubtype a b ≠ h.isSubtype b a ∨ (h.greater? a b = some b ∧ h.greater? b a = some a) ∨
      h.greater? a b = none := by
  unfold greater?
  cases h.isSubtype a b <;> cases h.isSubtype b a <;> simp

private theorem numericJoin?_comm (a b : HostType) : numericJoin? a b = numericJoin? b a := by
  unfold numericJoin?
  cases a.primitive? <;> cases b.primitive? <;> simp [Bool.and_comm]

/-! ## Blends -/

theorem blend_of_ne (hne : a ≠ b) (ha : a.isBlank = false) (hb : b.isBlank = false) :
    h.blend a b = h.join a b := by
  have hkept : ¬ (a = b ∨ (b.isVoid || b.isAny)) := by
    rintro (heq | hblank)
    · exact hne heq
    · exact Bool.false_ne_true (hb.symm.trans hblank)
  have hgiven : ¬ (a.isVoid || a.isAny) := fun hblank =>
    Bool.false_ne_true (ha.symm.trans hblank)
  rw [blend, if_neg hkept, if_neg hgiven]

theorem blend_of_blank_right (hb : b.isBlank) : h.blend a b = a :=
  if_pos (.inr hb)

theorem blend_of_blank_left (ha : a.isBlank) (hb : b.isBlank = false) : h.blend a b = b := by
  by_cases heq : a = b
  · exact absurd ha (by simp [heq, hb])
  · have hkept : ¬ (a = b ∨ (b.isVoid || b.isAny)) := by
      rintro (heq' | hblank)
      · exact heq heq'
      · exact Bool.false_ne_true (hb.symm.trans hblank)
    rw [blend, if_neg hkept]
    exact if_pos ha

private theorem join_comm_of_none (ha : a.isBlank = false) (hb : b.isBlank = false)
    (hgreater : h.greater? a b = none) (hnumeric : numericJoin? a b = none) :
    h.join a b = h.join b a ↔
      (h.greater? a.boxed b.boxed).getD (h.classJoin a.boxed b.boxed) =
        (h.greater? b.boxed a.boxed).getD (h.classJoin b.boxed a.boxed) := by
  have hnumeric' : numericJoin? b a = none := numericJoin?_comm a b ▸ hnumeric
  rw [join_of_none ha hb hgreater hnumeric,
    join_of_none hb ha (greater?_comm_of_none hgreater) hnumeric']

private theorem join_comm_of_numeric (hgreater : h.greater? a b = none) {t : HostType}
    (hnumeric : numericJoin? a b = some t) : h.join a b = h.join b a := by
  have hnumeric' : numericJoin? b a = some t := numericJoin?_comm a b ▸ hnumeric
  rw [join_of_numericJoin? hgreater hnumeric,
    join_of_numericJoin? (greater?_comm_of_none hgreater) hnumeric']

private theorem balanced_of_join_comm (hne : a ≠ b) (ha : a.isBlank = false)
    (hb : b.isBlank = false) (hcomm : h.join a b = h.join b a) : h.Balanced a b := by
  rcases greater?_cases h a b with hranked | ⟨hab, hba⟩ | hgreater
  · exact .ranked ha hb hranked
  · rw [join_of_greater? hab, join_of_greater? hba] at hcomm
    exact absurd hcomm.symm hne
  cases hnumeric : numericJoin? a b with
  | some t => exact .numeric ha hb hgreater (by simp [hnumeric])
  | none =>
    rw [join_comm_of_none ha hb hgreater hnumeric] at hcomm
    rcases greater?_cases h a.boxed b.boxed with hranked | ⟨hab, hba⟩ | hboxes
    · exact .boxed ha hb hgreater (.inr hranked)
    · rw [hab, hba] at hcomm
      exact .boxed ha hb hgreater (.inl hcomm.symm)
    · rw [hboxes, greater?_comm_of_none hboxes] at hcomm
      exact .nearest ha hb hgreater hboxes hcomm

private theorem join_comm_of_balanced (hne : a ≠ b) (ha : a.isBlank = false)
    (hb : b.isBlank = false) (hbalanced : h.Balanced a b) : h.join a b = h.join b a := by
  have hboxed (hgreater : h.greater? a b = none)
      (hboxes : (h.greater? a.boxed b.boxed).getD (h.classJoin a.boxed b.boxed) =
        (h.greater? b.boxed a.boxed).getD (h.classJoin b.boxed a.boxed)) :
      h.join a b = h.join b a := by
    cases hnumeric : numericJoin? a b with
    | some t => exact join_comm_of_numeric hgreater hnumeric
    | none => exact (join_comm_of_none ha hb hgreater hnumeric).mpr hboxes
  cases hbalanced with
  | same heq => exact absurd heq hne
  | blank hblank => exact absurd (ha.trans hb.symm) hblank
  | ranked _ _ hranked =>
    obtain ⟨t, hab, hba⟩ := greater?_of_ranked hranked
    rw [join_of_greater? hab, join_of_greater? hba]
  | numeric _ _ hgreater hnumeric =>
    obtain ⟨t, ht⟩ := Option.isSome_iff_exists.mp hnumeric
    exact join_comm_of_numeric hgreater ht
  | boxed _ _ hgreater hranked =>
    refine hboxed hgreater ?_
    rcases hranked with heq | hranked
    · rw [heq]
    · obtain ⟨t, hab, hba⟩ := greater?_of_ranked hranked
      rw [hab, hba]
      rfl
  | nearest _ _ hgreater hboxes hnearest =>
    refine hboxed hgreater ?_
    rw [hboxes, greater?_comm_of_none hboxes]
    exact hnearest

/-- The order of two types makes no difference exactly where they are balanced. -/
theorem blend_comm_iff (h : Hierarchy) (a b : HostType) :
    h.blend a b = h.blend b a ↔ h.Balanced a b := by
  by_cases heq : a = b
  · subst heq
    exact ⟨fun _ => .same rfl, fun _ => rfl⟩
  cases ha : a.isBlank <;> cases hb : b.isBlank
  · rw [blend_of_ne heq ha hb, blend_of_ne (Ne.symm heq) hb ha]
    exact ⟨balanced_of_join_comm heq ha hb, join_comm_of_balanced heq ha hb⟩
  · rw [blend_of_blank_right hb, blend_of_blank_left hb ha]
    exact ⟨fun _ => .blank (by simp [ha, hb]), fun _ => rfl⟩
  · rw [blend_of_blank_right ha, blend_of_blank_left ha hb]
    exact ⟨fun _ => .blank (by simp [ha, hb]), fun _ => rfl⟩
  · rw [blend_of_blank_right hb, blend_of_blank_right ha]
    refine ⟨fun hsame => absurd hsame heq, fun hbalanced => ?_⟩
    cases hbalanced with
    | same heq => exact heq
    | blank hblank => exact absurd (ha.trans hb.symm) hblank
    | ranked hfull | numeric hfull | boxed hfull | nearest hfull =>
      exact absurd ha (by simp [hfull])

end Lowering.Hierarchy
