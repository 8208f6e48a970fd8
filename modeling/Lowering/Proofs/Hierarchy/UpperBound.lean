import Lowering.Proofs.Hierarchy.Join

/-!
# The join as an upper bound

Each way of joining two types ends above both of them: the greater one is above the other, numbers
widen to their numeric join, and the class that is found is above the boxes of both. Main statement:
both types convert to their join, and references are even subtypes of it.
-/

namespace Lowering.Hierarchy

variable {h : Hierarchy} {a b t : HostType} {m n name : String} {args : List HostType}

theorem isSubtype_of_isSubclass (hname : h.isSubclass m name) :
    h.isSubtype (.cls m args) (.named name) := by
  unfold isSubtype HostType.named
  by_cases heq : m = name
  · simp [heq]
  · simp [heq, hname]

theorem isSubtype_of_mem_ancestors (hname : name ∈ h.ancestors m) :
    h.isSubtype (.cls m args) (.named name) :=
  isSubtype_of_isSubclass (by simp [isSubclass, hname])

/-- Boxing comes before going up. -/
theorem isConvertible_of_boxed (ha : a ≠ .void) (ht : t.primitive? = none)
    (hsub : h.isSubtype a.boxed t) : h.isConvertible a t := by
  cases a with
  | primitive p =>
    have hp : p ≠ .void := fun heq => ha (congrArg _ heq)
    have hbox : h.isSubtype (.named p.wrapper) t := hsub
    simp only [isConvertible, ht]
    simp [HostType.primitive?, hp, hbox]
  | _ => exact isConvertible_of_isSubtype hsub

/-! ## Ways of joining -/

theorem above_of_greater? (hgreater : h.greater? a b = some t) :
    h.isSubtype a t ∧ h.isSubtype b t := by
  rcases greater?_eq_some hgreater with ⟨rfl, hsub⟩ | ⟨rfl, hsub⟩
  · exact ⟨hsub, h.isSubtype_self _⟩
  · exact ⟨h.isSubtype_self _, hsub⟩

theorem above_of_numericJoin? (ha : a ≠ .void) (hb : b ≠ .void)
    (hnumeric : numericJoin? a b = some t) : h.isSubtype a t ∧ h.isSubtype b t := by
  have hwidened {p q : Primitive} (hp : HostType.primitive p ≠ .void) (hwidens : p.widensTo q) :
      h.isSubtype (.primitive p) (.primitive q) :=
    isSubtype_of_widensTo (fun heq => hp (congrArg _ heq)) hwidens
  unfold numericJoin? at hnumeric
  split at hnumeric
  · rename_i p q hap hbq
    obtain rfl : a = .primitive p := by cases a <;> simp_all [HostType.primitive?]
    obtain rfl : b = .primitive q := by cases b <;> simp_all [HostType.primitive?]
    split at hnumeric
    · obtain ⟨j, hfind, rfl⟩ := Option.map_eq_some_iff.mp hnumeric
      have hwidens := List.find?_some hfind
      obtain ⟨hp, hq⟩ := Bool.and_eq_true_iff.mp hwidens
      exact ⟨hwidened ha hp, hwidened hb hq⟩
    · cases hnumeric
  · cases hnumeric

theorem above_classJoin (ha : a.primitive? = none) (hb : b.primitive? = none) :
    h.isSubtype a (h.classJoin a b) ∧ h.isSubtype b (h.classJoin a b) := by
  unfold classJoin
  split
  · split
    · rename_i name hfind
      exact ⟨isSubtype_of_mem_ancestors (List.mem_of_find?_eq_some hfind),
        isSubtype_of_isSubclass (List.find?_some hfind)⟩
    · exact ⟨isSubtype_object rfl [], isSubtype_object rfl []⟩
  · exact ⟨isSubtype_object ha [], isSubtype_object hb []⟩

theorem isSubtype_of_isAny (hany : a.isAny ∨ b.isAny) : h.isSubtype a b := by
  unfold isSubtype
  rcases hany with hany | hany <;> simp [hany]

/-- Types that do not compare tell something, if neither is `void`. -/
theorem isBlank_of_greater?_eq_none (ha : a ≠ .void) (hb : b ≠ .void)
    (hgreater : h.greater? a b = none) : a.isBlank = false ∧ b.isBlank = false := by
  have hfalse : ¬ h.isSubtype a b := by simp [(greater?_eq_none.mp hgreater).1]
  have haany : a.isAny = false :=
    Bool.eq_false_iff.mpr fun hany => hfalse (isSubtype_of_isAny (.inl hany))
  have hbany : b.isAny = false :=
    Bool.eq_false_iff.mpr fun hany => hfalse (isSubtype_of_isAny (.inr hany))
  exact ⟨HostType.isBlank_eq_false ha haany, HostType.isBlank_eq_false hb hbany⟩

/-! ## The join -/

private theorem above_join_cases (ha : a ≠ .void) (hb : b ≠ .void) :
    h.isSubtype a (h.join a b) ∧ h.isSubtype b (h.join a b) ∨
      (h.join a b).primitive? = none ∧ h.isSubtype a.boxed (h.join a b) ∧
        h.isSubtype b.boxed (h.join a b) := by
  cases hgreater : h.greater? a b with
  | some t => exact .inl (join_of_greater? hgreater ▸ above_of_greater? hgreater)
  | none =>
    cases hnumeric : numericJoin? a b with
    | some t =>
      exact .inl (join_of_numericJoin? hgreater hnumeric ▸ above_of_numericJoin? ha hb hnumeric)
    | none =>
      have hreference (t : HostType) : t.boxed.primitive? = none := by cases t <;> rfl
      obtain ⟨hablank, hbblank⟩ := isBlank_of_greater?_eq_none ha hb hgreater
      rw [join_of_none hablank hbblank hgreater hnumeric]
      right
      cases hboxes : h.greater? a.boxed b.boxed with
      | some t =>
        refine ⟨?_, above_of_greater? hboxes⟩
        rcases greater?_eq_some hboxes with ⟨rfl, -⟩ | ⟨rfl, -⟩
        · exact hreference b
        · exact hreference a
      | none =>
        exact ⟨h.primitive?_classJoin _ _, above_classJoin (hreference a) (hreference b)⟩

/-- Both types convert to their join. -/
theorem convertible_join (ha : a ≠ .void) (hb : b ≠ .void) :
    h.isConvertible a (h.join a b) ∧ h.isConvertible b (h.join a b) := by
  rcases above_join_cases ha hb with ⟨hasub, hbsub⟩ | ⟨hjoin, hasub, hbsub⟩
  · exact ⟨isConvertible_of_isSubtype hasub, isConvertible_of_isSubtype hbsub⟩
  · exact ⟨isConvertible_of_boxed ha hjoin hasub, isConvertible_of_boxed hb hjoin hbsub⟩

/-- References are below their join. -/
theorem above_join (ha : a.primitive? = none) (hb : b.primitive? = none) :
    h.isSubtype a (h.join a b) ∧ h.isSubtype b (h.join a b) := by
  have hne {t : HostType} (ht : t.primitive? = none) : t ≠ .void := by
    rintro rfl
    cases ht
  rcases above_join_cases (hne ha) (hne hb) with hsub | ⟨-, hsub⟩
  · exact hsub
  · rwa [boxed_of_primitive?_eq_none ha, boxed_of_primitive?_eq_none hb] at hsub

/-- Types other than `void` convert to their join, and what is not a primitive is a subtype of
it. -/
theorem join_bounds (ha : a ≠ .void) (hb : b ≠ .void) :
    h.isConvertible a (h.join a b) ∧ h.isConvertible b (h.join a b) ∧
      (a.isPrimitive = false → b.isPrimitive = false →
        h.isSubtype a (h.join a b) ∧ h.isSubtype b (h.join a b)) := by
  obtain ⟨haconvertible, hbconvertible⟩ := convertible_join (h := h) ha hb
  refine ⟨haconvertible, hbconvertible, fun haref hbref => ?_⟩
  exact above_join (HostType.primitive?_eq_none ha haref) (HostType.primitive?_eq_none hb hbref)

private def cyclic : Hierarchy :=
  [{ name := "a.Left", interfaces := ["a.Right", "a.Unknown"] },
    { name := "a.Right", interfaces := ["a.Left"] },
    { name := "a.Other", superClass := "a.Unknown" }].foldl register empty

theorem join_bounds_cyclic :
    cyclic.join (.named "a.Right") (.named "a.Other") = .named "a.Unknown" ∧
      cyclic.isSubtype (.named "a.Right") (.named "a.Unknown") ∧
      cyclic.isSubtype (.named "a.Other") (.named "a.Unknown") := by
  have hjoin : cyclic.join (.named "a.Right") (.named "a.Other") = .named "a.Unknown" := by
    decide +kernel
  have hbounds := (join_bounds (h := cyclic) (a := .named "a.Right") (b := .named "a.Other")
    (by decide) (by decide)).2.2 rfl rfl
  exact ⟨hjoin, hjoin ▸ hbounds⟩

end Lowering.Hierarchy
