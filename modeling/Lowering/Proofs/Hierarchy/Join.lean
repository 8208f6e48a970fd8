import Lowering.Hierarchy.Subtyping

/-!
# Joins

The join of two types is the greater one if they compare, a number that both widen to if there is
one, and otherwise a class found above both when they are boxed. Main statements: the join of two
types below a primitive is below it, and the join of two references is a reference.
-/

namespace Lowering

/-- The type tells nothing about a value. -/
def HostType.isBlank (t : HostType) : Bool :=
  t.isVoid || t.isAny

theorem HostType.isAny_of_isBlank {t : HostType} (h : t.isBlank = false) : t.isAny = false :=
  (Bool.or_eq_false_iff.mp h).2

theorem HostType.isBlank_eq_false {t : HostType} (ht : t ≠ .void) (hany : t.isAny = false) :
    t.isBlank = false := by
  rw [isBlank, hany, Bool.or_false]
  unfold isVoid
  split
  · exact absurd rfl ht
  · rfl

/-- Besides `void`, what is not a primitive is a reference. -/
theorem HostType.primitive?_eq_none {t : HostType} (ht : t ≠ .void)
    (hprimitive : t.isPrimitive = false) : t.primitive? = none := by
  cases t with
  | primitive p =>
    have hp : p = .void := by simpa [isPrimitive, primitive?] using hprimitive
    exact absurd (congrArg _ hp) ht
  | _ => rfl

private theorem HostType.unboxed?_ne_void (type : HostType) : type.unboxed? ≠ some .void := by
  unfold unboxed?
  split
  · intro hvoid
    simpa using (Option.filter_eq_some_iff.mp hvoid).2
  · exact nofun

namespace Primitive

theorem mem_all (p : Primitive) : p ∈ void :: valued := by
  cases p <;> decide

private def join? (p q : Primitive) : Option Primitive :=
  [int, long, float, double].find? fun t => p.widensTo t && q.widensTo t

private theorem widensTo_cases {p q t : Primitive} (hp : p.widensTo t) (hq : q.widensTo t) :
    p.widensTo q ∨ q.widensTo p ∨ (p.isNumeric && q.isNumeric) ∧
      (join? p q).any fun j => j != void && j.widensTo t := by
  have hall : ∀ p ∈ void :: valued, ∀ q ∈ void :: valued, ∀ t ∈ void :: valued, p.widensTo t →
      q.widensTo t → p.widensTo q ∨ q.widensTo p ∨ (p.isNumeric && q.isNumeric) ∧
        (join? p q).any fun j => j != void && j.widensTo t := by
    decide +kernel
  exact hall p p.mem_all q q.mem_all t t.mem_all hp hq

private theorem ne_void_of_widensTo {p t : Primitive} (h : p.widensTo t) (hp : p ≠ void) :
    t ≠ void := by
  rintro rfl
  cases p <;> first | exact hp rfl | cases h

end Primitive

namespace Hierarchy

variable {h : Hierarchy} {a b t : HostType}

/-! ## Subtypes and primitives -/

@[simp] theorem isSubtype_self (h : Hierarchy) (a : HostType) : h.isSubtype a a := by
  unfold isSubtype
  simp

theorem isSubtype_primitive_iff (ha : a.isBlank = false) {t : Primitive} :
    h.isSubtype a (.primitive t) ↔ ∃ p, a = .primitive p ∧ p.widensTo t := by
  constructor
  · intro hsub
    cases a with
    | primitive p =>
      refine ⟨p, rfl, ?_⟩
      rw [isSubtype] at hsub
      simp only [HostType.isAny, Bool.or_false, Bool.or_eq_true, beq_iff_eq,
        HostType.primitive.injEq, Bool.and_eq_true] at hsub
      rcases hsub with rfl | ⟨_, hwidens⟩
      · simp [Primitive.widensTo]
      · exact hwidens
    | any => cases ha
    | _ => simp [isSubtype, HostType.isAny] at hsub
  · rintro ⟨p, rfl, hwidens⟩
    have hp : p ≠ .void := by
      rintro rfl
      cases ha
    rw [isSubtype]
    simp [hp, Primitive.ne_void_of_widensTo hwidens hp, hwidens]

theorem isSubtype_of_widensTo {p q : Primitive} (hp : p ≠ .void) (hwidens : p.widensTo q) :
    h.isSubtype (.primitive p) (.primitive q) := by
  have hne : HostType.primitive p ≠ .void := fun heq => hp (HostType.primitive.inj heq)
  exact (isSubtype_primitive_iff (HostType.isBlank_eq_false hne rfl)).mpr ⟨p, rfl, hwidens⟩

/-- Below a reference there are only references. -/
theorem primitive?_of_isSubtype (hb : b.primitive? = none) (hany : b.isAny = false)
    (hsub : h.isSubtype a b) : a.primitive? = none := by
  cases a with
  | primitive p => cases b <;> simp_all [isSubtype, HostType.isAny, HostType.primitive?]
  | _ => rfl

theorem isConvertible_of_isSubtype (hsub : h.isSubtype a b) : h.isConvertible a b := by
  simp [isConvertible, hsub]

/-- References are not converted. -/
theorem isConvertible_of_primitive?_eq_none (ha : a.primitive? = none) (hb : b.primitive? = none) :
    h.isConvertible a b = h.isSubtype a b := by
  simp [isConvertible, ha, hb]

/-- Only void converts to void. -/
theorem isVoid_of_isConvertible (hblank : a.isBlank = false)
    (hconvertible : h.isConvertible a .void) : a.isVoid := by
  have hwidens (kind : Primitive) (hkind : kind.widensTo .void) : kind = .void := by
    cases kind <;> first | rfl | cases hkind
  rcases Bool.or_eq_true_iff.mp hconvertible with hsub | hboxed
  · obtain ⟨kind, rfl, hkind⟩ := (isSubtype_primitive_iff hblank).mp hsub
    obtain rfl := hwidens kind hkind
    rfl
  · exfalso
    split at hboxed
    · rename_i htarget
      cases htarget
    · rename_i target _ htarget
      obtain rfl : Primitive.void = target := Option.some.inj htarget
      cases hunboxed : a.unboxed? with
      | none => simp [hunboxed] at hboxed
      | some kind =>
        obtain rfl := hwidens kind (by simpa [hunboxed] using hboxed)
        exact HostType.unboxed?_ne_void a hunboxed
    · cases hboxed

/-! ## Cases of the join -/

theorem greater?_eq_some (hgreater : h.greater? a b = some t) :
    t = b ∧ h.isSubtype a b ∨ t = a ∧ h.isSubtype b a := by
  unfold greater? at hgreater
  split at hgreater
  · exact .inl ⟨(Option.some.inj hgreater).symm, ‹_›⟩
  · split at hgreater
    · exact .inr ⟨(Option.some.inj hgreater).symm, ‹_›⟩
    · cases hgreater

theorem greater?_eq_none : h.greater? a b = none ↔
    h.isSubtype a b = false ∧ h.isSubtype b a = false := by
  unfold greater?
  split <;> simp_all

theorem join_of_greater? (hgreater : h.greater? a b = some t) : h.join a b = t := by
  simp [join, hgreater]

theorem join_of_numericJoin? (hgreater : h.greater? a b = none)
    (hnumeric : numericJoin? a b = some t) : h.join a b = t := by
  simp [join, hgreater, hnumeric]

theorem boxed_of_primitive?_eq_none (ha : a.primitive? = none) : a.boxed = a := by
  cases a <;> first | rfl | cases ha

/-- Two types that tell something and neither compare nor have a numeric join are joined by their
boxes. -/
theorem join_of_none (ha : a.isBlank = false) (hb : b.isBlank = false)
    (hgreater : h.greater? a b = none) (hnumeric : numericJoin? a b = none) :
    h.join a b = (h.greater? a.boxed b.boxed).getD (h.classJoin a.boxed b.boxed) := by
  have hreference {t : HostType} (ht : t.isBlank = false) (hprimitive : t.isPrimitive = false) :
      t.boxed = t := by
    have hne : t ≠ .void := by
      rintro rfl
      cases ht
    exact boxed_of_primitive?_eq_none (HostType.primitive?_eq_none hne hprimitive)
  simp only [join, hgreater, hnumeric, Option.orElse_eq_orElse, Option.orElse_none]
  split
  · rfl
  · rename_i hboxes
    obtain ⟨hna, hnb⟩ := Bool.or_eq_false_iff.mp (Bool.eq_false_iff.mpr hboxes)
    rw [hreference ha hna, hreference hb hnb, hgreater]
    rfl

/-! ## What the join keeps -/

theorem isSubtype_join_primitive (ha : a.isBlank = false) (hb : b.isBlank = false) {t : Primitive}
    (hat : h.isSubtype a (.primitive t)) (hbt : h.isSubtype b (.primitive t)) :
    h.isSubtype (h.join a b) (.primitive t) := by
  cases hgreater : h.greater? a b with
  | some greater =>
    rw [join_of_greater? hgreater]
    rcases greater?_eq_some hgreater with ⟨rfl, _⟩ | ⟨rfl, _⟩
    · exact hbt
    · exact hat
  | none =>
    obtain ⟨p, rfl, hp⟩ := (isSubtype_primitive_iff ha).mp hat
    obtain ⟨q, rfl, hq⟩ := (isSubtype_primitive_iff hb).mp hbt
    obtain ⟨hpq, hqp⟩ := greater?_eq_none.mp hgreater
    rcases Primitive.widensTo_cases hp hq with hle | hle | ⟨hnumeric, hjoin⟩
    · have hsub := (isSubtype_primitive_iff (h := h) ha).mpr ⟨p, rfl, hle⟩
      exact absurd hsub (by simp [hpq])
    · have hsub := (isSubtype_primitive_iff (h := h) hb).mpr ⟨q, rfl, hle⟩
      exact absurd hsub (by simp [hqp])
    · cases hfind : Primitive.join? p q with
      | none => simp [hfind] at hjoin
      | some j =>
        have hnumericJoin : numericJoin? (.primitive p) (.primitive q) = some (.primitive j) := by
          simp only [numericJoin?, HostType.primitive?, hnumeric, if_true]
          exact congrArg (Option.map HostType.primitive) hfind
        rw [join_of_numericJoin? hgreater hnumericJoin]
        obtain ⟨hvoid, hwidens⟩ : j ≠ .void ∧ j.widensTo t := by simpa [hfind] using hjoin
        exact isSubtype_of_widensTo hvoid hwidens

theorem primitive?_classJoin (h : Hierarchy) (a b : HostType) :
    (h.classJoin a b).primitive? = none := by
  unfold classJoin
  split
  · split <;> rfl
  · rfl

/-- The join of references is a reference. -/
theorem primitive?_join (ha : a.primitive? = none) (hb : b.primitive? = none) :
    (h.join a b).primitive? = none := by
  have hgreatest {a b t : HostType} (ha : a.primitive? = none) (hb : b.primitive? = none)
      (hgreater : h.greater? a b = some t) : t.primitive? = none := by
    rcases greater?_eq_some hgreater with ⟨rfl, _⟩ | ⟨rfl, _⟩
    · exact hb
    · exact ha
  have hnumeric : numericJoin? a b = none := by
    simp [numericJoin?, ha]
  cases hgreater : h.greater? a b with
  | some t => exact join_of_greater? hgreater ▸ hgreatest ha hb hgreater
  | none =>
    simp only [join, hgreater, hnumeric, Option.orElse_eq_orElse, Option.orElse_none]
    rw [boxed_of_primitive?_eq_none ha, boxed_of_primitive?_eq_none hb, hgreater]
    split <;> exact primitive?_classJoin h a b

/-! ## The join of classes -/

theorem isSubtype_object (ha : a.primitive? = none) (args : List HostType) :
    h.isSubtype a (.cls HostType.objectName args) := by
  cases a with
  | primitive p => cases ha
  | _ => simp [isSubtype]

/-- Below a class other than the root there are only classes. -/
theorem exists_cls_of_isSubtype {name : String} {args : List HostType}
    (hsub : h.isSubtype a (.cls name args)) (hroot : name ≠ HostType.objectName)
    (ha : a.isAny = false) : ∃ m as, a = .cls m as := by
  cases a with
  | cls m as => exact ⟨m, as, rfl⟩
  | any => cases ha
  | _ => simp [isSubtype, HostType.isAny, hroot] at hsub

/-- A class below another one has it among its ancestors, unless that is the root. -/
theorem mem_ancestors_of_isSubtype {m name : String} {as args : List HostType}
    (hsub : h.isSubtype (.cls m as) (.cls name args)) (hroot : name ≠ HostType.objectName) :
    name ∈ h.ancestors m := by
  unfold isSubtype at hsub
  simp only [HostType.isAny, Bool.or_false, Bool.or_eq_true, beq_iff_eq, HostType.cls.injEq,
    hroot, false_or] at hsub
  by_cases heq : m = name
  · exact heq ▸ h.mem_ancestors_self m
  · simpa [heq, isSubclass, hroot] using hsub

/-- A class that is above both of two classes, and above every class above both but the root, is
above their join. -/
theorem isSubtype_classJoin {m n name : String} {as bs args : List HostType}
    (hm : h.isSubtype (.cls m as) (.cls name args)) (hn : h.isSubtype (.cls n bs) (.cls name args))
    (habove : ∀ s ∈ h.ancestors m, h.isSubclass n s → s ≠ HostType.objectName →
      h.isSubclass s name) :
    h.isSubtype (h.classJoin (.cls m as) (.cls n bs)) (.cls name args) := by
  by_cases hroot : name = HostType.objectName
  · exact hroot ▸ isSubtype_object (primitive?_classJoin h _ _) args
  have hmem := mem_ancestors_of_isSubtype hm hroot
  have hsubclass : h.isSubclass n name := by
    simp [isSubclass, mem_ancestors_of_isSubtype hn hroot]
  obtain ⟨below, hbelow, hnot⟩ := h.exists_ancestors_eq m
  have hfind : ((h.ancestors m).find? (h.isSubclass n ·)).any (· ∈ below) := by
    have hname : name ∈ below := by simpa [hbelow, hroot] using hmem
    rw [hbelow, List.find?_append]
    cases hfirst : below.find? (h.isSubclass n ·) with
    | some s => simpa using List.mem_of_find?_eq_some hfirst
    | none => exact absurd hsubclass (List.find?_eq_none.mp hfirst name hname)
  cases hs : (h.ancestors m).find? (h.isSubclass n ·) with
  | none => simp [hs] at hfind
  | some s =>
    have hne : s ≠ HostType.objectName := by
      rintro rfl
      simp [hs, hnot] at hfind
    have hle := habove s (List.mem_of_find?_eq_some hs) (List.find?_some hs) hne
    simp only [classJoin, hs]
    unfold isSubtype
    by_cases heq : s = name <;> simp [heq, hle, HostType.named]

end Hierarchy

end Lowering
