import Lowering.Proofs.Hierarchy.Order
import Lowering.Proofs.Hierarchy.UpperBound

/-!
# The nearest class above two classes

Where neither of two classes is below the other, their join is the class above both that the search
from the first one lists first. It is the nearest one, but it need not be the most specific one: a
class below it that is above both may be just as far up or farther. Main statement: this takes ways
of different lengths from the first class up to the join, so it cannot happen where all of them have
the same length.
-/

namespace Lowering.Hierarchy

variable {h : Hierarchy} {m n s c : String}

/-- The class `c` is above both `m` and `n` and strictly below `s`. -/
structure MoreSpecific (h : Hierarchy) (m n s c : String) : Prop where
  ne : c ≠ s
  first : h.isSubtype (.named m) (.named c)
  second : h.isSubtype (.named n) (.named c)
  below : h.isSubtype (.named c) (.named s)

theorem Acyclic.eq_of_isSubtype (hacyclic : h.Acyclic) (hmn : h.isSubtype (.named m) (.named n))
    (hnm : h.isSubtype (.named n) (.named m)) : m = n := by
  rw [isSubtype_iff_below rfl rfl] at hmn hnm
  exact (HostType.cls.inj (hmn.antisymm hacyclic hnm)).1

/-! ## The search for a class above both -/

/-- No class above both is nearer to the first one than `s`; it is the root if there is no other. -/
def Nearest (h : Hierarchy) (m n s : String) : Prop :=
  s = HostType.objectName ∧ (∀ c, h.Reaches m c → ¬ h.Reaches n c) ∨
    ∀ c, h.Reaches m c → h.Reaches n c → h.NoFarther m s c

theorem exists_nearest_classJoin (h : Hierarchy) (m n : String) :
    ∃ s, h.classJoin (.named m) (.named n) = .named s ∧ h.Nearest m n s := by
  obtain ⟨below, hbelow, -, hsorted, hmem⟩ := h.exists_ancestors_eq_reached m
  have habove {c : String} (hc : h.Reaches n c) : h.isSubclass n c :=
    isSubclass_iff.mpr (.inr hc)
  cases hfirst : below.find? (h.isSubclass n ·) with
  | none =>
    refine ⟨HostType.objectName, ?_, .inl ⟨rfl, fun c hcm hcn => ?_⟩⟩
    · have hroot : h.isSubclass n HostType.objectName := by simp [isSubclass]
      simp [classJoin, HostType.named, hbelow, List.find?_append, hfirst, hroot]
    · exact List.find?_eq_none.mp hfirst c ((hmem c).mpr hcm) (habove hcn)
  | some s =>
    refine ⟨s, ?_, .inr fun c hcm hcn => ?_⟩
    · simp [classJoin, HostType.named, hbelow, List.find?_append, hfirst]
    · obtain ⟨-, before, after, rfl, hbefore⟩ := List.find?_eq_some_iff_append.mp hfirst
      rcases List.mem_append.mp ((hmem c).mpr hcm) with hc | hc
      · exact absurd (hbefore c hc) (by simp [habove hcn])
      rcases List.mem_cons.mp hc with rfl | hc
      · exact fun k hk => ⟨k, Nat.le_refl k, hk⟩
      · have hsorted' := (List.pairwise_append.mp hsorted).2.1
        exact (List.pairwise_cons.mp hsorted').1 c hc

private theorem join_named_cases (h : Hierarchy) (m n : String) :
    h.isSubtype (.named m) (.named n) ∧ h.join (.named m) (.named n) = .named n ∨
      h.isSubtype (.named n) (.named m) ∧ h.join (.named m) (.named n) = .named m ∨
      h.join (.named m) (.named n) = h.classJoin (.named m) (.named n) := by
  cases hgreater : h.greater? (.named m) (.named n) with
  | some t =>
    rcases greater?_eq_some hgreater with ⟨rfl, hsub⟩ | ⟨rfl, hsub⟩
    · exact .inl ⟨hsub, join_of_greater? hgreater⟩
    · exact .inr (.inl ⟨hsub, join_of_greater? hgreater⟩)
  | none =>
    have hboxed : h.greater? (HostType.named m).boxed (HostType.named n).boxed = none := hgreater
    rw [join_of_none rfl rfl hgreater rfl, hboxed]
    exact .inr (.inr rfl)

/-- Ways up from `m` to `s`, of which the first one is shorter than the one by `c`. -/
def Detour (h : Hierarchy) (m s c : String) : Prop :=
  ∃ i j k, h.Climb m i s ∧ h.Climb m j c ∧ h.Climb c k s ∧ i ≤ j ∧ 0 < k

private theorem MoreSpecific.detour (hc : h.MoreSpecific m n s c) (hnearest : h.Nearest m n s) :
    h.Detour m s c := by
  have hroot : c ≠ HostType.objectName := by
    rintro rfl
    rcases isSubtype_named_iff.mp hc.below with heq | hreaches
    · exact hc.ne heq.symm
    · exact hreaches.start_ne_root rfl
  have hm : h.Reaches m c := (isSubtype_named_iff.mp hc.first).resolve_left hroot
  have hn : h.Reaches n c := (isSubtype_named_iff.mp hc.second).resolve_left hroot
  rcases hnearest with ⟨-, hnone⟩ | hnearest
  · exact absurd hn (hnone c hm)
  obtain ⟨j, hj⟩ := hm
  obtain ⟨i, hle, hi⟩ := hnearest c ⟨j, hj⟩ hn j hj
  obtain ⟨k, hk⟩ := (isSubtype_named_iff.mp hc.below).resolve_left hi.ne_root
  refine ⟨i, j, k, hi, hj, hk, hle, Nat.pos_of_ne_zero ?_⟩
  rintro rfl
  exact hc.ne hk.eq_of_zero.symm

/-! ## Levels -/

/-- Every class is one level below those right above it. -/
def Graded (h : Hierarchy) (level : TypeHash → Nat) : Prop :=
  ∀ entry ∈ h.classes, ∀ p ∈ entry.2.parents, level (.ofName p) = level entry.1 + 1

instance {level : TypeHash → Nat} : Decidable (h.Graded level) :=
  inferInstanceAs (Decidable (∀ entry ∈ h.classes, ∀ p ∈ entry.2.parents,
    level (.ofName p) = level entry.1 + 1))

theorem Graded.level_eq {level : TypeHash → Nat} (hgraded : h.Graded level) {k : Nat}
    (hn : h.Climb m k n) : level (.ofName n) = level (.ofName m) + k := by
  induction hn with
  | start => rfl
  | up _ hparent _ ih =>
    obtain ⟨d, hd, hp⟩ := exists_entry_of_mem_parents hparent
    rw [hgraded _ hd _ hp, ih, Nat.add_assoc]

/-- All ways up from one class to another have the same length then. -/
theorem Graded.length_eq {level : TypeHash → Nat} (hgraded : h.Graded level) {j k : Nat}
    (hj : h.Climb m j n) (hk : h.Climb m k n) : j = k :=
  Nat.add_left_cancel ((hgraded.level_eq hj).symm.trans (hgraded.level_eq hk))

/-! ## The join of two classes -/

/-- The join of two classes is a class above both. Where no class is above itself, the join misses
a more specific one only if that is a detour on the way up to it, so never where all ways there have
the same length. -/
theorem join_nearest (hacyclic : h.Acyclic) (m n : String) :
    ∃ s, h.join (.named m) (.named n) = .named s ∧ h.isSubtype (.named m) (.named s) ∧
      h.isSubtype (.named n) (.named s) ∧ (∀ c, h.MoreSpecific m n s c → h.Detour m s c) ∧
      ((∀ j k, h.Climb m j s → h.Climb m k s → j = k) → ∀ c, ¬ h.MoreSpecific m n s c) := by
  obtain ⟨hm, hn⟩ := above_join (h := h) (a := .named m) (b := .named n) rfl rfl
  obtain ⟨s, hs, hdetour⟩ : ∃ s, h.join (.named m) (.named n) = .named s ∧
      ∀ c, h.MoreSpecific m n s c → h.Detour m s c := by
    rcases h.join_named_cases m n with ⟨-, hjoin⟩ | ⟨-, hjoin⟩ | hjoin
    · exact ⟨n, hjoin, fun c hc => absurd (hacyclic.eq_of_isSubtype hc.below hc.second) hc.ne⟩
    · exact ⟨m, hjoin, fun c hc => absurd (hacyclic.eq_of_isSubtype hc.below hc.first) hc.ne⟩
    · obtain ⟨s, hs, hnearest⟩ := h.exists_nearest_classJoin m n
      exact ⟨s, hjoin.trans hs, fun c hc => hc.detour hnearest⟩
  rw [hs] at hm hn
  refine ⟨s, hs, hm, hn, hdetour, fun hsame c hc => ?_⟩
  obtain ⟨i, j, k, hi, hj, hk, hle, hpos⟩ := hdetour c hc
  have hlength : i = j + k := hsame i (j + k) hi (hj.trans hk)
  omega

private def pets (ofDogs : List String) : Hierarchy :=
  [{ name := "a.Animal" }, { name := "a.Pet", interfaces := ["a.Animal"] },
    { name := "a.Mammal", interfaces := ["a.Pet"] },
    { name := "a.Dog", superClass := "a.Mammal", interfaces := ofDogs },
    { name := "a.Cat", interfaces := ["a.Pet"] }].foldl register empty

private def petLevel (hash : TypeHash) : Nat :=
  ([("a.Animal", 3), ("a.Pet", 2), ("a.Mammal", 1), ("a.Cat", 1)].find? fun entry =>
    TypeHash.ofName entry.1 == hash).elim 0 (·.2)

private theorem acyclic_pets : (pets []).Acyclic ∧ (pets ["a.Animal"]).Acyclic :=
  ⟨Layered.acyclic (by decide +kernel), Layered.acyclic (by decide +kernel)⟩

private theorem join_pets : (pets ["a.Animal"]).join (.named "a.Dog") (.named "a.Cat") =
    .named "a.Animal" := by
  decide +kernel

private theorem moreSpecific_pets :
    (pets ["a.Animal"]).MoreSpecific "a.Dog" "a.Cat" "a.Animal" "a.Pet" :=
  ⟨by decide, by decide +kernel, by decide +kernel, by decide +kernel⟩

theorem join_nearest_pets : (pets []).Acyclic ∧ (pets ["a.Animal"]).Acyclic ∧
    (pets []).join (.named "a.Dog") (.named "a.Cat") = .named "a.Pet" ∧
    (∀ c, ¬ (pets []).MoreSpecific "a.Dog" "a.Cat" "a.Pet" c) ∧
    (pets ["a.Animal"]).join (.named "a.Dog") (.named "a.Cat") = .named "a.Animal" ∧
    (pets ["a.Animal"]).Detour "a.Dog" "a.Animal" "a.Pet" := by
  obtain ⟨hacyclic, hacyclic'⟩ := acyclic_pets
  obtain ⟨s, hs, -, -, -, hnone⟩ := join_nearest hacyclic "a.Dog" "a.Cat"
  obtain ⟨s', hs', -, -, hdetour, -⟩ := join_nearest hacyclic' "a.Dog" "a.Cat"
  have hgraded : (pets []).Graded petLevel := by decide +kernel
  have hpet : (pets []).join (.named "a.Dog") (.named "a.Cat") = .named "a.Pet" := by
    decide +kernel
  obtain rfl : "a.Pet" = s := (HostType.cls.inj (hpet.symm.trans hs)).1
  obtain rfl : "a.Animal" = s' := (HostType.cls.inj (join_pets.symm.trans hs')).1
  exact ⟨hacyclic, hacyclic', hpet, hnone fun _ _ => hgraded.length_eq, join_pets,
    hdetour "a.Pet" moreSpecific_pets⟩

/-- Where dogs are said to be animals, dogs and cats are joined as animals, though both are pets. -/
theorem join_not_most_specific :
    ¬ ∀ (h : Hierarchy) (m n s : String), h.Acyclic → h.join (.named m) (.named n) = .named s →
      ∀ c, ¬ h.MoreSpecific m n s c :=
  fun hall => hall _ _ _ _ acyclic_pets.2 join_pets "a.Pet" moreSpecific_pets

end Lowering.Hierarchy
