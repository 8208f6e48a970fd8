import Mathlib.Data.List.Forall2
import Mathlib.Data.Nat.Find
import Lowering.Proofs.Hierarchy.Climbing

/-!
# The list of ancestors

The ancestors of a class come level by level, and each level is as many edges up as the shortest way
to its names. Main statement: the search for them ends in every hierarchy, cyclic ones included, and
lists each name that a way up reaches once, in the order of these distances, and the root last.
-/

namespace Lowering.Hierarchy

variable {h : Hierarchy} {m n p : String} {d j : Nat}

/-- The shortest way from `m` up to `n` has `d` edges. -/
def Distance (h : Hierarchy) (m n : String) (d : Nat) : Prop :=
  h.Climb m d n ∧ ∀ k, h.Climb m k n → d ≤ k

theorem Reaches.exists_distance (hn : h.Reaches m n) : ∃ d, h.Distance m n d := by
  classical
  exact ⟨Nat.find hn, Nat.find_spec hn, fun k hk => Nat.find_min' hn hk⟩

theorem NoFarther.le (hle : h.NoFarther m n p) (hn : h.Distance m n d) (hp : h.Distance m p j) :
    d ≤ j := by
  obtain ⟨k, hk, hclimb⟩ := hle j hp.1
  exact Nat.le_trans (hn.2 k hclimb) hk

private theorem exists_distances {names : List String}
    (hnames : names.Pairwise (h.NoFarther m)) (hreach : ∀ n ∈ names, h.Reaches m n) :
    ∃ distances, List.Forall₂ (h.Distance m) names distances ∧ distances.Pairwise (· ≤ ·) := by
  induction names with
  | nil => exact ⟨[], .nil, .nil⟩
  | cons n names ih =>
    obtain ⟨hn, hnames⟩ := List.pairwise_cons.mp hnames
    obtain ⟨hreaches, hreach⟩ := List.forall_mem_cons.mp hreach
    obtain ⟨d, hd⟩ := hreaches.exists_distance
    obtain ⟨distances, hdistances, hsorted⟩ := ih hnames hreach
    refine ⟨d :: distances, .cons hd hdistances, .cons (fun j hj => ?_) hsorted⟩
    obtain ⟨i, hi, rfl⟩ := List.getElem_of_mem hj
    have hlt : i < names.length := hdistances.length_eq ▸ hi
    exact (hn _ (List.getElem_mem hlt)).le hd (hdistances.get hlt hi)

/-- The ancestors of a class are those names besides the root that some way up reaches, each once
and in the order of their distances, and then the root. The search that lists them needs no bound to
end. A class is below another one if that is the root, the class itself, or up some way. -/
theorem ancestors_by_distance (h : Hierarchy) (m : String) :
    ∃ below distances, h.ancestors m = below ++ [HostType.objectName] ∧
      (∀ found, h.Searches [] [m] found ↔ found = below) ∧
      below.Nodup ∧ (∀ n, n ∈ below ↔ n ≠ HostType.objectName ∧ h.Reaches m n) ∧
      List.Forall₂ (h.Distance m) below distances ∧ distances.Pairwise (· ≤ ·) ∧
      ∀ n, h.isSubclass m n ↔ n = HostType.objectName ∨ n = m ∨ h.Reaches m n := by
  obtain ⟨below, hbelow, hnodup, hnearest, hmem⟩ := h.exists_ancestors_eq_reached m
  obtain ⟨distances, hdistances, hsorted⟩ := exists_distances hnearest fun n => (hmem n).mp
  have hwalk : below = h.walk h.walkBound [] [m] := List.append_cancel_right hbelow.symm
  have hends : h.Searches [] [m] below := hwalk ▸ h.searches_walk m
  refine ⟨below, distances, hbelow, fun found => ?_, hnodup, fun n => ?_, hdistances, hsorted,
    fun n => ?_⟩
  · exact ⟨fun hfound => hfound.unique hends, fun hfound => hfound ▸ hends⟩
  · rw [hmem]
    exact ⟨fun hn => ⟨hn.elim fun _ => Climb.ne_root, hn⟩, And.right⟩
  · rw [isSubclass_iff]
    refine ⟨Or.imp_right .inr, ?_⟩
    rintro (hroot | rfl | hn)
    · exact .inl hroot
    · exact or_iff_not_imp_left.mpr fun hroot => ⟨0, .start hroot⟩
    · exact .inr hn

end Lowering.Hierarchy
