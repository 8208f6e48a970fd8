import Mathlib.Data.List.Nodup
import Mathlib.Data.List.Perm.Subperm
import Lowering.Sink.Scope

/-!
# Fresh names

The candidates for a name are all different, so among one more of them than there are taken names
one is free. Main statement: a fresh name is the first candidate that is not taken.
-/

namespace Lowering

private theorem nameCandidate_succ_ne (proposed : String) (n : Nat) :
    nameCandidate proposed (n + 1) ≠ proposed := by
  intro h
  have hlength := congrArg String.length h
  simp only [nameCandidate, String.length_append] at hlength
  have hunderscore : "_".length = 1 := by decide
  omega

private theorem toString_injective {m n : Nat} (h : toString m = toString n) : m = n := by
  rw [Nat.toString_eq_repr, Nat.toString_eq_repr, Nat.repr_eq_ofList_toDigits,
    Nat.repr_eq_ofList_toDigits, String.ofList_inj] at h
  rw [← Nat.ofDigitChars_ten_toDigits (n := m), h, Nat.ofDigitChars_ten_toDigits]

theorem nameCandidate_injective (proposed : String) :
    Function.Injective (nameCandidate proposed) := by
  intro m n h
  match m, n with
  | 0, 0 => rfl
  | 0, n + 1 => exact absurd h.symm (nameCandidate_succ_ne proposed n)
  | m + 1, 0 => exact absurd h (nameCandidate_succ_ne proposed m)
  | m + 1, n + 1 =>
    simp only [nameCandidate, String.append_right_inj] at h
    exact toString_injective h

private theorem exists_nameCandidate_not_mem (taken : List String) (proposed : String) :
    ∃ n < taken.length + 1, nameCandidate proposed n ∉ taken := by
  by_contra hall
  have hsubset : (List.range (taken.length + 1)).map (nameCandidate proposed) ⊆ taken := by
    intro name hname
    obtain ⟨n, hn, rfl⟩ := List.mem_map.mp hname
    by_contra hfree
    exact hall ⟨n, List.mem_range.mp hn, hfree⟩
  have hnodup : ((List.range (taken.length + 1)).map (nameCandidate proposed)).Nodup :=
    List.nodup_range.map (nameCandidate_injective proposed)
  have hlength := (hnodup.subperm hsubset).length_le
  rw [List.length_map, List.length_range] at hlength
  omega

/-- The search for a free candidate ends with the first one. -/
theorem exists_freshName_eq (taken : List String) (proposed : String) :
    ∃ n, freshName taken proposed = nameCandidate proposed n ∧ nameCandidate proposed n ∉ taken ∧
      ∀ k < n, nameCandidate proposed k ∈ taken := by
  cases hfind : (List.range (taken.length + 1)).find?
      fun n => !taken.contains (nameCandidate proposed n) with
  | some n =>
    obtain ⟨hfree, -, hbefore⟩ := List.find?_range_eq_some.mp hfind
    refine ⟨n, by simp only [freshName, hfind, Option.getD_some], by simpa using hfree, ?_⟩
    intro k hk
    simpa using hbefore k hk
  | none =>
    obtain ⟨n, hn, hfree⟩ := exists_nameCandidate_not_mem taken proposed
    have htaken := List.find?_eq_none.mp hfind n (List.mem_range.mpr hn)
    simp [hfree] at htaken

theorem freshName_not_mem (taken : List String) (proposed : String) :
    freshName taken proposed ∉ taken := by
  obtain ⟨n, hname, hfree, -⟩ := exists_freshName_eq taken proposed
  exact hname ▸ hfree

end Lowering
