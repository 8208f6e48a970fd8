import Mathlib.Data.List.Induction
import Mathlib.Logic.Relation
import Mathlib.Tactic.ByContra
import Lowering.Proofs.Typing.StateTree

/-!
# The chain of live typing states

States are to be worked on one below the other: the live ones form a chain from the root down. A
state can be discarded while a child of it is still active, and that child then stays live and is
nobody's active child. Main statement: this is the only way in which the chain breaks; while it
holds, nothing is done in a state below a discarded one.
-/

namespace Lowering

/-- State `a` is above state `i` in the tree. -/
def Above (states : Array TypingState) : Nat → Nat → Prop :=
  Relation.TransGen (IsChild states)

/-- The live states are a chain from the root down. -/
structure Sequential (states : Array TypingState) : Prop where
  isLive_of_above : ∀ a i, Above states a i → IsLive states i → IsLive states a
  comparable : ∀ i j, IsLive states i → IsLive states j →
    i = j ∨ Above states i j ∨ Above states j i

/-- No discarded state names an active child. -/
def NoneAbandoned (states : Array TypingState) : Prop :=
  ∀ i c, IsDiscarded states i → ¬ IsActiveChild states i c

/-- The call discards a live state that has an active child. -/
def StateCall.Abandons (s : TypingStates) (call : StateCall) : Prop :=
  ∃ i c, call = .discard i ∧ IsLive s.states i ∧ IsActiveChild s.states i c

namespace StateTree

variable {states states' : Array TypingState} {a i j p c : Nat}

/-- Two live children of one state are the same. -/
theorem child_unique (htree : StateTree states) (hi : IsChild states p i) (hilive : IsLive states i)
    (hj : IsChild states p j) (hjlive : IsLive states j) : i = j := by
  have hactive := (htree.active_iff p i).mpr ⟨hi, hilive⟩
  have hactive' := (htree.active_iff p j).mpr ⟨hj, hjlive⟩
  obtain ⟨parent, -, hfirst, hsecond⟩ := hactive.and hactive'
  exact Option.some.inj (hfirst.symm.trans hsecond)

/-- Every state but the first has a parent. -/
theorem exists_parent (htree : StateTree states) (hi : i < states.size) (hne : i ≠ 0) :
    ∃ p, IsChild states p i := by
  obtain ⟨state, hstate, hplaced⟩ := htree.wellPlaced i hi
  obtain ⟨hroot, -⟩ | ⟨-, p, -, hp⟩ := hplaced
  · exact absurd hroot hne
  · exact ⟨p, state, hstate, hp⟩

theorem above_root (htree : StateTree states) (hi : i < states.size) (hne : i ≠ 0) :
    Above states 0 i := by
  induction i using Nat.strongRecOn with
  | _ i ih =>
    obtain ⟨p, hp⟩ := htree.exists_parent hi hne
    have hlt := htree.lt_of_isChild hp
    by_cases hroot : p = 0
    · exact .single (hroot ▸ hp)
    · exact .tail (ih p hlt (Nat.lt_trans hlt hi) hroot) hp

theorem isLive_of_isChild (htree : StateTree states) (hnone : NoneAbandoned states)
    (hchild : IsChild states p c) (hc : IsLive states c) : IsLive states p := by
  have hactive := (htree.active_iff p c).mpr ⟨hchild, hc⟩
  by_contra hdead
  exact hnone p c (isDiscarded_iff.mpr ⟨hactive.lt_size, hdead⟩) hactive

theorem isLive_of_above (htree : StateTree states) (hnone : NoneAbandoned states)
    (habove : Above states a i) (hi : IsLive states i) : IsLive states a := by
  induction habove with
  | single hchild => exact htree.isLive_of_isChild hnone hchild hi
  | tail _ hchild ih => exact ih (htree.isLive_of_isChild hnone hchild hi)

theorem comparable (htree : StateTree states) (hnone : NoneAbandoned states)
    (hi : IsLive states i) (hj : IsLive states j) :
    i = j ∨ Above states i j ∨ Above states j i := by
  induction j using Nat.strongRecOn with
  | _ j ih =>
    by_cases hroot : j = 0
    · by_cases hsame : i = 0
      · exact .inl (hsame.trans hroot.symm)
      · exact .inr (.inr (hroot ▸ htree.above_root hi.lt_size hsame))
    obtain ⟨p, hchild⟩ := htree.exists_parent hj.lt_size hroot
    have hp := htree.isLive_of_isChild hnone hchild hj
    obtain rfl | habove | hbelow := ih p (htree.lt_of_isChild hchild) hp
    · exact .inr (.inl (.single hchild))
    · exact .inr (.inl (.tail habove hchild))
    · obtain ⟨c, hc, hway⟩ := Relation.TransGen.head'_iff.mp hbelow
      have hclive : IsLive states c := by
        obtain rfl | habove := Relation.reflTransGen_iff_eq_or_transGen.mp hway
        · exact hi
        · exact htree.isLive_of_above hnone habove hi
      obtain rfl := htree.child_unique hc hclive hchild hj
      obtain hsame | habove := Relation.reflTransGen_iff_eq_or_transGen.mp hway
      · exact .inl hsame
      · exact .inr (.inr habove)

/-- The live states of a tree are a chain exactly if none was left behind. -/
theorem sequential_iff (htree : StateTree states) :
    Sequential states ↔ NoneAbandoned states := by
  refine ⟨fun hsequential i c hi hactive => ?_, fun hnone => ⟨fun a i habove hi => ?_,
    fun i j hi hj => ?_⟩⟩
  · obtain ⟨hchild, hc⟩ := (htree.active_iff i c).mp hactive
    exact (isDiscarded_iff.mp hi).2 (hsequential.isLive_of_above i c (.single hchild) hc)
  · exact htree.isLive_of_above hnone habove hi
  · exact htree.comparable hnone hi hj

end StateTree

namespace StateCall

variable {h : Hierarchy} {s : TypingStates} {call : StateCall}

theorem noneAbandoned_after (hnone : NoneAbandoned s.states) (hkeeps : ¬ call.Abandons s) :
    NoneAbandoned (call.after h s).states := by
  intro i c hi hactive
  obtain ⟨hlt, hdead⟩ := isDiscarded_iff.mp hi
  cases call.change h s with
  | same hplaces hlive hactive' =>
    rw [hlive] at hdead
    exact hnone i c (isDiscarded_iff.mpr ⟨hplaces.size_eq ▸ hlt, hdead⟩) ((hactive' i c).mp hactive)
  | root node context hbefore hafter =>
    obtain ⟨state, hstate, hdiscarded⟩ := hi
    rw [hafter] at hstate
    grind
  | spawn p role hp hidle hrole hsize hplaces hlive hactive' =>
    rw [hlive, not_or] at hdead
    obtain ⟨rfl, -⟩ | hactive := (hactive' i c).mp hactive
    · exact hdead.2 hp
    · exact hnone i c (isDiscarded_iff.mpr ⟨by omega, hdead.2⟩) hactive
  | discard k hcall hk hends =>
    have hactive := ((hends.isActiveChild_iff i c).mp hactive).1
    by_cases hsame : i = k
    · exact hkeeps ⟨k, c, hcall, hk, hsame ▸ hactive⟩
    · rw [hends.isLive_iff] at hdead
      exact hnone i c (isDiscarded_iff.mpr ⟨hends.places.size_eq ▸ hlt,
        fun hlive => hdead ⟨hlive, hsame⟩⟩) hactive

/-- A state that is discarded while it has an active child leaves that child behind. -/
theorem not_noneAbandoned_after (htree : StateTree s.states) (habandons : call.Abandons s) :
    ¬ NoneAbandoned (call.after h s).states := by
  obtain ⟨i, c, rfl, hi, hactive⟩ := habandons
  have hends := ends_discard (h := h) hi
  have hdiscarded : IsDiscarded ((discard i).after h s).states i := by
    rw [isDiscarded_iff, hends.places.size_eq, hends.isLive_iff]
    exact ⟨hi.lt_size, fun hlive => hlive.2 rfl⟩
  refine fun hnone => hnone i c hdiscarded ((hends.isActiveChild_iff i c).mpr ⟨hactive, ?_⟩)
  rintro ⟨-, hself⟩
  exact Nat.lt_irrefl i (htree.lt_of_isChild hself)

end StateCall

namespace TypingStates

theorem reached_append (h : Hierarchy) (calls : List StateCall) (call : StateCall) :
    reached h (calls ++ [call]) = call.after h (reached h calls) := by
  rw [reached, List.foldl_append]
  rfl

theorem sequential_empty : Sequential #[] := by
  have hnone (i : Nat) : ¬ IsLive #[] i := fun hi => Nat.not_lt_zero i hi.lt_size
  exact ⟨fun _ i _ hi => absurd hi (hnone i), fun i _ hi => absurd hi (hnone i)⟩

theorem sequential_reached_append_iff {h : Hierarchy} {calls : List StateCall} {call : StateCall}
    (hsequential : Sequential (reached h calls).states) :
    Sequential (reached h (calls ++ [call])).states ↔ ¬ call.Abandons (reached h calls) := by
  have htree := stateTree_reached h calls
  have hnone := htree.sequential_iff.mp hsequential
  rw [(stateTree_reached h _).sequential_iff, reached_append]
  exact ⟨fun hafter habandons => StateCall.not_noneAbandoned_after htree habandons hafter,
    StateCall.noneAbandoned_after hnone⟩

/-- The live states are a chain all along exactly if no state is discarded before its child. -/
theorem sequential_prefixes_iff (h : Hierarchy) (calls : List StateCall) :
    (∀ before, before <+: calls → Sequential (reached h before).states) ↔
      ∀ before call, before ++ [call] <+: calls → ¬ call.Abandons (reached h before) := by
  constructor
  · intro hsequential before call hprefix
    have hbefore := hsequential before ((List.prefix_append before [call]).trans hprefix)
    exact (sequential_reached_append_iff hbefore).mp (hsequential _ hprefix)
  · intro hkeeps before
    induction before using List.reverseRecOn with
    | nil => exact fun _ => sequential_empty
    | append_singleton before call ih =>
      intro hprefix
      have hbefore := ih ((List.prefix_append before [call]).trans hprefix)
      exact (sequential_reached_append_iff hbefore).mpr (hkeeps before call hprefix)

end TypingStates

/-- After any calls, the live states are a chain exactly if no discarded state has an active child.
They are a chain all along exactly if no state is discarded before its active child is. While they
are one, a state below a discarded one refuses every call, which changes nothing. -/
theorem calls_keep_chain (h : Hierarchy) (calls : List StateCall) :
    let s := TypingStates.reached h calls
    (Sequential s.states ↔ NoneAbandoned s.states) ∧
    ((∀ before, before <+: calls → Sequential (TypingStates.reached h before).states) ↔
      ∀ before call, before ++ [call] <+: calls →
        ¬ call.Abandons (TypingStates.reached h before)) ∧
    (Sequential s.states → ∀ a i, Above s.states a i → IsDiscarded s.states a →
      ∀ call : StateCall, call.subject? = some i →
        (call.run h).run.run s = (.error (.internal (.discardedState i)), s)) := by
  intro s
  refine ⟨(TypingStates.stateTree_reached h calls).sequential_iff,
    TypingStates.sequential_prefixes_iff h calls, fun hsequential a i habove ha call hsubject => ?_⟩
  refine StateCall.run_of_isDiscarded hsubject (isDiscarded_iff.mpr ⟨?_, fun hi => ?_⟩)
  · cases habove with
    | single hchild => exact hchild.lt_size
    | tail _ hchild => exact hchild.lt_size
  · exact (isDiscarded_iff.mp ha).2 (hsequential.isLive_of_above a i habove hi)

/-- An operand of an operand stays live when the one above it is discarded; a type accepted there is
still recorded. -/
theorem chain_broken :
    (¬ ∀ (h : Hierarchy) (calls : List StateCall),
      Sequential (TypingStates.reached h calls).states) ∧
    ¬ ∀ (h : Hierarchy) (calls : List StateCall) (a i : Nat) (call : StateCall),
      let s := TypingStates.reached h calls
      Above s.states a i → IsDiscarded s.states a → call.subject? = some i →
        (call.after h s).types = s.types := by
  let calls : List StateCall :=
    [.root ⟨0, {}⟩ {}, .operand 0 ⟨1, {}⟩ {}, .operand 1 ⟨2, {}⟩ {}, .discard 1]
  let states : Array TypingState := #[⟨none, ⟨0, {}⟩, .root, {}, none, false⟩,
    ⟨some 0, ⟨1, {}⟩, .operand, {}, some 2, true⟩, ⟨some 1, ⟨2, {}⟩, .operand, {}, none, false⟩]
  have hreached : TypingStates.reached .empty calls = ⟨states, {}⟩ := rfl
  have habove : Above states 1 2 := .single ⟨_, rfl, rfl⟩
  have hdiscarded : IsDiscarded states 1 := ⟨_, rfl, rfl⟩
  constructor
  · intro hall
    have hsequential : Sequential states := by simpa only [hreached] using hall .empty calls
    have hlive := hsequential.isLive_of_above 1 2 habove ⟨_, rfl, rfl⟩
    exact (isDiscarded_iff.mp hdiscarded).2 hlive
  · intro hall
    have hkept := hall .empty calls 1 2 (.accept 2 .free .int .subtype false)
    simp only [hreached] at hkept
    have hempty := congrArg (·.resolution? 2 .free) (hkept habove hdiscarded rfl)
    cases hempty

end Lowering
