import Lowering.Proofs.Typing.Calls

/-!
# The tree of typing states

Any calls of the operations on typing states, in any order and also where some of them fail, keep
the states a tree. Main statement: the first state is the only root and every other one comes after
its parent; the active child that a state names is its only live child; a discarded state stays
discarded and refuses every call, which then changes nothing; and the table is handed out exactly
when all states are discarded.
-/

namespace Lowering

/-- A state may stand at `i`: the root comes first, and any other state after its parent. -/
def WellPlaced (i : Nat) (parent : Option Nat) (role : StateRole) : Prop :=
  i = 0 ∧ parent = none ∧ role = .root ∨ role ≠ .root ∧ ∃ p < i, parent = some p

/-- The states are a tree, and each names the child of it that is live. -/
structure StateTree (states : Array TypingState) : Prop where
  wellPlaced : ∀ i < states.size, HasState states i fun state =>
    WellPlaced i state.parent state.role
  active_iff : ∀ p c, IsActiveChild states p c ↔ IsChild states p c ∧ IsLive states c

namespace StateTree

variable {states states' : Array TypingState}

theorem lt_of_isChild (htree : StateTree states) {p c : Nat} (hchild : IsChild states p c) :
    p < c := by
  obtain ⟨child, -, hparent, hplaced⟩ := hchild.and (htree.wellPlaced c hchild.lt_size)
  obtain ⟨-, hnone, -⟩ | ⟨-, q, hlt, hq⟩ := hplaced
  · cases hparent.symm.trans hnone
  · obtain rfl : p = q := Option.some.inj (hparent.symm.trans hq)
    exact hlt

/-- No call breaks the tree. -/
theorem change {call : StateCall} (htree : StateTree states)
    (hchange : StateChange call states states') : StateTree states' := by
  cases hchange with
  | same hplaces hlive hactive =>
    refine ⟨fun i hi => ?_, fun p c => ?_⟩
    · rw [hplaces.hasState_iff i (WellPlaced i)]
      exact htree.wellPlaced i (hplaces.size_eq ▸ hi)
    · rw [hactive, hlive, hplaces.isChild_iff]
      exact htree.active_iff p c
  | root node c hbefore hafter =>
    subst hafter
    refine ⟨fun i hi => ?_, fun p c => ?_⟩
    · obtain rfl : i = 0 := by simpa using hi
      exact ⟨_, rfl, .inl ⟨rfl, rfl, rfl⟩⟩
    · refine iff_of_false ?_ ?_
      · rintro ⟨parent, hp, hactive⟩
        grind
      · rintro ⟨⟨child, hc, hparent⟩, -⟩
        grind
  | spawn p role hp hidle hrole hsize hplaces hlive hactive =>
    have hlt := hp.lt_size
    refine ⟨fun i hi => ?_, fun q c => ?_⟩
    · rw [hplaces i (WellPlaced i)]
      obtain hi | hi := Nat.lt_succ_iff_lt_or_eq.mp (hsize ▸ hi)
      · exact .inr (htree.wellPlaced i hi)
      · exact .inl ⟨hi, .inr ⟨hrole, p, hi ▸ hlt, rfl⟩⟩
    · have hchild : IsChild states' q c ↔ c = states.size ∧ p = q ∨ IsChild states q c := by
        simpa [IsChild] using hplaces c fun parent _ => parent = some q
      rw [hactive, hlive, hchild, htree.active_iff]
      by_cases hc : c = states.size
      · have hnew : ¬ IsChild states q states.size := fun hold => Nat.lt_irrefl _ hold.lt_size
        simp [hc, hnew, eq_comm]
      · simp [hc]
  | discard i hcall hi hends =>
    refine ⟨fun k hk => ?_, fun p c => ?_⟩
    · rw [hends.places.hasState_iff k (WellPlaced k)]
      exact htree.wellPlaced k (hends.places.size_eq ▸ hk)
    · rw [hends.isActiveChild_iff, hends.isLive_iff, hends.places.isChild_iff, htree.active_iff]
      constructor
      · rintro ⟨⟨hchild, hlive⟩, hother⟩
        exact ⟨hchild, hlive, fun hc => hother ⟨hc, hc ▸ hchild⟩⟩
      · rintro ⟨hchild, hlive, hc⟩
        exact ⟨⟨hchild, hlive⟩, fun hother => hc hother.1⟩

end StateTree

namespace TypingStates

variable {h : Hierarchy} {s : TypingStates} {i : Nat}

theorem isDiscarded_foldl (hi : IsDiscarded s.states i) (calls : List StateCall) :
    IsDiscarded (calls.foldl (StateCall.after h) s).states i := by
  induction calls generalizing s with
  | nil => exact hi
  | cons call calls ih => exact ih ((call.change h s).isDiscarded hi)

theorem stateTree_foldl (htree : StateTree s.states) (calls : List StateCall) :
    StateTree (calls.foldl (StateCall.after h) s).states := by
  induction calls generalizing s with
  | nil => exact htree
  | cons call calls ih => exact ih (htree.change (call.change h s))

theorem stateTree_reached (h : Hierarchy) (calls : List StateCall) :
    StateTree (reached h calls).states := by
  have hempty : StateTree ({} : TypingStates).states :=
    ⟨nofun, by simp [IsActiveChild, IsChild, HasState]⟩
  exact stateTree_foldl hempty calls

end TypingStates

theorem Typing.isOk_finish_iff (s : TypingStates) : (Typing.finish.run.run s).1.isOk ↔
    ∀ i < s.states.size, IsDiscarded s.states i := by
  rw [finish, run_bind, run_get]
  dsimp only
  cases hfirst : s.states.findIdx? (!·.discarded) with
  | none =>
    rw [Array.findIdx?_eq_none_iff] at hfirst
    refine iff_of_true rfl fun i hi => ⟨s.states[i], Array.getElem?_eq_getElem hi, ?_⟩
    simpa using hfirst _ (Array.getElem_mem hi)
  | some i =>
    obtain ⟨hi, hlive, -⟩ := Array.findIdx?_eq_some_iff_getElem.mp hfirst
    have hisLive : IsLive s.states i := ⟨_, Array.getElem?_eq_getElem hi, by simpa using hlive⟩
    exact iff_of_false nofun fun hall => (isDiscarded_iff.mp (hall i hi)).2 hisLive

/-- After any calls the states are a tree, in which the active child of a state is its only live
one. A discarded state stays discarded and refuses every call, which changes neither the states nor
the table. The table is handed out exactly when every state is discarded. -/
theorem calls_keep_tree (h : Hierarchy) (calls : List StateCall) :
    let s := TypingStates.reached h calls
    StateTree s.states ∧
    (∀ i, IsDiscarded s.states i →
      (∀ later, IsDiscarded (TypingStates.reached h (calls ++ later)).states i) ∧
      ∀ call : StateCall, call.subject? = some i →
        (call.run h).run.run s = (.error (.internal (.discardedState i)), s)) ∧
    ((Typing.finish.run.run s).1.isOk ↔ ∀ i < s.states.size, IsDiscarded s.states i) := by
  intro s
  refine ⟨?_, fun i hi => ⟨fun later => ?_, fun call hsubject => ?_⟩, Typing.isOk_finish_iff s⟩
  · exact TypingStates.stateTree_reached h calls
  · rw [TypingStates.reached, List.foldl_append]
    exact TypingStates.isDiscarded_foldl hi later
  · exact StateCall.run_of_isDiscarded hsubject hi

end Lowering
