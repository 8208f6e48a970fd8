import Lowering.Proofs.Hierarchy.Join
import Mathlib.Data.List.Perm.Subperm

/-!
# Ways up the hierarchy

The ancestors of a class are found by a breadth-first search that neither passes the root nor walks
through a name twice. Main statements: the search lists each name once, those that are nearer first,
and besides the root exactly the names that some way up reaches; so a class is below another one
exactly if a way up leads from it there.
-/

namespace Lowering.Hierarchy

variable {h : Hierarchy} {j k level : Nat} {m n p : String} {seen here next queue : List String}

/-- There is a way of `k` edges from `m` up to the given name, and the root is not on it. -/
inductive Climb (h : Hierarchy) (m : String) : Nat → String → Prop
  | start (hm : m ≠ HostType.objectName) : Climb h m 0 m
  | up {k : Nat} {n p : String} (hn : Climb h m k n) (hp : p ∈ h.parents n)
      (hroot : p ≠ HostType.objectName) : Climb h m (k + 1) p

/-- Some way up from `m` reaches `n`. -/
def Reaches (h : Hierarchy) (m n : String) : Prop :=
  ∃ k, h.Climb m k n

/-! ## Ways up -/

namespace Climb

theorem ne_root (hn : h.Climb m k n) : n ≠ HostType.objectName := by
  cases hn with
  | start hm => exact hm
  | up _ _ hroot => exact hroot

theorem start_ne_root (hn : h.Climb m k n) : m ≠ HostType.objectName := by
  induction hn with
  | start hm => exact hm
  | up _ _ _ ih => exact ih

theorem eq_of_zero (hn : h.Climb m 0 n) : n = m := by
  cases hn
  rfl

theorem trans (hn : h.Climb m j n) (hp : h.Climb n k p) : h.Climb m (j + k) p := by
  induction hp with
  | start => exact hn
  | up _ hparent hroot ih => exact ih.up hparent hroot

end Climb

theorem Reaches.trans (hn : h.Reaches m n) (hp : h.Reaches n p) : h.Reaches m p := by
  obtain ⟨j, hn⟩ := hn
  obtain ⟨k, hp⟩ := hp
  exact ⟨j + k, hn.trans hp⟩

theorem Reaches.start_ne_root (hn : h.Reaches m n) : m ≠ HostType.objectName :=
  hn.elim fun _ => Climb.start_ne_root

/-- Every way up from `m` to `p` is at least as long as the shortest one to `n`. -/
def NoFarther (h : Hierarchy) (m n p : String) : Prop :=
  ∀ k, h.Climb m k p → ∃ j ≤ k, h.Climb m j n

/-! ## What a search knows while it runs

The search from `m` has listed `seen`. Of the names `level` edges up it still has to look at `here`,
and on the next level it has found `next` so far. -/

private structure Searching (h : Hierarchy) (m : String) (level : Nat)
    (seen here next : List String) : Prop where
  climbHere : ∀ n ∈ here, n ≠ HostType.objectName → h.Climb m level n
  climbNext : ∀ n ∈ next, n ≠ HostType.objectName → h.Climb m (level + 1) n
  reached : ∀ k n, h.Climb m k n → k ≤ level → n ∈ seen ∨ k = level ∧ n ∈ here
  closed : ∀ n ∈ seen, ∀ p ∈ h.parents n, p ≠ HostType.objectName →
    p ∈ seen ∨ p ∈ here ∨ p ∈ next

namespace Searching

theorem skip (hs : h.Searching m level seen (n :: here) next)
    (hn : n = HostType.objectName ∨ n ∈ seen) : h.Searching m level seen here next where
  climbHere p hp := hs.climbHere p (List.mem_cons_of_mem _ hp)
  climbNext := hs.climbNext
  reached k p hp hk := by
    rcases hs.reached k p hp hk with hseen | ⟨hlevel, hmem⟩
    · exact .inl hseen
    rcases List.mem_cons.mp hmem with rfl | hmem
    · exact .inl (hn.resolve_left hp.ne_root)
    · exact .inr ⟨hlevel, hmem⟩
  closed q hq p hp hroot := by
    rcases hs.closed q hq p hp hroot with hseen | hhere | hnext
    · exact .inl hseen
    · rcases List.mem_cons.mp hhere with rfl | hhere
      · exact .inl (hn.resolve_left hroot)
      · exact .inr (.inl hhere)
    · exact .inr (.inr hnext)

theorem list (hs : h.Searching m level seen (n :: here) next) (hroot : n ≠ HostType.objectName) :
    h.Searching m level (n :: seen) here (next ++ h.parents n) where
  climbHere p hp := hs.climbHere p (List.mem_cons_of_mem _ hp)
  climbNext p hp hproot := by
    rcases List.mem_append.mp hp with hp | hp
    · exact hs.climbNext p hp hproot
    · exact (hs.climbHere n List.mem_cons_self hroot).up hp hproot
  reached k p hp hk := by
    rcases hs.reached k p hp hk with hseen | ⟨hlevel, hmem⟩
    · exact .inl (List.mem_cons_of_mem _ hseen)
    rcases List.mem_cons.mp hmem with rfl | hmem
    · exact .inl List.mem_cons_self
    · exact .inr ⟨hlevel, hmem⟩
  closed q hq p hp hproot := by
    rcases List.mem_cons.mp hq with rfl | hq
    · exact .inr (.inr (List.mem_append_right _ hp))
    rcases hs.closed q hq p hp hproot with hseen | hhere | hnext
    · exact .inl (List.mem_cons_of_mem _ hseen)
    · rcases List.mem_cons.mp hhere with rfl | hhere
      · exact .inl List.mem_cons_self
      · exact .inr (.inl hhere)
    · exact .inr (.inr (List.mem_append_left _ hnext))

/-- A level is done: all that is right above it was found. -/
theorem ascend (hs : h.Searching m level seen [] next) :
    h.Searching m (level + 1) seen next [] where
  climbHere := hs.climbNext
  climbNext p hp := by cases hp
  reached k p hp hk := by
    have hlisted {k : Nat} {p : String} (hp : h.Climb m k p) (hk : k ≤ level) : p ∈ seen :=
      (hs.reached k p hp hk).resolve_right fun h => by cases h.2
    rcases Nat.le_succ_iff.mp hk with hk | rfl
    · exact .inl (hlisted hp hk)
    cases hp with
    | up hq hparent hroot =>
      rcases hs.closed _ (hlisted hq (Nat.le_refl _)) p hparent hroot with hseen | hhere | hnext
      · exact .inl hseen
      · cases hhere
      · exact .inr ⟨rfl, hnext⟩
  closed q hq p hp hroot := by
    rcases hs.closed q hq p hp hroot with hseen | hhere | hnext
    · exact .inl hseen
    · cases hhere
    · exact .inr (.inl hnext)

end Searching

private def Frontier (h : Hierarchy) (m : String) (seen queue : List String) : Prop :=
  ∃ level here next, queue = here ++ next ∧ h.Searching m level seen here next

namespace Frontier

theorem start (h : Hierarchy) (m : String) : h.Frontier m [] [m] :=
  ⟨0, [m], [], rfl, {
    climbHere n hn hroot := by
      obtain rfl := List.mem_singleton.mp hn
      exact .start hroot
    climbNext n hn := by cases hn
    reached k n hn hk := by
      obtain rfl := Nat.le_zero.mp hk
      exact .inr ⟨rfl, List.mem_singleton.mpr hn.eq_of_zero⟩
    closed n hn := by cases hn }⟩

/-- The first name of the queue is on the level that is looked at. -/
theorem head (hf : h.Frontier m seen (n :: queue)) :
    ∃ level here next, queue = here ++ next ∧ h.Searching m level seen (n :: here) next := by
  obtain ⟨level, here, next, hqueue, hs⟩ := hf
  cases here with
  | cons first here =>
    obtain ⟨rfl, rfl⟩ := List.cons.inj hqueue
    exact ⟨level, here, next, rfl, hs⟩
  | nil =>
    rw [List.nil_append] at hqueue
    subst hqueue
    exact ⟨level + 1, queue, [], (List.append_nil _).symm, hs.ascend⟩

theorem skip (hf : h.Frontier m seen (n :: queue)) (hn : n = HostType.objectName ∨ n ∈ seen) :
    h.Frontier m seen queue := by
  obtain ⟨level, here, next, hqueue, hs⟩ := hf.head
  exact ⟨level, here, next, hqueue, hs.skip hn⟩

theorem list (hf : h.Frontier m seen (n :: queue)) (hroot : n ≠ HostType.objectName) :
    h.Frontier m (n :: seen) (queue ++ h.parents n) := by
  obtain ⟨level, here, next, rfl, hs⟩ := hf.head
  exact ⟨level, here, next ++ h.parents n, List.append_assoc _ _ _, hs.list hroot⟩

/-- No name that is not listed yet is nearer than the first one of the queue. -/
theorem nearest (hf : h.Frontier m seen (n :: queue)) (hroot : n ≠ HostType.objectName) :
    ∃ j, h.Climb m j n ∧ ∀ k p, h.Climb m k p → p ∉ seen → j ≤ k := by
  obtain ⟨level, here, next, -, hs⟩ := hf.head
  refine ⟨level, hs.climbHere n List.mem_cons_self hroot, fun k p hp hnew => ?_⟩
  by_contra hlt
  rcases hs.reached k p hp (Nat.le_of_not_le hlt) with hseen | ⟨hlevel, -⟩
  · exact hnew hseen
  · exact hlt (Nat.le_of_eq hlevel.symm)

/-- When nothing is left to look at, everything was listed. -/
theorem finished (hf : h.Frontier m seen []) (hn : h.Climb m k n) : n ∈ seen := by
  obtain ⟨level, here, next, hqueue, hs⟩ := hf
  obtain ⟨rfl, rfl⟩ := List.append_eq_nil_iff.mp hqueue.symm
  induction hn with
  | start hm =>
    exact (hs.reached 0 m (.start hm) (Nat.zero_le _)).resolve_right fun h => by cases h.2
  | up _ hparent hroot ih =>
    rcases hs.closed _ ih _ hparent hroot with hseen | hhere | hnext
    · exact hseen
    · cases hhere
    · cases hnext

end Frontier

/-! ## What a search lists -/

theorem walk_skip {steps : Nat} (hn : n = HostType.objectName ∨ n ∈ seen) :
    h.walk (steps + 1) seen (n :: queue) = h.walk steps seen queue := by
  rw [walk, if_pos hn]

theorem walk_list {steps : Nat} (hn : ¬ (n = HostType.objectName ∨ n ∈ seen)) :
    h.walk (steps + 1) seen (n :: queue) =
      n :: h.walk steps (n :: seen) (queue ++ h.parents n) := by
  rw [walk, if_neg hn]

private theorem not_mem_seen {steps : Nat} (hn : n ∈ h.walk steps seen queue) : n ∉ seen := by
  induction steps generalizing seen queue with
  | zero => cases hn
  | succ steps ih =>
    cases queue with
    | nil => cases hn
    | cons first queue =>
      by_cases hfirst : first = HostType.objectName ∨ first ∈ seen
      · rw [walk_skip hfirst] at hn
        exact ih hn
      · rw [walk_list hfirst] at hn
        rcases List.mem_cons.mp hn with rfl | hn
        · exact fun hseen => hfirst (.inr hseen)
        · exact fun hseen => ih hn (List.mem_cons_of_mem _ hseen)

private theorem nodup_walk (h : Hierarchy) (steps : Nat) (seen queue : List String) :
    (h.walk steps seen queue).Nodup := by
  induction steps generalizing seen queue with
  | zero => exact List.nodup_nil
  | succ steps ih =>
    cases queue with
    | nil => exact List.nodup_nil
    | cons first queue =>
      by_cases hfirst : first = HostType.objectName ∨ first ∈ seen
      · rw [walk_skip hfirst]
        exact ih seen queue
      · rw [walk_list hfirst]
        exact List.nodup_cons.mpr ⟨fun hmem => not_mem_seen hmem List.mem_cons_self, ih _ _⟩

private theorem Frontier.reaches {steps : Nat} (hf : h.Frontier m seen queue)
    (hn : n ∈ h.walk steps seen queue) : h.Reaches m n := by
  induction steps generalizing seen queue with
  | zero => cases hn
  | succ steps ih =>
    cases queue with
    | nil => cases hn
    | cons first queue =>
      by_cases hfirst : first = HostType.objectName ∨ first ∈ seen
      · rw [walk_skip hfirst] at hn
        exact ih (hf.skip hfirst) hn
      · have hroot : first ≠ HostType.objectName := fun heq => hfirst (.inl heq)
        rw [walk_list hfirst] at hn
        rcases List.mem_cons.mp hn with rfl | hn
        · exact (hf.nearest hroot).elim fun j hj => ⟨j, hj.1⟩
        · exact ih (hf.list hroot) hn

private theorem Frontier.pairwise (hf : h.Frontier m seen queue) (steps : Nat) :
    (h.walk steps seen queue).Pairwise (h.NoFarther m) := by
  induction steps generalizing seen queue with
  | zero => exact .nil
  | succ steps ih =>
    cases queue with
    | nil => exact .nil
    | cons first queue =>
      by_cases hfirst : first = HostType.objectName ∨ first ∈ seen
      · rw [walk_skip hfirst]
        exact ih (hf.skip hfirst)
      · have hroot : first ≠ HostType.objectName := fun heq => hfirst (.inl heq)
        rw [walk_list hfirst]
        refine .cons (fun n hn k hk => ?_) (ih (hf.list hroot))
        obtain ⟨j, hj, hnearest⟩ := hf.nearest hroot
        have hnew : n ∉ seen := fun hseen => not_mem_seen hn (List.mem_cons_of_mem _ hseen)
        exact ⟨j, hnearest k n hk hnew, hj⟩

/-! ## Enough steps for a search

There are steps for the queue and for all parents of every name that is not listed yet. -/

private def allParents (h : Hierarchy) : List String :=
  h.classes.flatMap (·.2.parents)

private theorem parents_sublist (h : Hierarchy) (n : String) :
    (h.parents n).Sublist h.allParents := by
  unfold parents
  split
  · rename_i c hfind
    obtain ⟨before, after, hclasses, -⟩ := List.lookup_eq_some_iff.mp hfind
    rw [allParents, hclasses, List.flatMap_append, List.flatMap_cons]
    exact (List.sublist_append_left _ _).trans (List.sublist_append_right _ _)
  · exact List.nil_sublist _

private theorem walkBound_eq (h : Hierarchy) :
    h.walkBound = (h.allParents.length + 1) * h.allParents.length + 2 := by
  have hedges (classes : List (TypeHash × ClassDecl)) :
      classes.foldr (fun entry count => entry.2.parents.length + count) 0 =
        (classes.flatMap (·.2.parents)).length := by
    induction classes with
    | nil => rfl
    | cons entry classes ih =>
      simp only [List.foldr_cons, List.flatMap_cons, List.length_append, ih]
  simp only [walkBound, hedges, allParents]

private structure Sustained (h : Hierarchy) (m : String) (steps : Nat) (seen queue : List String) :
    Prop where
  nodup : seen.Nodup
  seenKnown : seen ⊆ m :: h.allParents
  queueKnown : queue ⊆ m :: h.allParents
  enough : (h.allParents.length + 1 - seen.length) * h.allParents.length + queue.length ≤ steps

namespace Sustained

variable {steps : Nat}

theorem start (h : Hierarchy) (m : String) : h.Sustained m h.walkBound [] [m] := by
  refine ⟨List.nodup_nil, List.nil_subset _, List.cons_subset_cons _ (List.nil_subset _), ?_⟩
  rw [walkBound_eq]
  exact Nat.add_le_add_left (Nat.le_succ 1) _

theorem skip (hs : h.Sustained m (steps + 1) seen (n :: queue)) :
    h.Sustained m steps seen queue where
  nodup := hs.nodup
  seenKnown := hs.seenKnown
  queueKnown := (List.cons_subset.mp hs.queueKnown).2
  enough := Nat.le_of_succ_le_succ hs.enough

theorem list (hs : h.Sustained m (steps + 1) seen (n :: queue)) (hnew : n ∉ seen) :
    h.Sustained m steps (n :: seen) (queue ++ h.parents n) := by
  obtain ⟨hn, hqueue⟩ := List.cons_subset.mp hs.queueKnown
  have hnodup : (n :: seen).Nodup := List.nodup_cons.mpr ⟨hnew, hs.nodup⟩
  have hseen : n :: seen ⊆ m :: h.allParents := List.cons_subset.mpr ⟨hn, hs.seenKnown⟩
  have hparents := h.parents_sublist n
  refine ⟨hnodup, hseen, List.append_subset.mpr ⟨hqueue, fun p hp => ?_⟩, ?_⟩
  · exact List.mem_cons_of_mem _ (hparents.subset hp)
  · -- Listing one more name pays for its parents.
    have hroom : (n :: seen).length ≤ (m :: h.allParents).length :=
      (List.subperm_of_subset hnodup hseen).length_le
    have hlength := hparents.length_le
    have henough := hs.enough
    rw [List.length_cons, List.length_cons] at hroom
    obtain ⟨rest, hrest⟩ := Nat.exists_eq_add_of_le hroom
    have hleft : h.allParents.length + 1 - seen.length = rest + 1 := by omega
    have hleft' : h.allParents.length + 1 - (n :: seen).length = rest := by
      rw [List.length_cons]
      omega
    rw [hleft, List.length_cons, Nat.succ_mul] at henough
    rw [hleft', List.length_append]
    omega

end Sustained

private theorem Frontier.complete {steps : Nat} (hf : h.Frontier m seen queue)
    (hs : h.Sustained m steps seen queue) (hn : h.Climb m k n) :
    n ∈ seen ∨ n ∈ h.walk steps seen queue := by
  induction steps generalizing seen queue with
  | zero =>
    have hqueue : queue = [] := List.length_eq_zero_iff.mp (by have := hs.enough; omega)
    subst hqueue
    exact .inl (hf.finished hn)
  | succ steps ih =>
    cases queue with
    | nil => exact .inl (hf.finished hn)
    | cons first queue =>
      by_cases hfirst : first = HostType.objectName ∨ first ∈ seen
      · rw [walk_skip hfirst]
        exact ih (hf.skip hfirst) hs.skip
      · obtain ⟨hroot, hnew⟩ := not_or.mp hfirst
        rw [walk_list hfirst]
        rcases ih (hf.list hroot) (hs.list hnew) with hmem | hmem
        · rcases List.mem_cons.mp hmem with rfl | hseen
          · exact .inr List.mem_cons_self
          · exact .inl hseen
        · exact .inr (List.mem_cons_of_mem _ hmem)

/-! ## A search without a bound -/

/-- With `seen` listed and `queue` left to look at, a search that runs until its queue is empty ends
after it has listed the given names. -/
inductive Searches (h : Hierarchy) : List String → List String → List String → Prop
  | done {seen : List String} : Searches h seen [] []
  | skip {seen queue found : List String} {n : String} (hn : n = HostType.objectName ∨ n ∈ seen)
      (hrest : Searches h seen queue found) : Searches h seen (n :: queue) found
  | list {seen queue found : List String} {n : String}
      (hn : ¬ (n = HostType.objectName ∨ n ∈ seen))
      (hrest : Searches h (n :: seen) (queue ++ h.parents n) found) :
      Searches h seen (n :: queue) (n :: found)

/-- There is only one way for a search to end. -/
theorem Searches.unique {found other : List String} (hfound : h.Searches seen queue found)
    (hother : h.Searches seen queue other) : found = other := by
  induction hfound generalizing other with
  | done =>
    cases hother
    rfl
  | skip hn _ ih =>
    cases hother with
    | skip _ hrest => exact ih hrest
    | list hnew _ => exact absurd hn hnew
  | @list seen queue found n hn _ ih =>
    cases hother with
    | skip hold _ => exact absurd hold hn
    | list _ hrest => exact congrArg (n :: ·) (ih hrest)

private theorem Sustained.searches {steps : Nat} (hs : h.Sustained m steps seen queue) :
    h.Searches seen queue (h.walk steps seen queue) := by
  induction steps generalizing seen queue with
  | zero =>
    have hqueue : queue = [] := List.length_eq_zero_iff.mp (by have := hs.enough; omega)
    subst hqueue
    exact .done
  | succ steps ih =>
    cases queue with
    | nil => exact .done
    | cons first queue =>
      by_cases hfirst : first = HostType.objectName ∨ first ∈ seen
      · rw [walk_skip hfirst]
        exact .skip hfirst (ih hs.skip)
      · rw [walk_list hfirst]
        exact .list hfirst (ih (hs.list fun hseen => hfirst (.inr hseen)))

/-- A search from any name comes to an end, and lists what the search with a bound lists. -/
theorem searches_walk (h : Hierarchy) (m : String) :
    h.Searches [] [m] (h.walk h.walkBound [] [m]) :=
  (Sustained.start h m).searches

/-! ## Ancestors -/

/-- Below the root, the ancestors of a class are the names that ways up from it reach, each once and
the nearer ones first. -/
theorem exists_ancestors_eq_reached (h : Hierarchy) (m : String) :
    ∃ below, h.ancestors m = below ++ [HostType.objectName] ∧ below.Nodup ∧
      below.Pairwise (h.NoFarther m) ∧ ∀ n, n ∈ below ↔ h.Reaches m n := by
  have hf := Frontier.start h m
  refine ⟨_, rfl, nodup_walk h _ _ _, hf.pairwise _, fun n => ⟨hf.reaches, fun ⟨k, hn⟩ => ?_⟩⟩
  exact (hf.complete (Sustained.start h m) hn).resolve_left List.not_mem_nil

theorem mem_ancestors_iff : n ∈ h.ancestors m ↔ n = HostType.objectName ∨ h.Reaches m n := by
  obtain ⟨below, hbelow, -, -, hmem⟩ := h.exists_ancestors_eq_reached m
  rw [hbelow, List.mem_append, List.mem_singleton, hmem, or_comm]

theorem isSubclass_iff : h.isSubclass m n ↔ n = HostType.objectName ∨ h.Reaches m n := by
  simp only [isSubclass, Bool.or_eq_true, beq_iff_eq, List.contains_iff_mem, mem_ancestors_iff]
  exact or_self_left

end Lowering.Hierarchy
