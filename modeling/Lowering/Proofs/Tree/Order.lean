import Lowering.Proofs.Emission.Inline
import Lowering.Proofs.Tree.Occurrences

/-!
# Order of evaluation

Which nodes are evaluated before which others, and which reads wait for later operands: those that
stay in place until the text of their node is written. Main statements: both relations from those of
the children, and where the two nodes are in place and in a tree, one of them holds.
-/

namespace Lowering

/-! ## Pairs in a list -/

section

variable {α β : Type}

theorem pair_sublist_append {x y : α} {l l' : List α} :
    [x, y].Sublist (l ++ l') ↔
      [x, y].Sublist l ∨ (x ∈ l ∧ y ∈ l') ∨ [x, y].Sublist l' := by
  induction l with
  | nil => simp
  | cons z l ih =>
    simp only [List.cons_append, List.cons_sublist_cons', List.singleton_sublist, ih,
      List.mem_append, List.mem_cons]
    grind

theorem pair_sublist_flatMap {x y : β} {l : List α} {f : α → List β} :
    [x, y].Sublist (l.flatMap f) ↔ (∃ a ∈ l, [x, y].Sublist (f a)) ∨
      ∃ a b, [a, b].Sublist l ∧ x ∈ f a ∧ y ∈ f b := by
  induction l with
  | nil => simp
  | cons a l ih =>
    simp only [List.flatMap_cons, pair_sublist_append, ih, List.mem_flatMap,
      List.cons_sublist_cons', List.singleton_sublist, List.mem_cons]
    grind

/-- Of two elements of a list, one comes before the other unless they are the same. -/
theorem eq_or_pair_sublist {x y : α} {l : List α} (hx : x ∈ l) (hy : y ∈ l) :
    x = y ∨ [x, y].Sublist l ∨ [y, x].Sublist l := by
  induction l with
  | nil => cases hx
  | cons z l ih =>
    simp only [List.cons_sublist_cons', List.singleton_sublist, List.mem_cons] at hx hy ⊢
    grind

theorem mem_of_pair_sublist {x y : α} {l : List α} (h : [x, y].Sublist l) : x ∈ l ∧ y ∈ l :=
  ⟨h.subset List.mem_cons_self, h.subset (List.mem_cons_of_mem _ List.mem_cons_self)⟩

theorem not_pair_sublist_swap {x y : α} {l : List α} (hnodup : l.Nodup) (h : [x, y].Sublist l) :
    ¬ [y, x].Sublist l := by
  induction l with
  | nil => cases h
  | cons z l ih =>
    obtain ⟨hz, hl⟩ := List.nodup_cons.mp hnodup
    simp only [List.cons_sublist_cons', List.singleton_sublist] at h ⊢
    grind [mem_of_pair_sublist]

end

namespace Expr

theorem not_mem_of_pair {es : List Expr} {c c' : Expr} {i : NodeId}
    (hnodup : (es.flatMap ids).Nodup) (hpair : [c, c'].Sublist es) (hi : i ∈ c.ids) :
    i ∉ c'.ids := fun hi' =>
  List.nodup_iff_sublist.mp hnodup i (pair_sublist_flatMap.mpr (.inr ⟨c, c', hpair, hi, hi'⟩))

theorem eq_of_mem_ids {es : List Expr} {c c' : Expr} {i : NodeId} (hnodup : (es.flatMap ids).Nodup)
    (hc : c ∈ es) (hc' : c' ∈ es) (hi : i ∈ c.ids) (hi' : i ∈ c'.ids) : c = c' := by
  rcases eq_or_pair_sublist hc hc' with heq | hpair | hpair
  · exact heq
  · exact absurd hi' (not_mem_of_pair hnodup hpair hi)
  · exact absurd hi (not_mem_of_pair hnodup hpair hi')

/-- Node `a` is evaluated before node `b`. -/
def Precedes (e : Expr) (a b : NodeId) : Prop :=
  [a, b].Sublist (e.postorder.map id)

instance (e : Expr) (a b : NodeId) : Decidable (e.Precedes a b) :=
  inferInstanceAs (Decidable ([a, b].Sublist (e.postorder.map id)))

/-- The nodes whose texts make up the expression form of `e` as long as nothing has a name. -/
def inPlace : Expr → List NodeId :=
  fold fun e below => if e.isInline then e.id :: below.flatten else []

/-- The text of node `r` stays in place while an operand to the right of it performs the effect of
node `a`. -/
def Overtakes (e : Expr) (a r : NodeId) : Prop :=
  ∃ part ∈ e.occurrences, ∃ left right, [left, right].Sublist part.operands ∧
    r ∈ left.inPlace ∧ a ∈ right.effects

/-- Among siblings, node `a` is done before node `r` is written: it is evaluated before it, or `r`
waits for it. -/
def DoneFirst (siblings : List Expr) (a r : NodeId) : Prop :=
  (∃ e ∈ siblings, e.Precedes a r ∨ e.Overtakes a r) ∨
    ∃ e e', [e, e'].Sublist siblings ∧ a ∈ e.ids ∧ r ∈ e'.ids

theorem mem_inPlace {e : Expr} {r : NodeId} :
    r ∈ e.inPlace ↔ e.isInline ∧ (r = e.id ∨ ∃ child ∈ e.children, r ∈ child.inPlace) := by
  rw [inPlace, fold_eq]
  split <;> simp_all

theorem mem_ids_of_mem_inPlace {e : Expr} {r : NodeId} (h : r ∈ e.inPlace) : r ∈ e.ids := by
  induction e using childInduction with
  | step e ih =>
    obtain ⟨_, rfl | ⟨child, hchild, hr⟩⟩ := mem_inPlace.mp h
    · exact e.id_mem_ids
    · exact mem_ids_of_mem_children hchild (ih child hchild hr)

theorem mem_ids_of_mem_effects {e : Expr} {a : NodeId} (h : a ∈ e.effects) : a ∈ e.ids :=
  e.map_id_postorder_perm.subset ((List.filter_sublist.map id).subset h)

theorem Unshared.mem_effects_child {e child : Expr} {a : NodeId} (he : e.Unshared)
    (ha : a ∈ e.effects) (hchild : child ∈ e.children) (hmem : a ∈ child.ids) :
    a ∈ child.effects := by
  obtain ⟨hself, hchildren⟩ := (unshared_iff e).mp he
  rw [effects_eq, List.mem_append, List.mem_flatMap] at ha
  rcases ha with ⟨child', hchild', ha⟩ | ha
  · obtain rfl := eq_of_mem_ids hchildren hchild hchild' hmem (mem_ids_of_mem_effects ha)
    exact ha
  · have heq : a = e.id := by
      split at ha <;> simp_all
    exact absurd (List.mem_flatMap.mpr ⟨child, hchild, heq ▸ hmem⟩) hself

private theorem mem_postorder_iff {e : Expr} {a : NodeId} : a ∈ e.postorder.map id ↔ a ∈ e.ids :=
  e.map_id_postorder_perm.mem_iff

theorem precedes_iff {e : Expr} {a b : NodeId} :
    e.Precedes a b ↔ (∃ child ∈ e.children, child.Precedes a b) ∨
      (∃ c c', [c, c'].Sublist e.children ∧ a ∈ c.ids ∧ b ∈ c'.ids) ∨
      (∃ child ∈ e.children, a ∈ child.ids) ∧ b = e.id := by
  rw [Precedes, postorder_eq, List.map_append, List.map_flatMap, pair_sublist_append,
    pair_sublist_flatMap]
  simp only [mem_postorder_iff, List.mem_flatMap, List.map_cons, List.map_nil, List.mem_singleton,
    Precedes]
  have hsingle : ¬ [a, b].Sublist [e.id] := fun h => by simpa using h.length_le
  simp [hsingle, or_assoc]

theorem overtakes_iff {e : Expr} {a r : NodeId} :
    e.Overtakes a r ↔ (∃ child ∈ e.children, child.Overtakes a r) ∨
      ∃ left right, [left, right].Sublist e.operands ∧ r ∈ left.inPlace ∧ a ∈ right.effects := by
  simp only [Overtakes, occurrences_eq e, List.mem_cons, List.mem_flatMap]
  constructor
  · rintro ⟨part, rfl | ⟨child, hchild, hpart⟩, hpair⟩
    · exact .inr hpair
    · exact .inl ⟨child, hchild, part, hpart, hpair⟩
  · rintro (⟨child, hchild, part, hpart, hpair⟩ | hpair)
    · exact ⟨part, .inr ⟨child, hchild, hpart⟩, hpair⟩
    · exact ⟨e, .inl rfl, hpair⟩

/-- What is done before a node is written, from the children. -/
theorem precedes_or_overtakes_iff {e : Expr} {a r : NodeId} :
    e.Precedes a r ∨ e.Overtakes a r ↔ DoneFirst e.children a r ∨
      ((∃ child ∈ e.children, a ∈ child.ids) ∧ r = e.id) ∨
      ∃ left right, [left, right].Sublist e.operands ∧ r ∈ left.inPlace ∧ a ∈ right.effects := by
  rw [precedes_iff, overtakes_iff, DoneFirst]
  grind

theorem operands_sublist_children (e : Expr) : e.operands.Sublist e.children := by
  cases e <;> simp [operands, children]

theorem ids_subset_of_mem_occurrences {e part : Expr} (h : part ∈ e.occurrences) :
    part.ids ⊆ e.ids :=
  List.map_subset id (occurrences_subset h)

theorem mem_ids_of_done {e : Expr} {a r : NodeId} (h : e.Precedes a r ∨ e.Overtakes a r) :
    a ∈ e.ids ∧ r ∈ e.ids := by
  rcases h with hprecedes | ⟨part, hpart, left, right, hpair, hr, ha⟩
  · obtain ⟨ha, hr⟩ := mem_of_pair_sublist hprecedes
    exact ⟨mem_postorder_iff.mp ha, mem_postorder_iff.mp hr⟩
  · obtain ⟨hleft, hright⟩ := mem_of_pair_sublist (hpair.trans (operands_sublist_children part))
    have har : a ∈ part.ids := mem_ids_of_mem_children hright (mem_ids_of_mem_effects ha)
    have hrl : r ∈ part.ids := mem_ids_of_mem_children hleft (mem_ids_of_mem_inPlace hr)
    exact ⟨ids_subset_of_mem_occurrences hpart har, ids_subset_of_mem_occurrences hpart hrl⟩

theorem doneFirst_cons {c : Expr} {cs : List Expr} {a r : NodeId} :
    DoneFirst (c :: cs) a r ↔
      (c.Precedes a r ∨ c.Overtakes a r) ∨ (a ∈ c.ids ∧ ∃ c' ∈ cs, r ∈ c'.ids) ∨
        DoneFirst cs a r := by
  have hpairs : (∃ e e', [e, e'].Sublist (c :: cs) ∧ a ∈ e.ids ∧ r ∈ e'.ids) ↔
      (a ∈ c.ids ∧ ∃ c' ∈ cs, r ∈ c'.ids) ∨
        ∃ e e', [e, e'].Sublist cs ∧ a ∈ e.ids ∧ r ∈ e'.ids := by
    simp only [List.cons_sublist_cons', List.singleton_sublist]
    constructor
    · rintro ⟨e, e', hpair | ⟨rfl, he'⟩, ha, hr⟩
      · exact .inr ⟨e, e', hpair, ha, hr⟩
      · exact .inl ⟨ha, e', he', hr⟩
    · rintro (⟨ha, e', he', hr⟩ | ⟨e, e', hpair, ha, hr⟩)
      · exact ⟨c, e', .inr ⟨rfl, he'⟩, ha, hr⟩
      · exact ⟨e, e', .inl hpair, ha, hr⟩
  rw [DoneFirst, DoneFirst, hpairs, List.exists_mem_cons_iff, or_assoc]
  exact or_congr_right or_left_comm

theorem mem_ids_of_doneFirst {es : List Expr} {a r : NodeId} (h : DoneFirst es a r) :
    a ∈ es.flatMap ids ∧ r ∈ es.flatMap ids := by
  simp only [List.mem_flatMap]
  rcases h with ⟨e, he, hdone⟩ | ⟨e, e', hpair, ha, hr⟩
  · obtain ⟨ha, hr⟩ := mem_ids_of_done hdone
    exact ⟨⟨e, he, ha⟩, e, he, hr⟩
  · obtain ⟨he, he'⟩ := mem_of_pair_sublist hpair
    exact ⟨⟨e, he, ha⟩, e', he', hr⟩

/-- Two values in one text are those of operands. -/
theorem pair_sublist_operands {e c c' : Expr} (h : e.isInline ∨ e.isEffect)
    (hpair : [c, c'].Sublist e.children) : [c, c'].Sublist e.operands := by
  have hsingle (only : Expr) : ¬ [c, c'].Sublist [only] := fun h => by simpa using h.length_le
  cases e with
  | call | construct | assign => exact hpair
  | literal => exact hpair
  | cast => exact hpair
  | block node exprs =>
    rcases exprs with _ | ⟨only, _ | ⟨second, rest⟩⟩
    · simp [children] at hpair
    · exact absurd hpair (hsingle only)
    · simp [isInline, isEffect] at h
  | _ => simp [isInline, isEffect] at h

/-- Only nodes with one text for all their values have several operands. -/
theorem isInline_or_isEffect_of_pair {e c c' : Expr} (hpair : [c, c'].Sublist e.operands) :
    e.isInline ∨ e.isEffect := by
  have htwo : 2 ≤ e.operands.length := hpair.length_le
  have hshort (h : e.operands.length ≤ 1) : False := absurd (Nat.le_trans htwo h) (by decide)
  cases e with
  | call node feature receiver args =>
    cases h : feature.isInvocation <;> simp [isInline, isEffect, h]
  | decl node name type writeable init => exact (hshort (by cases init <;> simp [operands])).elim
  | construct | assign => exact .inr rfl
  | cast => exact .inl rfl
  | _ => exact (hshort (by simp [operands])).elim

theorem isEffect_of_isInline {e : Expr} (h : e.isInline) : e.isEffect = false := by
  unfold isInline at h
  split at h <;> simp_all [isEffect]

/-- Effects of a child are done before what is in place of a child of the same text. -/
theorem done_of_mem_children {e c c' : Expr} {a r : NodeId} (h : e.isInline ∨ e.isEffect)
    (hc : c ∈ e.children) (hc' : c' ∈ e.children) (ha : a ∈ c.effects) (hr : r ∈ c'.inPlace)
    (hsame : c = c' → c.Precedes a r ∨ c.Overtakes a r) : e.Precedes a r ∨ e.Overtakes a r := by
  rw [precedes_or_overtakes_iff]
  rcases eq_or_pair_sublist hc hc' with heq | hpair | hpair
  · exact .inl (.inl ⟨c, hc, hsame heq⟩)
  · exact .inl (.inr ⟨c, c', hpair, mem_ids_of_mem_effects ha, mem_ids_of_mem_inPlace hr⟩)
  · exact .inr (.inr ⟨c', c, pair_sublist_operands h hpair, hr, ha⟩)

/-- Whatever is in place in a tree is written after all effects of the tree. -/
theorem done_of_mem_inPlace {e : Expr} {a r : NodeId} (hr : r ∈ e.inPlace) (ha : a ∈ e.effects) :
    e.Precedes a r ∨ e.Overtakes a r := by
  induction e using childInduction with
  | step e ih =>
    obtain ⟨hinline, hr⟩ := mem_inPlace.mp hr
    rw [effects_eq, isEffect_of_isInline hinline] at ha
    obtain ⟨c, hc, ha⟩ := List.mem_flatMap.mp (by simpa using ha)
    rcases hr with rfl | ⟨c', hc', hr⟩
    · exact precedes_or_overtakes_iff.mpr (.inr (.inl ⟨⟨c, hc, mem_ids_of_mem_effects ha⟩, rfl⟩))
    · apply done_of_mem_children (.inl hinline) hc hc' ha hr
      rintro rfl
      exact ih c hc hr ha

/-- Nodes of one child are done in the order of the child. -/
theorem done_of_mem_child {e child : Expr} {a r : NodeId} (he : e.Unshared)
    (hchild : child ∈ e.children) (ha : a ∈ child.ids) (hr : r ∈ child.ids)
    (hdone : e.Precedes a r ∨ e.Overtakes a r) : child.Precedes a r ∨ child.Overtakes a r := by
  obtain ⟨hself, hnodup⟩ := (unshared_iff e).mp he
  rcases precedes_or_overtakes_iff.mp hdone with
    (⟨c, hc, hdone⟩ | ⟨c, c', hpair, hac, hrc⟩) | ⟨_, rfl⟩ | ⟨left, right, hpair, hleft, hright⟩
  · obtain rfl := eq_of_mem_ids hnodup hchild hc ha (mem_ids_of_done hdone).1
    exact hdone
  · obtain rfl := eq_of_mem_ids hnodup hchild (mem_of_pair_sublist hpair).1 ha hac
    exact absurd hrc (not_mem_of_pair hnodup hpair hr)
  · exact absurd (List.mem_flatMap.mpr ⟨child, hchild, hr⟩) hself
  · have hpair := hpair.trans e.operands_sublist_children
    obtain rfl := eq_of_mem_ids hnodup hchild (mem_of_pair_sublist hpair).1 hr
      (mem_ids_of_mem_inPlace hleft)
    exact absurd (mem_ids_of_mem_effects hright) (not_mem_of_pair hnodup hpair ha)

private theorem mem_inPlace_of_pair {e left right : Expr} {a r : NodeId} (he : e.Unshared)
    (hpair : [left, right].Sublist e.operands) (hr : r ∈ left.ids) (ha : a ∈ right.ids)
    (hdone : e.Precedes a r ∨ e.Overtakes a r) : r ∈ left.inPlace := by
  obtain ⟨hself, hnodup⟩ := (unshared_iff e).mp he
  have hpairs : [left, right].Sublist e.children := hpair.trans e.operands_sublist_children
  obtain ⟨hleft, hright⟩ := mem_of_pair_sublist hpairs
  rcases precedes_or_overtakes_iff.mp hdone with
    (⟨c, hc, hdone⟩ | ⟨c, c', hpair', hac, hrc⟩) | ⟨_, rfl⟩ | ⟨c, _, hpair', hrc, _⟩
  · obtain ⟨hac, hrc⟩ := mem_ids_of_done hdone
    obtain rfl := eq_of_mem_ids hnodup hc hright hac ha
    exact absurd hrc (not_mem_of_pair hnodup hpairs hr)
  · have hforth : [r, a].Sublist (e.children.flatMap ids) :=
      pair_sublist_flatMap.mpr (.inr ⟨left, right, hpairs, hr, ha⟩)
    have hback : [a, r].Sublist (e.children.flatMap ids) :=
      pair_sublist_flatMap.mpr (.inr ⟨c, c', hpair', hac, hrc⟩)
    exact absurd hback (not_pair_sublist_swap hnodup hforth)
  · exact absurd (List.mem_flatMap.mpr ⟨left, hleft, hr⟩) hself
  · have hc : c ∈ e.children :=
      (mem_of_pair_sublist (hpair'.trans e.operands_sublist_children)).1
    obtain rfl := eq_of_mem_ids hnodup hc hleft (mem_ids_of_mem_inPlace hrc) hr
    exact hrc

/-- Of an earlier operand, only what is in place is written after the effects of a later one. -/
theorem mem_inPlace_of_done {e part left right : Expr} {a r : NodeId} (he : e.Unshared)
    (hpart : part ∈ e.occurrences) (hpair : [left, right].Sublist part.operands)
    (hr : r ∈ left.ids) (ha : a ∈ right.ids) (hdone : e.Precedes a r ∨ e.Overtakes a r) :
    r ∈ left.inPlace := by
  induction e using childInduction with
  | step e ih =>
    rw [occurrences_eq] at hpart
    rcases List.mem_cons.mp hpart with rfl | hpart
    · exact mem_inPlace_of_pair he hpair hr ha hdone
    · obtain ⟨child, hchild, hpart⟩ := List.mem_flatMap.mp hpart
      obtain ⟨hleft, hright⟩ := mem_of_pair_sublist (hpair.trans part.operands_sublist_children)
      have hsubset : part.ids ⊆ child.ids := ids_subset_of_mem_occurrences hpart
      have hrc : r ∈ child.ids := hsubset (mem_ids_of_mem_children hleft hr)
      have hac : a ∈ child.ids := hsubset (mem_ids_of_mem_children hright ha)
      exact ih child hchild (he.child hchild) hpart (done_of_mem_child he hchild hac hrc hdone)

end Expr

end Lowering
