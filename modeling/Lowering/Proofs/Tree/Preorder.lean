import Lowering.Proofs.Tree.Occurrences

/-!
# Descendants in preorder

The walk over the nodes below a node keeps a stack instead of recursing. Main statement: it ends,
and has then visited every place below the node once, each before the places below it and these
before the places of later siblings.
-/

namespace Lowering

/-! ## Walks to the end -/

namespace Walk

/-- Node after node, the walk visits these, and then there is none left. -/
inductive Visits : Walk → List Expr → Prop
  | done {w : Walk} (h : w.next? = none) : Visits w []
  | next {w after : Walk} {e : Expr} {visited : List Expr} (h : w.next? = some (e, after))
      (hrest : Visits after visited) : Visits w (e :: visited)

private theorem Visits.eq_flatMap {w : Walk} {visited nodes : List Expr} (h : w.Visits visited)
    (hw : w = ofList nodes) : visited = nodes.flatMap Expr.occurrences := by
  induction h generalizing nodes with
  | done hnone =>
    cases nodes with
    | nil => rfl
    | cons e rest =>
      rw [hw, next?_ofList_cons] at hnone
      cases hnone
  | next hsome _ ih =>
    cases nodes with
    | nil =>
      rw [hw, next?_ofList_nil] at hsome
      cases hsome
    | cons first rest =>
      rw [hw, next?_ofList_cons] at hsome
      obtain ⟨rfl, rfl⟩ := Prod.mk.inj (Option.some.inj hsome)
      rw [ih rfl, List.flatMap_append, List.flatMap_cons, Expr.occurrences_eq first,
        List.cons_append]

private theorem visits_flatMap (nodes : List Expr) :
    (ofList nodes).Visits (nodes.flatMap Expr.occurrences) := by
  induction hlength : (nodes.flatMap Expr.occurrences).length generalizing nodes with
  | zero =>
    cases nodes with
    | nil => exact .done next?_ofList_nil
    | cons e rest => simp [Expr.occurrences_eq e] at hlength
  | succ left ih =>
    cases nodes with
    | nil => cases hlength
    | cons e rest =>
      have hvisited : (e :: rest).flatMap Expr.occurrences =
          e :: (e.children ++ rest).flatMap Expr.occurrences := by
        rw [List.flatMap_cons, Expr.occurrences_eq e, List.cons_append, List.flatMap_append]
      rw [hvisited, List.length_cons] at hlength
      rw [hvisited]
      exact .next (next?_ofList_cons e rest) (ih _ (Nat.succ.inj hlength))

theorem visits_ofList_iff {nodes visited : List Expr} :
    (ofList nodes).Visits visited ↔ visited = nodes.flatMap Expr.occurrences := by
  constructor
  · exact fun h => h.eq_flatMap rfl
  · rintro rfl
    exact visits_flatMap nodes

end Walk

namespace Expr

theorem descendants_eq (e : Expr) : e.descendants = e.children.flatMap occurrences :=
  (List.cons.inj (e.cons_descendants.trans e.occurrences_eq)).2

private theorem size_lt_of_mem_descendants {e part : Expr} (hpart : part ∈ e.descendants) :
    part.size < e.size := by
  induction e using childInduction with
  | step e ih =>
    rw [descendants_eq] at hpart
    obtain ⟨child, hchild, hpart⟩ := List.mem_flatMap.mp hpart
    have hsize := size_lt_of_mem_children hchild
    rw [← cons_descendants] at hpart
    rcases List.mem_cons.mp hpart with rfl | hpart
    · exact hsize
    · exact Nat.lt_trans (ih child hchild hpart) hsize

/-! ## Places -/

/-- The node at the place that is reached by going down to the children with these numbers. -/
def at? : Expr → List Nat → Option Expr
  | e, [] => some e
  | e, i :: path => e.children[i]?.bind (at? · path)

/-- The places below the root, each before those below it and these before those of later
siblings. -/
def places : Expr → List (List Nat) :=
  fold fun _ below => below.zipIdx.flatMap fun entry => ([] :: entry.1).map (entry.2 :: ·)

private theorem places_eq (e : Expr) : e.places =
    e.children.zipIdx.flatMap fun entry => ([] :: entry.1.places).map (entry.2 :: ·) := by
  rw [places, fold_eq, List.zipIdx_map, List.flatMap_map]
  rfl

private theorem mem_places_cons {e : Expr} {i : Nat} {path : List Nat} :
    i :: path ∈ e.places ↔
      ∃ child, e.children[i]? = some child ∧ (path = [] ∨ path ∈ child.places) := by
  simp only [places_eq e, List.mem_flatMap, List.mem_zipIdx_iff_getElem?, List.mem_map,
    List.mem_cons, List.cons.injEq, Prod.exists]
  constructor
  · rintro ⟨child, j, hchild, below, hbelow, rfl, rfl⟩
    exact ⟨child, hchild, hbelow⟩
  · rintro ⟨child, hchild, hpath⟩
    exact ⟨child, i, hchild, path, hpath, rfl, rfl⟩

private theorem nil_not_mem_places (e : Expr) : [] ∉ e.places := by
  simp [places_eq e]

private theorem mem_places_iff {e : Expr} {path : List Nat} :
    path ∈ e.places ↔ path ≠ [] ∧ (e.at? path).isSome := by
  induction path generalizing e with
  | nil => simp [nil_not_mem_places]
  | cons i path ih =>
    rw [mem_places_cons, at?]
    cases e.children[i]? with
    | none => simp
    | some child => cases path <;> simp_all [at?]

private theorem places_pairwise (e : Expr) : e.places.Pairwise (· < ·) := by
  induction e using childInduction with
  | step e ih =>
    rw [places_eq, List.pairwise_flatMap]
    refine ⟨fun entry hentry => ?_, ?_⟩
    · have hchild : entry.1 ∈ e.children :=
        List.mem_of_getElem? (List.mem_zipIdx_iff_getElem?.mp hentry)
      rw [List.pairwise_map, List.pairwise_cons]
      refine ⟨fun path hpath => ?_, (ih _ hchild).imp fun h => ?_⟩
      · cases path with
        | nil => exact absurd hpath (nil_not_mem_places _)
        | cons => simp
      · simpa using h
    · have hnumbers : (e.children.zipIdx.map Prod.snd).Pairwise (· < ·) := by
        rw [List.zipIdx_map_snd]
        exact List.pairwise_lt_range' 1
      refine (List.pairwise_map.mp hnumbers).imp fun hlt path hpath path' hpath' => ?_
      obtain ⟨below, -, rfl⟩ := List.mem_map.mp hpath
      obtain ⟨below', -, rfl⟩ := List.mem_map.mp hpath'
      exact List.cons_lt_cons_iff.mpr (.inl hlt)

private theorem map_at?_places (e : Expr) : e.places.map e.at? = e.descendants.map some := by
  induction e using childInduction with
  | step e ih =>
    have hentry : ∀ entry ∈ e.children.zipIdx,
        (([] :: entry.1.places).map (entry.2 :: ·)).map e.at? = entry.1.occurrences.map some := by
      intro entry hentry
      have hnumber := List.mem_zipIdx_iff_getElem?.mp hentry
      have hat (path : List Nat) : e.at? (entry.2 :: path) = entry.1.at? path := by
        rw [at?, hnumber, Option.bind_some]
      calc (([] :: entry.1.places).map (entry.2 :: ·)).map e.at?
          = ([] :: entry.1.places).map entry.1.at? := by
            rw [List.map_map]
            exact List.map_congr_left fun path _ => hat path
        _ = some entry.1 :: entry.1.descendants.map some := by
            rw [List.map_cons, ih _ (List.mem_of_getElem? hnumber), at?]
        _ = entry.1.occurrences.map some := by rw [← List.map_cons, cons_descendants]
    calc e.places.map e.at?
        = e.children.zipIdx.flatMap fun entry => entry.1.occurrences.map some := by
          rw [places_eq, List.map_flatMap, List.flatMap_congr hentry]
      _ = (e.children.zipIdx.map Prod.fst).flatMap fun child => child.occurrences.map some := by
          rw [List.flatMap_map]
      _ = e.descendants.map some := by
          rw [List.zipIdx_map_fst, descendants_eq, List.map_flatMap]

/-- The walk over the nodes below `e` ends after it visited the descendants of `e`: each child in
turn, followed by the descendants of the child. These are the nodes at the places below `e`, one for
each place and in the order of the places, and `e` is none of them. -/
theorem walk_visits_preorder (e : Expr) :
    (∀ visited, e.walk.Visits visited ↔ visited = e.descendants) ∧
      e.descendants = e.children.flatMap (fun child => child :: child.descendants) ∧
      (∀ path, path ∈ e.places ↔ path ≠ [] ∧ (e.at? path).isSome) ∧
      e.places.Pairwise (· < ·) ∧ e.places.map e.at? = e.descendants.map some ∧
      e ∉ e.descendants := by
  have hchildren : e.descendants = e.children.flatMap fun child => child :: child.descendants := by
    rw [descendants_eq]
    exact List.flatMap_congr fun child _ => child.cons_descendants.symm
  refine ⟨fun visited => ?_, hchildren, fun _ => mem_places_iff, e.places_pairwise,
    e.map_at?_places, fun hself => ?_⟩
  · rw [walk, Walk.visits_ofList_iff, descendants_eq]
  · exact Nat.lt_irrefl _ (size_lt_of_mem_descendants hself)

/-- A node that stands at two places is visited twice. -/
example :
    let one : Expr := .literal ⟨1, {}⟩ (.int 1)
    let sum : Expr :=
      .call ⟨2, {}⟩ (.ofOperator "operator_plus" "+" (.primitive .int)) (some one) [one]
    let choice : Expr := .branch ⟨4, {}⟩ (.literal ⟨0, {}⟩ (.boolean true)) sum
      (some (.literal ⟨3, {}⟩ (.int 3)))
    choice.descendants.map (·.id) = [0, 2, 1, 1, 3] ∧
      choice.places = [[0], [1], [1, 0], [1, 1], [2]] := by
  decide

end Expr

end Lowering
