import Mathlib.Data.List.Nodup
import Mathlib.Data.List.Perm.Basic
import Lowering.Tree.Descendants

/-!
# Occurrences of nodes

Every place of a tree at which a node stands, and what is asked of trees as a whole: that no node is
shared, which children have to yield a value, and in which order effects come. Main statements: the
occurrences of a tree from those of its children, and induction on children.
-/

namespace Lowering.Expr

mutual

/-- The value of a tree that `combine` makes of each node and the values of its children. -/
def fold {β : Type} (combine : Expr → List β → β) : Expr → β
  | .block node exprs => combine (.block node exprs) (foldAll combine exprs)
  | .decl node name type writeable init =>
    combine (.decl node name type writeable init) (match init with
      | some init => [init.fold combine]
      | none => [])
  | .call node feature receiver args =>
    combine (.call node feature receiver args) ((match receiver with
      | some receiver => [receiver.fold combine]
      | none => []) ++ foldAll combine args)
  | .construct node type params throws args =>
    combine (.construct node type params throws args) (foldAll combine args)
  | .literal node value => combine (.literal node value) []
  | .branch node cond yes no =>
    combine (.branch node cond yes no) (cond.fold combine :: yes.fold combine :: match no with
      | some no => [no.fold combine]
      | none => [])
  | .ret node value =>
    combine (.ret node value) (match value with
      | some value => [value.fold combine]
      | none => [])
  | .raise node value => combine (.raise node value) [value.fold combine]
  | .cast node type value => combine (.cast node type value) [value.fold combine]
  | .assign node target receiver value =>
    combine (.assign node target receiver value) ((match receiver with
      | some receiver => [receiver.fold combine]
      | none => []) ++ [value.fold combine])
  | .extension node kind children =>
    combine (.extension node kind children) (foldAll combine children)
termination_by structural e => e

def foldAll {β : Type} (combine : Expr → List β → β) : List Expr → List β
  | [] => []
  | e :: es => e.fold combine :: foldAll combine es
termination_by structural es => es

end

private theorem foldAll_eq_map {β : Type} (combine : Expr → List β → β) (es : List Expr) :
    foldAll combine es = es.map (fold combine) := by
  induction es with
  | nil => rfl
  | cons e es ih => rw [foldAll, ih, List.map_cons]

theorem fold_eq {β : Type} (combine : Expr → List β → β) (e : Expr) :
    e.fold combine = combine e (e.children.map (fold combine)) := by
  rcases e with _ | ⟨_, _, _, _, _ | _⟩ | ⟨_, _, _ | _, _⟩ | _ | _ | ⟨_, _, _, _ | _⟩ |
      ⟨_, _ | _⟩ | _ | _ | ⟨_, _, _ | _, _⟩ | _ <;>
    simp [fold, children, foldAll_eq_map]

/-- All nodes of the unfolded tree, each before the nodes below it. -/
def occurrences : Expr → List Expr :=
  fold fun e below => e :: below.flatten

/-- All nodes of the unfolded tree, each after the nodes below it: the order of evaluation. -/
def postorder : Expr → List Expr :=
  fold fun e below => below.flatten ++ [e]

theorem occurrences_eq (e : Expr) : e.occurrences = e :: e.children.flatMap occurrences := by
  rw [occurrences, fold_eq, List.flatMap_def]

theorem exists_mem_occurrences_iff {P : Expr → Prop} {e : Expr} :
    (∃ x ∈ e.occurrences, P x) ↔
      P e ∨ ∃ child ∈ e.children, ∃ x ∈ child.occurrences, P x := by
  simp only [occurrences_eq e, List.exists_mem_cons_iff, List.mem_flatMap]
  exact or_congr_right ⟨fun ⟨x, ⟨child, hchild, hx⟩, h⟩ => ⟨child, hchild, x, hx, h⟩,
    fun ⟨child, hchild, x, hx, h⟩ => ⟨x, ⟨child, hchild, hx⟩, h⟩⟩

theorem postorder_eq (e : Expr) : e.postorder = e.children.flatMap postorder ++ [e] := by
  rw [postorder, fold_eq, List.flatMap_def]

theorem mem_occurrences_self (e : Expr) : e ∈ e.occurrences := by
  rw [occurrences_eq]
  exact List.mem_cons_self

theorem mem_occurrences_of_mem_children {e child part : Expr} (hchild : child ∈ e.children)
    (hpart : part ∈ child.occurrences) : part ∈ e.occurrences := by
  rw [occurrences_eq]
  exact List.mem_cons_of_mem _ (List.mem_flatMap.mpr ⟨child, hchild, hpart⟩)

private theorem size_eq (e : Expr) : e.size = sizeAll e.children + 1 := by
  rcases e with _ | ⟨_, _, _, _, _ | _⟩ | ⟨_, _, _ | _, _⟩ | _ | _ | ⟨_, _, _, _ | _⟩ |
      ⟨_, _ | _⟩ | _ | _ | ⟨_, _, _ | _, _⟩ | _ <;>
    simp [size, children, sizeAll, Nat.add_assoc]

private theorem size_le_sizeAll {es : List Expr} {e : Expr} (h : e ∈ es) :
    e.size ≤ sizeAll es := by
  induction es with
  | nil => cases h
  | cons first es ih =>
    rw [sizeAll]
    rcases List.mem_cons.mp h with rfl | h
    · omega
    · have hle := ih h
      omega

theorem size_lt_of_mem_children {e child : Expr} (h : child ∈ e.children) :
    child.size < e.size := by
  have hle : child.size ≤ sizeAll e.children := size_le_sizeAll h
  rw [size_eq e]
  omega

/-- What passes from the children of a node to the node holds of every tree. -/
theorem childInduction {motive : Expr → Prop}
    (step : ∀ e, (∀ child ∈ e.children, motive child) → motive e) (e : Expr) : motive e := by
  induction hsize : e.size using Nat.strongRecOn generalizing e with
  | ind n ih =>
    subst hsize
    exact step e fun child hchild => ih child.size (size_lt_of_mem_children hchild) child rfl

theorem occurrences_subset {e part : Expr} (hpart : part ∈ e.occurrences) :
    part.occurrences ⊆ e.occurrences := by
  induction e using childInduction with
  | step e ih =>
    intro below hbelow
    rw [occurrences_eq] at hpart
    rcases List.mem_cons.mp hpart with rfl | hpart
    · exact hbelow
    · obtain ⟨child, hchild, hpart⟩ := List.mem_flatMap.mp hpart
      exact mem_occurrences_of_mem_children hchild (ih child hchild hpart hbelow)

/-! ## Descendants -/

private theorem length_flatMap_occurrences {es : List Expr}
    (h : ∀ e ∈ es, e.occurrences.length = e.size) :
    (es.flatMap occurrences).length = sizeAll es := by
  induction es with
  | nil => rfl
  | cons e es ih =>
    have he : e.occurrences.length = e.size := h e List.mem_cons_self
    have hes := ih fun e he => h e (List.mem_cons_of_mem _ he)
    rw [List.flatMap_cons, List.length_append, he, hes, sizeAll]

private theorem length_occurrences (e : Expr) : e.occurrences.length = e.size := by
  induction e using childInduction with
  | step e ih =>
    rw [occurrences_eq, List.length_cons, length_flatMap_occurrences ih, size_eq]

private theorem run_eq (steps : Nat) (nodes : List Expr)
    (h : (nodes.flatMap occurrences).length ≤ steps) :
    (Walk.ofList nodes).run steps = nodes.flatMap occurrences := by
  induction steps generalizing nodes with
  | zero => rw [List.eq_nil_of_length_eq_zero (Nat.le_zero.mp h), Walk.run]
  | succ steps ih =>
    cases nodes with
    | nil => rfl
    | cons e rest =>
      simp only [List.flatMap_cons, occurrences_eq e, List.cons_append, List.length_cons,
        ← List.flatMap_append] at h ⊢
      rw [Walk.run, Walk.next?_ofList_cons]
      exact congrArg (e :: ·) (ih _ (Nat.le_of_succ_le_succ h))

/-- The walk finds all nodes of the unfolded tree. -/
theorem cons_descendants (e : Expr) : e :: e.descendants = e.occurrences := by
  have hlength := length_occurrences e
  rw [occurrences_eq, List.length_cons] at hlength
  rw [descendants, walk, run_eq _ _ (by omega), occurrences_eq]

/-! ## Trees without sharing -/

/-- The identities of all nodes, once for each occurrence. -/
def ids (e : Expr) : List NodeId :=
  e.occurrences.map id

/-- Every node stands at one place only. -/
def Unshared (e : Expr) : Prop :=
  e.ids.Nodup

instance (e : Expr) : Decidable e.Unshared :=
  inferInstanceAs (Decidable e.ids.Nodup)

theorem ids_eq (e : Expr) : e.ids = e.id :: e.children.flatMap ids := by
  rw [ids, occurrences_eq, List.map_cons, List.map_flatMap]
  rfl

theorem id_mem_ids (e : Expr) : e.id ∈ e.ids := by
  rw [ids_eq]
  exact List.mem_cons_self

theorem mem_ids_of_mem_children {e child : Expr} {i : NodeId} (hchild : child ∈ e.children)
    (hi : i ∈ child.ids) : i ∈ e.ids := by
  rw [ids_eq]
  exact List.mem_cons_of_mem _ (List.mem_flatMap.mpr ⟨child, hchild, hi⟩)

theorem unshared_iff (e : Expr) :
    e.Unshared ↔ e.id ∉ e.children.flatMap ids ∧ (e.children.flatMap ids).Nodup := by
  rw [Unshared, ids_eq, List.nodup_cons]

theorem Unshared.child {e child : Expr} (he : e.Unshared) (hchild : child ∈ e.children) :
    child.Unshared :=
  (List.nodup_flatMap.mp ((unshared_iff e).mp he).2).1 child hchild

theorem map_id_postorder_perm (e : Expr) : (e.postorder.map id).Perm e.ids := by
  induction e using childInduction with
  | step e ih =>
    rw [postorder_eq, ids_eq, List.map_append, List.map_flatMap]
    exact (List.perm_append_comm).trans ((List.Perm.flatMap_left _ ih).cons e.id)

/-! ## Positions and effects -/

/-- The children whose values their node needs: operands, initializers and conditions, but neither
statements and branches nor the value of a return. -/
def operands : Expr → List Expr
  | .decl _ _ _ _ init => init.toList
  | .call _ _ receiver args => receiver.toList ++ args
  | .construct _ _ _ _ args => args
  | .branch _ cond _ _ => [cond]
  | .raise _ value | .cast _ _ value => [value]
  | .assign _ _ receiver value => receiver.toList ++ [value]
  | .block .. | .literal .. | .ret .. | .extension .. => []

/-- The node itself has an effect when it is evaluated: it is an invocation, a construction or an
assignment. -/
def isEffect : Expr → Bool
  | .call _ feature _ _ => feature.isInvocation
  | .construct .. | .assign .. => true
  | _ => false

/-- The nodes with an effect in the order in which they are evaluated. -/
def effects (e : Expr) : List NodeId :=
  (e.postorder.filter isEffect).map id

theorem effects_eq (e : Expr) :
    e.effects = e.children.flatMap effects ++ if e.isEffect then [e.id] else [] := by
  rw [effects, postorder_eq, List.filter_append, List.map_append, List.filter_flatMap,
    List.map_flatMap]
  congr 1
  cases h : e.isEffect <;> simp [h]

theorem Unshared.nodup_effects {e : Expr} (he : e.Unshared) : e.effects.Nodup :=
  (e.map_id_postorder_perm.nodup_iff.mpr he).sublist (List.filter_sublist.map id)

end Lowering.Expr
