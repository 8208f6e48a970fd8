import Lowering.Proofs.Tree.Occurrences

/-!
# Scoping of locals

Which locals each node of a tree can name: those declared by an earlier sibling, or by an earlier
sibling of a node above it, where the branches of an `if` do not see each other. Main statement: a
tree keeps its scoping in any scope that has the locals which it refers to.
-/

namespace Lowering.Expr

/-- The local that a node leaves to what follows it. -/
def declared : Expr → List NodeId
  | .decl node .. => [node.id]
  | _ => []

/-- Siblings with the locals that each of them sees. -/
def inSequence (scope : List NodeId) : List Expr → List (List NodeId × Expr)
  | [] => []
  | e :: es => (scope, e) :: inSequence (e.declared ++ scope) es

/-- The children of a node with the locals that each of them sees. -/
def inScopes (scope : List NodeId) : Expr → List (List NodeId × Expr)
  | .branch _ cond yes no =>
    (scope, cond) :: (yes :: no.toList).map fun e => (cond.declared ++ scope, e)
  | e => inSequence scope e.children

/-- The locals that a node itself refers to are in scope: those of an assignment before its
operands, those of a read after them. -/
def refersWithin (scope : List NodeId) : Expr → Prop
  | .call _ feature receiver args =>
    ∀ d, feature.kind = .localVar d → d ∈ (receiver.toList ++ args).flatMap declared ++ scope
  | .assign _ target _ _ => ∀ d, target.kind = .localVar d → d ∈ scope
  | _ => True

/-- Every reference of a tree to a local is in scope. -/
inductive Scoped : List NodeId → Expr → Prop
  | intro {scope : List NodeId} {e : Expr} (hrefers : e.refersWithin scope)
      (hchildren : ∀ entry ∈ e.inScopes scope, Scoped entry.1 entry.2) : Scoped scope e

/-- The locals that a node itself refers to. -/
def ownLocals : Expr → List NodeId
  | .call _ feature _ _ | .assign _ feature _ _ =>
    match feature.kind with
    | .localVar d => [d]
    | _ => []
  | _ => []

/-- The locals that a tree refers to. -/
def locals (e : Expr) : List NodeId :=
  e.occurrences.flatMap ownLocals

/-- A node is no `if` that has a declaration for its first branch whose local the second branch
refers to. -/
def isApart : Expr → Bool
  | .branch _ _ (.decl node ..) (some no) => !no.locals.contains node.id
  | _ => true

/-- No branch of an `if` refers to a local that the other branch declares. -/
def KeepsBranchesApart (e : Expr) : Prop :=
  ∀ part ∈ e.occurrences, part.isApart

instance (e : Expr) : Decidable e.KeepsBranchesApart :=
  inferInstanceAs (Decidable (∀ part ∈ e.occurrences, part.isApart = true))

theorem mem_locals_of_mem_children {e child : Expr} {d : NodeId} (hchild : child ∈ e.children)
    (hd : d ∈ child.locals) : d ∈ e.locals := by
  obtain ⟨part, hpart, hd⟩ := List.mem_flatMap.mp hd
  exact List.mem_flatMap.mpr ⟨part, mem_occurrences_of_mem_children hchild hpart, hd⟩

theorem mem_locals_of_mem_ownLocals {e : Expr} {d : NodeId} (hd : d ∈ e.ownLocals) :
    d ∈ e.locals :=
  List.mem_flatMap.mpr ⟨e, mem_occurrences_self e, hd⟩

theorem mem_ownLocals_call {node : Node} {feature : Feature} {receiver : Option Expr}
    {args : List Expr} {d : NodeId} :
    d ∈ (Expr.call node feature receiver args).ownLocals ↔ feature.kind = .localVar d := by
  simp only [ownLocals]
  split <;> simp_all [eq_comm]

theorem mem_ownLocals_assign {node : Node} {target : Feature} {receiver : Option Expr}
    {value : Expr} {d : NodeId} :
    d ∈ (Expr.assign node target receiver value).ownLocals ↔ target.kind = .localVar d := by
  simp only [ownLocals]
  split <;> simp_all [eq_comm]

theorem KeepsBranchesApart.child {e child : Expr} (he : e.KeepsBranchesApart)
    (hchild : child ∈ e.children) : child.KeepsBranchesApart :=
  fun part hpart => he part (mem_occurrences_of_mem_children hchild hpart)

theorem isApart_branch {node : Node} {cond yes no : Expr} :
    (Expr.branch node cond yes (some no)).isApart ↔ ∀ d ∈ yes.declared, d ∉ no.locals := by
  cases yes <;> simp [isApart, declared]

theorem KeepsBranchesApart.self {e : Expr} (he : e.KeepsBranchesApart) : e.isApart :=
  he e (mem_occurrences_self e)

theorem Scoped.refers {scope : List NodeId} {e : Expr} (h : Scoped scope e) :
    e.refersWithin scope := by
  cases h with
  | intro hrefers _ => exact hrefers

theorem Scoped.children {scope : List NodeId} {e : Expr} (h : Scoped scope e) :
    ∀ entry ∈ e.inScopes scope, Scoped entry.1 entry.2 := by
  cases h with
  | intro _ hchildren => exact hchildren

/-! ## Scopes from outside -/

private theorem inSequence_eq_map (scope outer : List NodeId) (es : List Expr) :
    inSequence (scope ++ outer) es =
      (inSequence scope es).map fun entry => (entry.1 ++ outer, entry.2) := by
  induction es generalizing scope with
  | nil => rfl
  | cons e es ih => rw [inSequence, inSequence, List.map_cons, ← List.append_assoc, ih]

private theorem inScopes_eq_map (outer : List NodeId) (e : Expr) :
    e.inScopes outer = (e.inScopes []).map fun entry => (entry.1 ++ outer, entry.2) := by
  cases e with
  | branch node cond yes no => cases no <;> simp [inScopes]
  | _ => exact inSequence_eq_map [] outer _

private theorem snd_mem_of_mem_inSequence (scope : List NodeId) {es : List Expr}
    {entry : List NodeId × Expr} (h : entry ∈ inSequence scope es) : entry.2 ∈ es := by
  induction es generalizing scope with
  | nil => cases h
  | cons e es ih =>
    rcases List.mem_cons.mp h with rfl | h
    · exact List.mem_cons_self
    · exact List.mem_cons_of_mem _ (ih _ h)

theorem snd_mem_children_of_mem_inScopes {scope : List NodeId} {e : Expr}
    {entry : List NodeId × Expr} (h : entry ∈ e.inScopes scope) : entry.2 ∈ e.children := by
  cases e with
  | branch node cond yes no =>
    simp only [inScopes, children, List.mem_cons, List.mem_map] at h ⊢
    grind
  | _ => exact snd_mem_of_mem_inSequence scope h

/-- A tree is scoped wherever the locals are that it refers to. -/
theorem Scoped.of_locals {scope scope' : List NodeId} {e : Expr} (h : Scoped scope e)
    (hlocals : ∀ d ∈ e.locals, d ∈ scope → d ∈ scope') : Scoped scope' e := by
  induction h generalizing scope' with
  | @intro scope e hrefers _ ih =>
    refine .intro ?_ ?_
    · cases e with
      | call node feature receiver args =>
        intro d hkind
        have hd : d ∈ (Expr.call node feature receiver args).locals :=
          mem_locals_of_mem_ownLocals (by simp [ownLocals, hkind])
        rcases List.mem_append.mp (hrefers d hkind) with hin | hout
        · exact List.mem_append_left _ hin
        · exact List.mem_append_right _ (hlocals d hd hout)
      | assign node target receiver value =>
        intro d hkind
        exact hlocals d (mem_locals_of_mem_ownLocals (by simp [ownLocals, hkind]))
          (hrefers d hkind)
      | _ => trivial
    · intro entry hentry
      rw [inScopes_eq_map] at hentry
      obtain ⟨own, hown, rfl⟩ := List.mem_map.mp hentry
      have hchild := snd_mem_children_of_mem_inScopes hown
      refine ih (own.1 ++ scope, own.2) ?_ fun d hd hmem => ?_
      · rw [inScopes_eq_map]
        exact List.mem_map_of_mem hown
      · rcases List.mem_append.mp hmem with hin | hout
        · exact List.mem_append_left _ hin
        · exact List.mem_append_right _ (hlocals d (mem_locals_of_mem_children hchild hd) hout)

/-! ## Scopes without sharing -/

private theorem mem_ids_of_mem_declared {e : Expr} {d : NodeId} (h : d ∈ e.declared) :
    d ∈ e.ids := by
  cases e with
  | decl => exact List.mem_singleton.mp h ▸ id_mem_ids _
  | _ => cases h

private theorem exists_mem_inSequence (scope : List NodeId) {es : List Expr} {e : Expr}
    (h : e ∈ es) : ∃ scope', (scope', e) ∈ inSequence scope es := by
  induction es generalizing scope with
  | nil => cases h
  | cons first es ih =>
    rcases List.mem_cons.mp h with rfl | h
    · exact ⟨scope, List.mem_cons_self⟩
    · obtain ⟨scope', hmem⟩ := ih (first.declared ++ scope) h
      exact ⟨scope', List.mem_cons_of_mem _ hmem⟩

private theorem exists_mem_inScopes (scope : List NodeId) {e child : Expr}
    (h : child ∈ e.children) : ∃ scope', (scope', child) ∈ e.inScopes scope := by
  cases e with
  | branch node cond yes no =>
    rcases List.mem_cons.mp h with rfl | h
    · exact ⟨scope, List.mem_cons_self⟩
    · exact ⟨_, List.mem_cons_of_mem _ (List.mem_map_of_mem h)⟩
  | _ => exact exists_mem_inSequence scope h

private theorem mem_of_mem_inSequence {scope : List NodeId} {es : List Expr}
    {entry : List NodeId × Expr} {d : NodeId} (h : entry ∈ inSequence scope es) (hd : d ∈ entry.1) :
    d ∈ scope ∨ d ∈ es.flatMap ids ∧ ((es.flatMap ids).Nodup → d ∉ entry.2.ids) := by
  induction es generalizing scope with
  | nil => cases h
  | cons e es ih =>
    rw [List.flatMap_cons]
    rcases List.mem_cons.mp h with rfl | h
    · exact .inl hd
    · rcases ih h with hmem | ⟨hmem, hnotMem⟩
      · rcases List.mem_append.mp hmem with hmem | hmem
        · have hid := mem_ids_of_mem_declared hmem
          refine .inr ⟨List.mem_append_left _ hid, fun hnodup hmem' => ?_⟩
          exact (List.disjoint_of_nodup_append hnodup) hid
            (List.mem_flatMap.mpr ⟨_, snd_mem_of_mem_inSequence _ h, hmem'⟩)
        · exact .inl hmem
      · exact .inr ⟨List.mem_append_right _ hmem, fun hnodup =>
          hnotMem (List.nodup_append.mp hnodup).2.1⟩

private theorem mem_of_mem_inScopes {scope : List NodeId} {e : Expr}
    {entry : List NodeId × Expr} {d : NodeId} (h : entry ∈ e.inScopes scope) (hd : d ∈ entry.1) :
    d ∈ scope ∨
      d ∈ e.children.flatMap ids ∧ ((e.children.flatMap ids).Nodup → d ∉ entry.2.ids) := by
  cases e with
  | branch node cond yes no =>
    rcases List.mem_cons.mp h with rfl | h
    · exact .inl hd
    · obtain ⟨other, hother, rfl⟩ := List.mem_map.mp h
      rcases List.mem_append.mp hd with hmem | hmem
      · have hid := mem_ids_of_mem_declared hmem
        refine .inr ⟨List.mem_append_left _ hid, fun hnodup hmem' => ?_⟩
        exact (List.disjoint_of_nodup_append hnodup) hid
          (List.mem_flatMap.mpr ⟨other, hother, hmem'⟩)
      · exact .inl hmem
  | _ => exact mem_of_mem_inSequence h hd

private theorem locals_eq (e : Expr) : e.locals = e.ownLocals ++ e.children.flatMap locals := by
  rw [locals, occurrences_eq, List.flatMap_cons, List.flatMap_assoc]
  rfl

private theorem Scoped.mem_of_mem_locals {scope : List NodeId} {e : Expr} {d : NodeId}
    (h : Scoped scope e) (hd : d ∈ e.locals) : d ∈ scope ∨ d ∈ e.ids := by
  induction h with
  | @intro scope e hrefers _ ih =>
    rw [locals_eq] at hd
    rcases List.mem_append.mp hd with hown | hbelow
    · cases e with
      | call node feature receiver args =>
        rcases List.mem_append.mp (hrefers d (mem_ownLocals_call.mp hown)) with hin | hout
        · obtain ⟨child, hchild, hmem⟩ := List.mem_flatMap.mp hin
          exact .inr (mem_ids_of_mem_children hchild (mem_ids_of_mem_declared hmem))
        · exact .inl hout
      | assign node target receiver value =>
        exact .inl (hrefers d (mem_ownLocals_assign.mp hown))
      | _ => cases hown
    · obtain ⟨child, hchild, hmem⟩ := List.mem_flatMap.mp hbelow
      obtain ⟨scope', hentry⟩ := exists_mem_inScopes scope hchild
      rcases ih (scope', child) hentry hmem with hmem | hmem
      · apply (mem_of_mem_inScopes hentry hmem).imp_right
        intro hbelow
        obtain ⟨hmem, _⟩ := hbelow
        rw [ids_eq]
        exact List.mem_cons_of_mem _ hmem
      · exact .inr (mem_ids_of_mem_children hchild hmem)

private theorem isApart_of_scoped {scope : List NodeId} {e : Expr} (h : Scoped scope e)
    (hunshared : e.Unshared) (hscope : ∀ d ∈ scope, d ∉ e.ids) : e.isApart := by
  cases e with
  | branch node cond yes no =>
    cases no with
    | none => cases yes <;> rfl
    | some no =>
      rw [isApart_branch]
      intro d hd hlocal
      have hid : d ∈ yes.ids := mem_ids_of_mem_declared hd
      have hno : Scoped (cond.declared ++ scope) no := h.children (cond.declared ++ scope, no)
        (List.mem_cons_of_mem _ (List.mem_cons_of_mem _ List.mem_cons_self))
      have hnodup := ((unshared_iff _).mp hunshared).2
      simp only [children, Option.toList, List.flatMap_cons, List.flatMap_nil, List.append_nil]
        at hnodup
      obtain ⟨_, hbranches, hcond⟩ := List.nodup_append.mp hnodup
      rcases hno.mem_of_mem_locals hlocal with hmem | hmem
      · rcases List.mem_append.mp hmem with hmem | hmem
        · exact hcond d (mem_ids_of_mem_declared hmem) d (List.mem_append_left _ hid) rfl
        · exact hscope d hmem (mem_ids_of_mem_children
            (List.mem_cons_of_mem _ List.mem_cons_self) hid)
      · exact (List.nodup_append.mp hbranches).2.2 d hid d hmem rfl
  | _ => rfl

/-- In a scoped tree without sharing, no local is carried over to another branch. -/
theorem Scoped.keepsBranchesApart {scope : List NodeId} {e : Expr} (h : Scoped scope e)
    (hunshared : e.Unshared) (hscope : ∀ d ∈ scope, d ∉ e.ids) : e.KeepsBranchesApart := by
  induction h with
  | @intro scope e hrefers hchildren ih =>
    have hnodup := ((unshared_iff e).mp hunshared).2
    have houtside {entry : List NodeId × Expr} (hentry : entry ∈ e.inScopes scope) (d : NodeId)
        (hd : d ∈ entry.1) : d ∉ entry.2.ids := by
      rcases mem_of_mem_inScopes hentry hd with hmem | ⟨_, hnotMem⟩
      · exact fun hmem' => hscope d hmem
          (mem_ids_of_mem_children (snd_mem_children_of_mem_inScopes hentry) hmem')
      · exact hnotMem hnodup
    intro part hpart
    rw [occurrences_eq] at hpart
    rcases List.mem_cons.mp hpart with rfl | hpart
    · exact isApart_of_scoped (.intro hrefers hchildren) hunshared hscope
    · obtain ⟨child, hchild, hpart⟩ := List.mem_flatMap.mp hpart
      obtain ⟨scope', hentry⟩ := exists_mem_inScopes scope hchild
      exact ih (scope', child) hentry (hunshared.child hchild) (houtside hentry) part hpart

end Lowering.Expr
