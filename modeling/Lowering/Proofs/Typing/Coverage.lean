import Lowering.Analysis.Thrown
import Lowering.Proofs.Typing.Mentions

/-!
# What type inference covers

Type inference creates a state for every node that it types. Main statements: where it succeeds, it
has created one state for each occurrence of a node in the tree, in the order of a preorder walk;
and the table that it answers covers the tree, so that no type of a node has to be made up.
-/

namespace Lowering

/-- The nodes for which states were created, in order. -/
def TypingStates.nodes (s : TypingStates) : List Node :=
  s.states.toList.map (·.node)

namespace Typing

variable {h : Hierarchy} {α β : Type} {added later : List Node}

/-- Where `act` succeeds, it has created states for the nodes `added`, in this order. -/
def Visits (act : Typing α) (added : List Node) : Prop :=
  ∀ s, Outcome act s (fun _ s' => s'.nodes = s.nodes ++ added) fun _ => True

theorem Visits.bind {act : Typing α} {next : α → Typing β} (hact : Visits act added)
    (hnext : ∀ a, Visits (next a) later) : Visits (act >>= next) (added ++ later) := by
  intro s
  rw [outcome_bind]
  apply (hact s).imp
  intro a s₁ hs₁
  apply (hnext a s₁).imp
  intro _ s₂ hs₂
  rw [hs₂, hs₁, List.append_assoc]

/-- First a step that creates no states. -/
theorem Visits.after {act : Typing α} {next : α → Typing β} (hact : Visits act [])
    (hnext : ∀ a, Visits (next a) later) : Visits (act >>= next) later :=
  hact.bind hnext

/-- Then a step that creates no states. -/
theorem Visits.before {act : Typing α} {next : α → Typing β} (hact : Visits act added)
    (hnext : ∀ a, Visits (next a) []) : Visits (act >>= next) added := by
  simpa only [List.append_nil] using hact.bind hnext

theorem visits_pure (a : α) : Visits (pure a) [] :=
  fun s => (List.append_nil s.nodes).symm

theorem visits_throw (f : Failure) (added : List Node) : Visits (throw f : Typing α) added :=
  fun _ => trivial

theorem visits_ofExcept (result : Except Failure α) : Visits (ofExcept result) [] := by
  cases result with
  | ok a => exact visits_pure a
  | error f => exact visits_throw f []

/-! ## Operations on states -/

theorem visits_find (i : Nat) : Visits (find i) [] := by
  intro s
  simp only [find, outcome_bind, outcome_get]
  split
  · exact visits_pure _ s
  · trivial

theorem visits_live (i : Nat) : Visits (live i) [] := by
  refine (visits_find i).after fun state => ?_
  cases state.discarded with
  | true => exact visits_throw _ _
  | false => exact visits_pure state

theorem visits_context (i : Nat) : Visits (context i) [] :=
  (visits_live i).after fun state => visits_pure state.context

theorem visits_modifyState (i : Nat) {f : TypingState → TypingState}
    (hf : ∀ state, (f state).node = state.node) : Visits (modifyState i f) [] := by
  intro s
  simp only [modifyState, outcome_modify, TypingStates.nodes, List.append_nil, Array.toList_modify]
  apply List.ext_getElem?
  intro k
  simp only [List.getElem?_map, List.getElem?_modify]
  cases s.states.toList[k]? with
  | none => rfl
  | some state =>
    by_cases hk : i = k
    · simp [hk, hf]
    · simp [hk]

theorem visits_push (state : TypingState) : Visits (push state) [state.node] := by
  intro s
  simp [push, TypingStates.nodes]

theorem visits_spawn (parent : Nat) (node : Node) (role : StateRole) (c : TypingContext) :
    Visits (spawn parent node role c) [node] := by
  refine (visits_live parent).after fun state => ?_
  split
  · exact visits_throw _ _
  · exact (visits_push _).before fun i =>
      (visits_modifyState parent (by simp)).after fun _ => visits_pure i

theorem visits_discard (i : Nat) : Visits (discard i) [] := by
  refine (visits_live i).after fun state => (visits_modifyState i (by simp)).after fun _ => ?_
  split
  · exact visits_pure ()
  · exact visits_modifyState _ fun state => by split <;> rfl

theorem visits_declareLocal (i declaration : Nat) (type : HostType) :
    Visits (declareLocal i declaration type) [] :=
  (visits_live i).after fun _ => (visits_live _).after fun _ =>
    visits_modifyState _ (by simp)

theorem visits_record (id : NodeId) (span : Span) (offer : Resolution) :
    Visits (record h id span offer) [] := by
  intro s
  unfold Outcome
  rw [run_record]
  cases s.types.accept h id span offer with
  | error f => trivial
  | ok types => exact (List.append_nil s.nodes).symm

theorem visits_accept (i : Nat) (e : Expectation) (type : HostType) (conformance : Conformance)
    (isReturn : Bool) : Visits (accept h i e type conformance isReturn) [] := by
  have hrecord (id : NodeId) (span : Span) (offer : Resolution) :=
    visits_record (h := h) id span offer
  refine (visits_live i).after fun state => ?_
  split
  · exact (visits_live _).after fun _ => (hrecord _ _ _).after fun _ => (hrecord _ _ _).after
      fun _ => visits_pure _
  · exact (hrecord _ _ _).after fun _ => visits_pure _

theorem visits_settle (i : Nat) (e : Expectation) (span : Span) {work : Typing HostType}
    (hwork : Visits work added) : Visits (settle h i e span work) added :=
  hwork.before fun _ => (visits_ofExcept _).after fun _ => visits_accept _ _ _ _ _

/-- A state that is ended after its work succeeded only if its work did. -/
theorem visits_closing (i : Nat) {work : Typing HostType} (hwork : Visits work added) :
    Visits (closing i work) added := by
  intro s
  have hwork := hwork s
  unfold Outcome at hwork ⊢
  rw [run_closing]
  cases hrun : work.run.run s with
  | mk result s₁ =>
    rw [hrun] at hwork
    have hdiscard := visits_discard i s₁
    unfold Outcome at hdiscard
    cases result with
    | error f => trivial
    | ok type =>
      cases hrun' : (discard i).run.run s₁ with
      | mk result s₂ =>
        rw [hrun'] at hdiscard
        cases result with
        | error f => trivial
        | ok _ =>
          change s₂.nodes = s.nodes ++ added
          rw [hdiscard, List.append_nil, hwork]

theorem visits_asOperand (i : Nat) (node : Node) {work : Nat → Typing HostType}
    (hwork : ∀ n, Visits (work n) added) : Visits (asOperand i node work) (node :: added) :=
  (visits_context i).after fun c => (visits_spawn i node .operand c).bind fun n =>
    visits_closing n (hwork n)

theorem visits_asValue (i : Nat) (node : Node) {work : Nat → Typing HostType}
    (hwork : ∀ n, Visits (work n) added) : Visits (asValue i node work) (node :: added) := by
  have hvalue : Visits (value i node) [node] :=
    (visits_live i).after fun state => visits_spawn i node .value state.context
  exact hvalue.bind fun n => visits_closing n (hwork n)

/-! ## Trees -/

/-- In the state of a node, type inference creates states for what is below the node. -/
def Covers (h : Hierarchy) (x : Expr) : Prop :=
  ∀ i e, Visits (compute h i e x) ((x.children.flatMap Expr.occurrences).map Expr.node)

private theorem Covers.asOperand {x : Expr} (hx : Covers h x) (i : Nat) (e : Expectation) :
    Visits (asOperand i x.node fun j => compute h j e x) (x.occurrences.map Expr.node) := by
  rw [Expr.occurrences_eq]
  exact visits_asOperand i x.node fun n => hx n e

private theorem Covers.asValue {x : Expr} (hx : Covers h x) (i : Nat) (e : Expectation) :
    Visits (asValue i x.node fun j => compute h j e x) (x.occurrences.map Expr.node) := by
  rw [Expr.occurrences_eq]
  exact visits_asValue i x.node fun n => hx n e

private abbrev nodesOf (xs : List Expr) : List Node :=
  (xs.flatMap Expr.occurrences).map Expr.node

private theorem nodesOf_cons (x : Expr) (xs : List Expr) :
    nodesOf (x :: xs) = x.occurrences.map Expr.node ++ nodesOf xs := by
  rw [nodesOf, List.flatMap_cons, List.map_append]

private theorem visits_cons {x : Expr} {xs : List Expr} {act : Typing α} {next : α → Typing β}
    (hact : Visits act (x.occurrences.map Expr.node)) (hnext : ∀ a, Visits (next a) (nodesOf xs)) :
    Visits (act >>= next) (nodesOf (x :: xs)) := by
  rw [nodesOf_cons]
  exact hact.bind hnext

private theorem visits_args {args : List Expr} (hargs : ∀ x ∈ args, Covers h x) (i : Nat)
    (params : List HostType) : Visits (computeArgs h i params args) (nodesOf args) := by
  induction args generalizing params with
  | nil => exact visits_pure ()
  | cons arg args ih =>
    obtain ⟨harg, hrest⟩ := List.forall_mem_cons.mp hargs
    exact visits_cons (harg.asOperand i _) fun _ => ih hrest params.tail

private theorem visits_statements {exprs : List Expr} (hexprs : ∀ x ∈ exprs, Covers h x) (i : Nat)
    (e : Expectation) : Visits (computeBlock h i e exprs) (nodesOf exprs) := by
  induction exprs with
  | nil => exact visits_pure _
  | cons first rest ih =>
    obtain ⟨hfirst, hrest⟩ := List.forall_mem_cons.mp hexprs
    cases rest with
    | nil =>
      rw [nodesOf, List.flatMap_cons, List.flatMap_nil, List.append_nil]
      exact hfirst.asValue i e
    | cons second rest => exact visits_cons (hfirst.asOperand i _) fun _ => ih hrest

theorem covers (h : Hierarchy) (x : Expr) : Covers h x := by
  induction x using Expr.childInduction with
  | step x ih =>
    intro i e
    cases x with
    | extension node kind children => exact visits_throw _ _
    | literal node value => exact visits_settle i e _ (visits_pure _)
    | block node exprs => exact visits_settle i e _ (visits_statements ih i e)
    | construct node type params throws args =>
      exact visits_settle i e _ ((visits_args ih i _).before fun _ => visits_pure _)
    | raise node value =>
      exact visits_settle i e _ (visits_cons ((ih value List.mem_cons_self).asOperand i _)
        fun _ => visits_pure _)
    | cast node type value =>
      exact visits_settle i e _ (visits_cons ((ih value List.mem_cons_self).asOperand i _)
        fun _ => visits_pure _)
    | ret node value =>
      cases value with
      | none => exact visits_settle i e _ (visits_pure _)
      | some value =>
        exact visits_settle i e _ ((visits_context i).after fun _ =>
          visits_cons ((ih value List.mem_cons_self).asOperand i _) fun _ => visits_pure _)
    | call node feature receiver args =>
      have htype : Visits (context i >>= fun c => ofExcept (feature.typeIn c node.span)) [] :=
        (visits_context i).after fun _ => visits_ofExcept _
      cases receiver with
      | none => exact visits_settle i e _ ((visits_args ih i _).before fun _ => htype)
      | some receiver =>
        obtain ⟨hreceiver, hargs⟩ := List.forall_mem_cons.mp ih
        exact visits_settle i e _ (visits_cons (hreceiver.asOperand i _) fun _ =>
          (visits_args hargs i _).before fun _ => htype)
    | decl node name type writeable init =>
      have hdeclare (type : HostType) : Visits (do
          declareLocal i node.id type
          pure HostType.void) [] :=
        (visits_declareLocal i node.id type).after fun _ => visits_pure _
      cases init with
      | none => cases type <;> exact visits_settle i e _ (hdeclare _)
      | some init =>
        rw [compute_decl_some]
        exact visits_settle i e _ (visits_cons ((ih init List.mem_cons_self).asOperand i _)
          fun _ => hdeclare _)
    | branch node cond yes no =>
      obtain ⟨hcond, hbranches⟩ := List.forall_mem_cons.mp ih
      obtain ⟨hyes, hno⟩ := List.forall_mem_cons.mp hbranches
      have htype (type : HostType) : Visits (do
          let s ← get
          pure ((s.types.resolution? node.id e).elim type (·.actual))) [] :=
        fun s => (List.append_nil s.nodes).symm
      rw [compute]
      refine visits_settle i e _ (visits_cons (hcond.asOperand i _) fun _ =>
        visits_cons (hyes.asValue i e) fun type => ?_)
      cases no with
      | none => exact htype type
      | some no => exact visits_cons ((hno no List.mem_cons_self).asValue i e) fun _ => htype type
    | assign node target receiver value =>
      rw [compute]
      refine visits_settle i e _ ((visits_context i).after fun c =>
        (visits_ofExcept _).after fun type => ?_)
      cases receiver with
      | none =>
        exact visits_cons ((ih value List.mem_cons_self).asOperand i _) fun _ => visits_pure _
      | some receiver =>
        obtain ⟨hreceiver, hvalue⟩ := List.forall_mem_cons.mp ih
        exact visits_cons (hreceiver.asOperand i _) fun _ =>
          visits_cons ((hvalue value List.mem_cons_self).asOperand i _) fun _ => visits_pure _

/-- Type inference creates one state for each occurrence of a node, outer ones first. -/
theorem visits_computeTree (h : Hierarchy) (x : Expr) (e : Expectation) (c : TypingContext) :
    Outcome (computeTree h x e c) {} (fun _ s => s.nodes = (x :: x.descendants).map Expr.node)
      fun _ => True := by
  have htree : Visits (do
      let i ← push { parent := none, node := x.node, role := .root, context := c }
      let _ ← closing i (compute h i e x)
      finish) (x.occurrences.map Expr.node) := by
    have hfinish : Visits finish [] := by
      intro s
      simp only [finish, outcome_bind, outcome_get]
      split
      · trivial
      · exact visits_pure _ s
    rw [Expr.occurrences_eq]
    exact (visits_push _).bind fun i => (visits_closing i (covers h x i e)).before fun _ => hfinish
  rw [Expr.cons_descendants]
  exact (htree {}).imp fun _ _ h => h

end Typing

/-- Type inference covers exactly the tree: its table has the nodes of the tree, each with a type
that stands for it and no two under one expectation, and every occurrence of a node was typed
once. -/
theorem Expr.infer_covers {h : Hierarchy} {x : Expr} {e : Expectation} {c : TypingContext}
    {types : ResolvedTypes} (hinfer : x.infer h e c = .ok types) :
    (∀ id, types.contains id ↔ ∃ part ∈ x :: x.descendants, part.id = id) ∧
      (∀ part ∈ x :: x.descendants, types.resolutions part.id ≠ [] ∧
        types.actual? part.id = some (types.typeOf part)) ∧
      (∀ id, ((types.resolutions id).map (·.expectation)).Nodup) ∧
      ((Typing.computeTree h x e c).run.run {}).2.nodes =
        (x :: x.descendants).map Expr.node := by
  have htidy := ResolvedTypes.tidy_of_infer hinfer
  have hids (id : NodeId) : types.contains id ↔ ∃ part ∈ x :: x.descendants, part.id = id := by
    rw [ResolvedTypes.contains_iff_of_infer hinfer, Expr.cons_descendants, Expr.ids, List.mem_map]
  refine ⟨hids, fun part hpart => ?_, htidy.nodup, ?_⟩
  · have hne := htidy.ne_nil part.id ((hids part.id).mpr ⟨part, hpart, rfl⟩)
    obtain ⟨first, rest, hresolutions⟩ := List.exists_cons_of_ne_nil hne
    have hactual : types.actual? part.id = some first.actual := by
      rw [ResolvedTypes.actual?, hresolutions]
      rfl
    exact ⟨hne, by rw [ResolvedTypes.typeOf, hactual]; rfl⟩
  · have hvisits := Typing.visits_computeTree h x e c
    cases hrun : (Typing.computeTree h x e c).run.run {} with
    | mk result s =>
      have hresult : result = .ok types := by
        rw [← hinfer, Expr.infer, hrun]
      subst hresult
      exact hvisits.of_run_ok hrun

private def repeated : Expr :=
  .block ⟨1, {}⟩ [.literal ⟨0, {}⟩ (.int 5), .literal ⟨0, {}⟩ (.int 5)]

/-- A node that is shared is typed twice, in two states, and has a resolution for each of the two
things that are expected of it. -/
theorem Expr.infer_covers_repeated :
    ∃ types, repeated.infer .empty (.convertible .int) {} = .ok types ∧
      (types.resolutions 0).map (·.expectation) = [.free, .convertible .int] ∧
      types.contains 0 ∧ types.contains 1 ∧ ¬ types.contains 2 ∧
      ((Typing.computeTree .empty repeated (.convertible .int) {}).run.run {}).2.nodes =
        [⟨1, {}⟩, ⟨0, {}⟩, ⟨0, {}⟩] := by
  have hresolutions : (repeated.infer .empty (.convertible .int) {}).toOption.map
      (fun types => (types.resolutions 0).map (·.expectation)) =
        some [.free, .convertible .int] := by
    decide +kernel
  obtain ⟨types, hinfer, hresolutions⟩ := exists_of_toOption_map hresolutions
  obtain ⟨hids, _, _, hnodes⟩ := Expr.infer_covers hinfer
  exact ⟨types, hinfer, hresolutions, (hids 0).mpr (by decide), (hids 1).mpr (by decide),
    fun hcontains => absurd ((hids 2).mp hcontains) (by decide), hnodes⟩

end Lowering
