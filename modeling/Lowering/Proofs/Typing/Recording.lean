import Lowering.Proofs.Typing.Arena

/-!
# Type inference is typing with a table

Type inference types each kind of node by the rules. Main statement: the answer of type inference is
the table, or the failure, of recording the types of the tree.
-/

namespace Lowering

namespace Typing

variable {h : Hierarchy} {s₀ s : TypingStates} {i : Nat} {state : TypingState}
  {outer : Option NodeId} {around inner : TypingContext} {x : Expr}

/-- In any state for `x`, type inference does what recording does. -/
def Records (h : Hierarchy) (x : Expr) : Prop :=
  ∀ s i state outer e, Standing s i state outer state.context → state.node = x.node →
    Follows s (compute h i e x) (Recording.record h x outer state.context e)
      fun a s' b => b.1 = a ∧ Worked s s' i state b.2

/-! ## Children -/

private theorem Records.child {n : Nat} {child : TypingState} (hx : Records h x)
    (hchild : Standing s n child outer inner) (hnode : child.node = x.node)
    (hcontext : child.context = inner) (e : Expectation) :
    Follows s (compute h n e x) (Recording.record h x outer inner e)
      fun a s' b => b.1 = a ∧ Worked s s' n child b.2 := by
  subst hcontext
  exact hx s n child outer e hchild hnode

private theorem Records.asOperand (hx : Records h x) (hs : Standing s₀ i state outer around)
    (hp : Passed s₀ s i state inner) (e : Expectation) :
    Follows s (asOperand i x.node fun j => compute h j e x) (Recording.record h x none inner e)
      fun a s' b => b.1 = a ∧ Passed s₀ s' i state b.2 :=
  (follows_asOperand (hp.standing hs) x.node _ fun _ _ _ hchild hnode hcontext =>
    hx.child hchild hnode hcontext e).imp fun _ _ _ ⟨hb, h⟩ => ⟨hb, hp.trans hs h⟩

private theorem Records.asValue (hx : Records h x) (hs : Standing s₀ i state outer around)
    (hp : Passed s₀ s i state inner) (e : Expectation) :
    Follows s (asValue i x.node fun j => compute h j e x)
      (Recording.record h x (some state.node.id) inner e)
      fun a s' b => b.1 = a ∧ Passed s₀ s' i state b.2 :=
  (follows_asValue (hp.standing hs) x.node _ fun _ _ _ hchild hnode hcontext =>
    hx.child hchild hnode hcontext e).imp fun _ _ _ ⟨hb, h⟩ => ⟨hb, hp.trans hs h⟩

private theorem follows_operand (hx : Records h x) (hs : Standing s₀ i state outer around)
    (hp : Passed s₀ s i state inner) (e : Expectation) (id : NodeId) :
    Follows s (asOperand i x.node fun j => compute h j e x)
      (Recording.all id inner [(.operand e, Recording.record h x)])
      fun a s' b => b.1 = [a] ∧ Passed s₀ s' i state b.2 :=
  (hx.asOperand hs hp e).answering fun _ _ _ ⟨hb, h⟩ => ⟨congrArg ([·]) hb, h⟩

private theorem follows_operand_cons {α : Type} {work : Typing α} {rest : List (Ask × Recorder)}
    (hx : Records h x) (hs : Standing s₀ i state outer around) (hp : Passed s₀ s i state inner)
    (e : Expectation) (id : NodeId)
    (hrest : ∀ s' inner', Passed s₀ s' i state inner' →
      Follows s' work (Recording.all id inner' rest) fun _ s'' b => Passed s₀ s'' i state b.2) :
    Follows s ((asOperand i x.node fun j => compute h j e x) >>= fun _ => work)
      (Recording.all id inner ((.operand e, Recording.record h x) :: rest))
      fun _ s' b => Passed s₀ s' i state b.2 :=
  (hx.asOperand hs hp e).bind fun _ s' b ⟨_, hp'⟩ =>
    (hrest s' b.2 hp').answering fun _ _ _ h => h

private theorem follows_args (hs : Standing s₀ i state outer around) (id : NodeId)
    (params : List HostType) (args : List Expr) (hargs : ∀ x ∈ args, Records h x)
    (hp : Passed s₀ s i state inner) :
    Follows s (computeArgs h i params args)
      (Recording.all id inner ((Ask.args params args).zip (args.map (Recording.record h))))
      fun _ s' b => Passed s₀ s' i state b.2 := by
  induction args generalizing s params inner with
  | nil => exact follows_pure hp
  | cons arg args ih =>
    exact follows_operand_cons (hargs arg List.mem_cons_self) hs hp _ id fun _ _ hp' =>
      ih params.tail (fun x hx => hargs x (List.mem_cons_of_mem _ hx)) hp'

private theorem follows_statements (hs : Standing s₀ i state outer around) (e : Expectation)
    (exprs : List Expr) (hexprs : ∀ x ∈ exprs, Records h x) (hp : Passed s₀ s i state inner) :
    Follows s (computeBlock h i e exprs)
      (Recording.all state.node.id inner
        ((Ask.statements e exprs).zip (exprs.map (Recording.record h))))
      fun a s' b => b.1.length = exprs.length ∧ b.1.getLastD .void = a ∧
        Passed s₀ s' i state b.2 := by
  induction exprs generalizing s inner with
  | nil => exact follows_pure ⟨rfl, rfl, hp⟩
  | cons first rest ih =>
    have hfirst := hexprs first List.mem_cons_self
    cases rest with
    | nil => exact (hfirst.asValue hs hp e).answering fun a s' b ⟨hb, h⟩ => ⟨rfl, hb, h⟩
    | cons second rest =>
      apply (hfirst.asOperand hs hp _).bind
      intro _ s₁ b hpost
      obtain ⟨_, hp₁⟩ := hpost
      apply (ih (fun x hx => hexprs x (List.mem_cons_of_mem _ hx)) hp₁).answering
      intro a s' b hpost
      obtain ⟨hlength, hb, h⟩ := hpost
      obtain ⟨types, c⟩ := b
      cases types with
      | nil => cases hlength
      | cons type types => exact ⟨congrArg (· + 1) hlength, hb, h⟩

/-! ## Nodes -/

private theorem Records.of_work
    (hx : ∀ s i state outer e, Standing s i state outer state.context → state.node = x.node →
      ∃ work, compute h i e x = settle h i e x.span work ∧
        Follows s work (Recording.inside state.context e x (x.children.map (Recording.record h)))
          fun a s' b => b.1 = a ∧ Worked s s' i state b.2) : Records h x := by
  intro s i state outer e hs hnode
  obtain ⟨work, hcompute, hwork⟩ := hx s i state outer e hs hnode
  rw [hcompute, Recording.record_eq]
  exact follows_settle h e x hs hnode hwork

private theorem follows_inside {α : Type} {e : Expectation} {asks : List Ask}
    {below : List Recorder} {work : Typing α} {rest : α → Typing HostType}
    {ok : α → TypingStates → List HostType × TypingContext → Prop}
    {done : HostType → TypingStates → HostType × TypingContext → Prop} {c : TypingContext}
    (hasks : x.asks c e = .ok asks)
    (hall : Follows s work (Recording.all x.id c (asks.zip below)) ok)
    (hrest : ∀ a s' b, ok a s' b → Follows s' (rest a) (do
      let value ← Recording.passedType e b.1 x
      let type ← ofExcept (x.ownType b.2 value)
      pure (type, x.following c b.1)) done) :
    Follows s (work >>= rest) (Recording.inside c e x below) done := by
  rw [Recording.inside, hasks]
  exact hall.bind hrest

private theorem follows_typeIn {s' : TypingStates} {b : List HostType × TypingContext}
    (hs : Standing s i state outer state.context) (node : Node) (feature : Feature)
    (receiver : Option Expr) (args : List Expr) (e : Expectation)
    (hp : Passed s s' i state b.2) :
    Follows s' (context i >>= fun c => ofExcept (feature.typeIn c node.span)) (do
      let value ← Recording.passedType e b.1 (.call node feature receiver args)
      let type ← ofExcept ((Expr.call node feature receiver args).ownType b.2 value)
      pure (type, (Expr.call node feature receiver args).following state.context b.1))
      fun a s'' b' => b'.1 = a ∧ Worked s s'' i state b'.2 := by
  refine follows_of_outcome ((outcome_context (hp.standing hs).here hs.live _ _).mpr ⟨rfl, ?_⟩)
  refine (follows_ofExcept _).answering fun a s'' type ⟨hs', ha⟩ => ⟨ha, ?_⟩
  exact hs' ▸ hp.worked hs

private theorem follows_declare {s' : TypingStates} (hs : Standing s i state outer around)
    (hp : Passed s s' i state inner) (declaration : NodeId) (type : HostType) :
    Follows s' (do
        declareLocal i declaration type
        pure HostType.void)
      (pure (HostType.void, around.withLocal declaration type))
      fun a s'' b => b.1 = a ∧ Worked s s'' i state b.2 :=
  follows_of_outcome ((outcome_declareLocal hs hp declaration type).imp
    fun _ _ ⟨htypes, hworked⟩ => ⟨htypes, follows_pure ⟨rfl, hworked⟩⟩)

private theorem follows_resolution {s' : TypingStates} {b : List HostType × TypingContext}
    (hs : Standing s i state outer state.context) (hp : Passed s s' i state b.2)
    (node : Node) (cond yes : Expr) (no : Option Expr) (e : Expectation) :
    Follows s' (do
      let s ← get
      pure ((s.types.resolution? node.id e).elim (b.1.tail.headD .void) (·.actual))) (do
      let value ← Recording.passedType e b.1 (.branch node cond yes no)
      let type ← ofExcept ((Expr.branch node cond yes no).ownType b.2 value)
      pure (type, (Expr.branch node cond yes no).following state.context b.1))
      fun a s'' b' => b'.1 = a ∧ Worked s s'' i state b'.2 := by
  simp only [Recording.passedType, Expr.ownType, Expr.following, bind_assoc, pure_bind,
    ofExcept_ok]
  exact follows_get (follows_pure ⟨rfl, hp.worked hs⟩)

private def computeBranches (h : Hierarchy) (i : Nat) (e : Expectation) (cond yes : Expr)
    (no : Option Expr) : Typing HostType := do
  let _ ← asOperand i cond.node fun j => compute h j (.convertible .boolean) cond
  let type ← asValue i yes.node fun j => compute h j e yes
  match no with
  | some no =>
    let _ ← asValue i no.node fun j => compute h j e no
    pure type
  | none => pure type

private theorem follows_branches {cond yes : Expr} (hcond : Records h cond) (hyes : Records h yes)
    (no : Option Expr) (hno : ∀ x ∈ no, Records h x) (hs : Standing s i state outer state.context)
    (e : Expectation) :
    Follows s (computeBranches h i e cond yes no)
      (Recording.all state.node.id state.context
        ((.operand (.convertible .boolean), Recording.record h cond) ::
          (.value e, Recording.record h yes) ::
          no.toList.map fun no => (.value e, Recording.record h no)))
      fun a s' b => b.1.tail.headD .void = a ∧ Passed s s' i state b.2 := by
  apply (hcond.asOperand hs (.refl hs) _).bind
  intro _ s₁ b₁ hpost
  obtain ⟨_, hp₁⟩ := hpost
  have hbranches : Follows s₁ (do
        let type ← asValue i yes.node fun j => compute h j e yes
        match no with
        | some no =>
          let _ ← asValue i no.node fun j => compute h j e no
          pure type
        | none => pure type)
      (Recording.all state.node.id b₁.2 ((.value e, Recording.record h yes) ::
        no.toList.map fun no => (.value e, Recording.record h no)))
      fun a s' b => b.1.headD .void = a ∧ Passed s s' i state b.2 := by
    apply (hyes.asValue hs hp₁ e).bind
    intro type s₂ b₂ hpost
    obtain ⟨htype, hp₂⟩ := hpost
    cases no with
    | none => exact follows_pure ⟨htype, hp₂⟩
    | some no =>
      have hlast : Follows s₂ (asValue i no.node fun j => compute h j e no)
          (Recording.all state.node.id b₂.2 [(.value e, Recording.record h no)])
          fun _ s' b => Passed s s' i state b.2 :=
        ((hno no rfl).asValue hs hp₂ e).answering fun _ _ _ h => h.2
      exact hlast.bind fun _ s₃ b₃ hp₃ => follows_pure ⟨htype, hp₃⟩
  exact hbranches.answering fun _ _ _ h => h

private theorem compute_branch (i : Nat) (e : Expectation) (node : Node) (cond yes : Expr)
    (no : Option Expr) :
    compute h i e (.branch node cond yes no) = settle h i e node.span (do
      let type ← computeBranches h i e cond yes no
      let s ← get
      pure ((s.types.resolution? node.id e).elim type (·.actual))) := by
  rw [compute, computeBranches]
  cases no <;> simp only [bind_assoc, pure_bind]

theorem compute_decl_some (i : Nat) (e : Expectation) (node : Node) (name : String)
    (type : Option WrittenType) (writeable : Bool) (init : Expr) :
    compute h i e (.decl node name type writeable (some init)) = settle h i e node.span (do
      let initial ← asOperand i init.node fun j =>
        compute h j ((type.map (·.resolve)).elim .free .convertible) init
      declareLocal i node.id ((type.map (·.resolve)).getD initial)
      pure .void) := by
  cases type <;> rw [compute] <;> rfl

theorem records (h : Hierarchy) (x : Expr) : Records h x := by
  induction x using Expr.childInduction with
  | step x ih =>
    cases x with
    | extension node kind children =>
      intro s i state outer e hs hnode
      rw [Recording.record_eq]
      exact follows_throw _
    | literal node value =>
      refine .of_work fun s i state outer e hs hnode => ⟨_, rfl, ?_⟩
      exact follows_pure ⟨rfl, (Passed.refl hs).worked hs⟩
    | block node exprs =>
      refine .of_work fun s i state outer e hs hnode => ⟨_, rfl, ?_⟩
      have hexprs := follows_statements hs e exprs ih (.refl hs)
      rw [hnode] at hexprs
      rw [← bind_pure (computeBlock h i e exprs)]
      exact follows_inside rfl hexprs fun a s' b ⟨_, hb, hp⟩ => follows_pure ⟨hb, hp.worked hs⟩
    | construct node type params throws args =>
      refine .of_work fun s i state outer e hs hnode => ⟨_, rfl, ?_⟩
      exact follows_inside rfl (follows_args hs _ _ args ih (.refl hs))
        fun _ s' b hp => follows_pure ⟨rfl, hp.worked hs⟩
    | raise node value =>
      refine .of_work fun s i state outer e hs hnode => ⟨_, rfl, ?_⟩
      exact follows_inside rfl (follows_operand (ih value List.mem_cons_self) hs (.refl hs) _ _)
        fun _ s' b hp => follows_pure ⟨rfl, hp.2.worked hs⟩
    | cast node type value =>
      refine .of_work fun s i state outer e hs hnode => ⟨_, rfl, ?_⟩
      exact follows_inside rfl (follows_operand (ih value List.mem_cons_self) hs (.refl hs) _ _)
        fun _ s' b hp => follows_pure ⟨rfl, hp.2.worked hs⟩
    | ret node value =>
      cases value with
      | none =>
        refine .of_work fun s i state outer e hs hnode => ⟨_, rfl, ?_⟩
        exact follows_pure ⟨rfl, (Passed.refl hs).worked hs⟩
      | some value =>
        refine .of_work fun s i state outer e hs hnode => ⟨_, rfl, ?_⟩
        refine follows_of_outcome ((outcome_context hs.here hs.live _ _).mpr ⟨rfl, ?_⟩)
        exact follows_inside rfl (follows_operand (ih value List.mem_cons_self) hs (.refl hs) _ _)
          fun _ s' b hp => follows_pure ⟨rfl, hp.2.worked hs⟩
    | call node feature receiver args =>
      cases receiver with
      | none =>
        refine .of_work fun s i state outer e hs hnode => ⟨_, rfl, ?_⟩
        exact follows_inside rfl (follows_args hs _ _ args ih (.refl hs)) fun _ _ _ =>
          follows_typeIn hs node feature none args e
      | some receiver =>
        refine .of_work fun s i state outer e hs hnode => ⟨_, rfl, ?_⟩
        have hreceiver := ih receiver List.mem_cons_self
        have hall := follows_operand_cons hreceiver hs (.refl hs) .free node.id
          fun _ _ hp => follows_args hs node.id feature.paramTypes args
            (fun x hx => ih x (List.mem_cons_of_mem _ hx)) hp
        rw [← bind_assoc]
        exact follows_inside rfl hall fun _ _ _ =>
          follows_typeIn hs node feature (some receiver) args e
    | decl node name type writeable init =>
      cases init with
      | none =>
        cases type <;> refine .of_work fun s i state outer e hs hnode => ⟨_, rfl, ?_⟩
        · exact follows_declare hs (.refl hs) node.id _
        · exact follows_declare hs (.refl hs) node.id _
      | some init =>
        refine .of_work fun s i state outer e hs hnode => ⟨_, compute_decl_some .., ?_⟩
        apply follows_inside rfl
          (follows_operand (ih init List.mem_cons_self) hs (.refl hs) _ node.id)
        intro a s' b hp
        obtain ⟨types, inner⟩ := b
        obtain ⟨rfl, hp⟩ := hp
        have hdeclare := follows_declare hs hp node.id ((type.map (·.resolve)).getD a)
        simpa only [Recording.passedType, Expr.ownType, Expr.following, List.head?_cons,
          Option.getD_some, ofExcept_ok, pure_bind] using hdeclare
    | branch node cond yes no =>
      have hcond := ih cond List.mem_cons_self
      have hyes := ih yes (List.mem_cons_of_mem _ List.mem_cons_self)
      have hno : ∀ x ∈ no, Records h x := fun x hx =>
        ih x (List.mem_cons_of_mem _ (List.mem_cons_of_mem _ (Option.mem_toList.mpr hx)))
      refine .of_work fun s i state outer e hs hnode => ⟨_, compute_branch .., ?_⟩
      have hall := follows_branches hcond hyes no hno hs e
      rw [hnode] at hall
      cases no <;> exact follows_inside rfl hall fun a s' b ⟨ha, hp⟩ =>
        ha ▸ follows_resolution hs hp node cond yes _ e
    | assign node target receiver value =>
      have hvalue := ih value (List.mem_append_right _ List.mem_cons_self)
      refine .of_work fun s i state outer e hs hnode => ⟨_, by rw [compute]; rfl, ?_⟩
      refine follows_of_outcome ((outcome_context hs.here hs.live _ _).mpr ⟨rfl, ?_⟩)
      cases htype : target.targetTypeIn state.context node.span with
      | error f =>
        simp only [Recording.inside, Expr.asks, htype]
        exact follows_throw f
      | ok type =>
        have hasks : (Expr.assign node target receiver value).asks state.context e =
            .ok (receiver.toList.map (fun _ => .operand .free) ++
              [.operand (.convertible type)]) := by
          simp only [Expr.asks, htype]
          rfl
        rw [ofExcept_ok, pure_bind]
        cases receiver with
        | none =>
          exact follows_inside hasks (follows_operand hvalue hs (.refl hs) _ _)
            fun _ s' b hp => follows_pure ⟨rfl, hp.2.worked hs⟩
        | some receiver =>
          have hreceiver := ih receiver List.mem_cons_self
          have hall := follows_operand_cons hreceiver hs (.refl hs) .free node.id fun _ _ hp =>
            (follows_operand hvalue hs hp (.convertible type) node.id).imp fun _ _ _ h => h.2
          dsimp only
          rw [← bind_assoc]
          exact follows_inside hasks hall fun _ s' b hp => follows_pure ⟨rfl, hp.worked hs⟩

/-! ## Whole trees -/

private theorem outcome_root (node : Node) (c : TypingContext) (ok : Nat → TypingStates → Prop)
    (failed : Failure → Prop) :
    Outcome (root node c) {} ok failed ↔
      ok 0 { states := #[{ parent := none, node, role := .root, context := c }] } :=
  Iff.rfl

private theorem outcome_finish (hs : ∀ state ∈ s.states, state.discarded = true)
    (ok : ResolvedTypes → TypingStates → Prop) (failed : Failure → Prop) :
    Outcome finish s ok failed ↔ ok s.types s := by
  have hnone : s.states.findIdx? (!·.discarded) = none := by
    rw [Array.findIdx?_eq_none_iff]
    intro state hstate
    simp [hs state hstate]
  simp only [finish, outcome_bind, outcome_get, hnone, outcome_pure]

private theorem follows_computeTree (h : Hierarchy) (x : Expr) (e : Expectation)
    (c : TypingContext) :
    Follows {} (computeTree h x e c) (Recording.record h x none c e)
      fun types s' _ => types = s'.types := by
  let state : TypingState := { parent := none, node := x.node, role := .root, context := c }
  let s₁ : TypingStates := { states := #[state] }
  have hstanding : Standing s₁ 0 state none c := ⟨rfl, rfl, rfl, rfl⟩
  refine follows_of_outcome ((outcome_root _ _ _ _).mpr ⟨rfl, ?_⟩)
  have hclosed : Follows s₁ (closing 0 (compute h 0 e x)) (Recording.record h x none c e)
      fun _ s' _ => ∀ state ∈ s'.states, state.discarded = true := by
    apply follows_closing (records h x s₁ 0 state none e hstanding rfl)
    intro a s₂ b hpost
    obtain ⟨_, hworked⟩ := hpost
    obtain ⟨inner, hhere⟩ := hworked.here
    simp only [discard, modifyState, outcome_bind, outcome_live hhere rfl, outcome_modify]
    refine ⟨rfl, fun below hbelow => ?_⟩
    obtain ⟨k, hk⟩ := Array.mem_iff_getElem?.mp hbelow
    rw [Array.getElem?_modify] at hk
    by_cases hk0 : 0 = k
    · rw [if_pos hk0] at hk
      obtain ⟨_, _, rfl⟩ := Option.map_eq_some_iff.mp hk
      rfl
    · rw [if_neg hk0] at hk
      exact hworked.spent k below (Nat.one_le_iff_ne_zero.mpr (Ne.symm hk0)) hk
  exact hclosed.andOutcome fun _ s' _ hs' => (outcome_finish hs' _ _).mpr ⟨rfl, rfl⟩

/-- Type inference answers the table that recording leaves behind, or fails as recording does. -/
theorem infer_eq_record (h : Hierarchy) (x : Expr) (e : Expectation) (c : TypingContext) :
    x.infer h e c =
      match (Recording.record h x none c e).run.run {} with
      | (.ok _, types) => .ok types
      | (.error f, _) => .error f := by
  have hfollows := follows_computeTree h x e c
  have hinfer : x.infer h e c = ((computeTree h x e c).run.run {}).1 := rfl
  unfold Follows at hfollows
  rw [hinfer]
  split at hfollows
  · rename_i types s' b types' hact hplain
    obtain ⟨htypes, rfl⟩ := hfollows
    have hplain' : (Recording.record h x none c e).run.run {} = (.ok b, types') := hplain
    simp only [hact, hplain', htypes]
  · rename_i f s' f' types' hact hplain
    have hplain' : (Recording.record h x none c e).run.run {} = (.error f', types') := hplain
    simp only [hact, hplain', hfollows]
  · exact hfollows.elim

/-- Where type inference answers a table, recording leaves it behind. -/
theorem exists_record_of_infer {c : TypingContext} {e : Expectation} {types : ResolvedTypes}
    (hinfer : x.infer h e c = .ok types) :
    ∃ a, (Recording.record h x none c e).run.run {} = (.ok a, types) := by
  rw [infer_eq_record] at hinfer
  split at hinfer
  · obtain rfl := Except.ok.inj hinfer
    exact ⟨_, ‹_›⟩
  · cases hinfer

end Typing

end Lowering
