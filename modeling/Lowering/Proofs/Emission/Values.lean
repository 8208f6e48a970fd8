import Lowering.Proofs.Emission.Nodes
import Lowering.Proofs.Typing.Coherence

/-!
# Prepared values

The statement form of a node completes its effects and leaves a value that can be written without
any. Main statement: in a coherently typed tree that needs no value of a void node, the statement
form settles every value that is needed, and fails only for want of a local or of an operator or
assignment in the host.
-/

namespace Lowering

/-- No node of the tree needs the value of a void one. -/
def ResolvedTypes.GivesOperands (types : ResolvedTypes) (e : Expr) : Prop :=
  ∀ part ∈ e.occurrences, ∀ operand ∈ part.operands, (types.typeOf operand).isVoid = false

instance (types : ResolvedTypes) (e : Expr) : Decidable (types.GivesOperands e) :=
  inferInstanceAs (Decidable (∀ part ∈ e.occurrences, ∀ operand ∈ part.operands,
    (types.typeOf operand).isVoid = false))

/-- The types of the tree are coherent, and no node needs the value of a void one. -/
structure Env.Supports (env : Env) (e : Expr) : Prop where
  coherent : ∀ part ∈ e.occurrences, env.types.Coherent part
  gives : env.types.GivesOperands e

namespace Env.Supports

variable {env : Env} {e : Expr}

theorem part {part : Expr} (he : env.Supports e) (hpart : part ∈ e.occurrences) :
    env.Supports part where
  coherent below hbelow := he.coherent below (Expr.occurrences_subset hpart hbelow)
  gives below hbelow := he.gives below (Expr.occurrences_subset hpart hbelow)

theorem child {child : Expr} (he : env.Supports e) (hchild : child ∈ e.children) :
    env.Supports child :=
  he.part (Expr.mem_occurrences_of_mem_children hchild child.mem_occurrences_self)

theorem self (he : env.Supports e) : env.types.Coherent e :=
  he.coherent e e.mem_occurrences_self

theorem isVoid_operand {operand : Expr} (he : env.Supports e) (h : operand ∈ e.operands) :
    env.isVoid operand = false :=
  he.gives e e.mem_occurrences_self operand h

end Env.Supports

namespace Emit

variable {env : Env} {s : Sink} {failed : Failure → Prop}

/-- The value of `e`, if there is one, can be written without any effect. -/
def Ready (env : Env) (e : Expr) (s : Sink) : Prop :=
  env.isVoid e = false → e.Settled s

theorem Ready.extends {e : Expr} {t : Sink} (h : Ready env e s) (ht : s.Extends t) :
    Ready env e t :=
  fun hvoid => (h hvoid).extends ht

/-- The statement form of `e` readies its value wherever it stands. -/
def Readies (env : Env) (failed : Failure → Prop) (e : Expr) : Prop :=
  ∀ (s : Sink) (needed : Bool),
    Adds s True e.effects failed (fun t => needed = true → Ready env e t) (statement env needed e)

/-- What is settled may still fail for want of a local or of an operator or assignment. -/
def Tolerates (failed : Failure → Prop) (e : Expr) : Prop :=
  ∀ f : Failure, f.isUnresolved ∨ ¬ e.Regular → failed f

theorem tolerates_self (e : Expr) : Tolerates (fun f => f.isUnresolved ∨ ¬ e.Regular) e :=
  fun _ => id

theorem Tolerates.child {e child : Expr} (he : Tolerates failed e) (hchild : child ∈ e.children) :
    Tolerates failed child :=
  fun f hf => he f (hf.imp_right fun h hregular => h (hregular.child hchild))

theorem writes_of_settled {e : Expr} (hfailed : Tolerates failed e) (h : e.Settled s) :
    Writes s True [] failed (expression env e) :=
  (expression_writes env s e).mono (fun _ => ⟨h, rfl⟩) fun f hf => hfailed f (hf.settled h)

theorem Readies.prepares {e : Expr} (h : Readies env failed e) (hfailed : Tolerates failed e)
    (s : Sink) (needed : Bool) :
    Prepares s True failed env e needed (statement env needed e) :=
  (h s needed).imp fun _ _ hpost hneeded hvoid => writes_of_settled hfailed (hpost hneeded hvoid)

private theorem ready_of_void {e : Expr} (h : (env.types.typeOf e).isVoid) : Ready env e s :=
  fun hvoid => Bool.noConfusion (hvoid.symm.trans h)

private theorem adds_values {es : List Expr} (h : ∀ e ∈ es, Readies env failed e)
    (hvalued : ∀ e ∈ es, env.isVoid e = false) :
    Adds s True (es.flatMap Expr.effects) failed (fun t => ∀ e ∈ es, e.Settled t)
      (statements env es) := by
  have hextends (e : Expr) (t u : Sink) (hu : t.Extends u) (ht : e.Settled t) : e.Settled u :=
    ht.extends hu
  apply (adds_statements (fun _ _ => True) hextends es (fun e he _ t _ => ?_) trivial).imp
  · exact fun _ _ ht => ht.1
  · apply (h e he t true).imp
    exact fun _ _ hready => ⟨hready rfl (hvalued e he), trivial⟩

private theorem forall_settled_extends {es : List Expr} (t u : Sink) (hu : t.Extends u)
    (h : ∀ e ∈ es, e.Settled t) : ∀ e ∈ es, e.Settled u :=
  fun e he => (h e he).extends hu

/-- A tree that the types support readies its value. -/
theorem statement_readies (e : Expr) (he : env.Supports e) (hfailed : Tolerates failed e) :
    Readies env failed e := by
  induction e using Expr.childInduction with
  | step e ih =>
    have hchild (child : Expr) (h : child ∈ e.children) : Readies env failed child :=
      ih child h (he.child h) (hfailed.child h)
    have hprepares (child : Expr) (h : child ∈ e.children) (t : Sink) (needed : Bool) :
        Prepares t True failed env child needed (statement env needed child) :=
      (hchild child h).prepares (hfailed.child h) t needed
    have hvalues (s : Sink) (operands : List Expr) (h : operands ⊆ e.children)
        (hoperands : operands ⊆ e.operands) :
        Adds s True (operands.flatMap Expr.effects) failed
          (fun t => ∀ part ∈ operands, part.Settled t) (statements env operands) :=
      adds_values (fun part hpart => hchild part (h hpart)) fun part hpart =>
        he.isVoid_operand (hoperands hpart)
    intro s needed
    cases e with
    | literal node value =>
      apply (adds_literal value).imp
      exact fun t _ _ _ _ => .inline rfl (by simp [Expr.inlined])
    | block node exprs =>
      rcases exprs with _ | ⟨first, _ | ⟨second, rest⟩⟩
      · exact adds_emptyBlock.imp fun _ _ _ _ => ready_of_void he.self
      · apply (adds_singleton (fun t u hu hready hneeded => (hready hneeded).extends hu)
          (hchild first List.mem_cons_self s needed)).imp
        intro t _ hready hneeded hvoid
        have hfirst : env.isVoid first = false := by rw [← hvoid, Env.isVoid, Env.isVoid, he.self]
        exact .inline rfl (List.forall_mem_singleton.mpr (hready hneeded hfirst))
      · apply (adds_block (fun _ _ => True) (fun child h _ t _ needed =>
          ⟨hprepares child h t needed, (hchild child h t needed).imp fun _ _ _ => trivial⟩)
          fun _ _ => trivial).imp
        exact fun t _ hbinds hneeded hvoid => .named (hbinds hneeded hvoid)
    | decl node name type writeable init =>
      cases init with
      | none => exact adds_bareDeclaration.imp fun _ _ _ _ => ready_of_void he.self
      | some init =>
        have hvoid : env.isVoid init = false := he.isVoid_operand List.mem_cons_self
        apply (adds_declaration (hchild init List.mem_cons_self s _) fun t u _ hready hu => ?_).imp
        · exact fun _ _ _ _ => ready_of_void he.self
        · have hsettled : init.Settled t := hready (by simp [hvoid]) hvoid
          exact writes_of_settled (hfailed.child List.mem_cons_self) (hsettled.extends hu)
    | branch node cond yes no =>
      have hvoid : env.isVoid cond = false := he.isVoid_operand List.mem_cons_self
      apply (adds_branch (fun t u hu hready hneeded => (hready hneeded).extends hu)
        (hchild cond List.mem_cons_self s true)
        (fun t _ hready => writes_of_settled (hfailed.child List.mem_cons_self) (hready rfl hvoid))
        fun t _ _ child h needed =>
          hprepares child (List.mem_cons_of_mem _ h) t.openScope needed).imp
      exact fun t _ hbinds hneeded hvoid => .named (hbinds hneeded hvoid)
    | ret node value =>
      cases value with
      | none => exact adds_bareReturn.imp fun _ _ _ _ => ready_of_void he.self
      | some value =>
        apply (adds_return fun needed => hprepares value List.mem_cons_self s needed).imp
        exact fun _ _ _ _ => ready_of_void he.self
    | raise node value =>
      have hvoid : env.isVoid value = false := he.isVoid_operand List.mem_cons_self
      apply (adds_raise ((hprepares value List.mem_cons_self s true).imp
        fun _ _ hwrites => hwrites rfl hvoid)).imp
      exact fun _ _ _ _ => ready_of_void he.self
    | extension node kind children => exact he.self.elim
    | cast node type value =>
      have hvoid : env.isVoid value = false := he.isVoid_operand List.mem_cons_self
      apply (adds_cast (fun t u hu hready hneeded => (hready hneeded).extends hu)
        (hchild value List.mem_cons_self s true)).imp
      exact fun t _ hready _ _ =>
        .inline rfl (List.forall_mem_singleton.mpr (hready rfl hvoid))
    | construct node type params throws args =>
      apply (adds_construct forall_settled_extends
        (hvalues s args (List.Subset.refl _) (List.Subset.refl _)) fun t _ hsettled part hpart =>
          writes_of_settled (hfailed.child hpart) (hsettled part hpart)).imp
      exact fun t _ hpost hneeded _ => .named (hpost.2 hneeded)
    | assign node target receiver value =>
      apply (adds_assign forall_settled_extends
        (hvalues s _ (List.Subset.refl _) (List.Subset.refl _))
        (fun t _ hsettled part hpart =>
          writes_of_settled (hfailed.child hpart) (hsettled part hpart))
        (fun _ _ _ _ _ => hfailed _ (.inl rfl))
        fun hkind => hfailed _ (.inr fun hregular => ?_)).imp
      · exact fun _ _ _ _ => ready_of_void he.self
      · exact Bool.false_ne_true (hkind.symm.trans hregular.self)
    | call node feature receiver args =>
      apply (adds_call forall_settled_extends
        (hvalues s _ (List.Subset.refl _) (List.Subset.refl _)) fun t _ hsettled part hpart =>
          writes_of_settled (hfailed.child hpart) (hsettled part hpart)).imp
      rintro t _ ⟨hsettled, hbinds⟩ hneeded hvoid
      cases hinvokes : feature.isInvocation with
      | true => exact .named (hbinds hinvokes hneeded hvoid)
      | false => exact .inline (by simp [Expr.isInline, hinvokes]) hsettled

end Emit

end Lowering
