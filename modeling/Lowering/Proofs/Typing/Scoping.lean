import Lowering.Proofs.Tree.Scoping
import Lowering.Proofs.Typing.Recording

/-!
# Typed trees are scoped

A local can be named where its declaration is in the context, and contexts grow from sibling to
sibling. Main statement: a tree that type inference accepts is scoped, if it does not carry a local
from one branch of an `if` over to the other.
-/

namespace Lowering

/-- The locals that can be named. -/
def TypingContext.names (c : TypingContext) : List NodeId :=
  c.locals.map (·.1)

private theorem mem_names_of_local? {c : TypingContext} {d : NodeId} {type : HostType}
    (h : c.local? d = some type) : d ∈ c.names := by
  obtain ⟨before, after, hlocals, _⟩ := List.lookup_eq_some_iff.mp h
  simp [TypingContext.names, hlocals]

namespace Expr

theorem names_following (x : Expr) (c : TypingContext) (types : List HostType) :
    (x.following c types).names = x.declared ++ c.names := by
  cases x <;> rfl

private theorem refersWithin_of_ok {x : Expr} {e : Expectation} {c inner : TypingContext}
    {asks : List Ask} {value type : HostType} (hasks : x.asks c e = .ok asks)
    (htype : x.ownType inner value = .ok type)
    (hinner : ∀ d ∈ inner.names, d ∈ x.children.flatMap declared ++ c.names) :
    x.refersWithin c.names := by
  cases x with
  | call node feature receiver args =>
    intro d hkind
    apply hinner d
    simp only [ownType, Feature.typeIn, hkind] at htype
    cases hlocal : inner.local? d with
    | some type => exact mem_names_of_local? hlocal
    | none => simp [hlocal] at htype
  | assign node target receiver value =>
    intro d hkind
    simp only [Expr.asks, Feature.targetTypeIn, hkind] at hasks
    cases hlocal : c.local? d with
    | some type => exact mem_names_of_local? hlocal
    | none => simp [hlocal, bind, Except.bind] at hasks
  | _ => trivial

end Expr

namespace Recording

variable {h : Hierarchy}

/-- What recording the types of `x` in context `c` shows about its locals. -/
def Scopes (h : Hierarchy) (x : Expr) : Prop :=
  ∀ outer c e types, Outcome (record h x outer c e) types
    (fun b _ => Expr.Scoped c.names x ∧ b.2.names = x.declared ++ c.names) fun _ => True

private theorem outcome_all (id : NodeId) (xs : List Expr) (hxs : ∀ x ∈ xs, Scopes h x)
    (asks : List Ask) (hlength : asks.length = xs.length) (c : TypingContext)
    (types : ResolvedTypes) :
    Outcome (all id c (asks.zip (xs.map (record h)))) types
      (fun b _ => (∀ entry ∈ Expr.inSequence c.names xs, Expr.Scoped entry.1 entry.2) ∧
        ∀ d ∈ b.2.names, d ∈ xs.flatMap Expr.declared ++ c.names) fun _ => True := by
  induction xs generalizing asks c types with
  | nil => simp [all, Expr.inSequence]
  | cons x xs ih =>
    obtain ⟨ask, asks, rfl⟩ := List.exists_cons_of_length_eq_add_one hlength
    simp only [List.map_cons, List.zip_cons_cons, all, outcome_bind]
    apply (hxs x List.mem_cons_self _ c ask.expectation types).imp
    rintro ⟨type, c'⟩ types' ⟨hscoped, hnames⟩
    have hrest := ih (fun x hx => hxs x (List.mem_cons_of_mem _ hx)) asks
      (Nat.succ.inj hlength) c' types'
    apply hrest.imp
    rintro ⟨_, inner⟩ _ ⟨hsequence, hinner⟩
    simp only [hnames] at hsequence hinner
    refine ⟨List.forall_mem_cons.mpr ⟨hscoped, hsequence⟩, fun d hd => ?_⟩
    have hd' := hinner d hd
    simp only [List.mem_append, List.flatMap_cons] at hd' ⊢
    tauto

private theorem scoped_of_inSequence {x : Expr} {scope : List NodeId}
    (hx : x.KeepsBranchesApart) (hrefers : x.refersWithin scope)
    (hchildren : ∀ entry ∈ Expr.inSequence scope x.children, Expr.Scoped entry.1 entry.2) :
    Expr.Scoped scope x := by
  refine .intro hrefers ?_
  cases x with
  | branch node cond yes no =>
    have hcond : Expr.Scoped scope cond := hchildren (scope, cond) List.mem_cons_self
    have hyes : Expr.Scoped (cond.declared ++ scope) yes :=
      hchildren (cond.declared ++ scope, yes) (List.mem_cons_of_mem _ List.mem_cons_self)
    cases no with
    | none =>
      refine List.forall_mem_cons.mpr ⟨hcond, List.forall_mem_singleton.mpr hyes⟩
    | some no =>
      have hno : Expr.Scoped (yes.declared ++ (cond.declared ++ scope)) no :=
        hchildren (yes.declared ++ (cond.declared ++ scope), no)
          (List.mem_cons_of_mem _ (List.mem_cons_of_mem _ List.mem_cons_self))
      have hapart : Expr.Scoped (cond.declared ++ scope) no :=
        hno.of_locals fun d hd hmem => (List.mem_append.mp hmem).resolve_left fun hd' =>
          Expr.isApart_branch.mp hx.self _ hd' hd
      exact List.forall_mem_cons.mpr ⟨hcond, List.forall_mem_cons.mpr
        ⟨hyes, List.forall_mem_singleton.mpr hapart⟩⟩
  | _ => exact hchildren

private theorem outcome_settle (outer : Option NodeId) (e : Expectation) (x : Expr)
    (typed : HostType × TypingContext) (types : ResolvedTypes) :
    Outcome (settle h outer e x typed) types (fun b _ => b.2 = typed.2) fun _ => True := by
  simp only [settle, outcome_bind]
  cases e.classify h typed.1 x.span with
  | error f => trivial
  | ok conformance =>
    rw [outcome_ofExcept]
    exact (Outcome.trivial (offer h outer x.node _) types).imp fun _ _ _ => rfl

theorem scopes (h : Hierarchy) (x : Expr) (hx : x.KeepsBranchesApart) : Scopes h x := by
  induction x using Expr.childInduction with
  | step x ih =>
    intro outer c e types
    rw [record_eq, outcome_bind, inside]
    simp only [outcome_bind]
    cases hasks : x.asks c e with
    | error f => trivial
    | ok asks =>
      rw [outcome_ofExcept]
      apply (outcome_all x.id x.children (fun child hchild => ih child hchild (hx.child hchild))
        asks (Expr.length_asks hasks) c types).imp
      rintro ⟨childTypes, inner⟩ types₁ ⟨hchildren, hinner⟩
      apply (Outcome.trivial (passedType e childTypes x) types₁).imp
      intro value types₂ _
      cases htype : x.ownType inner value with
      | error f => trivial
      | ok type =>
        have hscoped := scoped_of_inSequence hx (Expr.refersWithin_of_ok hasks htype hinner)
          hchildren
        refine (outcome_settle outer e x (type, x.following c childTypes) types₂).imp
          fun b _ hb => ⟨hscoped, ?_⟩
        rw [hb, Expr.names_following]

end Recording

/-- A tree that type inference accepts is scoped unless a local would leave a branch. -/
theorem Expr.scoped_of_infer {h : Hierarchy} {x : Expr} {e : Expectation} {c : TypingContext}
    {types : ResolvedTypes} (hinfer : x.infer h e c = .ok types) (hx : x.KeepsBranchesApart) :
    Expr.Scoped c.names x := by
  obtain ⟨_, hrun⟩ := Typing.exists_record_of_infer hinfer
  exact ((Recording.scopes h x hx none c e {}).of_run_ok hrun).1

end Lowering
