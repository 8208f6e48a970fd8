import Lowering.Proofs.Typing.Rules

/-!
# Judgements

Typing without a table: each node is judged once, from left to right, and the answer says which
type was found for it under which expectation. Main statements: every node of a judged tree is
judged once, after the nodes below it, and every part of the tree is judged by itself.
-/

namespace Lowering

/-- The type of a value that is of one type or of another; a type that tells nothing gives way. -/
def Hierarchy.blend (h : Hierarchy) (a b : HostType) : HostType :=
  if a = b ∨ b.isVoid || b.isAny then a
  else if a.isVoid || a.isAny then b
  else h.join a b

/-- The type of a value that is of one of several types. -/
def Hierarchy.blendAll (h : Hierarchy) : List HostType → Option HostType
  | [] => none
  | type :: types => some (types.foldl h.blend type)

/-- The types of the children whose values are to be the value of their node. -/
def Ask.passedTypes : List Ask → List HostType → List HostType
  | ask :: asks, type :: types =>
    if ask.passed then type :: passedTypes asks types else passedTypes asks types
  | _, _ => []

/-- The type of a node under an expectation. -/
structure Judgement where
  id : NodeId
  expectation : Expectation
  actual : HostType
deriving DecidableEq, Repr

structure Verdict where
  type : HostType
  /-- What can be named after the node. -/
  after : TypingContext
  /-- The judgements on the node and all nodes below it, in evaluation order. -/
  judgements : List Judgement
deriving DecidableEq, Repr

/-- How a node is judged in a context and under an expectation. -/
abbrev Judge := TypingContext → Expectation → Except Failure Verdict

namespace Judge

/-- Children from left to right, each in what the one before it leaves behind. -/
def all (c : TypingContext) : List (Ask × Judge) → Except Failure (List Verdict × TypingContext)
  | [] => .ok ([], c)
  | (ask, child) :: rest => do
    let verdict ← child c ask.expectation
    let (verdicts, c) ← all verdict.after rest
    .ok (verdict :: verdicts, c)

/-- Check the type of `x` and add the judgement on it to those on the nodes below it. -/
def conclude (h : Hierarchy) (e : Expectation) (x : Expr) (type : HostType)
    (after : TypingContext) (verdicts : List Verdict) : Except Failure Verdict := do
  let _ ← e.classify h type x.span
  let type := Typing.refine e type
  .ok ⟨type, after, verdicts.flatMap (·.judgements) ++ [⟨x.id, e, type⟩]⟩

/-- Judge a node by the rules, given how its children are judged. -/
def byRules (h : Hierarchy) (x : Expr) (children : List Judge) : Judge := fun c e => do
  let asks ← x.asks c e
  let (verdicts, inner) ← all c (asks.zip children)
  let types := verdicts.map (·.type)
  let value := (h.blendAll (Ask.passedTypes asks types)).getD .void
  let type ← x.ownType inner value
  conclude h e x type (x.following c types) verdicts

end Judge

def Expr.judge (h : Hierarchy) : Expr → Judge :=
  Expr.fold (Judge.byRules h)

theorem Expr.judge_eq (h : Hierarchy) (x : Expr) :
    x.judge h = Judge.byRules h x (x.children.map (judge h)) := by
  rw [judge, fold_eq]

/-! ## Judged trees -/

theorem bind_eq_ok {α β : Type} {result : Except Failure α} {next : α → Except Failure β}
    {b : β} : (result >>= next) = .ok b ↔ ∃ a, result = .ok a ∧ next a = .ok b := by
  cases result <;> simp [bind, Except.bind]

theorem Judge.forall₂_of_all {h : Hierarchy} {c inner : TypingContext} {xs : List Expr}
    {asks : List Ask} (hlength : asks.length = xs.length) {verdicts : List Verdict}
    (hall : Judge.all c (asks.zip (xs.map (Expr.judge h))) = .ok (verdicts, inner)) :
    List.Forall₂ (fun x verdict => ∃ c, ∃ ask ∈ asks, x.judge h c ask.expectation = .ok verdict)
      xs verdicts := by
  induction xs generalizing asks c verdicts with
  | nil =>
    simp only [List.map_nil, List.zip_nil_right, Judge.all, Except.ok.injEq, Prod.mk.injEq] at hall
    exact hall.1 ▸ .nil
  | cons x xs ih =>
    obtain ⟨ask, asks, rfl⟩ := List.exists_cons_of_length_eq_add_one hlength
    simp only [List.map_cons, List.zip_cons_cons, Judge.all, bind_eq_ok] at hall
    obtain ⟨first, hfirst, ⟨rest, after⟩, hrest, hverdicts⟩ := hall
    simp only [Except.ok.injEq, Prod.mk.injEq] at hverdicts
    obtain ⟨rfl, rfl⟩ := hverdicts
    refine .cons ⟨c, ask, List.mem_cons_self, hfirst⟩ ?_
    apply (ih (Nat.succ.inj hlength) hrest).imp
    intro x verdict hjudged
    obtain ⟨c, ask, hask, hverdict⟩ := hjudged
    exact ⟨c, ask, List.mem_cons_of_mem _ hask, hverdict⟩

theorem Judge.length_all {h : Hierarchy} {c inner : TypingContext} {xs : List Expr}
    {asks : List Ask} (hlength : asks.length = xs.length) {verdicts : List Verdict}
    (hall : Judge.all c (asks.zip (xs.map (Expr.judge h))) = .ok (verdicts, inner)) :
    verdicts.length = xs.length :=
  (Judge.forall₂_of_all hlength hall).length_eq.symm

theorem Ask.passedTypes_of_not_passed {asks : List Ask} (h : ∀ ask ∈ asks, ask.passed = false)
    (types : List HostType) : Ask.passedTypes asks types = [] := by
  induction asks generalizing types with
  | nil => cases types <;> rfl
  | cons ask asks ih =>
    obtain ⟨hask, hasks⟩ := List.forall_mem_cons.mp h
    cases types with
    | nil => rfl
    | cons type types => simp [passedTypes, hask, ih hasks]

theorem Ask.passedTypes_statements {e : Expectation} {exprs : List Expr} {types : List HostType}
    (hlength : types.length = exprs.length) :
    Ask.passedTypes (Ask.statements e exprs) types = types.getLast?.toList := by
  induction exprs generalizing types with
  | nil =>
    obtain rfl : types = [] := List.eq_nil_of_length_eq_zero hlength
    rfl
  | cons first rest ih =>
    obtain ⟨type, types, rfl⟩ := List.exists_cons_of_length_eq_add_one hlength
    cases rest with
    | nil =>
      obtain rfl : types = [] := List.eq_nil_of_length_eq_zero (Nat.succ.inj hlength)
      rfl
    | cons second rest =>
      obtain ⟨type', types, rfl⟩ := List.exists_cons_of_length_eq_add_one (Nat.succ.inj hlength)
      rw [List.getLast?_cons_cons, ← ih (Nat.succ.inj hlength)]
      rfl

private theorem exists_of_forall₂ {α β : Type} {R : α → β → Prop} {as : List α} {bs : List β}
    (h : List.Forall₂ R as bs) {a : α} (ha : a ∈ as) : ∃ b ∈ bs, R a b := by
  induction h with
  | nil => cases ha
  | @cons _ b _ _ hab _ ih =>
    rcases List.mem_cons.mp ha with rfl | ha
    · exact ⟨b, List.mem_cons_self, hab⟩
    · obtain ⟨b, hb, hab⟩ := ih ha
      exact ⟨b, List.mem_cons_of_mem _ hb, hab⟩

private theorem flatMap_eq_of_forall₂ {α β γ : Type} {R : α → β → Prop} {as : List α}
    {bs : List β} {f : α → List γ} {g : β → List γ} (h : List.Forall₂ R as bs)
    (hfg : ∀ a ∈ as, ∀ b, R a b → f a = g b) : as.flatMap f = bs.flatMap g := by
  induction h with
  | nil => rfl
  | cons hab _ ih =>
    rw [List.flatMap_cons, List.flatMap_cons, hfg _ List.mem_cons_self _ hab,
      ih fun a ha => hfg a (List.mem_cons_of_mem _ ha)]

namespace Expr

variable {h : Hierarchy} {c : TypingContext} {e : Expectation} {x : Expr} {verdict : Verdict}

theorem judge_eq_ok (hx : x.judge h c e = .ok verdict) :
    ∃ asks verdicts inner type conformance, x.asks c e = .ok asks ∧
      Judge.all c (asks.zip (x.children.map (judge h))) = .ok (verdicts, inner) ∧
      x.ownType inner ((h.blendAll (Ask.passedTypes asks (verdicts.map (·.type)))).getD .void) =
        .ok type ∧
      e.classify h type x.span = .ok conformance ∧
      verdict = ⟨Typing.refine e type, x.following c (verdicts.map (·.type)),
        verdicts.flatMap (·.judgements) ++ [⟨x.id, e, Typing.refine e type⟩]⟩ := by
  rw [judge_eq] at hx
  simp only [Judge.byRules, Judge.conclude, bind_eq_ok, Except.ok.injEq] at hx
  obtain ⟨asks, hasks, ⟨verdicts, inner⟩, hall, type, htype, conformance, hclassify, rfl⟩ := hx
  exact ⟨asks, verdicts, inner, type, conformance, hasks, hall, htype, hclassify, rfl⟩

/-- The judgement on a tree comes last, after those on the verdicts of its children. -/
theorem judgements_eq (hx : x.judge h c e = .ok verdict) :
    ∃ verdicts : List Verdict,
      verdict.judgements = verdicts.flatMap (·.judgements) ++ [⟨x.id, e, verdict.type⟩] ∧
      List.Forall₂ (fun child verdict => ∃ c e, child.judge h c e = .ok verdict) x.children
        verdicts := by
  obtain ⟨asks, verdicts, inner, type, _, hasks, hall, _, _, rfl⟩ := judge_eq_ok hx
  exact ⟨verdicts, rfl, (Judge.forall₂_of_all (length_asks hasks) hall).imp
    fun _ _ ⟨c, ask, _, hverdict⟩ => ⟨c, ask.expectation, hverdict⟩⟩

/-- Every node is judged once for each of its places, in evaluation order. -/
theorem ids_judgements (hx : x.judge h c e = .ok verdict) :
    verdict.judgements.map (·.id) = x.postorder.map id := by
  induction x using childInduction generalizing c e verdict with
  | step x ih =>
    obtain ⟨verdicts, hjudgements, hchildren⟩ := judgements_eq hx
    have hbelow : (verdicts.flatMap (·.judgements)).map (·.id) =
        (x.children.flatMap postorder).map id := by
      rw [List.map_flatMap, List.map_flatMap]
      exact (flatMap_eq_of_forall₂ hchildren fun child hchild verdict ⟨_, _, hverdict⟩ =>
        (ih child hchild hverdict).symm).symm
    rw [hjudgements, postorder_eq, List.map_append, List.map_append, hbelow]
    rfl

/-- Every node of a judged tree is judged by itself, and its judgements are among those on the
tree. -/
theorem exists_judge_of_mem_occurrences (hx : x.judge h c e = .ok verdict) {part : Expr}
    (hpart : part ∈ x.occurrences) :
    ∃ c e verdict', part.judge h c e = .ok verdict' ∧
      verdict'.judgements ⊆ verdict.judgements := by
  induction x using childInduction generalizing c e verdict with
  | step x ih =>
    rw [occurrences_eq] at hpart
    rcases List.mem_cons.mp hpart with rfl | hpart
    · exact ⟨c, e, verdict, hx, List.Subset.refl _⟩
    · obtain ⟨child, hchild, hpart⟩ := List.mem_flatMap.mp hpart
      obtain ⟨verdicts, hjudgements, hchildren⟩ := judgements_eq hx
      obtain ⟨below, hbelow, c, e, hverdict⟩ := exists_of_forall₂ hchildren hchild
      obtain ⟨c, e, verdict', hpart, hsubset⟩ := ih child hchild hverdict hpart
      refine ⟨c, e, verdict', hpart, fun j hj => ?_⟩
      rw [hjudgements]
      exact List.mem_append_left _ (List.mem_flatMap.mpr ⟨below, hbelow, hsubset hj⟩)

end Expr

end Lowering
