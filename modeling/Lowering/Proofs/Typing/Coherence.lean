import Lowering.Analysis.Thrown
import Lowering.Proofs.Typing.Agreement

/-!
# Coherent types

What lowering relies on in a table of types: a node without a value is void, and a block of one
expression has the type of that expression. Main statement: in a tree without sharing, the types
that type inference finds are coherent at every node.
-/

namespace Lowering

variable {h : Hierarchy} {types : ResolvedTypes} {c : TypingContext} {e : Expectation}

/-- The type of a node suits what its two forms write. -/
def ResolvedTypes.Coherent (types : ResolvedTypes) : Expr → Prop
  | .block node [only] => types.typeOf (.block node [only]) = types.typeOf only
  | .block node [] => (types.typeOf (.block node [])).isVoid
  | .decl node name type writeable init =>
    (types.typeOf (.decl node name type writeable init)).isVoid
  | .ret node value => (types.typeOf (.ret node value)).isVoid
  | .raise node value => (types.typeOf (.raise node value)).isVoid
  | .assign node target receiver value =>
    (types.typeOf (.assign node target receiver value)).isVoid
  | .extension .. => False
  | _ => True

theorem typeOf_of_records {x : Expr} {type : HostType}
    (hrecords : types.Records ⟨x.id, e, type⟩) : types.typeOf x = type := by
  obtain ⟨r, hr, _, htype⟩ := hrecords
  rw [ResolvedTypes.typeOf, ResolvedTypes.actual?, hr]
  exact htype

theorem expected?_of_records {id : NodeId} {type : HostType}
    (hrecords : types.Records ⟨id, e, type⟩) : types.expected? id = e.type := by
  obtain ⟨r, hr, hexpectation, _⟩ := hrecords
  rw [ResolvedTypes.expected?, hr]
  exact congrArg Expectation.type hexpectation

theorem typeOf_of_judge {x : Expr} {verdict : Verdict} (hx : x.judge h c e = .ok verdict)
    (hrecords : ∀ j ∈ verdict.judgements, types.Records j) : types.typeOf x = verdict.type := by
  obtain ⟨verdicts, hjudgements, _⟩ := Expr.judgements_eq hx
  refine typeOf_of_records (e := e) (hrecords _ ?_)
  rw [hjudgements]
  exact List.mem_append_right _ List.mem_cons_self

theorem refine_of_judge {x : Expr} {verdict : Verdict} (hx : x.judge h c e = .ok verdict) :
    Typing.refine e verdict.type = verdict.type := by
  obtain ⟨_, _, _, type, _, _, _, _, _, rfl⟩ := Expr.judge_eq_ok hx
  exact refine_idem e type

private theorem isVoid_of_judge {x : Expr} {verdict : Verdict} (hx : x.judge h c e = .ok verdict)
    (hrecords : ∀ j ∈ verdict.judgements, types.Records j)
    (hvoid : ∀ asks, x.asks c e = .ok asks → ∀ childTypes inner type,
      x.ownType inner ((h.blendAll (Ask.passedTypes asks childTypes)).getD .void) = .ok type →
      type = .void) :
    (types.typeOf x).isVoid := by
  have htype := typeOf_of_judge hx hrecords
  obtain ⟨asks, verdicts, inner, type, _, hasks, _, hown, _, rfl⟩ := Expr.judge_eq_ok hx
  obtain rfl := hvoid asks hasks _ _ _ hown
  rw [htype, refine_eq_self rfl]
  rfl

private theorem typeOf_singleton {node : Node} {only : Expr} {verdict : Verdict}
    (hx : (Expr.block node [only]).judge h c e = .ok verdict)
    (hrecords : ∀ j ∈ verdict.judgements, types.Records j) :
    types.typeOf (.block node [only]) = types.typeOf only := by
  have htype := typeOf_of_judge hx hrecords
  obtain ⟨asks, verdicts, inner, type, _, hasks, hall, hown, _, rfl⟩ := Expr.judge_eq_ok hx
  obtain rfl := Except.ok.inj hasks
  have hall' : Judge.all c [(.value e, only.judge h)] = .ok (verdicts, inner) := hall
  cases honly : only.judge h c e with
  | error f => simp [Judge.all, Ask.value, honly, bind, Except.bind] at hall'
  | ok below =>
    simp only [Judge.all, Ask.value, honly, bind, Except.bind, Except.ok.injEq, Prod.mk.injEq]
      at hall'
    obtain ⟨rfl, rfl⟩ := hall'
    obtain rfl : below.type = type := Except.ok.inj hown
    have hbelow : types.typeOf only = below.type :=
      typeOf_of_judge honly fun j hj => hrecords j (by simp [hj])
    rw [htype, hbelow]
    exact refine_of_judge honly

private theorem coherent_of_judge {x : Expr} {verdict : Verdict} (hx : x.judge h c e = .ok verdict)
    (hrecords : ∀ j ∈ verdict.judgements, types.Records j) : types.Coherent x := by
  cases x with
  | block node exprs =>
    rcases exprs with _ | ⟨only, _ | ⟨second, rest⟩⟩
    · apply isVoid_of_judge hx hrecords
      intro asks hasks childTypes inner type hown
      obtain rfl := Except.ok.inj hasks
      exact (Except.ok.inj hown).symm
    · exact typeOf_singleton hx hrecords
    · trivial
  | decl | ret | raise | assign =>
    exact isVoid_of_judge hx hrecords fun _ _ _ _ _ hown => (Except.ok.inj hown).symm
  | extension node kind children =>
    obtain ⟨_, _, _, _, _, hasks, _⟩ := Expr.judge_eq_ok hx
    cases hasks
  | _ => trivial

/-- Type inference finds coherent types for a tree without sharing. -/
theorem ResolvedTypes.coherent_of_infer {x : Expr} (hx : x.Unshared)
    (hinfer : x.infer h e c = .ok types) : ∀ part ∈ x.occurrences, types.Coherent part := by
  intro part hpart
  obtain ⟨verdict, hjudge, hrecords⟩ := Expr.exists_judge_of_infer hx hinfer
  obtain ⟨_, _, below, hbelow, hsubset⟩ := Expr.exists_judge_of_mem_occurrences hjudge hpart
  exact coherent_of_judge hbelow fun j hj => hrecords j (hsubset hj)

end Lowering
