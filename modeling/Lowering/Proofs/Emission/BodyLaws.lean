import Lowering.Proofs.Emission.Frames
import Lowering.Proofs.Emission.StatementLaws

/-!
# Laws of bodies

A body is the statement form of its tree and the return of its value. Main statements: a law that
allows the forms of a tree and the return governs the body of the tree, and also the expressions of
a block that stand for a body.
-/

namespace Lowering

namespace Emit

/-- The value that a body returns. -/
def bodyValue (env : Env) (e : Expr) (expected : Option HostType) : Emit Unit := do
  if env.isVoid e then
    append (HostType.defaultLiteral expected)
  else
    expression env e
  append ";"

theorem bodyText_eq (env : Env) (e : Expr) (expected : Option HostType) :
    let returns := !expected.any (·.isVoid) && !e.exitsEarly
    bodyText env e expected = (do
      statement env (returns && !env.isVoid e) e
      if returns then returning (bodyValue env e expected) else pure ()) :=
  rfl

/-- The value of the last expression of a block that returns it. -/
def lastValue (env : Env) (e : Expr) (expected : Option HostType) : Emit Unit := do
  append "("
  convertedExpression env e expected
  append ");"

theorem returningLast_singleton (env : Env) (e : Expr) (expected : Option HostType)
    (returns : Bool) :
    let returned := returns && !env.isVoid e && !e.exitsEarly
    returningLast env expected returns [e] = (do
      statement env returned e
      if returned then returning (lastValue env e expected) else pure ()) :=
  rfl

namespace FormLaw

variable {among : Expr → HostType → Prop} {ok failed : Sink → Sink → Prop}
  {uses : NodeId → NameKey → Prop} {env : Env} {e : Expr}

theorem bodyValue (law : FormLaw among ok failed uses) (hkeys : e.LooksUp env.types uses)
    (expected : Option HostType) (s : Sink) :
    Obeys ok failed (Emit.bodyValue env e expected) s := by
  unfold Emit.bodyValue
  split
  · exact law.bind (law.append _) (fun _ => law.append _) s
  · exact law.bind (law.expression env hkeys) (fun _ => law.append _) s

theorem lastValue (law : FormLaw among ok failed uses) (hkeys : e.LooksUp env.types uses)
    (expected : Option HostType) (s : Sink) :
    Obeys ok failed (Emit.lastValue env e expected) s :=
  law.bind (law.append _) (fun _ => law.bind
    (law.converted (law.expression env hkeys) env e expected) fun _ => law.append _) s

end FormLaw

namespace Law

variable {among : Expr → HostType → Prop} {ok failed : Sink → Sink → Prop}
  {uses : NodeId → NameKey → Prop}

theorem bodyText (law : Law among ok failed uses) (env : Env) {e : Expr}
    (h : ∀ part ∈ e.occurrences, among part (hoistedType env part))
    (hkeys : e.LooksUp env.types uses) (expected : Option HostType) (s : Sink) :
    Obeys ok failed (Emit.bodyText env e expected) s := by
  rw [bodyText_eq]
  refine law.bind (law.statement env h hkeys _) (fun _ t => ?_) s
  split
  · exact law.returning (law.bodyValue hkeys expected) t
  · exact law.pure () t

theorem returningLast (law : Law among ok failed uses) (env : Env) (expected : Option HostType)
    (returns : Bool) {exprs : List Expr}
    (h : ∀ e ∈ exprs, ∀ part ∈ e.occurrences, among part (hoistedType env part))
    (hkeys : ∀ e ∈ exprs, e.LooksUp env.types uses) (s : Sink) :
    Obeys ok failed (Emit.returningLast env expected returns exprs) s := by
  induction exprs generalizing s with
  | nil => exact law.pure () s
  | cons first rest ih =>
    obtain ⟨hfirst, hrest⟩ := List.forall_mem_cons.mp h
    obtain ⟨hlast, hlater⟩ := List.forall_mem_cons.mp hkeys
    cases rest with
    | nil =>
      rw [returningLast_singleton]
      refine law.bind (law.statement env hfirst hlast _) (fun _ t => ?_) s
      split
      · exact law.returning (law.lastValue hlast expected) t
      · exact law.pure () t
    | cons second rest =>
      exact law.bind (law.statement env hfirst hlast false) (fun _ => ih hrest hlater) s

end Law

end Emit

end Lowering
