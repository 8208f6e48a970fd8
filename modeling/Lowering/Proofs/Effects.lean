import Lowering.Proofs.Emission.Values
import Lowering.Proofs.Request

/-!
# Effects are kept

Every invocation, construction and assignment of a tree is written, once and in evaluation order.
Main statement: this holds of every tree without sharing that is lowered and needs no value of a
void node.
-/

namespace Lowering

theorem carries_of_supports {env : Env} {e : Expr} {failed : Failure → Prop}
    (he : env.Supports e) (hfailed : Emit.Tolerates failed e) : Emit.Carries env e True failed where
  statement := (Emit.statement_readies e he hfailed).prepares hfailed
  block exprs hexprs t expected returns := by
    cases e with
    | block node exprs' =>
      obtain rfl : exprs' = exprs := Option.some.inj hexprs
      have hreadies (child : Expr) (h : child ∈ exprs') : Emit.Readies env failed child :=
        Emit.statement_readies child (he.child h) (hfailed.child h)
      apply (Emit.adds_returningLast (fun _ _ => True) expected returns exprs'
        (fun child h _ u _ needed => ⟨(hreadies child h).prepares (hfailed.child h) u needed,
          (hreadies child h u needed).imp fun _ _ _ => trivial⟩) trivial).effects_eq
      intro _
      simp [Expr.effects_eq (.block node exprs'), Expr.children, Expr.isEffect]
    | _ => cases hexprs
  inPlace hplain t := by
    rw [hplain.effects_eq_nil]
    exact Emit.writes_of_settled hfailed (hplain.settled t)

namespace Request

variable {c : Compiler} {e : Expr} {r : Request} {types : ResolvedTypes}

theorem supports_of_infer (hunshared : e.Unshared) (hinfer : r.infer c e = .ok types)
    (hgives : types.GivesOperands e) : (c.env types).Supports e where
  coherent := ResolvedTypes.coherent_of_infer hunshared hinfer
  gives := hgives

end Request

end Lowering
