import Lowering.Proofs.Emission.SinkLaws
import Lowering.Proofs.Request

/-!
# Requests on any sink

A request may be run on a sink that is in use: others have written to it, and scopes are open in it.
The tree is typed first, and what is written for it has a scope of its own. Main statements: where
typing fails the sink stays as it is, and otherwise every law of whole lowerings governs what is
written.
-/

namespace Lowering

namespace Request

/-- What can be named around the tree where lowering starts with `s`. -/
def contextIn (s : Sink) : Request → TypingContext
  | .method signature | .lambda signature => signature.context
  | .expression .. => { thisType := s.object? "this", superType := s.object? "super" }

/-- What is written in the scope of the request, once the tree is typed. -/
def contents (env : Env) (e : Expr) : Request → Emit Unit
  | .method signature => do
    Emit.declareSignature signature
    Emit.body env e (some signature.result) signature.throws
  | .lambda signature => do
    Emit.declareSignature signature
    if e.exprs?.isSome then
      Emit.guarding env (env.needsRethrow e signature.throws) do
        Emit.blockContents env e (some signature.result)
    else
      Emit.body env e (some signature.result) signature.throws
  | .expression expected _ _ => Emit.inlineValue env e expected

variable {c : Compiler} {e : Expr} {types : ResolvedTypes} {s : Sink} (r : Request)

theorem contextIn_sink : r.contextIn (r.sink c) = r.context := by
  cases r with
  | expression expected thisType superType =>
    obtain ⟨hthis, hsuper⟩ := object?_sink c expected thisType superType
    rw [contextIn, hthis, hsuper]
    rfl
  | _ => rfl

/-- Typing comes first, and then the contents in a scope. -/
theorem run_emission (c : Compiler) (e : Expr) (s : Sink) :
    (r.emission c e).run.run s =
      (c.typedThen e r.expectation (r.contextIn s) fun env => r.contents env e).run.run s := by
  cases r with
  | method => simp only [emission, Compiler.methodBody, expectation, contextIn, contents]
  | lambda => simp only [emission, Compiler.lambdaBody, expectation, contextIn, contents]
  | expression expected thisType superType =>
    simp only [emission, Compiler.expression, expectation, contextIn, contents, run_bind,
      run_get]

theorem run_emission_of_error {f : Failure}
    (hinfer : e.infer c.hierarchy r.expectation (r.contextIn s) = .error f) :
    (r.emission c e).run.run s = (.error f, s) := by
  rw [run_emission, Compiler.typedThen, hinfer]
  rfl

theorem run_emission_of_ok
    (hinfer : e.infer c.hierarchy r.expectation (r.contextIn s) = .ok types) :
    (r.emission c e).run.run s =
      match (r.contents (c.env types) e).run.run s.openScope with
      | (.ok _, t) => (.ok types, t.closeScope)
      | (.error f, t) => (.error f, t.closeScope) := by
  rw [run_emission, Compiler.typedThen, hinfer, ofExcept_ok, pure_bind, run_bind, Emit.run_inScope]
  cases (r.contents (c.env types) e).run.run s.openScope with
  | mk result t => cases result <;> rfl

/-- A request succeeds after its tree was typed and its contents were written. -/
theorem exists_contents_of_run {t : Sink} (hrun : (r.emission c e).run.run s = (.ok types, t)) :
    e.infer c.hierarchy r.expectation (r.contextIn s) = .ok types ∧
      ∃ u, (r.contents (c.env types) e).run.run s.openScope = (.ok (), u) ∧ t = u.closeScope := by
  cases hinfer : e.infer c.hierarchy r.expectation (r.contextIn s) with
  | error f =>
    rw [r.run_emission_of_error hinfer] at hrun
    cases hrun
  | ok types' =>
    rw [r.run_emission_of_ok hinfer] at hrun
    cases hcontents : (r.contents (c.env types') e).run.run s.openScope with
    | mk result u =>
      rw [hcontents] at hrun
      cases result with
      | error f => cases hrun
      | ok _ =>
        cases hrun
        exact ⟨rfl, u, hcontents, rfl⟩

/-- What a lowering answers was written and recorded by its contents. -/
theorem exists_contents_of_lower {out : Lowered} (hlower : r.lower c e = .ok out) :
    ∃ t, (r.contents (c.env out.types) e).run.run (r.sink c).openScope = (.ok (), t) ∧
      out.source = t.closeScope.text ∧ out.regions = t.closeScope.regions := by
  obtain ⟨t, hrun, _⟩ := exists_run_of_lower hlower
  have hout : out = ⟨t.text, out.types, t.regions⟩ :=
    Except.ok.inj (hlower.symm.trans (lower_eq_ok hrun))
  obtain ⟨_, u, hcontents, rfl⟩ := r.exists_contents_of_run hrun
  exact ⟨u, hcontents, congrArg Lowered.source hout, congrArg Lowered.regions hout⟩

end Request

namespace Emit.SinkLaw

variable {ok failed : Sink → Sink → Prop}

theorem contents (law : SinkLaw ok failed) (env : Env) (e : Expr) (r : Request) (s : Sink) :
    Obeys ok failed (r.contents env e) s := by
  cases r with
  | method sig => exact law.toLaw.bind (law.declareSignature sig) (fun _ => law.body e _ _) s
  | lambda sig =>
    refine law.toLaw.bind (law.declareSignature sig) (fun _ t => ?_) s
    split
    · exact law.guarding _ (law.blockContents e _) t
    · exact law.body e _ _ t
  | expression expected thisType superType => exact law.inlineValue e expected s

/-- Such a law governs every request on every sink. -/
theorem emission (law : SinkLaw ok failed) (c : Compiler) (e : Expr) (r : Request) (s : Sink) :
    Obeys ok failed (r.emission c e) s := by
  cases hinfer : e.infer c.hierarchy r.expectation (r.contextIn s) with
  | error f =>
    rw [Obeys, r.run_emission_of_error hinfer]
    exact law.stop s
  | ok types =>
    have hcontents := law.contents (c.env types) e r s.openScope
    rw [Obeys] at hcontents ⊢
    rw [r.run_emission_of_ok hinfer]
    cases hrun : (r.contents (c.env types) e).run.run s.openScope with
    | mk result t =>
      rw [hrun] at hcontents
      cases result with
      | ok _ => exact law.scope hcontents
      | error f => exact law.scopeStop hcontents

end Emit.SinkLaw

end Lowering
