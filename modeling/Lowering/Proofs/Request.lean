import Lowering.Proofs.Emission.Bodies
import Lowering.Proofs.Emission.Inlining

/-!
# Requests

The three ways to lower a tree differ in what is expected of the tree, in what can be named around
it, and in what is written around it. Main statement: if the statement form of the tree prepares its
value wherever it stands, each way completes the effects of the tree and fails only as the statement
form does.
-/

namespace Lowering

/-- A way to lower a tree, and what is known of its surroundings. -/
inductive Request where
  | method (signature : Signature)
  | lambda (signature : Signature)
  | expression (expected thisType superType : Option HostType)

namespace Request

def lower (c : Compiler) (e : Expr) : Request → Except Failure Lowered
  | .method signature => c.lowerMethod e signature
  | .lambda signature => c.lowerLambda e signature
  | .expression expected thisType superType => c.lowerExpression e expected thisType superType

/-- What is expected of the tree. -/
def expectation : Request → Expectation
  | .method signature | .lambda signature => .returning signature.result
  | .expression expected _ _ => expected.elim .free .convertible

/-- What can be named around the tree. -/
def context : Request → TypingContext
  | .method signature | .lambda signature => signature.context
  | .expression _ thisType superType => { thisType, superType }

/-- The types of the tree before it is lowered. -/
def infer (c : Compiler) (e : Expr) (r : Request) : Except Failure ResolvedTypes :=
  e.infer c.hierarchy r.expectation r.context

/-- The sink that lowering starts with. -/
def sink (c : Compiler) : Request → Sink
  | .method _ | .lambda _ => c.newSink
  | .expression _ thisType superType =>
    superType.elim (thisType.elim c.newSink (c.newSink.setObject "this"))
      ((thisType.elim c.newSink (c.newSink.setObject "this")).setObject "super")

/-- What is emitted into that sink. -/
def emission (c : Compiler) (e : Expr) : Request → Emit ResolvedTypes
  | .method signature => c.methodBody e signature
  | .lambda signature => c.lambdaBody e signature
  | .expression expected _ _ => c.expression e expected

theorem lower_eq (c : Compiler) (e : Expr) (r : Request) :
    r.lower c e = Compiler.collect (r.sink c) (r.emission c e) := by
  cases r <;> rfl

theorem lower_eq_error {c : Compiler} {e : Expr} {r : Request} {ok : ResolvedTypes → Sink → Prop}
    {failed : Failure → Prop} (h : Outcome (r.emission c e) (r.sink c) ok failed) {f : Failure}
    (hlower : r.lower c e = .error f) : failed f := by
  rw [lower_eq, Compiler.collect] at hlower
  split at hlower
  · cases hlower
  · rename_i hrun
    cases hlower
    exact h.of_run_error hrun

theorem exists_run_of_lower {c : Compiler} {e : Expr} {r : Request} {out : Lowered}
    (hlower : r.lower c e = .ok out) :
    ∃ sink, (r.emission c e).run.run (r.sink c) = (.ok out.types, sink) ∧
      out.source = sink.text := by
  rw [lower_eq, Compiler.collect] at hlower
  split at hlower
  · rename_i types sink hrun
    cases hlower
    exact ⟨sink, hrun, rfl⟩
  · cases hlower

theorem lower_eq_ok {c : Compiler} {e : Expr} {r : Request} {types : ResolvedTypes} {sink : Sink}
    (hrun : (r.emission c e).run.run (r.sink c) = (.ok types, sink)) :
    r.lower c e = .ok ⟨sink.text, types, sink.regions⟩ := by
  rw [lower_eq, Compiler.collect, hrun]

theorem locals_context (r : Request) : r.context.locals = [] := by
  cases r <;> rfl

theorem object?_sink (c : Compiler) (expected thisType superType : Option HostType) :
    ((Request.expression expected thisType superType).sink c).object? "this" = thisType ∧
      ((Request.expression expected thisType superType).sink c).object? "super" = superType := by
  cases thisType <;> cases superType <;> exact ⟨rfl, rfl⟩

theorem not_binds_sink (c : Compiler) (r : Request) (key : NameKey) :
    ¬ (r.sink c).Binds key := by
  cases r with
  | expression expected thisType superType =>
    cases thisType <;> cases superType <;> exact Bool.false_ne_true
  | _ => exact Bool.false_ne_true

end Request

/-- What a body or a single value is made of: the statement form of the tree, or those of the
expressions of a block, or the expression form of a tree that can be written in place. -/
structure Emit.Carries (env : Env) (e : Expr) (quiet : Prop) (failed : Failure → Prop) : Prop where
  statement : ∀ t needed, Prepares t quiet failed env e needed (statement env needed e)
  block : ∀ exprs, e.exprs? = some exprs → ∀ t expected returns,
    Adds t quiet e.effects failed (fun _ => True) (returningLast env expected returns exprs)
  inPlace : e.Plain → ∀ t, Writes t quiet e.effects failed (expression env e)

namespace Request

variable {c : Compiler} {e : Expr} {types : ResolvedTypes} {quiet : Prop}
  {failed : Failure → Prop}

private theorem outcome_typedThen {s : Sink} {expectation : Expectation}
    {context : TypingContext} {act : Env → Emit Unit} {added : List NodeId}
    (hinfer : e.infer c.hierarchy expectation context = .ok types)
    (h : Emit.Adds s.openScope quiet added failed (fun _ => True) (act (c.env types))) :
    Outcome (c.typedThen e expectation context act) s
      (fun answer s' => answer = types ∧ (quiet → s'.effects = s.effects ++ added)) failed := by
  rw [Compiler.typedThen, hinfer, ofExcept_ok, pure_bind, outcome_bind]
  exact Outcome.imp (Emit.adds_inScope h) fun _ _ ⟨_, heffects, _⟩ => ⟨rfl, heffects⟩

private theorem outcome_methodBody {signature : Signature} {s : Sink}
    (hinfer : (method signature).infer c e = .ok types)
    (h : Emit.Carries (c.env types) e quiet failed) :
    Outcome (c.methodBody e signature) s
      (fun answer s' => answer = types ∧ (quiet → s'.effects = s.effects ++ e.effects)) failed := by
  apply outcome_typedThen hinfer
  exact (Emit.adds_declareSignature signature).andThen fun t _ _ =>
    (Emit.adds_functionBody h.statement _ _).traced _ _ fun _ _ _ h => h

private theorem outcome_lambdaBody {signature : Signature} {s : Sink}
    (hinfer : (lambda signature).infer c e = .ok types)
    (h : Emit.Carries (c.env types) e quiet failed) :
    Outcome (c.lambdaBody e signature) s
      (fun answer s' => answer = types ∧ (quiet → s'.effects = s.effects ++ e.effects)) failed := by
  apply outcome_typedThen hinfer
  apply (Emit.adds_declareSignature signature).andThen
  intro t _ _
  cases hexprs : e.exprs? with
  | none => exact (Emit.adds_functionBody h.statement _ _).traced _ _ fun _ _ _ h => h
  | some exprs =>
    apply Emit.adds_guarding _
    intro u
    rw [Emit.blockContents, hexprs]
    exact h.block exprs hexprs u _ _

private theorem outcome_expression {expected thisType superType : Option HostType}
    (hinfer : (expression expected thisType superType).infer c e = .ok types)
    (h : Emit.Carries (c.env types) e quiet failed) :
    Outcome (c.expression e expected) ((expression expected thisType superType).sink c)
      (fun answer s' => answer = types ∧
        (quiet → s'.effects =
          ((expression expected thisType superType).sink c).effects ++ e.effects))
      failed := by
  obtain ⟨hthis, hsuper⟩ := object?_sink c expected thisType superType
  rw [Compiler.expression, outcome_bind, outcome_get, hthis, hsuper]
  refine outcome_typedThen hinfer (Emit.adds_inlineValue h.statement (fun hinline => ?_) _)
  refine h.inPlace (Sink.plain_of_canInline (fun id _ hid => ?_) hinline) _
  exact not_binds_sink c (expression expected thisType superType) _
    ((Sink.binds_openScope _ _).mp hid)

private theorem effects_sink (c : Compiler) (r : Request) : (r.sink c).effects = [] := by
  cases r with
  | expression expected thisType superType => cases thisType <;> cases superType <;> rfl
  | _ => rfl

private theorem outcome_types (c : Compiler) (e : Expr) (expectation : Expectation)
    (context : TypingContext) (act : Env → Emit Unit) (s : Sink) :
    Outcome (c.typedThen e expectation context act) s
      (fun answer _ => e.infer c.hierarchy expectation context = .ok answer) fun _ => True := by
  rw [Compiler.typedThen]
  cases e.infer c.hierarchy expectation context with
  | error f => trivial
  | ok types =>
    rw [ofExcept_ok, pure_bind, outcome_bind]
    exact (Outcome.trivial _ _).imp fun _ _ _ => rfl

private theorem outcome_emission_types (c : Compiler) (e : Expr) (r : Request) :
    Outcome (r.emission c e) (r.sink c) (fun answer _ => r.infer c e = .ok answer)
      fun _ => True := by
  cases r with
  | method signature =>
    rw [emission, Compiler.methodBody]
    exact outcome_types c e _ _ _ _
  | lambda signature =>
    rw [emission, Compiler.lambdaBody]
    exact outcome_types c e _ _ _ _
  | expression expected thisType superType =>
    obtain ⟨hthis, hsuper⟩ := object?_sink c expected thisType superType
    rw [emission, Compiler.expression, outcome_bind, outcome_get, hthis, hsuper]
    exact outcome_types c e _ _ _ _

/-- A tree that was lowered was typed before, and lowering answers its types. -/
theorem infer_of_lower {r : Request} {out : Lowered} (hlower : r.lower c e = .ok out) :
    r.infer c e = .ok out.types := by
  obtain ⟨sink, hrun, _⟩ := exists_run_of_lower hlower
  exact (outcome_emission_types c e r).of_run_ok hrun

/-- Every way of lowering completes the effects of the tree, and fails only as its parts do. -/
theorem outcome_emission {r : Request} (hinfer : r.infer c e = .ok types)
    (h : Emit.Carries (c.env types) e quiet failed) :
    Outcome (r.emission c e) (r.sink c)
      (fun answer s' => answer = types ∧ (quiet → s'.effects = e.effects)) failed := by
  have hemission : Outcome (r.emission c e) (r.sink c)
      (fun answer s' => answer = types ∧ (quiet → s'.effects = (r.sink c).effects ++ e.effects))
      failed := by
    cases r with
    | method signature => exact outcome_methodBody hinfer h
    | lambda signature => exact outcome_lambdaBody hinfer h
    | expression expected thisType superType => exact outcome_expression hinfer h
  rw [effects_sink] at hemission
  exact hemission

end Request

end Lowering
