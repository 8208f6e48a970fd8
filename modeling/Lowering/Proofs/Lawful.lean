import Lowering.Proofs.Emission.Nodes
import Lowering.Proofs.Request
import Lowering.Proofs.Typing.Invariants

/-!
# Rules are never broken

Typing keeps states and a table, and emission keeps scopes; both check the rules of what they keep
and would fail if one was broken. Main statement: this never happens. Typing fails only because of
the tree, and lowering into any sink only because of the tree and of what can be named around it.
-/

namespace Lowering

private theorem Failure.not_isProtocol_of_isTyping {f : Failure} (hf : f.isTyping) :
    f.isProtocol = false := by
  cases f <;> first | rfl | cases hf

namespace Emit

variable {env : Env} {s : Sink}

/-- The expression form breaks no rule. -/
theorem expression_lawful (env : Env) (e : Expr) (s : Sink) :
    Writes s False [] (·.isProtocol = false) (expression env e) :=
  (expression_writes env s e).mono False.elim fun _ hf => hf.lawful

/-- The statement form breaks no rule: the local that a value is assigned to was declared for it. -/
theorem statement_lawful (env : Env) (e : Expr) (s : Sink) (needed : Bool) :
    Adds s False e.effects (·.isProtocol = false) (fun _ => True) (statement env needed e) := by
  induction e using Expr.childInduction generalizing s needed with
  | step e ih =>
    have hprepares (child : Expr) (hchild : child ∈ e.children) (s : Sink) (needed : Bool) :
        Prepares s False (·.isProtocol = false) env child needed (statement env needed child) :=
      (ih child hchild s needed).imp fun t _ _ _ _ => expression_lawful env child t
    have htext (t : Sink) (e : Expr) := expression_lawful env e t
    have hkept (t u : Sink) (_ : t.Extends u) : True → True := id
    have hoperands (s : Sink) (es : List Expr) (hes : es ⊆ e.children) :
        Adds s False (es.flatMap Expr.effects) (·.isProtocol = false) (fun _ => True)
          (statements env es) := by
      have hstatements : Adds s False (es.flatMap Expr.effects) (·.isProtocol = false)
          (fun _ => (∀ part ∈ es, True) ∧ True) (statements env es) :=
        adds_statements (fun _ _ => True) (fun _ _ _ _ => id) es (fun part hpart _ t _ =>
          (ih part (hes hpart) t true).imp fun _ _ _ => ⟨trivial, trivial⟩) trivial
      exact hstatements.imp fun _ _ _ => trivial
    cases e with
    | literal node value => exact adds_literal value
    | extension node kind children => exact rfl
    | block node exprs =>
      rcases exprs with _ | ⟨first, _ | ⟨second, rest⟩⟩
      · exact adds_emptyBlock
      · exact adds_singleton hkept (ih first List.mem_cons_self s needed)
      · refine (adds_block (fun _ _ => True) (fun part hpart _ t _ needed => ?_)
          fun _ _ => trivial).imp fun _ _ _ => trivial
        exact ⟨hprepares part hpart t needed, ih part hpart t needed⟩
    | decl node name type writeable init =>
      cases init with
      | none => exact adds_bareDeclaration.imp fun _ _ _ => trivial
      | some init =>
        exact (adds_declaration (ih init List.mem_cons_self s _) fun _ u _ _ _ =>
          htext u init).imp fun _ _ _ => trivial
    | branch node cond yes no =>
      exact (adds_branch hkept (ih cond List.mem_cons_self s true) (fun t _ _ => htext t cond)
        fun t _ _ part hpart needed =>
          hprepares part (List.mem_cons_of_mem _ hpart) t.openScope needed).imp
        fun _ _ _ => trivial
    | ret node value =>
      cases value with
      | none => exact adds_bareReturn
      | some value => exact adds_return fun needed => hprepares value List.mem_cons_self s needed
    | raise node value =>
      exact adds_raise ((ih value List.mem_cons_self s true).imp fun t _ _ => htext t value)
    | cast node type value => exact adds_cast hkept (ih value List.mem_cons_self s true)
    | construct node type params throws args =>
      exact (adds_construct hkept (hoperands s args (List.Subset.refl _))
        fun t _ _ part _ => htext t part).imp fun _ _ _ => trivial
    | assign node target receiver value =>
      exact adds_assign hkept (hoperands s _ (List.Subset.refl _))
        (fun t _ _ part _ => htext t part) (fun _ _ _ _ _ => rfl) fun _ => rfl
    | call node feature receiver args =>
      exact (adds_call hkept (hoperands s _ (List.Subset.refl _))
        fun t _ _ part _ => htext t part).imp fun _ _ _ => trivial

private theorem prepares_lawful (env : Env) (e : Expr) (s : Sink) (needed : Bool) :
    Prepares s False (·.isProtocol = false) env e needed (statement env needed e) :=
  (statement_lawful env e s needed).imp fun t _ _ _ _ => expression_lawful env e t

private theorem blockContents_lawful (env : Env) (e : Expr) (s : Sink)
    (expected : Option HostType) :
    Adds s False e.effects (·.isProtocol = false) (fun _ => True)
      (blockContents env e expected) := by
  cases e with
  | block node exprs =>
    refine Adds.effects_eq (adds_returningLast (fun _ _ => True) _ _ exprs
      (fun part _ _ t _ needed => ?_) trivial) False.elim
    exact ⟨prepares_lawful env part t needed, statement_lawful env part t needed⟩
  | _ => exact rfl

end Emit

private theorem Compiler.typedThen_lawful {c : Compiler} {e : Expr} {expectation : Expectation}
    {context : TypingContext} {act : Env → Emit Unit}
    (h : ∀ types t, Emit.Adds t False e.effects (·.isProtocol = false) (fun _ => True)
      (act (c.env types))) (s : Sink) :
    Outcome (c.typedThen e expectation context act) s (fun _ _ => True)
      (·.isProtocol = false) := by
  rw [typedThen, outcome_bind, outcome_ofExcept]
  cases hinfer : e.infer c.hierarchy expectation context with
  | error f => exact Failure.not_isProtocol_of_isTyping (Expr.isTyping_of_infer hinfer)
  | ok types =>
    simp only [outcome_bind]
    exact Outcome.imp (Emit.adds_inScope (h types s.openScope)) fun _ _ _ => trivial

/-- No way of lowering a tree breaks a rule, whatever the sink holds. -/
theorem Request.emission_lawful (c : Compiler) (e : Expr) (r : Request) (s : Sink) :
    Outcome (r.emission c e) s (fun _ _ => True) (·.isProtocol = false) := by
  have hbody (env : Env) (result : HostType) (throws : List HostType) (t : Sink) :
      Emit.Adds t False e.effects (·.isProtocol = false) (fun _ => True)
        (Emit.body env e (some result) throws) :=
    (Emit.adds_functionBody (Emit.prepares_lawful env e) _ _).traced _ _ fun _ _ _ => id
  cases r with
  | method sig =>
    rw [emission, Compiler.methodBody]
    refine Compiler.typedThen_lawful (fun types t => ?_) s
    exact (Emit.adds_declareSignature sig).andThen fun u _ _ => hbody _ _ _ u
  | lambda sig =>
    rw [emission, Compiler.lambdaBody]
    refine Compiler.typedThen_lawful (fun types t => ?_) s
    refine (Emit.adds_declareSignature sig).andThen fun u _ _ => ?_
    split
    · exact Emit.adds_guarding _ fun v => Emit.blockContents_lawful _ e v _
    · exact hbody _ _ _ u
  | expression expected thisType superType =>
    rw [emission, Compiler.expression, outcome_bind, outcome_get]
    refine Compiler.typedThen_lawful (fun types t => ?_) s
    refine Emit.adds_inlineValue (Emit.prepares_lawful _ e) (fun _ => ?_) _
    exact (Emit.expression_lawful _ e t).mono False.elim fun _ hf => hf

/-- Type inference fails only with a mismatch, with something unresolved or with something
unsupported, and lowering a tree in any way and into any sink never fails because exact types
conflict or because of an internal fault. -/
theorem Compiler.fails_lawfully (c : Compiler) (e : Expr) :
    (∀ (expectation : Expectation) (context : TypingContext) (f : Failure),
      e.infer c.hierarchy expectation context = .error f → f.isTyping) ∧
    ∀ (r : Request) (f : Failure),
      (∀ s : Sink, ((r.emission c e).run.run s).1 = .error f → f.isProtocol = false) ∧
      (r.lower c e = .error f → f.isProtocol = false) := by
  refine ⟨fun _ _ f => Expr.isTyping_of_infer, fun r f => ⟨fun s hfails => ?_, fun hfails => ?_⟩⟩
  · exact (r.emission_lawful c e s).of_run_error (Prod.ext hfails rfl)
  · exact Request.lower_eq_error (r.emission_lawful c e (r.sink c)) hfails

private def sharedNumber : Expr :=
  .branch ⟨4, {}⟩ (.literal ⟨0, {}⟩ (.boolean true)) (.literal ⟨1, {}⟩ (.int 1))
    (some (.block ⟨3, {}⟩ [.literal ⟨1, {}⟩ (.int 1),
      .call ⟨2, {}⟩ (.ofOperator "operator_plus" "+" (.primitive .int)) none []]))

theorem Compiler.fails_lawfully_shared :
    let c : Compiler := ⟨.empty, {}⟩
    let mismatch : Failure := .mismatch .boolean .int {}
    let misuse : Failure := .misuse (.operandCount "operator_plus" 0) {}
    let r : Request := .method { result := .int }
    sharedNumber.infer c.hierarchy { type := some .boolean, conformance := .exact } {} =
        .error mismatch ∧ mismatch.isTyping ∧
      ((r.emission c sharedNumber).run.run (r.sink c)).1 = .error misuse ∧
      r.lower c sharedNumber = .error misuse ∧ misuse.isProtocol = false := by
  intro c mismatch misuse r
  have hinfer : sharedNumber.infer c.hierarchy { type := some .boolean, conformance := .exact } {} =
      .error mismatch := eq_error_of_match (by decide +kernel)
  have hemission : ((r.emission c sharedNumber).run.run (r.sink c)).1 = .error misuse :=
    eq_error_of_match (by decide +kernel)
  have hlower : r.lower c sharedNumber = .error misuse := eq_error_of_match (by decide +kernel)
  have hlawful := Compiler.fails_lawfully c sharedNumber
  exact ⟨hinfer, hlawful.1 _ _ _ hinfer, hemission, hlower, (hlawful.2 r misuse).1 _ hemission⟩

end Lowering
