import Lowering.Function
import Lowering.Proofs.Emission.Statements

/-!
# Bodies around statement forms

A body is the statement form of its tree and the return of the value, perhaps in a `try`; a single
value is the expression form or a function literal around a body. Main statements: if the statement
form of a tree prepares its value wherever it stands, then each of the three ways of lowering the
tree completes its effects, and fails only as the statement form does.
-/

namespace Lowering

namespace Emit

variable {env : Env} {s : Sink} {quiet : Prop} {added : List NodeId} {failed : Failure → Prop}
  {act : Emit Unit}

/-! ## Pieces of bodies -/

private theorem writes_openTry : Writes s quiet [] failed openTry :=
  writes_newLine.andThen ((writes_append _).andThen (writes_openBrace _))

/-- The end of a `try` and its clause, once the exception has a name. -/
def handler (env : Env) (key : NameKey) (name : String) : Emit Unit := do
  closeBrace .guarded
  append " catch ("
  write (.declaration key "Exception" name)
  append ") "
  openBrace .handler
  match env.hierarchy.declaredType? env.settings.rethrowHelper with
  | some helper =>
    newLine
    append ("throw " ++ helper.sourceName false ++ ".sneakyThrow(" ++ name ++ ");")
  | none =>
    append ("COMPILE ERROR : '" ++ HostType.dotted env.settings.rethrowHelper ++
      "' could not be found on the classpath!")
  closeBrace .handler

private theorem rethrow_eq : rethrow env = (do
    let key ← modifyGet (·.freshKey)
    bindFresh key env.settings.catchVariable >>= handler env key) :=
  rfl

private theorem writes_handler (key : NameKey) (name : String) :
    Writes s quiet [] failed (handler env key name) := by
  refine (writes_closeBrace _).andThen ((writes_append _).andThen ((writes_write _).andThen
    ((writes_append _).andThen ((writes_openBrace _).andThen ?_))))
  split
  · exact writes_newLine.andThen ((writes_append _).andThen (writes_closeBrace _))
  · exact (writes_append _).andThen (writes_closeBrace _)

private theorem adds_rethrow : Adds s quiet [] failed (fun _ => True) (rethrow env) := by
  rw [Adds, rethrow_eq, outcome_bind, outcome_modifyGet]
  have hkey : s.Extends s.freshKey.2 := .of_scopes rfl
  apply Outcome.imp (adds_bindFresh _ _ _ fun name => writes_handler _ name)
  intro _ t hpost
  obtain ⟨hextends, heffects, _⟩ := hpost
  exact ⟨hkey.trans hextends, heffects, trivial⟩

theorem adds_guarding (guarded : Bool)
    (h : ∀ t : Sink, Adds t quiet added failed (fun _ => True) act) :
    Adds s quiet added failed (fun _ => True) (guarding env guarded act) := by
  cases guarded with
  | false => exact (h s).andText fun t _ _ => writes_pure.adds.imp fun _ _ _ => trivial
  | true =>
    refine Adds.effects_eq (writes_openTry.adds.andThen fun t _ _ =>
      (h t).andText fun u _ _ => adds_rethrow) fun _ => List.nil_append _

private theorem adds_returnText {e : Expr} (expected : Option HostType)
    (h : env.isVoid e = false → Writes s quiet [] failed (expression env e)) :
    Adds s quiet [] failed (fun _ => True) (do
      newLine
      write .implicitReturn
      if env.isVoid e then append (HostType.defaultLiteral expected) else expression env e
      append ";") := by
  refine (writes_newLine.andThen ((writes_write _).andThen ?_)).adds.imp fun _ _ _ => trivial
  split
  · exact (writes_append _).andThen (writes_append _)
  · rename_i hvoid
    exact (h (by simpa using hvoid)).andThen (writes_append _)

theorem adds_functionBody {e : Expr}
    (h : ∀ t needed, Prepares t quiet failed env e needed (statement env needed e))
    (expected : Option HostType) (guarded : Bool) :
    Adds s quiet e.effects failed (fun _ => True) (functionBody env e expected guarded) := by
  refine adds_guarding guarded fun t => (h t _).andText fun u _ hu => ?_
  cases hreturns : !expected.any (·.isVoid) && !e.exitsEarly with
  | false => exact writes_pure.adds.imp fun _ _ _ => trivial
  | true =>
    have hvalue := adds_returnText (s := u) expected fun hvoid =>
      hu (by simp [hreturns, hvoid]) hvoid
    cases hvoid : env.isVoid e <;> simpa [hvoid] using hvalue

theorem adds_returningLast (Inv : List Expr → Sink → Prop) (expected : Option HostType)
    (returns : Bool) (exprs : List Expr)
    (hstep : ∀ e ∈ exprs, ∀ rest t, Inv (e :: rest) t → ∀ needed,
      Prepares t quiet failed env e needed (statement env needed e) ∧
      Adds t quiet e.effects failed (Inv rest) (statement env needed e))
    (hinv : Inv exprs s) :
    Adds s quiet (exprs.flatMap Expr.effects) failed (fun _ => True)
      (returningLast env expected returns exprs) := by
  induction exprs generalizing s with
  | nil => exact writes_pure.adds.imp fun _ _ _ => trivial
  | cons first rest ih =>
    have hfirst := hstep first List.mem_cons_self rest s hinv
    cases rest with
    | nil =>
      simp only [List.flatMap_cons, List.flatMap_nil, List.append_nil]
      apply (hfirst _).1.andText
      intro t _ hvalue
      split
      · rename_i hreturned
        have hvoid : env.isVoid first = false := by simp_all
        have htext : Writes t quiet [] failed (do
            newLine
            write .implicitReturn
            append "("
            convertedExpression env first expected
            append ");") :=
          writes_newLine.andThen ((writes_write _).andThen ((writes_append _).andThen
            (((hvalue hreturned hvoid).converted first _).andThen (writes_append _))))
        exact htext.adds.imp fun _ _ _ => trivial
      · exact writes_pure.adds.imp fun _ _ _ => trivial
    | cons second rest =>
      exact (hfirst false).2.andThen fun t _ ht =>
        ih (fun e he => hstep e (List.mem_cons_of_mem _ he)) ht

private theorem adds_bind (key : NameKey) (name : String) :
    Adds s quiet [] failed (fun _ => True) (modify (·.bind key name)) := by
  rw [Adds, outcome_modify]
  exact ⟨s.extends_bind key name, fun _ => by simp, trivial⟩

private theorem adds_aliasInstances : Adds s quiet [] failed (fun _ => True) aliasInstances := by
  rw [Adds, aliasInstances, outcome_bind, outcome_get]
  cases s.object? "this" with
  | none => exact ⟨.refl s, fun _ => (List.append_nil _).symm, trivial⟩
  | some thisType =>
    apply (adds_bind _ _).andThen
    intro t _ _
    rw [Adds, outcome_bind, outcome_get]
    cases t.object? "super" with
    | none => exact ⟨.refl t, fun _ => (List.append_nil _).symm, trivial⟩
    | some superType => exact adds_bind _ _

theorem adds_functionLiteral {e : Expr}
    (h : ∀ t needed, Prepares t quiet failed env e needed (statement env needed e))
    (expected : Option HostType) (guarded : Bool) :
    Adds s quiet e.effects failed (fun _ => True) (functionLiteral env e expected guarded) := by
  have hclose (t : Sink) : Adds t quiet [] failed (fun _ => True) (do
      closeBrace .method
      closeBrace .literal
      append ".apply()") :=
    ((writes_closeBrace _).andThen ((writes_closeBrace _).andThen
      (writes_append _))).adds.imp fun _ _ _ => trivial
  have hopen (t : Sink) (text result : String) : Adds t quiet e.effects failed (fun _ => True) (do
      append text
      openBrace .literal
      newLine
      append result
      openBrace .method
      functionBody env e expected guarded
      closeBrace .method
      closeBrace .literal
      append ".apply()") :=
    Adds.effects_eq ((writes_append _).adds.andThen fun t _ _ =>
      (writes_openBrace _).adds.andThen fun t _ _ => writes_newLine.adds.andThen fun t _ _ =>
      (writes_append _).adds.andThen fun t _ _ => (writes_openBrace _).adds.andThen fun t _ _ =>
      (adds_functionBody h expected guarded).andText fun t _ _ => hclose t) fun _ => rfl
  exact adds_aliasInstances.andThen fun t _ _ => hopen t _ _

/-- A single value; in place only where the expression form has no effect. -/
theorem adds_inlineValue {e : Expr}
    (h : ∀ t needed, Prepares t quiet failed env e needed (statement env needed e))
    (hinline : s.canInline e → Writes s quiet e.effects failed (expression env e))
    (expected : Option HostType) :
    Adds s quiet e.effects failed (fun _ => True) (inlineValue env e expected) := by
  refine Adds.traced _ _ ?_ fun _ _ _ _ => trivial
  rw [Adds, outcome_bind, outcome_get]
  split
  · rename_i hplace
    have htext := hinline (by simp_all)
    exact htext.adds.imp fun _ _ _ => trivial
  · have hliteral := adds_functionLiteral (s := s.openScope) h expected (env.needsRethrow e [])
    exact (adds_inScope hliteral).imp fun _ _ _ => trivial

/-! ## Signatures -/

private theorem adds_declareInstance (keyword : String) (type : Option HostType) :
    Adds s quiet [] failed (fun _ => True) (declareInstance keyword type) := by
  cases type with
  | none => exact writes_pure.adds.imp fun _ _ _ => trivial
  | some type =>
    have hobject : Adds s quiet [] failed (fun _ => True) (modify (·.setObject keyword type)) := by
      rw [Adds, outcome_modify]
      exact ⟨⟨rfl, fun _ h => h⟩, fun _ => (List.append_nil _).symm, trivial⟩
    exact hobject.andThen fun t _ _ => adds_bind _ _

private theorem adds_declareParams (params : List (String × HostType)) :
    Adds s quiet [] failed (fun _ => True) (declareParams params) := by
  induction params generalizing s with
  | nil => exact writes_pure.adds.imp fun _ _ _ => trivial
  | cons param params ih => exact (adds_bind _ _).andThen fun t _ _ => ih

theorem adds_declareSignature (sig : Signature) :
    Adds s quiet [] failed (fun _ => True) (declareSignature sig) :=
  (adds_declareInstance _ _).andThen fun _ _ _ =>
    (adds_declareInstance _ _).andThen fun _ _ _ => adds_declareParams _

end Emit

end Lowering
