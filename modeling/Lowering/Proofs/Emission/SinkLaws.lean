import Lowering.Proofs.Emission.BodyLaws

/-!
# Laws of whole lowerings

What a lowering does to a sink, whatever was written to the sink before and whether or not the
lowering fails. Besides the forms of its tree, a lowering binds names for what surrounds the tree
and writes the braces of functions and clauses. Main statement: what single operations on a sink do,
and regions, scopes and braces keep, is what every lowering does.
-/

namespace Lowering

namespace Emit

/-- `ok` and `failed` allow the operations that lowerings are made of. Braces open and close with or
without a scope, and a scope closes also where its contents fail. A synthetic key is bound as soon
as it is made, and only then. -/
structure SinkLaw (ok failed : Sink → Sink → Prop) : Prop where
  refl (s : Sink) : ok s s
  trans {s t u : Sink} : ok s t → ok t u → ok s u
  stop (s : Sink) : failed s s
  thenStop {s t u : Sink} : ok s t → failed t u → failed s u
  write (s : Sink) {e : Entry} : e.isBraceless → e.isScopeless → ok s (s.write e)
  bind (s : Sink) {key : NameKey} (name : String) :
    (∀ number, key ≠ .synthetic number) → ok s (s.bind key name)
  bindFreshKey (s : Sink) (name : String) : ok s (s.freshKey.2.bind s.freshKey.1 name)
  setObject (s : Sink) (key : String) (type : HostType) : ok s (s.setObject key type)
  region {s t : Sink} (id : NodeId) (debug : Bool) : ok s t → ok s (t.finishRegion id s.size debug)
  scope {s t : Sink} : ok s.openScope t → ok s t.closeScope
  scopeStop {s t : Sink} : failed s.openScope t → failed s t.closeScope
  enclose {s t : Sink} {brace : Brace} :
    ok (s.write (.opening brace)).indent t → ok s (t.dedent.newLine.write (.closing brace))
  encloseStop {s t : Sink} {brace : Brace} :
    failed (s.write (.opening brace)).indent t → failed s t

namespace SinkLaw

variable {ok failed : Sink → Sink → Prop} {α β : Type}

/-- Such a law governs the forms of every tree. -/
theorem toLaw (law : SinkLaw ok failed) : Law (fun _ _ => True) ok failed where
  refl := law.refl
  trans := law.trans
  stop := law.stop
  thenStop := law.thenStop
  write s e he := by
    cases e with
    | text | field | effect => exact law.write s rfl rfl
    | _ => cases he
  region := law.region
  use _ _ := law.write _ rfl rfl
  declare {s t e type name} _ ht := by
    have hbind : ok s t := by
      rcases ht.bound with rfl | rfl
      · exact law.bind s _ (by simp)
      · exact law.trans (law.bind s _ (by simp)) (law.write _ rfl rfl)
    exact law.trans hbind (law.write t rfl rfl)
  braced _ h := law.enclose (law.scope h)
  bracedStop _ h := law.encloseStop (law.scopeStop h)
  returns s := law.write s rfl rfl

/-! ## Steps -/

theorem declares (law : SinkLaw ok failed) (key : NameKey) (type name : String) (s : Sink) :
    Obeys ok failed (Emit.write (.declaration key type name)) s :=
  law.write s rfl rfl

theorem binds (law : SinkLaw ok failed) {key : NameKey} (hkey : ∀ number, key ≠ .synthetic number)
    (name : String) (s : Sink) : Obeys ok failed (modify (·.bind key name) : Emit PUnit) s :=
  law.bind s name hkey

theorem bindsFreshKey (law : SinkLaw ok failed) (proposed : String) (s : Sink) :
    Obeys ok failed (do
      let key ← modifyGet (·.freshKey)
      let name ← bindFresh key proposed
      pure (key, name)) s :=
  law.bindFreshKey s _

theorem setsObject (law : SinkLaw ok failed) (key : String) (type : HostType) (s : Sink) :
    Obeys ok failed (modify (·.setObject key type) : Emit PUnit) s :=
  law.setObject s key type

theorem inScope (law : SinkLaw ok failed) {act : Emit α} {s : Sink}
    (h : Obeys ok failed act s.openScope) : Obeys ok failed (Emit.inScope act) s := by
  unfold Obeys at h ⊢
  rw [run_inScope]
  cases hrun : act.run.run s.openScope with
  | mk result t =>
    rw [hrun] at h
    cases result with
    | ok a => exact law.scope h
    | error f => exact law.scopeStop h

end SinkLaw

/-- What `act` writes, between braces without a scope of their own. -/
def enclosing {α : Type} (brace : Brace) (act : Emit α) : Emit α := do
  openBrace brace
  let a ← act
  closeBrace brace
  pure a

theorem SinkLaw.enclosing {ok failed : Sink → Sink → Prop} {α : Type} (law : SinkLaw ok failed)
    (brace : Brace) {act : Emit α} (h : ∀ s, Obeys ok failed act s) (s : Sink) :
    Obeys ok failed (Emit.enclosing brace act) s := by
  have hact := h (s.write (.opening brace)).indent
  unfold Obeys at hact ⊢
  simp only [Emit.enclosing, run_bind, run_openBrace]
  cases hrun : act.run.run (s.write (.opening brace)).indent with
  | mk result t =>
    rw [hrun] at hact
    cases result with
    | ok a => exact law.enclose hact
    | error f => exact law.encloseStop hact

/-! ## Bodies -/

/-- What a `try` encloses, and then the name that its exception gets. -/
def guarded (env : Env) (act : Emit Unit) : Emit (NameKey × String) := do
  act
  let key ← modifyGet (·.freshKey)
  let name ← bindFresh key env.settings.catchVariable
  pure (key, name)

/-- What the clause of a `try` encloses, where the exception has the name `name`. -/
def rethrown (env : Env) (name : String) : Emit Unit :=
  match env.hierarchy.declaredType? env.settings.rethrowHelper with
  | some helper => do
    newLine
    append ("throw " ++ helper.sourceName false ++ ".sneakyThrow(" ++ name ++ ");")
  | none =>
    append ("COMPILE ERROR : '" ++ HostType.dotted env.settings.rethrowHelper ++
      "' could not be found on the classpath!")

/-- The clause of a `try`, where the name of the exception is bound. -/
def clause (env : Env) (caught : NameKey × String) : Emit Unit := do
  append " catch ("
  write (.declaration caught.1 "Exception" caught.2)
  append ") "
  enclosing .handler (rethrown env caught.2)

/-- The clause comes after the brace that ends the `try`. -/
theorem rethrow_eq_clause (env : Env) :
    rethrow env = (do
      let key ← modifyGet (·.freshKey)
      let name ← bindFresh key env.settings.catchVariable
      closeBrace .guarded
      clause env (key, name)) := by
  simp only [rethrow, clause, enclosing, rethrown, bind_pure_unit]
  cases env.hierarchy.declaredType? env.settings.rethrowHelper <;> simp

theorem guarding_false_eq (env : Env) (act : Emit Unit) : guarding env false act = act := by
  simp [guarding]

theorem guarding_true_eq (env : Env) (act : Emit Unit) :
    guarding env true act = (do
      newLine
      append "try "
      enclosing .guarded (guarded env act) >>= clause env) := by
  simp only [guarding, openTry, rethrow_eq_clause, enclosing, guarded, bind_assoc, pure_bind,
    if_true]

theorem literalText_eq (env : Env) (e : Expr) (expected : Option HostType) (guarded : Bool)
    (callable result : String) :
    literalText env e expected guarded callable result = (do
      append callable
      enclosing .literal (do
        newLine
        append result
        enclosing .method (functionBody env e expected guarded))
      append ".apply()") := by
  simp only [literalText, enclosing, bind_assoc, pure_bind]

namespace SinkLaw

variable {ok failed : Sink → Sink → Prop} {env : Env}

theorem guarded (law : SinkLaw ok failed) {act : Emit Unit} (h : ∀ s, Obeys ok failed act s)
    (s : Sink) : Obeys ok failed (Emit.guarded env act) s :=
  law.toLaw.bind h (fun _ => law.bindsFreshKey _) s

theorem rethrown (law : SinkLaw ok failed) (name : String) (s : Sink) :
    Obeys ok failed (Emit.rethrown env name) s := by
  have forms := law.toLaw.toFormLaw
  unfold Emit.rethrown
  split
  · exact forms.bind forms.newLine (fun _ => forms.append _) s
  · exact forms.append _ s

theorem clause (law : SinkLaw ok failed) (caught : NameKey × String) (s : Sink) :
    Obeys ok failed (Emit.clause env caught) s := by
  have forms := law.toLaw.toFormLaw
  exact forms.bind (forms.append _) (fun _ => forms.bind (law.declares _ _ _) fun _ =>
    forms.bind (forms.append _) fun _ => law.enclosing .handler (law.rethrown caught.2)) s

theorem guarding (law : SinkLaw ok failed) (guarded : Bool) {act : Emit Unit}
    (h : ∀ s, Obeys ok failed act s) (s : Sink) :
    Obeys ok failed (Emit.guarding env guarded act) s := by
  have forms := law.toLaw.toFormLaw
  cases guarded with
  | false =>
    rw [guarding_false_eq]
    exact h s
  | true =>
    rw [guarding_true_eq]
    exact forms.bind forms.newLine (fun _ => forms.bind (forms.append _) fun _ =>
      forms.bind (law.enclosing .guarded (law.guarded h)) law.clause) s

theorem functionBody (law : SinkLaw ok failed) (e : Expr) (expected : Option HostType)
    (guarded : Bool) (s : Sink) : Obeys ok failed (Emit.functionBody env e expected guarded) s := by
  rw [functionBody_eq]
  have hbody := law.toLaw.bodyText env (fun _ _ => trivial) (e.looksUp_any _) expected
  exact law.guarding guarded hbody s

theorem body (law : SinkLaw ok failed) (e : Expr) (expected : Option HostType)
    (declared : List HostType) (s : Sink) :
    Obeys ok failed (Emit.body env e expected declared) s :=
  law.toLaw.traced _ _ (law.functionBody e expected _) s

theorem blockContents (law : SinkLaw ok failed) (e : Expr) (expected : Option HostType) (s : Sink) :
    Obeys ok failed (Emit.blockContents env e expected) s := by
  unfold Emit.blockContents
  split
  · exact law.toLaw.returningLast env expected _ (fun _ _ _ _ => trivial)
      (fun e _ => e.looksUp_any _) s
  · exact law.toLaw.throw _ s

theorem aliasInstances (law : SinkLaw ok failed) (s : Sink) :
    Obeys ok failed Emit.aliasInstances s := by
  have forms := law.toLaw.toFormLaw
  rw [Emit.aliasInstances, obeys_get]
  split
  · exact forms.pure () s
  · refine forms.bind (law.binds (by simp) _) (fun _ t => ?_) s
    rw [obeys_get]
    split
    · exact forms.pure () t
    · exact law.binds (by simp) _ t

theorem functionLiteral (law : SinkLaw ok failed) (e : Expr) (expected : Option HostType)
    (guarded : Bool) (s : Sink) :
    Obeys ok failed (Emit.functionLiteral env e expected guarded) s := by
  have forms := law.toLaw.toFormLaw
  obtain ⟨callable, result, hliteral⟩ := exists_functionLiteral_eq env e expected guarded
  rw [hliteral, literalText_eq]
  exact forms.bind law.aliasInstances (fun _ => forms.bind (forms.append _) fun _ =>
    forms.bind (law.enclosing .literal (forms.bind forms.newLine fun _ =>
      forms.bind (forms.append _) fun _ =>
        law.enclosing .method (law.functionBody e expected guarded))) fun _ => forms.append _) s

theorem inlineValue (law : SinkLaw ok failed) (e : Expr) (expected : Option HostType) (s : Sink) :
    Obeys ok failed (Emit.inlineValue env e expected) s := by
  refine law.toLaw.traced _ _ (fun t => ?_) s
  rw [obeys_get]
  split
  · exact law.toLaw.expression env (e.looksUp_any _) t
  · exact law.inScope (law.functionLiteral e expected _ t.openScope)

theorem declareInstance (law : SinkLaw ok failed) (keyword : String) (type : Option HostType)
    (s : Sink) : Obeys ok failed (Emit.declareInstance keyword type) s := by
  cases type with
  | none => exact law.refl s
  | some type =>
    exact law.toLaw.bind (law.setsObject _ _) (fun _ => law.binds (by simp) _) s

theorem declareParams (law : SinkLaw ok failed) (params : List (String × HostType)) (s : Sink) :
    Obeys ok failed (Emit.declareParams params) s := by
  induction params generalizing s with
  | nil => exact law.refl s
  | cons param params ih => exact law.toLaw.bind (law.binds (by simp) _) (fun _ => ih) s

theorem declareSignature (law : SinkLaw ok failed) (sig : Signature) (s : Sink) :
    Obeys ok failed (Emit.declareSignature sig) s :=
  law.toLaw.bind (law.declareInstance _ _) (fun _ => law.toLaw.bind (law.declareInstance _ _)
    fun _ => law.declareParams _) s

end SinkLaw

end Emit

end Lowering
