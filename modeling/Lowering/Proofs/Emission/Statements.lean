import Lowering.Proofs.Emission.Inline

/-!
# Statement forms keep what is bound

The statement form of a node is put together from those of its operands and from pieces that declare
a local or assign to one. Main statement: whatever it does, the scopes stay as they are, except that
the innermost one may bind more names.
-/

namespace Lowering.Emit

variable {env : Env}

/-! ## Equations -/

/-- A local for the value of `e`, if the value is wanted. -/
def reserve (env : Env) (wanted : Bool) (e : Expr) : Emit Unit :=
  if wanted then do
    let _ ← declareResult env e
  else pure ()

/-- The statements of a block between braces. -/
def bracedBody (env : Env) (block : Expr) (wanted : Bool) (exprs : List Expr) : Emit Unit := do
  newLine
  openBrace .block
  inScope (blockBody env block wanted exprs)
  closeBrace .block

/-- A branch of an `if` between braces. -/
def bracedBranch (env : Env) (owner e : Expr) (wanted : Bool) : Emit Unit := do
  openBrace .branch
  inScope (finishWith env owner e wanted (fun needed => statement env needed e) (expression env e))
  closeBrace .branch

def conditionText (env : Env) (cond : Expr) : Emit Unit := do
  newLine
  append "if ("
  converted env cond (some .boolean) (expression env cond)
  append ") "

/-- The text of an `if` after the statements of its condition. -/
def branchText (env : Env) (owner cond yes : Expr) (no : Option Expr) (wanted : Bool) :
    Emit Unit := do
  conditionText env cond
  bracedBranch env owner yes wanted
  match no with
  | some no => do
    append " else "
    bracedBranch env owner no wanted
  | none => pure ()

/-- The type of the local that a declaration declares. -/
def declaredType (env : Env) : Option WrittenType → Option Expr → HostType
  | some type, _ => type.resolve
  | none, some init => env.localType init
  | none, none => .object

/-- The type of the local that the statement form of a node declares, if it declares one. -/
def hoistedType (env : Env) : Expr → HostType
  | .decl _ _ type _ init => declaredType env type init
  | e => env.localType e

/-- The type, name and value of a declaration. -/
def declarator (env : Env) (node : Node) (type : HostType) (init : Option Expr) (name : String) :
    Emit Unit := do
  write (.declaration (.value node.id) (type.sourceName true) name)
  match init with
  | some init => do
    append " = "
    converted env init (some type) (expression env init)
  | none => pure ()
  append ";"

/-- The text of a declaration after the statements of its initializer. -/
def declarationText (env : Env) (node : Node) (name : String) (writeable : Bool) (type : HostType)
    (init : Option Expr) : Emit Unit := do
  newLine
  if !writeable then
    append "final "
  bindFresh (.value node.id) (identifier name) >>= declarator env node type init

/-- The text of an effect that nothing or a fresh local takes the value of. -/
def effectText (env : Env) (needed : Bool) (e : Expr) (act : Emit Unit) : Emit Unit :=
  if needed then do
    let _ ← declareLocal env e act
  else do
    newLine
    act
    append ";"

theorem statement_block (needed : Bool) (node : Node) (first second : Expr) (rest : List Expr) :
    let block := Expr.block node (first :: second :: rest)
    let wanted := needed && !env.isVoid block
    statement env needed block = traced node.id true (do
      reserve env wanted block
      bracedBody env block wanted (first :: second :: rest)) := by
  intro block wanted
  rw [statement]
  · simp only [reserve]
    split <;> rfl
  · simp

theorem statement_branch (needed : Bool) (node : Node) (cond yes : Expr) (no : Option Expr) :
    let branch := Expr.branch node cond yes no
    let wanted := needed && !env.isVoid branch
    statement env needed branch = traced node.id true (do
      statement env true cond
      reserve env wanted branch
      branchText env branch cond yes no wanted) := by
  intro branch wanted
  rw [statement]
  simp only [reserve, branchText, conditionText, bracedBranch, bind_assoc]
  congr 2
  funext _
  split <;> cases no <;> simp only [bind_assoc, pure_bind] <;> rfl

theorem statement_decl (needed : Bool) (node : Node) (name : String) (type : Option WrittenType)
    (writeable : Bool) (init : Option Expr) :
    statement env needed (.decl node name type writeable init) = traced node.id true (do
      match init with
      | some init => statement env (!env.isVoid init) init
      | none => pure ()
      declarationText env node name writeable (declaredType env type init) init) := by
  cases init <;> cases type <;> cases writeable <;> rfl

theorem statements_toList_append (receiver : Option Expr) (args : List Expr) :
    statements env (receiver.toList ++ args) = (do
      receiverStatement env receiver
      statements env args) := by
  cases receiver <;> rfl

theorem statement_call (needed : Bool) (node : Node) (feature : Feature) (receiver : Option Expr)
    (args : List Expr) :
    let call := Expr.call node feature receiver args
    statement env needed call = traced node.id true (do
      statements env (receiver.toList ++ args)
      if feature.isInvocation then
        effectText env (needed && !env.isVoid call) call (invocation node.id feature
          (receiverText env receiver) (arguments env feature.paramTypes args))) := by
  intro call
  rw [statement, statements_toList_append]
  simp only [effectText, bind_assoc]
  rfl

theorem statement_construct (needed : Bool) (node : Node) (type : WrittenType)
    (params throws : List WrittenType) (args : List Expr) :
    let construct := Expr.construct node type params throws args
    statement env needed construct = traced node.id true (do
      statements env args
      effectText env needed construct (construction node.id type
        (arguments env (WrittenType.resolveAll params) args))) :=
  rfl

theorem statement_assign (needed : Bool) (node : Node) (target : Feature)
    (receiver : Option Expr) (value : Expr) :
    statement env needed (.assign node target receiver value) = traced node.id true (do
      statements env (receiver.toList ++ [value])
      effectText env false (.assign node target receiver value) (assignment env node.id target
        (receiverText env receiver) value (expression env value))) := by
  rw [statement, statements_toList_append]
  simp only [statements, bind_assoc, pure_bind]
  rfl

/-! ## Outcomes of the pieces -/

variable {s : Sink} {quiet : Prop} {added : List NodeId} {failed : Failure → Prop}

/-- From `s`, `act` only binds more names in the innermost scope. If `quiet`, it completes the
effects of the nodes `added`; afterwards `post` holds, and it fails only as `failed` allows. -/
def Adds (s : Sink) (quiet : Prop) (added : List NodeId) (failed : Failure → Prop)
    (post : Sink → Prop) (act : Emit Unit) : Prop :=
  Outcome act s (fun _ s' => s.Extends s' ∧ (quiet → s'.effects = s.effects ++ added) ∧ post s')
    failed

variable {act : Emit Unit} {post : Sink → Prop}

theorem Adds.imp {post' : Sink → Prop} (h : Adds s quiet added failed post act)
    (hpost : ∀ s', s.Extends s' → post s' → post' s') : Adds s quiet added failed post' act :=
  Outcome.imp h fun _ s' ⟨hextends, heffects, h⟩ => ⟨hextends, heffects, hpost s' hextends h⟩

theorem Adds.effects_eq {added' : List NodeId} (h : Adds s quiet added failed post act)
    (heq : quiet → added = added') : Adds s quiet added' failed post act :=
  Outcome.imp h fun _ _ ⟨hextends, heffects, h⟩ =>
    ⟨hextends, fun hq => by rw [heffects hq, heq hq], h⟩

theorem Adds.andThen {added' : List NodeId} {post' : Sink → Prop} {next : Unit → Emit Unit}
    (h : Adds s quiet added failed post act)
    (hnext : ∀ s', s.Extends s' → post s' → Adds s' quiet added' failed post' (next ())) :
    Adds s quiet (added ++ added') failed post' (act >>= next) := by
  rw [Adds, outcome_bind]
  apply Outcome.imp h
  intro _ s₁ hfirst
  obtain ⟨hextends, heffects, hpost⟩ := hfirst
  apply Outcome.imp (hnext s₁ hextends hpost)
  intro _ s₂ hsecond
  obtain ⟨hextends', heffects', hpost'⟩ := hsecond
  refine ⟨hextends.trans hextends', fun hq => ?_, hpost'⟩
  rw [heffects' hq, heffects hq, List.append_assoc]

theorem Adds.andText {post' : Sink → Prop} {next : Unit → Emit Unit}
    (h : Adds s quiet added failed post act)
    (hnext : ∀ s', s.Extends s' → post s' → Adds s' quiet [] failed post' (next ())) :
    Adds s quiet added failed post' (act >>= next) := by
  simpa using h.andThen hnext

theorem Writes.adds (h : Writes s quiet added failed act) :
    Adds s quiet added failed (fun s' => s'.scopes = s.scopes) act :=
  (h s rfl).imp fun _ _ ⟨hscopes, heffects⟩ => ⟨.of_scopes hscopes, heffects, hscopes⟩

theorem Adds.traced (id : NodeId) (debug : Bool) (h : Adds s quiet added failed post act)
    (hpost : ∀ t u, t.Extends u → post t → post u) :
    Adds s quiet added failed post (traced id debug act) := by
  rw [Adds, outcome_traced]
  apply Outcome.imp h
  intro _ s' hdone
  obtain ⟨hextends, heffects, h⟩ := hdone
  have hregion : s'.Extends (s'.finishRegion id s.size debug) := .of_scopes rfl
  exact ⟨hextends.trans hregion, heffects, hpost s' _ hregion h⟩

theorem adds_bindFresh (key : NameKey) (proposed : String) (text : String → Emit Unit)
    (htext : ∀ name, Writes (s.bind key name) quiet added failed (text name)) :
    Adds s quiet added failed (·.Binds key) (bindFresh key proposed >>= text) := by
  rw [Adds, outcome_bind, outcome_bindFresh]
  apply (htext _ _ rfl).imp
  intro _ s' hdone
  obtain ⟨hscopes, heffects⟩ := hdone
  refine ⟨(s.extends_bind key _).trans (.of_scopes hscopes), fun hq => ?_, ?_⟩
  · rw [heffects hq, Sink.effects_bind]
  · exact (Sink.binds_congr hscopes key).mpr (s.binds_bind_self key _)

theorem adds_declareLocal (e : Expr) (init : Emit Unit)
    (hinit : ∀ t, s.Extends t → Writes t quiet added failed init) :
    Adds s quiet added failed (·.Binds (.value e.id)) (do let _ ← declareLocal env e init) := by
  simp only [declareLocal, bind_assoc, pure_bind]
  apply adds_bindFresh _ _ _
  intro name
  exact writes_newLine.andThen ((writes_write _).andThen ((writes_append _).andThen
    ((hinit _ (s.extends_bind _ name)).andText ((writes_append _).andThen writes_pure))))

theorem adds_reserve (wanted : Bool) (e : Expr) :
    Adds s quiet [] failed (fun s' => wanted → s'.Binds (.value e.id)) (reserve env wanted e) := by
  cases wanted with
  | false => exact writes_pure.adds.imp fun _ _ _ h => by cases h
  | true => exact (adds_declareLocal e _ fun _ _ => writes_append _).imp fun _ _ h _ => h

theorem adds_effectText (needed : Bool) (e : Expr) (act : Emit Unit)
    (hact : ∀ t, s.Extends t → Writes t quiet added failed act) :
    Adds s quiet added failed (fun s' => needed → s'.Binds (.value e.id))
      (effectText env needed e act) := by
  cases needed with
  | false =>
    have htext : Writes s quiet added failed (effectText env false e act) :=
      writes_newLine.andThen ((hact s (.refl s)).andText (writes_append _))
    exact htext.adds.imp fun _ _ _ h => by cases h
  | true => exact (adds_declareLocal e act hact).imp fun _ _ h _ => h

theorem adds_declarationText (node : Node) (name : String) (writeable : Bool) (type : HostType)
    (init : Option Expr)
    (hinit : ∀ e ∈ init, ∀ t, s.Extends t → Writes t quiet [] failed (expression env e)) :
    Adds s quiet [] failed (·.Binds (.value node.id))
      (declarationText env node name writeable type init) := by
  have hbind (t : Sink) (ht : s.Extends t) : Adds t quiet [] failed (·.Binds (.value node.id))
      (bindFresh (.value node.id) (identifier name) >>= declarator env node type init) := by
    refine adds_bindFresh _ _ _ fun text => (writes_write _).andThen ?_
    cases init with
    | none => exact writes_append _
    | some e =>
      exact (writes_append _).andThen
        (((hinit e rfl _ (ht.trans (t.extends_bind _ text))).converted e _).andThen
          (writes_append _))
  cases writeable with
  | true => exact writes_newLine.adds.andThen fun t ht _ => hbind t ht
  | false =>
    exact writes_newLine.adds.andThen fun t ht _ =>
      (writes_append _).adds.andThen fun u hu _ => hbind u (ht.trans hu)

theorem writes_assignResult (owner e : Expr) (act : Emit Unit)
    (howner : ¬ s.Binds (.value owner.id) →
      failed (.internal (.noResultLocal owner.kindName owner.span)))
    (hact : Writes s quiet [] failed act) :
    Writes s quiet [] failed (assignResult env owner e act) := by
  intro t ht
  simp only [assignResult, outcome_bind, outcome_get, Sink.name?_congr ht]
  cases hs : s.name? (.value owner.id) with
  | none => exact howner (by simp [Sink.Binds, hs])
  | some name =>
    have htext : Writes s quiet [] failed (do
        newLine
        write (.use owner.id (.value owner.id) name)
        append " = "
        converted env e (some (env.types.typeOf owner)) act
        append ";") :=
      writes_newLine.andThen ((writes_write _).andThen ((writes_append _).andThen
        ((hact.converted e _).andThen (writes_append _))))
    exact htext t ht

/-- What happens in a scope of its own binds nothing outside. -/
theorem adds_inScope (h : Adds s.openScope quiet added failed post act) :
    Adds s quiet added failed (fun s' => s'.scopes = s.scopes) (inScope act) := by
  rw [Adds, outcome_inScope]
  apply Outcome.imp h
  intro _ s' hdone
  obtain ⟨hextends, heffects, _⟩ := hdone
  have hscopes := Sink.scopes_closeScope_of_extends hextends
  exact ⟨.of_scopes hscopes, fun hq => by simp [heffects hq], hscopes⟩

/-- After `act` the value of `e`, if `needed` and if there is one, can be written in place. -/
def Prepares (s : Sink) (quiet : Prop) (failed : Failure → Prop) (env : Env) (e : Expr)
    (needed : Bool) (act : Emit Unit) : Prop :=
  Adds s quiet e.effects failed (fun s' => needed = true → env.isVoid e = false →
    Writes s' quiet [] failed (expression env e)) act

theorem adds_finishWith (owner e : Expr) (wanted : Bool)
    (hstatement : ∀ needed, Prepares s quiet failed env e needed (statement env needed e))
    (howner : wanted = true → ¬ s.Binds (.value owner.id) →
      failed (.internal (.noResultLocal owner.kindName owner.span))) :
    Adds s quiet e.effects failed (fun _ => True)
      (finishWith env owner e wanted (fun needed => statement env needed e)
        (expression env e)) := by
  apply (hstatement _).andText
  intro t ht hact
  split
  · rename_i hassigned
    have hparts : (wanted = true ∧ env.isVoid e = false) ∧ e.exitsEarly = false := by
      simpa using hassigned
    have htext : Writes t quiet [] failed (assignResult env owner e (expression env e)) :=
      writes_assignResult owner e _
        (fun h => howner hparts.1.1 fun hs => h (ht.binds _ hs)) (hact hassigned hparts.1.2)
    exact htext.adds.imp fun _ _ _ => trivial
  · exact writes_pure.adds.imp fun _ _ _ => trivial

theorem adds_bracedBranch (owner e : Expr) (wanted : Bool)
    (hstatement : ∀ t : Sink, t.scopes = s.scopes → ∀ needed,
      Prepares t.openScope quiet failed env e needed (statement env needed e))
    (howner : wanted = true → ¬ s.Binds (.value owner.id) →
      failed (.internal (.noResultLocal owner.kindName owner.span))) :
    Adds s quiet e.effects failed (fun s' => s'.scopes = s.scopes)
      (bracedBranch env owner e wanted) := by
  apply (writes_openBrace _).adds.andThen
  intro t _ ht
  have hinner := adds_finishWith owner e wanted (hstatement t ht) fun hw h =>
    howner hw fun hs => h ((t.binds_openScope _).mpr ((Sink.binds_congr ht _).mpr hs))
  apply (adds_inScope hinner).andText
  intro u _ hu
  exact (writes_closeBrace _).adds.imp fun _ _ h => h.trans (hu.trans ht)

theorem adds_blockBody (Inv : List Expr → Sink → Prop) (block : Expr) (wanted : Bool)
    (exprs : List Expr)
    (hstep : ∀ e ∈ exprs, ∀ rest t, Inv (e :: rest) t → ∀ needed,
      Prepares t quiet failed env e needed (statement env needed e) ∧
      Adds t quiet e.effects failed (Inv rest) (statement env needed e))
    (howner : wanted = true → ¬ s.Binds (.value block.id) →
      failed (.internal (.noResultLocal block.kindName block.span)))
    (hinv : Inv exprs s) :
    Adds s quiet (exprs.flatMap Expr.effects) failed (fun _ => True)
      (blockBody env block wanted exprs) := by
  induction exprs generalizing s with
  | nil => exact writes_pure.adds.imp fun _ _ _ => trivial
  | cons first rest ih =>
    have hfirst := hstep first List.mem_cons_self rest s hinv
    cases rest with
    | nil =>
      simp only [List.flatMap_cons, List.flatMap_nil, List.append_nil]
      exact adds_finishWith block first wanted (fun needed => (hfirst needed).1) howner
    | cons second rest =>
      apply (hfirst false).2.andThen
      intro t ht hinv'
      exact ih (fun e he => hstep e (List.mem_cons_of_mem _ he))
        (fun hw h => howner hw fun hs => h (ht.binds _ hs)) hinv'

theorem adds_branchText (owner cond yes : Expr) (no : Option Expr) (wanted : Bool)
    (hcond : Writes s quiet [] failed (expression env cond))
    (hbranch : ∀ e ∈ yes :: no.toList, ∀ t : Sink, t.scopes = s.scopes → ∀ needed,
      Prepares t.openScope quiet failed env e needed (statement env needed e))
    (howner : wanted = true → ¬ s.Binds (.value owner.id) →
      failed (.internal (.noResultLocal owner.kindName owner.span))) :
    Adds s quiet ((yes :: no.toList).flatMap Expr.effects) failed (fun s' => s'.scopes = s.scopes)
      (branchText env owner cond yes no wanted) := by
  have hbraced (e : Expr) (he : e ∈ yes :: no.toList) (t : Sink) (ht : t.scopes = s.scopes) :
      Adds t quiet e.effects failed (fun u => u.scopes = s.scopes)
        (bracedBranch env owner e wanted) :=
    (adds_bracedBranch owner e wanted (fun u hu => hbranch e he u (hu.trans ht))
      fun hw h => howner hw fun hs => h ((Sink.binds_congr ht _).mpr hs)).imp
      fun _ _ h => h.trans ht
  have hhead : Writes s quiet [] failed (conditionText env cond) :=
    writes_newLine.andThen ((writes_append _).andThen ((hcond.converted cond _).andThen
      (writes_append _)))
  apply hhead.adds.andThen
  intro t _ ht
  apply (hbraced yes List.mem_cons_self t ht).andThen
  intro u _ hu
  cases no with
  | none => exact writes_pure.adds.imp fun _ _ h => h.trans hu
  | some no =>
    apply Adds.effects_eq ((writes_append _).adds.andThen fun v _ hv =>
      hbraced no (by simp) v (hv.trans hu))
    intro _
    simp

theorem adds_bracedBody (Inv : List Expr → Sink → Prop) (block : Expr) (wanted : Bool)
    (exprs : List Expr)
    (hstep : ∀ e ∈ exprs, ∀ rest t, Inv (e :: rest) t → ∀ needed,
      Prepares t quiet failed env e needed (statement env needed e) ∧
      Adds t quiet e.effects failed (Inv rest) (statement env needed e))
    (howner : wanted = true → ¬ s.Binds (.value block.id) →
      failed (.internal (.noResultLocal block.kindName block.span)))
    (hinv : ∀ t : Sink, t.scopes = s.scopes → Inv exprs t.openScope) :
    Adds s quiet (exprs.flatMap Expr.effects) failed (fun s' => s'.scopes = s.scopes)
      (bracedBody env block wanted exprs) := by
  apply writes_newLine.adds.andThen
  intro t _ ht
  apply (writes_openBrace _).adds.andThen
  intro u _ hu
  have hscopes : u.scopes = s.scopes := hu.trans ht
  have hinner := adds_blockBody Inv block wanted exprs hstep
    (fun hw h => howner hw fun hs =>
      h ((u.binds_openScope _).mpr ((Sink.binds_congr hscopes _).mpr hs)))
    (hinv u hscopes)
  apply (adds_inScope hinner).andText
  intro v _ hv
  exact (writes_closeBrace _).adds.imp fun _ _ h => h.trans (hv.trans hscopes)

theorem adds_statements (Inv : List Expr → Sink → Prop) {Ready : Expr → Sink → Prop}
    (hready : ∀ e t u, t.Extends u → Ready e t → Ready e u) (es : List Expr)
    (hstep : ∀ e ∈ es, ∀ rest t, Inv (e :: rest) t →
      Adds t quiet e.effects failed (fun u => Ready e u ∧ Inv rest u) (statement env true e))
    (hinv : Inv es s) :
    Adds s quiet (es.flatMap Expr.effects) failed
      (fun s' => (∀ e ∈ es, Ready e s') ∧ Inv [] s') (statements env es) := by
  induction es generalizing s with
  | nil => exact ⟨.refl s, fun _ => by simp, by simp, hinv⟩
  | cons first rest ih =>
    apply (hstep first List.mem_cons_self rest s hinv).andThen
    intro t _ ht
    have hrest := ih (fun e he => hstep e (List.mem_cons_of_mem _ he)) ht.2
    refine hrest.imp fun u hu h => ⟨fun e he => ?_, h.2⟩
    rcases List.mem_cons.mp he with rfl | he
    · exact hready e t u hu ht.1
    · exact h.1 e he

end Lowering.Emit
