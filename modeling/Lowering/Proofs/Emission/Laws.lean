import Lowering.Emission.Inlining
import Lowering.Proofs.Emission.Statements

/-!
# Laws of emission

What every emission does to a sink, whichever tree it lowers and whether or not it fails. A law is a
pair of relations between the sinks before and after; it governs the forms as soon as it allows the
steps that forms are made of, and bodies if it allows the return that they add. Main statement:
every law governs the expression form of every tree.
-/

namespace Lowering

/-- The braces that belong to the forms of a tree. -/
def Brace.isForm : Brace → Bool
  | .block | .branch => true
  | _ => false

/-- The entry opens, closes and binds nothing, writes no name that is bound to a key, and returns
nothing by itself. -/
def Entry.isPlain : Entry → Bool
  | .text _ | .field .. | .effect _ => true
  | _ => false

/-- The key of the name by which the host refers to the feature; instances are told apart by their
type. -/
def Feature.key? (f : Feature) (type : HostType) : Option NameKey :=
  match f.kind with
  | .localVar declaration => some (.value declaration)
  | .parameter => some (.parameter f.name)
  | .this | .super => some (.instanceOf type.hash)
  | _ => none

namespace Expr

/-- The keys whose names stand for the value or the target of a node. -/
def keys (types : ResolvedTypes) (e : Expr) : List NameKey :=
  .value e.id :: match e with
    | .call _ feature _ _ => (feature.key? (types.typeOf e)).toList
    | .assign _ target _ _ => (target.key? (types.typeOf e)).toList
    | _ => []

/-- The nodes of the tree only look up keys that `uses` allows them. -/
def LooksUp (types : ResolvedTypes) (uses : NodeId → NameKey → Prop) (e : Expr) : Prop :=
  ∀ part ∈ e.occurrences, ∀ key ∈ part.keys types, uses part.id key

variable {types : ResolvedTypes} {uses : NodeId → NameKey → Prop} {e : Expr}

theorem LooksUp.self (h : e.LooksUp types uses) : ∀ key ∈ e.keys types, uses e.id key :=
  h e e.mem_occurrences_self

theorem LooksUp.value (h : e.LooksUp types uses) : uses e.id (.value e.id) :=
  h.self _ List.mem_cons_self

theorem LooksUp.child {child : Expr} (h : e.LooksUp types uses) (hchild : child ∈ e.children) :
    child.LooksUp types uses :=
  fun part hpart => h part (mem_occurrences_of_mem_children hchild hpart)

theorem looksUp_any (types : ResolvedTypes) (e : Expr) : e.LooksUp types fun _ _ => True :=
  fun _ _ _ _ => trivial

end Expr

namespace Sink

/-- The sink between a pair of braces with a scope of its own. -/
def openBraced (s : Sink) (brace : Brace) : Sink :=
  (s.write (.opening brace)).indent.openScope

/-- The sink after such a pair of braces. -/
def closeBraced (s : Sink) (brace : Brace) : Sink :=
  s.closeScope.dedent.newLine.write (.closing brace)

/-- `name` is bound to `key`, or it may stand for `key` because nothing is. -/
def Names (s : Sink) (key : NameKey) (name : String) : Prop :=
  s.name? key = some name ∨ s.name? key = none ∧ ∀ id, key ≠ .value id

/-- `t` is `s` with the local for the value of `e`, perhaps on a new line: `e` needs one, and `name`
is made from its proposal. -/
structure Reserves (s t : Sink) (e : Expr) (name : String) : Prop where
  needed : e.needsLocal
  name_eq : name = freshName s.reserved (identifier e.proposedName)
  bound : t = s.bind (.value e.id) name ∨ t = (s.bind (.value e.id) name).newLine

end Sink

namespace Emit

/-- From `s`, `act` does what `ok` allows if it succeeds, and what `failed` allows if it fails. -/
def Obeys {α : Type} (ok failed : Sink → Sink → Prop) (act : Emit α) (s : Sink) : Prop :=
  match act.run.run s with
  | (.ok _, t) => ok s t
  | (.error _, t) => failed s t

theorem obeys_get {α : Type} {ok failed : Sink → Sink → Prop} (next : Sink → Emit α) (s : Sink) :
    Obeys ok failed (get >>= next) s ↔ Obeys ok failed (next s) s :=
  Iff.rfl

theorem Obeys.of_run_ok {α : Type} {ok failed : Sink → Sink → Prop} {act : Emit α} {s t : Sink}
    {a : α} (h : Obeys ok failed act s) (hrun : act.run.run s = (.ok a, t)) : ok s t := by
  rw [Obeys, hrun] at h
  exact h

/-- What `act` does whether or not it succeeds. -/
theorem Obeys.run {α : Type} {R : Sink → Sink → Prop} {act : Emit α} {s : Sink}
    (h : Obeys R R act s) : R s (act.run.run s).2 := by
  unfold Obeys at h
  split at h <;> simp_all

theorem Obeys.imp {α : Type} {ok ok' failed failed' : Sink → Sink → Prop} {act : Emit α} {s : Sink}
    (h : Obeys ok failed act s) (hok : ∀ t, ok s t → ok' s t)
    (hfailed : ∀ t, failed s t → failed' s t) : Obeys ok' failed' act s := by
  unfold Obeys at *
  split at h
  · exact hok _ h
  · exact hfailed _ h

theorem Obeys.and {α : Type} {ok ok' failed failed' : Sink → Sink → Prop} {act : Emit α} {s : Sink}
    (h : Obeys ok failed act s) (h' : Obeys ok' failed' act s) :
    Obeys (fun s t => ok s t ∧ ok' s t) (fun s t => failed s t ∧ failed' s t) act s := by
  unfold Obeys at *
  split at h <;> simp_all

theorem Obeys.bind {α β : Type} {ok ok' ok'' failed failed' failed'' : Sink → Sink → Prop}
    {act : Emit α} {next : α → Emit β} {s : Sink} (h : Obeys ok failed act s)
    (hnext : ∀ a t, act.run.run s = (.ok a, t) → Obeys ok' failed' (next a) t)
    (hok : ∀ t u, ok s t → ok' t u → ok'' s u) (hstop : ∀ t, failed s t → failed'' s t)
    (hthenStop : ∀ t u, ok s t → failed' t u → failed'' s u) :
    Obeys ok'' failed'' (act >>= next) s := by
  unfold Obeys at *
  rw [run_bind]
  cases hrun : act.run.run s with
  | mk result t =>
    rw [hrun] at h
    cases result with
    | error f => exact hstop t h
    | ok a =>
      have hrest := hnext a t hrun
      dsimp only
      cases hrun' : (next a).run.run t with
      | mk result u =>
        rw [hrun'] at hrest
        cases result with
        | ok b => exact hok t u h hrest
        | error f => exact hthenStop t u h hrest

/-- A region starts where the sink was before what it holds. -/
theorem Obeys.traced {α : Type} {ok ok' failed : Sink → Sink → Prop} {id : NodeId} {debug : Bool}
    {act : Emit α} {s : Sink} (h : Obeys ok failed act s)
    (hregion : ∀ t, ok s t → ok' s (t.finishRegion id s.size debug)) :
    Obeys ok' failed (Emit.traced id debug act) s := by
  have hact : Obeys ok' failed (do
      let a ← act
      modify (·.finishRegion id s.size debug)
      pure a) s :=
    h.bind (fun _ _ _ => (rfl : _ = _)) (fun t _ ht hu => hu ▸ hregion t ht) (fun _ => (·))
      fun _ _ _ hfailed => (hfailed : False).elim
  exact hact

/-- A form in braces closes its scope whether or not it fails, and its brace if it succeeds. -/
theorem run_inBraces (act : Emit Unit) (brace : Brace) (s : Sink) :
    (do openBrace brace; inScope act; closeBrace brace : Emit Unit).run.run s =
      match act.run.run (s.openBraced brace) with
      | (.ok _, t) => (.ok (), t.closeBraced brace)
      | (.error f, t) => (.error f, t.closeScope) := by
  simp only [run_bind, run_openBrace, run_inScope]
  unfold Sink.openBraced
  rcases act.run.run (s.write (.opening brace)).indent.openScope with ⟨_ | _, t⟩ <;> rfl

/-- `ok` and `failed` allow the steps that forms are made of, where locals are declared only for
nodes and with types `among` those given, and each node `uses` the names of certain keys only. -/
structure FormLaw (among : Expr → HostType → Prop) (ok failed : Sink → Sink → Prop)
    (uses : NodeId → NameKey → Prop := fun _ _ => True) : Prop where
  refl (s : Sink) : ok s s
  trans {s t u : Sink} : ok s t → ok t u → ok s u
  stop (s : Sink) : failed s s
  thenStop {s t u : Sink} : ok s t → failed t u → failed s u
  write (s : Sink) {e : Entry} : e.isPlain → ok s (s.write e)
  region {s t : Sink} (id : NodeId) (debug : Bool) :
    ok s t → ok s (t.finishRegion id s.size debug)
  use {s : Sink} {id : NodeId} {key : NameKey} {name : String} :
    uses id key → s.Names key name → ok s (s.write (.use id key name))
  declare {s t : Sink} {e : Expr} {type : HostType} {name : String} :
    among e type → s.Reserves t e name →
      ok s (t.write (.declaration (.value e.id) (type.sourceName true) name))
  braced {s t : Sink} {brace : Brace} :
    brace.isForm → ok (s.openBraced brace) t → ok s (t.closeBraced brace)
  bracedStop {s t : Sink} {brace : Brace} :
    brace.isForm → failed (s.openBraced brace) t → failed s t.closeScope

/-- They also allow the return of the value that a body adds to the forms. -/
structure Law (among : Expr → HostType → Prop) (ok failed : Sink → Sink → Prop)
    (uses : NodeId → NameKey → Prop := fun _ _ => True) : Prop
    extends FormLaw among ok failed uses where
  returns (s : Sink) : ok s (s.write .implicitReturn)

/-- Two laws govern together what each of them governs. -/
theorem FormLaw.and {among : Expr → HostType → Prop} {uses : NodeId → NameKey → Prop}
    {ok failed ok' failed' : Sink → Sink → Prop}
    (law : FormLaw among ok failed uses) (law' : FormLaw among ok' failed' uses) :
    FormLaw among (fun s t => ok s t ∧ ok' s t) (fun s t => failed s t ∧ failed' s t) uses where
  refl s := ⟨law.refl s, law'.refl s⟩
  trans h h' := ⟨law.trans h.1 h'.1, law'.trans h.2 h'.2⟩
  stop s := ⟨law.stop s, law'.stop s⟩
  thenStop h h' := ⟨law.thenStop h.1 h'.1, law'.thenStop h.2 h'.2⟩
  write s _ he := ⟨law.write s he, law'.write s he⟩
  region id debug h := ⟨law.region id debug h.1, law'.region id debug h.2⟩
  use hkey hname := ⟨law.use hkey hname, law'.use hkey hname⟩
  declare he ht := ⟨law.declare he ht, law'.declare he ht⟩
  braced hbrace h := ⟨law.braced hbrace h.1, law'.braced hbrace h.2⟩
  bracedStop hbrace h := ⟨law.bracedStop hbrace h.1, law'.bracedStop hbrace h.2⟩

namespace FormLaw

variable {among : Expr → HostType → Prop} {ok failed : Sink → Sink → Prop}
  {uses : NodeId → NameKey → Prop} {α β : Type} {env : Env}

/-! ## Steps -/

theorem bindAt (law : FormLaw among ok failed uses) {act : Emit α} {next : α → Emit β} {s : Sink}
    (h : Obeys ok failed act s)
    (hnext : ∀ a t, act.run.run s = (.ok a, t) → Obeys ok failed (next a) t) :
    Obeys ok failed (act >>= next) s :=
  h.bind hnext (fun _ _ => law.trans) (fun _ => id) fun _ _ => law.thenStop

theorem bind (law : FormLaw among ok failed uses) {act : Emit α} {next : α → Emit β}
    (h : ∀ s, Obeys ok failed act s) (hnext : ∀ a s, Obeys ok failed (next a) s) (s : Sink) :
    Obeys ok failed (act >>= next) s :=
  law.bindAt (h s) fun a t _ => hnext a t

theorem pure (law : FormLaw among ok failed uses) (a : α) (s : Sink) :
    Obeys ok failed (Pure.pure a : Emit α) s :=
  law.refl s

theorem throw (law : FormLaw among ok failed uses) (f : Failure) (s : Sink) :
    Obeys ok failed (MonadExcept.throw f : Emit α) s :=
  law.stop s

theorem writePlain (law : FormLaw among ok failed uses) {e : Entry} (he : e.isPlain) (s : Sink) :
    Obeys ok failed (Emit.write e) s :=
  law.write s he

theorem append (law : FormLaw among ok failed uses) (text : String) (s : Sink) :
    Obeys ok failed (Emit.append text) s :=
  law.write s rfl

theorem newLine (law : FormLaw among ok failed uses) (s : Sink) : Obeys ok failed Emit.newLine s :=
  law.write s rfl

theorem traced (law : FormLaw among ok failed uses) (id : NodeId) (debug : Bool) {act : Emit α}
    (h : ∀ s, Obeys ok failed act s) (s : Sink) :
    Obeys ok failed (Emit.traced id debug act) s :=
  (h s).traced fun _ => law.region id debug

theorem useOr (law : FormLaw among ok failed uses) {id : NodeId} {key : NameKey}
    (huses : uses id key) (hkey : ∀ i, key ≠ .value i) (fallback : String) (s : Sink) :
    Obeys ok failed (Emit.useOr id key fallback) s := by
  refine law.use huses ?_
  cases hname : s.name? key with
  | some name => exact .inl (by simp [hname])
  | none => exact .inr ⟨hname, hkey⟩

/-! ## Pieces of both forms -/

section

variable {act : Emit Unit} (hact : ∀ s, Obeys ok failed act s)
include hact

theorem nameOr (law : FormLaw among ok failed uses) {node : Node}
    (huses : uses node.id (.value node.id)) (s : Sink) :
    Obeys ok failed (Emit.nameOr node act) s := by
  rw [Emit.nameOr, obeys_get]
  cases hname : s.name? (.value node.id) with
  | some name => exact law.use huses (.inl hname)
  | none => exact law.traced node.id true hact s

theorem converted (law : FormLaw among ok failed uses) (env : Env) (e : Expr)
    (target : Option HostType) (s : Sink) :
    Obeys ok failed (Emit.converted env e target act) s := by
  refine law.bind hact (fun _ t => ?_) s
  split
  · split
    · exact law.append _ t
    · exact law.pure _ t
  · exact law.pure _ t

theorem construction (law : FormLaw among ok failed uses) (id : NodeId) (type : WrittenType)
    (s : Sink) : Obeys ok failed (Emit.construction id type act) s :=
  law.bind (law.append _) (fun _ => law.bind hact fun _ => law.bind (law.append _) fun _ =>
    law.writePlain rfl) s

end

theorem useLocal (law : FormLaw among ok failed uses) {id declaration : NodeId}
    (huses : uses id (.value declaration)) (name : String) (span : Span) (s : Sink) :
    Obeys ok failed (Emit.useLocal id declaration name span) s := by
  rw [Emit.useLocal, obeys_get]
  cases hname : s.name? (.value declaration) with
  | some text => exact law.use huses (.inl hname)
  | none => exact law.throw _ s

theorem useField (law : FormLaw among ok failed uses) (id : NodeId) (name : String)
    {receiver : Option (Emit Unit)} (h : ∀ act ∈ receiver, ∀ s, Obeys ok failed act s) (s : Sink) :
    Obeys ok failed (Emit.useField id name receiver) s := by
  cases receiver with
  | none => exact law.write s rfl
  | some receiver => exact law.bind (h receiver rfl) (fun _ => law.append _) s

theorem invocation (law : FormLaw among ok failed uses) (id : NodeId) (feature : Feature)
    {receiver : Option (Emit Unit)} {args : Emit Unit}
    (hreceiver : ∀ act ∈ receiver, ∀ s, Obeys ok failed act s)
    (hargs : ∀ s, Obeys ok failed args s) (s : Sink) :
    Obeys ok failed (Emit.invocation id feature receiver args) s := by
  have hcall (s : Sink) : Obeys ok failed (do
      Emit.append (feature.name ++ "(")
      args
      Emit.append ")"
      Emit.write (.effect id)) s :=
    law.bind (law.append _) (fun _ => law.bind hargs fun _ => law.bind (law.append _) fun _ =>
      law.writePlain rfl) s
  unfold Emit.invocation
  split
  · exact law.bind (law.append _) (fun _ => hcall) s
  · exact law.bind (hreceiver _ rfl) (fun _ => law.bind (law.append _) fun _ => hcall) s
  · exact hcall s

theorem assignment (law : FormLaw among ok failed uses) {id : NodeId} {target : Feature}
    (type : HostType) (huses : ∀ key ∈ (target.key? type).toList, uses id key)
    {receiver : Option (Emit Unit)} (value : Expr) {act : Emit Unit}
    (hreceiver : ∀ act ∈ receiver, ∀ s, Obeys ok failed act s)
    (hact : ∀ s, Obeys ok failed act s) (s : Sink) :
    Obeys ok failed (Emit.assignment env id target receiver value act) s := by
  have hassign (s : Sink) : Obeys ok failed (do
      Emit.append " = "
      Emit.converted env value (env.types.expected? value.id) act
      Emit.write (.effect id)) s :=
    law.bind (law.append _) (fun _ => law.bind (law.converted hact env value _) fun _ =>
      law.writePlain rfl) s
  unfold Emit.assignment
  split <;> rename_i hkind
  · exact law.bind (law.useLocal (huses _ (by simp [Feature.key?, hkind])) _ _) (fun _ => hassign) s
  · exact law.bind (law.useOr (huses _ (by simp [Feature.key?, hkind])) (by simp) _)
      (fun _ => hassign) s
  · exact law.bind (law.useField _ _ hreceiver) (fun _ => hassign) s
  · exact law.bind (law.throw _) (fun _ => hassign) s

theorem arguments (law : FormLaw among ok failed uses) (params : List HostType) {args : List Expr}
    (h : ∀ arg ∈ args, ∀ s, Obeys ok failed (Emit.expression env arg) s) (s : Sink) :
    Obeys ok failed (Emit.arguments env params args) s := by
  induction args generalizing params s with
  | nil => exact law.pure () s
  | cons first rest ih =>
    have hfirst := law.converted (h first List.mem_cons_self) env first params.head?
    have hrest (arg : Expr) (harg : arg ∈ rest) := h arg (List.mem_cons_of_mem _ harg)
    cases rest with
    | nil => exact hfirst s
    | cons second rest =>
      exact law.bind hfirst (fun _ => law.bind (law.append _) fun _ => ih params.tail hrest) s

theorem receiverText {receiver : Option Expr}
    (h : ∀ e ∈ receiver, ∀ s, Obeys ok failed (Emit.expression env e) s) :
    ∀ act ∈ Emit.receiverText env receiver, ∀ s, Obeys ok failed act s := by
  intro act hact
  cases receiver with
  | none => simp [Emit.receiverText] at hact
  | some e =>
    obtain rfl : Emit.expression env e = act := by simpa [Emit.receiverText] using hact
    exact h e rfl

/-! ## The expression form -/

private theorem operator (law : FormLaw among ok failed uses) {node : Node}
    (huses : uses node.id (.value node.id)) {feature : Feature} {symbol : String}
    (hkind : feature.kind = .operator symbol) {receiver : Option Expr} {args : List Expr}
    (h : ∀ part ∈ receiver.toList ++ args, ∀ s, Obeys ok failed (Emit.expression env part) s)
    (s : Sink) :
    Obeys ok failed (Emit.expression env (.call node feature receiver args)) s := by
  rw [Emit.expression]
  refine law.nameOr (fun t => ?_) huses s
  simp only [hkind]
  refine law.bind (law.append _) (fun _ => ?_) t
  have hconverted (e : Expr) (he : e ∈ receiver.toList ++ args) :=
    law.converted (h e he) env e feature.paramTypes.head?
  have hclose := law.append ")"
  split
  · exact law.bind (law.append _) fun _ => law.bind (hconverted _ (by simp)) fun _ => hclose
  · exact law.bind (law.append _) fun _ => law.bind (hconverted _ (by simp)) fun _ => hclose
  · exact law.bind (h _ (by simp)) fun _ => law.bind (law.append _) fun _ =>
      law.bind (hconverted _ (by simp)) fun _ => hclose
  · exact law.bind (h _ (by simp)) fun _ => law.bind (law.append _) fun _ =>
      law.bind (hconverted _ (by simp)) fun _ => hclose
  · exact law.bind (law.throw _) fun _ => hclose

/-- A law governs the expression form of every tree whose lookups it allows. -/
theorem expression (law : FormLaw among ok failed uses) (env : Env) {e : Expr}
    (hkeys : e.LooksUp env.types uses) (s : Sink) :
    Obeys ok failed (Emit.expression env e) s := by
  induction e using Expr.childInduction generalizing s with
  | step e ih =>
    replace ih (child : Expr) (hchild : child ∈ e.children) := ih child hchild (hkeys.child hchild)
    have hvalue : uses e.node.id (.value e.node.id) := hkeys.value
    have hnone : Obeys ok failed (Emit.nameOr e.node (Emit.noValue e)) s :=
      law.nameOr (law.throw _) hvalue s
    have hreceiver (receiver : Option Expr) (h : receiver.toList ⊆ e.children) :
        ∀ act ∈ Emit.receiverText env receiver, ∀ s, Obeys ok failed act s :=
      receiverText fun r hr => ih r (h (Option.mem_toList.mpr hr))
    cases e with
    | block node exprs =>
      rcases exprs with _ | ⟨only, _ | ⟨second, rest⟩⟩
      · exact hnone
      · exact law.nameOr (ih only List.mem_cons_self) hvalue s
      · exact hnone
    | decl | branch | ret | raise => exact hnone
    | literal node value => exact law.nameOr (law.append _) hvalue s
    | extension node => exact law.nameOr (law.throw _) hvalue s
    | cast node type value =>
      exact law.nameOr (law.bind (law.append _) fun _ => law.bind (ih value List.mem_cons_self)
        fun _ => law.append _) hvalue s
    | construct node type params throws args =>
      exact law.nameOr (law.construction (law.arguments _ ih) _ _) hvalue s
    | assign node target receiver value =>
      exact law.nameOr (law.assignment _
        (fun key hkey => hkeys.self key (List.mem_cons_of_mem _ hkey)) _
        (hreceiver _ (List.subset_append_left _ _))
        (ih value (List.mem_append_right _ List.mem_cons_self))) hvalue s
    | call node feature receiver args =>
      have hreceiver := hreceiver receiver (List.subset_append_left _ _)
      have hfeature (key : NameKey)
          (hkey : key ∈ feature.key? (env.types.typeOf (.call node feature receiver args))) :
          uses node.id key :=
        hkeys.self key (List.mem_cons_of_mem _ (Option.mem_toList.mpr hkey))
      cases hkind : feature.kind with
      | operator symbol => exact law.operator hvalue hkind ih s
      | _ =>
        rw [Emit.expression]
        refine law.nameOr (fun t => ?_) hvalue s
        simp only [Feature.key?, hkind, Option.mem_def, Option.some.injEq, forall_eq'] at hfeature
        simp only [hkind]
        first
          | exact law.useLocal hfeature _ _ t
          | exact law.useOr hfeature (by simp) _ t
          | exact law.useField _ _ hreceiver t
          | exact law.invocation _ _ hreceiver (law.arguments _ fun arg harg =>
              ih arg (List.mem_append_right _ harg)) t

end FormLaw

/-- The return that a body adds, on a line of its own; `act` writes its value. -/
def returning (act : Emit Unit) : Emit Unit := do
  newLine
  write .implicitReturn
  act

theorem Law.returning {among : Expr → HostType → Prop} {ok failed : Sink → Sink → Prop}
    {uses : NodeId → NameKey → Prop} (law : Law among ok failed uses) {act : Emit Unit}
    (h : ∀ s, Obeys ok failed act s) (s : Sink) : Obeys ok failed (Emit.returning act) s :=
  have hreturn (s : Sink) : Obeys ok failed (write .implicitReturn) s := law.returns s
  law.bind law.newLine (fun _ => law.bind hreturn fun _ => h) s

end Emit

end Lowering
