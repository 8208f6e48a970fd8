import Lowering.Proofs.Emission.Laws

/-!
# Laws of the statement form

A law that allows the steps of emission allows what is put together from them: locals, assignments
to them, and braces around a scope. Main statement: every law governs the statement form of every
tree.
-/

namespace Lowering.Emit.FormLaw

variable {among : Expr → HostType → Prop} {ok failed : Sink → Sink → Prop}
  {uses : NodeId → NameKey → Prop} {env : Env} {act : Emit Unit}

/-! ## Locals -/

theorem declareLocal (law : FormLaw among ok failed uses) {e : Expr}
    (he : among e (env.localType e)) (hneeds : e.needsLocal)
    (hact : ∀ s, Obeys ok failed act s) (s : Sink) :
    Obeys ok failed (Emit.declareLocal env e act) s := by
  have hdeclare : Emit.declareLocal env e act = (do
      let name ← (do
        let name ← bindFresh (.value e.id) (identifier e.proposedName)
        Emit.newLine
        Emit.write (.declaration (.value e.id) ((env.localType e).sourceName true) name)
        return name)
      Emit.append " = "
      act
      Emit.append ";"
      return name) := by
    simp [Emit.declareLocal]
  rw [hdeclare]
  refine law.bind (fun s => ?_) (fun name => law.bind (law.append _) fun _ => law.bind hact
    fun _ => law.bind (law.append _) fun _ => law.pure name) s
  exact law.declare he ⟨hneeds, rfl, .inr rfl⟩

theorem reserve (law : FormLaw among ok failed uses) {e : Expr} (he : among e (env.localType e))
    (hneeds : e.needsLocal) (wanted : Bool) (s : Sink) :
    Obeys ok failed (Emit.reserve env wanted e) s := by
  cases wanted with
  | false => exact law.pure () s
  | true => exact law.bind (law.declareLocal he hneeds (law.append _)) (fun _ => law.pure ()) s

theorem effectText (law : FormLaw among ok failed uses) {e : Expr} (he : among e (env.localType e))
    (needed : Bool) (hneeds : e.needsLocal) (hact : ∀ s, Obeys ok failed act s) (s : Sink) :
    Obeys ok failed (Emit.effectText env needed e act) s := by
  cases needed with
  | false => exact law.bind law.newLine (fun _ => law.bind hact fun _ => law.append _) s
  | true => exact law.bind (law.declareLocal he hneeds hact) (fun _ => law.pure ()) s

section

variable {node : Node} {name : String} {written : Option WrittenType} {writeable : Bool}
  {init : Option Expr} {type : HostType} (he : among (.decl node name written writeable init) type)
  (hinit : ∀ e ∈ init, e.LooksUp env.types uses)
include he hinit

private theorem declaratorAt (law : FormLaw among ok failed uses) (s : Sink) :
    Obeys ok failed (bindFresh (.value node.id) (identifier name) >>=
      Emit.declarator env node type init) s := by
  have hdeclare (rest : Emit Unit) : Obeys ok failed (do
      let name ← bindFresh (.value node.id) (identifier name)
      Emit.write (.declaration (.value node.id) (type.sourceName true) name)
      rest) s ↔ Obeys ok failed ((do
        let name ← bindFresh (.value node.id) (identifier name)
        Emit.write (.declaration (.value node.id) (type.sourceName true) name)) >>= fun _ => rest)
      s := by
    rw [bind_assoc]
  have hname (s : Sink) : Obeys ok failed (do
      let name ← bindFresh (.value node.id) (identifier name)
      Emit.write (.declaration (.value node.id) (type.sourceName true) name)) s :=
    law.declare he ⟨rfl, rfl, .inl rfl⟩
  cases init with
  | none => exact (hdeclare _).mpr (law.bind hname (fun _ => law.append _) s)
  | some init =>
    exact (hdeclare _).mpr (law.bind hname (fun _ => law.bind (law.append _) fun _ =>
      law.bind (law.converted (law.expression env (hinit init rfl)) env _ _) fun _ =>
        law.append _) s)

theorem declarationText (law : FormLaw among ok failed uses) (s : Sink) :
    Obeys ok failed (Emit.declarationText env node name writeable type init) s := by
  refine law.bind law.newLine (fun _ t => ?_) s
  cases writeable with
  | true => exact law.declaratorAt he hinit t
  | false => exact law.bind (law.append _) (fun _ => law.declaratorAt he hinit) t

end

theorem assignResult (law : FormLaw among ok failed uses) {owner e : Expr}
    (howner : uses owner.id (.value owner.id)) (he : e.LooksUp env.types uses) (s : Sink) :
    Obeys ok failed (Emit.assignResult env owner e (Emit.expression env e)) s := by
  have hvalue := law.converted (law.expression env he) env e
    (some (env.types.typeOf owner))
  rw [Emit.assignResult, obeys_get]
  cases hname : s.name? (.value owner.id) with
  | none => exact law.throw _ s
  | some name =>
    refine law.bindAt (law.newLine s) fun _ t ht => law.bindAt (law.use howner (.inl ?_))
      fun _ u _ => law.bind (law.append _) (fun _ => law.bind hvalue fun _ => law.append _) u
    obtain rfl : s.newLine = t := congrArg Prod.snd ht
    exact hname

/-! ## Braces -/

theorem inBraces (law : FormLaw among ok failed uses) {brace : Brace} (hbrace : brace.isForm)
    (hact : ∀ s, Obeys ok failed act s) (s : Sink) :
    Obeys ok failed (do openBrace brace; inScope act; closeBrace brace) s := by
  have h := hact (s.openBraced brace)
  unfold Obeys at h ⊢
  rw [run_inBraces]
  cases hact : act.run.run (s.openBraced brace) with
  | mk result t =>
    rw [hact] at h
    cases result with
    | error f => exact law.bracedStop hbrace h
    | ok a => exact law.braced hbrace h

/-! ## The statement form -/

theorem finishWith (law : FormLaw among ok failed uses) {owner e : Expr}
    (howner : uses owner.id (.value owner.id)) (he : e.LooksUp env.types uses) (wanted : Bool)
    (h : ∀ needed s, Obeys ok failed (Emit.statement env needed e) s) (s : Sink) :
    Obeys ok failed (Emit.finishWith env owner e wanted
      (fun needed => Emit.statement env needed e) (Emit.expression env e)) s := by
  refine law.bind (h _) (fun _ t => ?_) s
  split
  · exact law.assignResult howner he t
  · exact law.pure () t

theorem blockBody (law : FormLaw among ok failed uses) {block : Expr}
    (hblock : uses block.id (.value block.id)) (wanted : Bool) {exprs : List Expr}
    (hexprs : ∀ e ∈ exprs, e.LooksUp env.types uses)
    (h : ∀ e ∈ exprs, ∀ needed s, Obeys ok failed (Emit.statement env needed e) s) (s : Sink) :
    Obeys ok failed (Emit.blockBody env block wanted exprs) s := by
  induction exprs generalizing s with
  | nil => exact law.pure () s
  | cons first rest ih =>
    have hfirst := h first List.mem_cons_self
    have hrest (e : Expr) (he : e ∈ rest) := h e (List.mem_cons_of_mem _ he)
    obtain ⟨hkeys, hkeys'⟩ := List.forall_mem_cons.mp hexprs
    cases rest with
    | nil => exact law.finishWith hblock hkeys wanted hfirst s
    | cons second rest => exact law.bind (hfirst false) (fun _ => ih hkeys' hrest) s

theorem branchText (law : FormLaw among ok failed uses) {owner cond yes : Expr}
    {no : Option Expr} (howner : uses owner.id (.value owner.id)) (wanted : Bool)
    (hparts : ∀ e ∈ cond :: yes :: no.toList, e.LooksUp env.types uses)
    (h : ∀ e ∈ yes :: no.toList, ∀ needed s, Obeys ok failed (Emit.statement env needed e) s)
    (s : Sink) : Obeys ok failed (Emit.branchText env owner cond yes no wanted) s := by
  have hcond : ∀ s, Obeys ok failed (Emit.conditionText env cond) s :=
    law.bind law.newLine fun _ => law.bind (law.append _) fun _ =>
      law.bind (law.converted (law.expression env (hparts cond List.mem_cons_self)) env _ _)
        fun _ => law.append _
  have hbranch (e : Expr) (he : e ∈ yes :: no.toList) :
      ∀ s, Obeys ok failed (Emit.bracedBranch env owner e wanted) s :=
    law.inBraces rfl (law.finishWith howner (hparts e (List.mem_cons_of_mem _ he)) wanted (h e he))
  refine law.bind hcond (fun _ => law.bind (hbranch yes List.mem_cons_self) fun _ => ?_) s
  cases no with
  | none => exact law.pure ()
  | some no => exact law.bind (law.append _) fun _ => hbranch no (by simp)

theorem statements (law : FormLaw among ok failed uses) (es : List Expr)
    (h : ∀ e ∈ es, ∀ needed s, Obeys ok failed (Emit.statement env needed e) s) (s : Sink) :
    Obeys ok failed (Emit.statements env es) s := by
  induction es generalizing s with
  | nil => exact law.pure () s
  | cons first rest ih =>
    exact law.bind (h first List.mem_cons_self true)
      (fun _ => ih fun e he => h e (List.mem_cons_of_mem _ he)) s

/-- A law governs the statement form of every tree whose nodes it covers. -/
theorem statement (law : FormLaw among ok failed uses) (env : Env) {e : Expr}
    (h : ∀ part ∈ e.occurrences, among part (hoistedType env part))
    (hkeys : e.LooksUp env.types uses) (needed : Bool) (s : Sink) :
    Obeys ok failed (Emit.statement env needed e) s := by
  induction e using Expr.childInduction generalizing needed s with
  | step e ih =>
    replace ih (child : Expr) (hchild : child ∈ e.children) := ih child hchild (fun part hpart =>
      h part (Expr.mem_occurrences_of_mem_children hchild hpart)) (hkeys.child hchild)
    have he : among e (hoistedType env e) := h e e.mem_occurrences_self
    have hown : uses e.id (.value e.id) := hkeys.value
    have hvalue (child : Expr) (hchild : child ∈ e.children) :
        ∀ s, Obeys ok failed (Emit.expression env child) s :=
      law.expression env (hkeys.child hchild)
    have hreceiver (receiver : Option Expr) (hchildren : receiver.toList ⊆ e.children) :
        ∀ act ∈ Emit.receiverText env receiver, ∀ s, Obeys ok failed act s :=
      receiverText fun r hr => hvalue r (hchildren (Option.mem_toList.mpr hr))
    have harguments (params : List HostType) (args : List Expr) (hchildren : args ⊆ e.children) :
        ∀ s, Obeys ok failed (Emit.arguments env params args) s :=
      law.arguments params fun arg harg => hvalue arg (hchildren harg)
    cases e with
    | literal node value => exact law.traced _ _ (law.pure ()) s
    | extension node kind children => exact law.throw _ s
    | block node exprs =>
      rcases exprs with _ | ⟨first, _ | ⟨second, rest⟩⟩
      · exact law.traced _ _ (law.pure ()) s
      · exact law.traced _ _ (ih first List.mem_cons_self needed) s
      · rw [statement_block]
        exact law.traced _ _ (law.bind (law.reserve he rfl _) fun _ => law.bind law.newLine fun _ =>
          law.inBraces rfl (law.blockBody hown _ (fun _ => hkeys.child) ih)) s
    | decl node name type writeable init =>
      rw [statement_decl]
      cases init with
      | none => exact law.traced _ _ (law.declarationText he nofun) s
      | some init =>
        exact law.traced _ _ (law.bind (ih init List.mem_cons_self _) fun _ =>
          law.declarationText he fun e he => hkeys.child (Option.mem_toList.mpr he)) s
    | call node feature receiver args =>
      rw [statement_call]
      refine law.traced _ _ (law.bind (law.statements _ ih) fun _ t => ?_) s
      split
      · rename_i hinvocation
        exact law.effectText he _ hinvocation (law.invocation _ _
          (hreceiver _ (List.subset_append_left _ _))
          (harguments _ _ (List.subset_append_right _ _))) t
      · exact law.pure () t
    | construct node type params throws args =>
      rw [statement_construct]
      exact law.traced _ _ (law.bind (law.statements _ ih) fun _ =>
        law.effectText he _ rfl (law.construction (harguments _ _ fun _ => id) _ _)) s
    | branch node cond yes no =>
      rw [statement_branch]
      exact law.traced _ _ (law.bind (ih cond List.mem_cons_self true) fun _ =>
        law.bind (law.reserve he rfl _) fun _ => law.branchText hown _ (fun _ => hkeys.child)
          fun e he => ih e (List.mem_cons_of_mem _ he)) s
    | ret node value =>
      cases value with
      | none => exact law.traced _ _ (law.bind law.newLine fun _ => law.append _) s
      | some value =>
        rw [Emit.statement]
        refine law.traced _ _ (fun t => ?_) s
        split
        · exact law.bind (ih value List.mem_cons_self false) (fun _ => law.bind law.newLine
            fun _ => law.append _) t
        · exact law.bind (ih value List.mem_cons_self true) (fun _ => law.bind law.newLine
            fun _ => law.bind (law.append _) fun _ => law.bind
              (law.converted (hvalue value List.mem_cons_self) env value _) fun _ =>
              law.append _) t
    | raise node value =>
      exact law.traced _ _ (law.bind (ih value List.mem_cons_self true) fun _ =>
        law.bind law.newLine fun _ => law.bind (law.append _) fun _ =>
          law.bind (hvalue value List.mem_cons_self) fun _ => law.append _) s
    | cast node type value => exact law.traced _ _ (ih value List.mem_cons_self true) s
    | assign node target receiver value =>
      rw [statement_assign]
      exact law.traced _ _ (law.bind (law.statements _ ih) fun _ =>
        law.effectText he _ rfl (law.assignment _
          (fun key hkey => hkeys.self key (List.mem_cons_of_mem _ hkey)) _
          (hreceiver _ (List.subset_append_left _ _))
          (hvalue value (List.mem_append_right _ List.mem_cons_self)))) s

end Lowering.Emit.FormLaw
