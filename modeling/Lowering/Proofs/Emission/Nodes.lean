import Lowering.Proofs.Emission.Statements

/-!
# The statement form of each kind of node

What the statement form of a node does, from what those of its children do. Main statements: one
for each kind of node; `Ready` stands for what the children leave behind, such as values that can be
written in place, and survives as more names are bound.
-/

namespace Lowering.Emit

variable {env : Env} {s : Sink} {quiet : Prop} {failed : Failure → Prop} {Ready : Sink → Prop}
  {node : Node} {needed : Bool}

private theorem adds_node {act : Emit Unit} (e : Expr) (added : List NodeId)
    (hadded : added = e.children.flatMap Expr.effects ++ if e.isEffect then [e.id] else [])
    (hready : ∀ t u, t.Extends u → Ready t → Ready u) (h : Adds s quiet added failed Ready act) :
    Adds s quiet e.effects failed Ready (traced e.id true act) := by
  have htraced : Adds s quiet added failed Ready (traced e.id true act) := h.traced e.id true hready
  exact htraced.effects_eq fun _ => hadded.trans e.effects_eq.symm

private theorem adds_text {act : Emit Unit} (e : Expr)
    (hadded : [] = e.children.flatMap Expr.effects ++ if e.isEffect then [e.id] else [])
    (h : Writes s quiet [] failed act) :
    Adds s quiet e.effects failed (fun _ => True) (traced e.id true act) :=
  adds_node e [] hadded (fun _ _ _ _ => trivial) (h.adds.imp fun _ _ _ => trivial)

/-! ## Nodes without operands -/

theorem adds_literal (value : Literal) :
    Adds s quiet (Expr.literal node value).effects failed (fun _ => True)
      (statement env needed (.literal node value)) :=
  adds_text (.literal node value) rfl writes_pure

theorem adds_emptyBlock :
    Adds s quiet (Expr.block node []).effects failed (fun _ => True)
      (statement env needed (.block node [])) :=
  adds_text (.block node []) rfl writes_pure

theorem adds_bareReturn :
    Adds s quiet (Expr.ret node none).effects failed (fun _ => True)
      (statement env needed (.ret node none)) :=
  adds_text (.ret node none) rfl (writes_newLine.andThen (writes_append _))

/-! ## Nodes that write one value -/

section

variable {value : Expr}

theorem adds_return
    (hvalue : ∀ needed, Adds s quiet value.effects failed
      (fun t => needed = true → env.isVoid value = false →
        Writes t quiet [] failed (expression env value)) (statement env needed value)) :
    Adds s quiet (Expr.ret node (some value)).effects failed (fun _ => True)
      (statement env needed (.ret node (some value))) := by
  rw [statement]
  apply adds_node (.ret node (some value)) (value.effects ++ [])
  · simp [Expr.children, Expr.isEffect]
  · exact fun _ _ _ _ => trivial
  · split
    · apply (hvalue false).andThen
      intro t _ _
      exact (writes_newLine.andThen (writes_append _)).adds.imp fun _ _ _ => trivial
    · rename_i hvalued
      have hvoid : env.isVoid value = false := by simpa using hvalued
      apply (hvalue true).andThen
      intro t _ hwrites
      have htext : Writes t quiet [] failed
          (converted env value (env.types.expected? value.id) (expression env value)) :=
        (hwrites rfl hvoid).converted _ _
      exact (writes_newLine.andThen ((writes_append _).andThen (htext.andThen
        (writes_append _)))).adds.imp fun _ _ _ => trivial

theorem adds_raise
    (hvalue : Adds s quiet value.effects failed
      (fun t => Writes t quiet [] failed (expression env value)) (statement env true value)) :
    Adds s quiet (Expr.raise node value).effects failed (fun _ => True)
      (statement env needed (.raise node value)) := by
  apply adds_node (.raise node value) (value.effects ++ [])
  · simp [Expr.children, Expr.isEffect]
  · exact fun _ _ _ _ => trivial
  · apply hvalue.andThen
    intro t _ hwrites
    exact (writes_newLine.andThen ((writes_append _).andThen (hwrites.andThen
      (writes_append _)))).adds.imp fun _ _ _ => trivial

theorem adds_cast {type : WrittenType} (hready : ∀ t u, t.Extends u → Ready t → Ready u)
    (hvalue : Adds s quiet value.effects failed Ready (statement env true value)) :
    Adds s quiet (Expr.cast node type value).effects failed Ready
      (statement env needed (.cast node type value)) :=
  adds_node (.cast node type value) value.effects (by simp [Expr.children, Expr.isEffect]) hready
    hvalue

theorem adds_singleton (hready : ∀ t u, t.Extends u → Ready t → Ready u)
    (hvalue : Adds s quiet value.effects failed Ready (statement env needed value)) :
    Adds s quiet (Expr.block node [value]).effects failed Ready
      (statement env needed (.block node [value])) :=
  adds_node (.block node [value]) value.effects (by simp [Expr.children, Expr.isEffect]) hready
    hvalue

end

/-! ## Nodes that declare a local -/

section

variable {name : String} {type : Option WrittenType} {writeable : Bool}

theorem adds_bareDeclaration :
    Adds s quiet (Expr.decl node name type writeable none).effects failed
      (·.Binds (.value node.id)) (statement env needed (.decl node name type writeable none)) := by
  rw [statement_decl]
  exact adds_node (.decl node name type writeable none) [] rfl (fun _ _ ht => ht.binds _)
    (adds_declarationText node name writeable _ none (by simp))

theorem adds_declaration {init : Expr}
    (hinit : Adds s quiet init.effects failed Ready (statement env (!env.isVoid init) init))
    (htext : ∀ t u, s.Extends t → Ready t → t.Extends u →
      Writes u quiet [] failed (expression env init)) :
    Adds s quiet (Expr.decl node name type writeable (some init)).effects failed
      (·.Binds (.value node.id))
      (statement env needed (.decl node name type writeable (some init))) := by
  rw [statement_decl]
  apply adds_node (.decl node name type writeable (some init)) (init.effects ++ [])
  · simp [Expr.children, Expr.isEffect]
  · exact fun _ _ ht => ht.binds _
  · apply hinit.andThen
    intro t ht hready
    apply adds_declarationText node name writeable _ (some init)
    intro e he u hu
    obtain rfl := Option.mem_some_iff.mp he
    exact htext t u ht hready hu

end

/-! ## Nodes with several operands -/

section

variable {receiver : Option Expr} {args : List Expr}

theorem adds_call {feature : Feature} (hready : ∀ t u, t.Extends u → Ready t → Ready u)
    (hoperands : Adds s quiet ((receiver.toList ++ args).flatMap Expr.effects) failed Ready
      (statements env (receiver.toList ++ args)))
    (htext : ∀ t, s.Extends t → Ready t → ∀ part ∈ receiver.toList ++ args,
      Writes t quiet [] failed (expression env part)) :
    Adds s quiet (Expr.call node feature receiver args).effects failed
      (fun t => Ready t ∧ (feature.isInvocation → needed = true →
        env.isVoid (.call node feature receiver args) = false → t.Binds (.value node.id)))
      (statement env needed (.call node feature receiver args)) := by
  rw [statement_call]
  apply adds_node (.call node feature receiver args)
    ((receiver.toList ++ args).flatMap Expr.effects ++
      if feature.isInvocation then [node.id] else []) rfl
  · exact fun t u ht h => ⟨hready t u ht h.1, fun hi hn hv => ht.binds _ (h.2 hi hn hv)⟩
  · apply hoperands.andThen
    intro t ht hpost
    cases hinvokes : feature.isInvocation with
    | false =>
      apply writes_pure.adds.imp
      intro u hu _
      exact ⟨hready t u hu hpost, fun h => by cases h⟩
    | true =>
      have hinvocation (u : Sink) (hu : t.Extends u) : Writes u quiet [node.id] failed
          (invocation node.id feature (receiverText env receiver)
            (arguments env feature.paramTypes args)) := by
        have hpart := htext u (ht.trans hu) (hready t u hu hpost)
        apply writes_invocation node.id feature
        · apply writes_receiverText
          exact fun r hr => hpart r (List.mem_append_left _ (Option.mem_toList.mpr hr))
        · apply writes_arguments
          exact fun arg harg => hpart arg (List.mem_append_right _ harg)
      apply (adds_effectText _ _ _ hinvocation).imp
      intro u hu hbinds
      exact ⟨hready t u hu hpost, fun _ hneeded hvoid => hbinds (by simp [hneeded, hvoid])⟩

theorem adds_construct {type : WrittenType} {params throws : List WrittenType}
    (hready : ∀ t u, t.Extends u → Ready t → Ready u)
    (hoperands : Adds s quiet (args.flatMap Expr.effects) failed Ready (statements env args))
    (htext : ∀ t, s.Extends t → Ready t → ∀ part ∈ args,
      Writes t quiet [] failed (expression env part)) :
    Adds s quiet (Expr.construct node type params throws args).effects failed
      (fun t => Ready t ∧ (needed = true → t.Binds (.value node.id)))
      (statement env needed (.construct node type params throws args)) := by
  rw [statement_construct]
  apply adds_node (.construct node type params throws args) (args.flatMap Expr.effects ++ [node.id])
    rfl
  · exact fun t u ht h => ⟨hready t u ht h.1, fun hn => ht.binds _ (h.2 hn)⟩
  · apply hoperands.andThen
    intro t ht hpost
    apply (adds_effectText _ _ _ fun u hu => writes_construction _ _ (writes_arguments _ _
      (htext u (ht.trans hu) (hready t u hu hpost)))).imp
    intro u hu hbinds
    exact ⟨hready t u hu hpost, hbinds⟩

theorem adds_assign {target : Feature} {value : Expr}
    (hready : ∀ t u, t.Extends u → Ready t → Ready u)
    (hoperands : Adds s quiet ((receiver.toList ++ [value]).flatMap Expr.effects) failed Ready
      (statements env (receiver.toList ++ [value])))
    (htext : ∀ t, s.Extends t → Ready t → ∀ part ∈ receiver.toList ++ [value],
      Writes t quiet [] failed (expression env part))
    (hlocal : ∀ t, s.Extends t → ∀ d, target.kind = .localVar d → ¬ t.Binds (.value d) →
      failed (.unresolved .localVariable target.name value.span))
    (hkind : target.isAssignable = false →
      failed (.misuse (.notAssignable target.name) value.span)) :
    Adds s quiet (Expr.assign node target receiver value).effects failed Ready
      (statement env needed (.assign node target receiver value)) := by
  rw [statement_assign]
  apply adds_node (.assign node target receiver value)
    ((receiver.toList ++ [value]).flatMap Expr.effects ++ [node.id]) rfl hready
  apply hoperands.andThen
  intro t ht hpost
  have hassignment (u : Sink) (hu : t.Extends u) : Writes u quiet [node.id] failed
      (assignment env node.id target (receiverText env receiver) value (expression env value)) := by
    have hpart := htext u (ht.trans hu) (hready t u hu hpost)
    apply writes_assignment node.id target _ value (hlocal u (ht.trans hu)) hkind
    · apply writes_receiverText
      exact fun r hr => hpart r (List.mem_append_left _ (Option.mem_toList.mpr hr))
    · exact hpart value (List.mem_append_right _ List.mem_cons_self)
  apply (adds_effectText false _ _ hassignment).imp
  exact fun u hu _ => hready t u hu hpost

end

/-! ## Nodes with statements of their own -/

theorem adds_block {first second : Expr} {rest : List Expr} (Inv : List Expr → Sink → Prop)
    (hstep : ∀ e ∈ first :: second :: rest, ∀ rest t, Inv (e :: rest) t → ∀ needed,
      Prepares t quiet failed env e needed (statement env needed e) ∧
      Adds t quiet e.effects failed (Inv rest) (statement env needed e))
    (hinv : ∀ t : Sink, s.Extends t → Inv (first :: second :: rest) t.openScope) :
    Adds s quiet (Expr.block node (first :: second :: rest)).effects failed
      (fun t => needed = true → env.isVoid (.block node (first :: second :: rest)) = false →
        t.Binds (.value node.id))
      (statement env needed (.block node (first :: second :: rest))) := by
  rw [statement_block]
  apply adds_node (.block node (first :: second :: rest))
    ([] ++ (first :: second :: rest).flatMap Expr.effects)
  · simp [Expr.children, Expr.isEffect]
  · exact fun t u ht h hneeded hvoid => ht.binds _ (h hneeded hvoid)
  · apply (adds_reserve _ _).andThen
    intro t ht hbinds
    apply (adds_bracedBody Inv _ _ _ hstep (fun hwanted hnot => absurd (hbinds hwanted) hnot)
      fun u hu => hinv u (ht.trans (.of_scopes hu))).imp
    intro u hu _ hneeded hvoid
    exact hu.binds _ (hbinds (by simp [hneeded, hvoid]))

theorem adds_branch {cond yes : Expr} {no : Option Expr}
    (hready : ∀ t u, t.Extends u → Ready t → Ready u)
    (hcond : Adds s quiet cond.effects failed Ready (statement env true cond))
    (htext : ∀ t, s.Extends t → Ready t → Writes t quiet [] failed (expression env cond))
    (hbranches : ∀ t, s.Extends t → Ready t → ∀ e ∈ yes :: no.toList, ∀ needed,
      Prepares t.openScope quiet failed env e needed (statement env needed e)) :
    Adds s quiet (Expr.branch node cond yes no).effects failed
      (fun t => needed = true → env.isVoid (.branch node cond yes no) = false →
        t.Binds (.value node.id))
      (statement env needed (.branch node cond yes no)) := by
  rw [statement_branch]
  apply adds_node (.branch node cond yes no)
    (cond.effects ++ ([] ++ (yes :: no.toList).flatMap Expr.effects))
  · simp [Expr.children, Expr.isEffect]
  · exact fun t u ht h hneeded hvoid => ht.binds _ (h hneeded hvoid)
  · apply hcond.andThen
    intro t ht hpost
    apply (adds_reserve _ _).andThen
    intro u hu hbinds
    have hpost' (v : Sink) (hv : v.scopes = u.scopes) : s.Extends v ∧ Ready v := by
      have hextends : t.Extends v := hu.trans (.of_scopes hv)
      exact ⟨ht.trans hextends, hready t v hextends hpost⟩
    apply (adds_branchText _ cond yes no _ (htext u (hpost' u rfl).1 (hpost' u rfl).2)
      (fun e he v hv => hbranches v (hpost' v hv).1 (hpost' v hv).2 e he)
      fun hwanted hnot => absurd (hbinds hwanted) hnot).imp
    intro v hv _ hneeded hvoid
    exact hv.binds _ (hbinds (by simp [hneeded, hvoid]))

end Lowering.Emit
