import Lowering.Proofs.Emission.Nodes
import Lowering.Proofs.Tree.Scoping

/-!
# Visible locals

Lowering looks up the locals of a tree by name. Main statement: where the locals in scope have
names, the statement form of a scoped tree gives names to those that its expression form looks up,
and no look-up fails on the way.
-/

namespace Lowering

namespace Sink

/-- Every local of `scope` has a name. -/
def Visible (s : Sink) (scope : List NodeId) : Prop :=
  ∀ d ∈ scope, s.Binds (.value d)

/-- Every local that the expression form of `e` looks up has a name. -/
def Resolves (s : Sink) (e : Expr) : Prop :=
  ∀ d, e.ReadsLocal d → s.Binds (.value d)

theorem Visible.extends {s t : Sink} {scope : List NodeId} (h : s.Visible scope)
    (ht : s.Extends t) : t.Visible scope :=
  fun d hd => ht.binds _ (h d hd)

theorem Visible.append {s : Sink} {scope scope' : List NodeId} (h : s.Visible scope)
    (h' : s.Visible scope') : s.Visible (scope ++ scope') :=
  fun d hd => (List.mem_append.mp hd).elim (h d) (h' d)

theorem Resolves.extends {s t : Sink} {e : Expr} (h : s.Resolves e) (ht : s.Extends t) :
    t.Resolves e :=
  fun d hd => ht.binds _ (h d hd)

theorem resolves_of_parts {s : Sink} {e : Expr} (hown : ∀ d ∈ e.ownLocals, s.Binds (.value d))
    (hparts : ∀ part ∈ e.inlined, s.Resolves part) : s.Resolves e := by
  intro d hd
  cases hd with
  | read hkind => exact hown d (by simp [Expr.ownLocals, hkind])
  | assigned hkind => exact hown d (by simp [Expr.ownLocals, hkind])
  | part hpart hread => exact hparts _ hpart d hread

/-- What the statement form of `e` leaves behind for its expression form and for what follows. -/
structure Knows (s : Sink) (e : Expr) : Prop where
  resolves : s.Resolves e
  declared : s.Visible e.declared

theorem Knows.extends {s t : Sink} {e : Expr} (h : s.Knows e) (ht : s.Extends t) : t.Knows e :=
  ⟨h.resolves.extends ht, h.declared.extends ht⟩

theorem knows_of_parts {s : Sink} {e : Expr} (hdeclared : e.declared = [])
    (hown : ∀ d ∈ e.ownLocals, s.Binds (.value d)) (hparts : ∀ part ∈ e.inlined, s.Knows part) :
    s.Knows e where
  resolves := resolves_of_parts hown fun part hpart => (hparts part hpart).resolves
  declared := by simp [hdeclared, Visible]

theorem Visible.openScope {s t : Sink} {scope : List NodeId} (h : s.Visible scope)
    (ht : t.scopes = s.scopes) : t.openScope.Visible scope := fun d hd =>
  (t.binds_openScope _).mpr ((Sink.binds_congr ht _).mpr (h d hd))

end Sink

namespace Emit

variable {env : Env} {s : Sink}

theorem writes_of_resolves {e : Expr} (h : s.Resolves e) :
    Writes s False [] (·.isUnresolved = false) (expression env e) := by
  apply (expression_writes env s e).mono False.elim
  intro f hf
  by_contra hunresolved
  obtain ⟨d, hread, hd⟩ := hf.unresolved (by simpa using hunresolved)
  exact hd (h d hread)

/-- The statement form of `e` finds all locals in `scope`. -/
def Shows (env : Env) (scope : List NodeId) (e : Expr) : Prop :=
  ∀ s : Sink, s.Visible scope → ∀ needed,
    Adds s False e.effects (·.isUnresolved = false) (·.Knows e) (statement env needed e)

theorem Shows.prepares {scope : List NodeId} {e : Expr} {needed : Bool} (h : Shows env scope e)
    (hs : s.Visible scope) :
    Prepares s False (·.isUnresolved = false) env e needed (statement env needed e) :=
  (h s hs needed).imp fun _ _ hpost _ _ => writes_of_resolves hpost.resolves

/-- Siblings still to come see the locals of those before them. -/
def Following (env : Env) (rest : List Expr) (s : Sink) : Prop :=
  ∃ scope, s.Visible scope ∧ ∀ entry ∈ Expr.inSequence scope rest, Shows env entry.1 entry.2

theorem Following.step {e : Expr} {rest : List Expr} (h : Following env (e :: rest) s)
    (needed : Bool) :
    Prepares s False (·.isUnresolved = false) env e needed (statement env needed e) ∧
      Adds s False e.effects (·.isUnresolved = false) (fun t => t.Knows e ∧ Following env rest t)
        (statement env needed e) := by
  obtain ⟨scope, hs, hshows⟩ := h
  have he : Shows env scope e := hshows (scope, e) List.mem_cons_self
  refine ⟨he.prepares hs, (he s hs needed).imp fun t ht hpost => ⟨hpost, ?_⟩⟩
  exact ⟨e.declared ++ scope, hpost.declared.append (hs.extends ht), fun entry hentry =>
    hshows entry (List.mem_cons_of_mem _ hentry)⟩

private theorem adds_operands {scope : List NodeId} {es : List Expr} (hs : s.Visible scope)
    (h : ∀ entry ∈ Expr.inSequence scope es, Shows env entry.1 entry.2) :
    Adds s False (es.flatMap Expr.effects) (·.isUnresolved = false) (fun t => ∀ e ∈ es, t.Knows e)
      (statements env es) := by
  apply (adds_statements (Following env) (fun _ _ _ hu ht => ht.extends hu) es
    (fun _ _ _ _ ht => (ht.step true).2) ⟨scope, hs, h⟩).imp
  exact fun _ _ ht => ht.1

private theorem forall_knows_extends {es : List Expr} (t u : Sink) (hu : t.Extends u)
    (h : ∀ e ∈ es, t.Knows e) : ∀ e ∈ es, u.Knows e :=
  fun e he => (h e he).extends hu

private theorem knows_of_plain {t : Sink} (e : Expr) (hdeclared : e.declared = [])
    (hown : e.ownLocals = []) (hinlined : e.inlined = []) : t.Knows e :=
  Sink.knows_of_parts hdeclared (by simp [hown]) (by simp [hinlined])

private theorem knows_of_only {t : Sink} (e : Expr) {value : Expr} (hdeclared : e.declared = [])
    (hown : e.ownLocals = []) (hinlined : e.inlined = [value]) (h : t.Knows value) : t.Knows e := by
  apply Sink.knows_of_parts hdeclared
  · simp [hown]
  · simpa [hinlined] using h

private theorem knows_of_declaration {t : Sink} {node : Node} {name : String}
    {type : Option WrittenType} {writeable : Bool} {init : Option Expr}
    (h : t.Binds (.value node.id)) : t.Knows (.decl node name type writeable init) where
  resolves := Sink.resolves_of_parts (by simp [Expr.ownLocals]) (by simp [Expr.inlined])
  declared := by simpa [Expr.declared, Sink.Visible] using h

private theorem shows_call {scope : List NodeId} {node : Node} {feature : Feature}
    {receiver : Option Expr} {args : List Expr}
    (hrefers : (Expr.call node feature receiver args).refersWithin scope)
    (hparts : ∀ entry ∈ Expr.inSequence scope (receiver.toList ++ args),
      Shows env entry.1 entry.2) :
    Shows env scope (.call node feature receiver args) := by
  intro s hs needed
  apply (adds_call forall_knows_extends (adds_operands hs hparts) fun t _ hknows part hpart =>
    writes_of_resolves (hknows part hpart).resolves).imp
  intro t ht hpost
  obtain ⟨hknows, _⟩ := hpost
  apply Sink.knows_of_parts rfl
  · intro d hd
    have hkind : feature.kind = .localVar d := Expr.mem_ownLocals_call.mp hd
    rcases List.mem_append.mp (hrefers d hkind) with hin | hout
    · obtain ⟨part, hpart, hd⟩ := List.mem_flatMap.mp hin
      exact (hknows part hpart).declared d hd
    · exact hs.extends ht d hout
  · exact hknows

private theorem shows_assign {scope : List NodeId} {node : Node} {target : Feature}
    {receiver : Option Expr} {value : Expr}
    (hrefers : (Expr.assign node target receiver value).refersWithin scope)
    (hparts : ∀ entry ∈ Expr.inSequence scope (receiver.toList ++ [value]),
      Shows env entry.1 entry.2) :
    Shows env scope (.assign node target receiver value) := by
  intro s hs needed
  have hlocal (t : Sink) (ht : s.Extends t) (d : NodeId) (hkind : target.kind = .localVar d) :
      t.Binds (.value d) :=
    hs.extends ht d (hrefers d hkind)
  apply (adds_assign forall_knows_extends (adds_operands hs hparts)
    (fun t _ hknows part hpart => writes_of_resolves (hknows part hpart).resolves)
    (fun t ht d hkind hnot => absurd (hlocal t ht d hkind) hnot) fun _ => rfl).imp
  intro t ht hknows
  apply Sink.knows_of_parts rfl
  · exact fun d hd => hlocal t ht d (Expr.mem_ownLocals_assign.mp hd)
  · exact hknows

/-- A scoped tree finds all its locals. -/
theorem statement_shows (env : Env) (e : Expr) :
    ∀ scope, Expr.Scoped scope e → Shows env scope e := by
  induction e using Expr.childInduction with
  | step e ih =>
    intro scope hscoped
    have hchild (entry : List NodeId × Expr) (h : entry ∈ e.inScopes scope) :
        Shows env entry.1 entry.2 :=
      ih entry.2 (Expr.snd_mem_children_of_mem_inScopes h) entry.1 (hscoped.children entry h)
    cases e with
    | literal node value =>
      exact fun s _ needed => (adds_literal value).imp fun _ _ _ => knows_of_plain _ rfl rfl rfl
    | block node exprs =>
      intro s hs needed
      rcases exprs with _ | ⟨first, _ | ⟨second, rest⟩⟩
      · exact adds_emptyBlock.imp fun _ _ _ => knows_of_plain _ rfl rfl rfl
      · have hfirst : Shows env scope first := hchild (scope, first) List.mem_cons_self
        apply (adds_singleton (fun _ _ hu h => h.extends hu) (hfirst s hs needed)).imp
        exact fun _ _ => knows_of_only _ rfl rfl rfl
      · apply (adds_block (Following env)
          (fun _ _ _ _ hu needed => ⟨(hu.step needed).1, (hu.step needed).2.imp fun _ _ h => h.2⟩)
          fun t ht => ⟨scope, (hs.extends ht).openScope rfl, hchild⟩).imp
        exact fun _ _ _ => knows_of_plain _ rfl rfl rfl
    | decl node name type writeable init =>
      intro s hs needed
      cases init with
      | none => exact adds_bareDeclaration.imp fun _ _ => knows_of_declaration
      | some init =>
        have hinit : Shows env scope init := hchild (scope, init) List.mem_cons_self
        apply (adds_declaration (hinit s hs _) fun t u _ hknows hu =>
          writes_of_resolves (hknows.resolves.extends hu)).imp
        exact fun _ _ => knows_of_declaration
    | branch node cond yes no =>
      intro s hs needed
      have hcond : Shows env scope cond := hchild (scope, cond) List.mem_cons_self
      have hbranches (t : Sink) (ht : s.Extends t) (hknows : t.Knows cond) (e : Expr)
          (he : e ∈ yes :: no.toList) (needed : Bool) :
          Prepares t.openScope False (·.isUnresolved = false) env e needed
            (statement env needed e) := by
        have hshows : Shows env (cond.declared ++ scope) e :=
          hchild (cond.declared ++ scope, e) (List.mem_cons_of_mem _ (List.mem_map_of_mem he))
        have hvisible : t.Visible (cond.declared ++ scope) :=
          hknows.declared.append (hs.extends ht)
        exact hshows.prepares (hvisible.openScope rfl)
      apply (adds_branch (fun _ _ hu h => h.extends hu) (hcond s hs true)
        (fun t _ hknows => writes_of_resolves hknows.resolves) hbranches).imp
      exact fun _ _ _ => knows_of_plain _ rfl rfl rfl
    | ret node value =>
      intro s hs needed
      cases value with
      | none => exact adds_bareReturn.imp fun _ _ _ => knows_of_plain _ rfl rfl rfl
      | some value =>
        have hvalue : Shows env scope value := hchild (scope, value) List.mem_cons_self
        apply (adds_return fun needed => hvalue.prepares hs).imp
        exact fun _ _ _ => knows_of_plain _ rfl rfl rfl
    | raise node value =>
      intro s hs needed
      have hvalue : Shows env scope value := hchild (scope, value) List.mem_cons_self
      apply (adds_raise ((hvalue s hs true).imp fun _ _ h => writes_of_resolves h.resolves)).imp
      exact fun _ _ _ => knows_of_plain _ rfl rfl rfl
    | extension node kind children =>
      exact fun _ _ _ => (rfl : Failure.isUnresolved (.unsupported kind node.span) = false)
    | cast node type value =>
      intro s hs needed
      have hvalue : Shows env scope value := hchild (scope, value) List.mem_cons_self
      apply (adds_cast (fun _ _ hu h => h.extends hu) (hvalue s hs true)).imp
      exact fun _ _ => knows_of_only _ rfl rfl rfl
    | construct node type params throws args =>
      intro s hs needed
      apply (adds_construct forall_knows_extends (adds_operands hs hchild)
        fun t _ hknows part hpart => writes_of_resolves (hknows part hpart).resolves).imp
      intro t _ hpost
      obtain ⟨hknows, _⟩ := hpost
      exact Sink.knows_of_parts rfl (by simp [Expr.ownLocals]) hknows
    | assign node target receiver value => exact shows_assign hscoped.refers hchild
    | call node feature receiver args => exact shows_call hscoped.refers hchild

end Emit

end Lowering
