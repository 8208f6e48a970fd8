import Lowering.Proofs.Emission.Inlining
import Lowering.Proofs.Emission.Lasting

/-!
# Values in place

Whether a value can be written in place is decided by a look at all nodes of its tree, while both
forms walk down the tree and stop at names. Main statement: where the decision is that it can, the
expression form succeeds and only writes text, the statement form of a tree without names writes
nothing, and more names do not change the decision.
-/

namespace Lowering

namespace Expr

/-- The local that a node reads. -/
def localRead? : Expr → Option NodeId
  | .call _ feature _ _ =>
    match feature.kind with
    | .localVar declaration => some declaration
    | _ => none
  | _ => none

/-- The number of operands of an operator application. -/
def operandCount? : Expr → Option Nat
  | .call _ feature receiver args =>
    match feature.kind with
    | .operator _ => some (receiver.toList ++ args).length
    | _ => none
  | _ => none

end Expr

namespace Sink

/-- The nodes of a tree that are not inside a part with a name. -/
def unnamed (s : Sink) : Expr → List Expr :=
  Expr.fold fun e below => if s.isNamed e.id then [] else e :: below.flatten

/-- `s` with more written and more regions finished. -/
def adding (s : Sink) (entries : List Entry) (regions : List Region) : Sink :=
  { s with journal := entries ++ s.journal, finished := regions ++ s.finished }

variable {s t u : Sink} {e child : Expr}

theorem unnamed_eq (hname : s.isNamed e.id = false) :
    s.unnamed e = e :: e.children.flatMap s.unnamed := by
  rw [unnamed, Expr.fold_eq, hname, if_neg Bool.false_ne_true, List.flatMap_def]

theorem mem_unnamed_self (hname : s.isNamed e.id = false) : e ∈ s.unnamed e := by
  rw [unnamed_eq hname]
  exact List.mem_cons_self

theorem mem_unnamed_of_mem_children (hname : s.isNamed e.id = false) (hchild : child ∈ e.children)
    {part : Expr} (hpart : part ∈ s.unnamed child) : part ∈ s.unnamed e := by
  rw [unnamed_eq hname]
  exact List.mem_cons_of_mem _ (List.mem_flatMap.mpr ⟨child, hchild, hpart⟩)

/-- A part of a value in place is in place too. -/
theorem canInline_child (h : s.canInline e) (hname : s.isNamed e.id = false)
    (hchild : child ∈ e.children) : s.canInline child := by
  cases hnamed : s.isNamed child.id with
  | true => simp [canInline, hnamed]
  | false =>
    exact (canInline_iff hnamed).mpr fun part hpart => (canInline_iff hname).mp h part
      (Expr.mem_occurrences_of_mem_children hchild hpart)

theorem needsLocal_of_canInline (h : s.canInline e) (hname : s.isNamed e.id = false) :
    e.needsLocal = false := by
  simpa [hname] using (canInline_iff hname).mp h e e.mem_occurrences_self

/-! ## More names -/

/-- What can be written in place stays so while names are added. -/
theorem Extends.canInline (hst : s.Extends t) (h : s.canInline e) : t.canInline e := by
  have hnamed {i : NodeId} (hi : s.isNamed i) : t.isNamed i := hst.binds _ hi
  simp only [Sink.canInline, Bool.or_eq_true, Bool.and_eq_true, List.all_eq_true] at h ⊢
  rcases h with hname | ⟨hneeds, hbelow⟩
  · exact .inl (hnamed hname)
  · exact .inr ⟨hneeds, fun part hpart => (hbelow part hpart).imp_left hnamed⟩

theorem extends_foldl_bind (s : Sink) (names : List (NameKey × String)) :
    s.Extends (names.foldl (fun t b => t.bind b.1 b.2) s) := by
  induction names generalizing s with
  | nil => exact .refl s
  | cons b names ih => exact (extends_bind s b.1 b.2).trans (ih _)

/-! ## Layout -/

/-- Indentation and synthetic names go on in `t` as in `s`. -/
structure SameLayout (s t : Sink) : Prop where
  unit : t.unit = s.unit
  level : t.level = s.level
  nextSynthetic : t.nextSynthetic = s.nextSynthetic

theorem SameLayout.trans (h : s.SameLayout t) (h' : t.SameLayout u) : s.SameLayout u where
  unit := h'.unit.trans h.unit
  level := h'.level.trans h.level
  nextSynthetic := h'.nextSynthetic.trans h.nextSynthetic

theorem SameLayout.closeScope (s : Sink) : s.SameLayout s.closeScope := by
  unfold Sink.closeScope
  split <;> exact ⟨rfl, rfl, rfl⟩

end Sink

namespace Emit

open Sink (SameLayout)

variable {s : Sink} {env : Env} {e : Expr}

private theorem law_sameLayout : FormLaw (fun _ _ => True) SameLayout fun _ _ => True where
  refl _ := ⟨rfl, rfl, rfl⟩
  trans := .trans
  stop _ := trivial
  thenStop _ _ := trivial
  write _ _ _ := ⟨rfl, rfl, rfl⟩
  region _ _ h := ⟨h.unit, h.level, h.nextSynthetic⟩
  use _ _ := ⟨rfl, rfl, rfl⟩
  declare _ ht := by
    rcases ht.bound with rfl | rfl <;> exact ⟨rfl, rfl, rfl⟩
  braced _ h := by
    obtain ⟨hunit, hlevel, hnext⟩ := h.trans (.closeScope _)
    exact ⟨hunit, congrArg (· - 1) hlevel, hnext⟩
  bracedStop _ _ := trivial

/-! ## The expression form -/

/-- What is written in place binds nothing and does not fail. -/
theorem writes_inPlace (env : Env) (h : s.canInline e)
    (hlocals : ∀ part ∈ s.unnamed e, ∀ d ∈ part.localRead?, s.isNamed d)
    (hoperators : ∀ part ∈ s.unnamed e, ∀ n ∈ part.operandCount?, n = 1 ∨ n = 2) :
    Writes s False [] (fun _ => False) (expression env e) := by
  induction e using Expr.childInduction with
  | step e ih =>
    replace ih (hname : ¬ s.Binds (.value e.id)) (child : Expr) (hchild : child ∈ e.children) :
        Writes s False [] (fun _ => False) (expression env child) := by
      rw [← Sink.isNamed_eq_false] at hname
      exact ih child hchild (Sink.canInline_child h hname hchild)
        (fun part hpart => hlocals part (Sink.mem_unnamed_of_mem_children hname hchild hpart))
        fun part hpart => hoperators part (Sink.mem_unnamed_of_mem_children hname hchild hpart)
    have hplain (hname : ¬ s.Binds (.value e.id)) : e.needsLocal = false :=
      Sink.needsLocal_of_canInline h (Sink.isNamed_eq_false.mpr hname)
    have hself (hname : ¬ s.Binds (.value e.id)) : e ∈ s.unnamed e :=
      Sink.mem_unnamed_self (Sink.isNamed_eq_false.mpr hname)
    have hnever {act : Emit Unit} (hneeds : e.needsLocal) :
        Writes s False [] (fun _ => False) (nameOr e.node act) :=
      writes_nameOr e.node fun hname => absurd hneeds (by simp [hplain hname])
    cases e with
    | literal node value => exact writes_nameOr node fun _ => writes_append _
    | block node exprs =>
      rcases exprs with _ | ⟨only, _ | ⟨second, rest⟩⟩
      · exact hnever rfl
      · exact writes_nameOr node fun hname => ih hname only List.mem_cons_self
      · exact hnever rfl
    | cast node type value =>
      exact writes_nameOr node fun hname => (writes_append _).andThen
        ((ih hname value List.mem_cons_self).andThen (writes_append _))
    | call node feature receiver args =>
      cases hkind : feature.kind with
      | operator symbol =>
        refine writes_operator env s node feature symbol receiver args hkind ih
          fun hname hcount _ => ?_
        have hoperands := hoperators _ (hself hname) (receiver.toList ++ args).length
          (by simp [Expr.operandCount?, hkind])
        simp only [Expr.isRegular, hkind, decide_eq_false_iff_not] at hcount
        omega
      | localVar d =>
        rw [expression]
        refine writes_nameOr node fun hname => ?_
        simp only [hkind]
        exact writes_useLocal _ _ _ _ fun hd => hd
          (hlocals _ (hself hname) d (by simp [Expr.localRead?, hkind]))
      | parameter | this | super =>
        rw [expression]
        refine writes_nameOr node fun _ => ?_
        simp only [hkind]
        exact writes_useOr _ _ _
      | field =>
        rw [expression]
        refine writes_nameOr node fun hname => ?_
        simp only [hkind]
        exact writes_useField _ _ _ (writes_receiverText fun r hr =>
          ih hname r (List.mem_append_left _ (Option.mem_toList.mpr hr)))
      | method | staticMethod =>
        rw [expression]
        refine writes_nameOr node fun hname => ?_
        simpa [Expr.needsLocal, Feature.isInvocation, hkind] using hplain hname
    | decl | branch | ret | raise | extension => exact hnever rfl
    | construct node =>
      rw [expression]
      exact hnever rfl
    | assign node =>
      rw [expression]
      exact hnever rfl

/-! ## The statement form -/

private def Traces (s t : Sink) : Prop :=
  ∃ regions, t = s.adding [] regions

private theorem traces_refl (s : Sink) : Traces s s :=
  ⟨[], rfl⟩

private theorem Traces.trans {t u : Sink} (h : Traces s t) (h' : Traces t u) : Traces s u := by
  obtain ⟨regions, rfl⟩ := h
  obtain ⟨later, rfl⟩ := h'
  exact ⟨later ++ regions, by simp [Sink.adding]⟩

private theorem Does.traced {act : Emit Unit} (h : Does Traces act) (id : NodeId) (debug : Bool) :
    Does Traces (Emit.traced id debug act) :=
  .bind .trans (fun s => ⟨s, s, rfl, traces_refl s⟩) fun _ => .bind .trans h fun a =>
    .bind .trans (does_modify fun _ => ⟨[_], rfl⟩) fun _ => does_pure traces_refl a

private theorem does_statements {es : List Expr}
    (h : ∀ e ∈ es, ∀ needed, Does Traces (statement env needed e)) :
    Does Traces (statements env es) := by
  induction es with
  | nil => exact does_pure traces_refl ()
  | cons first rest ih =>
    exact .bind .trans (h first List.mem_cons_self true) fun _ =>
      ih fun e he => h e (List.mem_cons_of_mem _ he)

private theorem does_statement (h : e.Plain) (needed : Bool) :
    Does Traces (statement env needed e) := by
  induction e using Expr.childInduction generalizing needed with
  | step e ih =>
    replace ih (child : Expr) (hchild : child ∈ e.children) := ih child hchild (h.child hchild)
    cases e with
    | literal node value => exact (does_pure traces_refl ()).traced _ _
    | block node exprs =>
      rcases exprs with _ | ⟨only, _ | ⟨second, rest⟩⟩
      · exact (does_pure traces_refl ()).traced _ _
      · exact (ih only List.mem_cons_self needed).traced _ _
      · exact absurd h.self (by simp [Expr.needsLocal])
    | cast node type value => exact (ih value List.mem_cons_self true).traced _ _
    | call node feature receiver args =>
      have hpure : feature.isInvocation = false := h.self
      rw [statement_call]
      refine Does.traced (.bind .trans (does_statements ih) fun _ => ?_) _ _
      rw [hpure]
      exact does_pure traces_refl ()
    | decl | branch | ret | raise | extension | construct | assign =>
      exact absurd h.self (by simp [Expr.needsLocal])

/-! ## Both forms -/

/-- If a value can be written in place, and outside the parts with a name every local that is read
has one and every operator has one or two operands, then the expression form succeeds and only adds
to the text and the regions. If no part has a name, then the statement form succeeds and only adds
to the regions. And more names do not keep a value from being written in place. -/
theorem run_of_canInline (env : Env) (s : Sink) (e : Expr) (h : s.canInline e) :
    ((∀ part ∈ s.unnamed e, ∀ d ∈ part.localRead?, s.isNamed d) →
      (∀ part ∈ s.unnamed e, ∀ n ∈ part.operandCount?, n = 1 ∨ n = 2) →
      ∃ entries regions,
        (expression env e).run.run s = (.ok (), s.adding entries regions)) ∧
    ((∀ i ∈ e.ids, s.isNamed i = false) → ∀ needed, ∃ regions,
      (statement env needed e).run.run s = (.ok (), s.adding [] regions)) ∧
    ∀ names : List (NameKey × String),
      (names.foldl (fun t b => t.bind b.1 b.2) s).canInline e := by
  refine ⟨fun hlocals hoperators => ?_, fun hnames needed => ?_,
    fun names => (Sink.extends_foldl_bind s names).canInline h⟩
  · obtain ⟨_, t, hrun, hscopes, _⟩ := (writes_inPlace env h hlocals hoperators s rfl).exists_run_ok
    obtain ⟨entries, hjournal⟩ := ((appends_expression e s).of_run_ok hrun).journal
    obtain ⟨regions, hfinished⟩ := ((appends_expression e s).of_run_ok hrun).finished
    obtain ⟨hunit, hlevel, hnext⟩ :=
      (law_sameLayout.expression env (e.looksUp_any _) s).of_run_ok hrun
    obtain ⟨hscope, henclosing⟩ := List.cons.inj hscopes
    refine ⟨entries, regions, ?_⟩
    rw [hrun]
    cases t
    simp_all [Sink.adding]
  · have hplain : e.Plain :=
      Sink.plain_of_canInline (fun i hi => Sink.isNamed_eq_false.mp (hnames i hi)) h
    have hdoes : Does Traces (statement env needed e) := does_statement hplain needed
    obtain ⟨_, _, hrun, regions, rfl⟩ := hdoes s
    exact ⟨regions, hrun⟩

private def xMinus (right : Expr) : Expr :=
  .call ⟨2, {}⟩ (.ofOperator "operator_minus" "-" (.primitive .int))
    (some (.call ⟨0, {}⟩ (.ofLocal "x" 9) none [])) [right]

private def named : Sink :=
  (({} : Sink).bind (.value 9) "x").bind (.value 1) "_name"

/-- A call without a name cannot be written in place, but one with a name and a number can. -/
theorem run_of_canInline_difference :
    let env : Env := { hierarchy := .empty, types := {}, settings := {} }
    let getName (id : NodeId) : Expr :=
      .call ⟨id, {}⟩ { name := "getName", kind := .method } none []
    let number : Expr := .literal ⟨4, {}⟩ (.int 1)
    named.canInline (xMinus (getName 3)) = false ∧
      (named.canInline (xMinus (getName 1)) ∧ ∃ entries regions,
        (expression env (xMinus (getName 1))).run.run named =
          (.ok (), named.adding entries regions)) ∧
      (named.canInline (xMinus number) ∧ ∀ needed, ∃ regions,
        (statement env needed (xMinus number)).run.run named =
          (.ok (), named.adding [] regions)) ∧
      (named.bind (.value 4) "y").canInline (xMinus number) := by
  intro env getName number
  have hcall : named.canInline (xMinus (getName 1)) := by decide +kernel
  have hnumber : named.canInline (xMinus number) := by decide +kernel
  refine ⟨by decide +kernel, ⟨hcall, ?_⟩, ⟨hnumber, ?_⟩, ?_⟩
  · exact (run_of_canInline env named _ hcall).1 (by decide +kernel) (by decide +kernel)
  · exact (run_of_canInline env named _ hnumber).2.1 (by decide +kernel)
  · exact (run_of_canInline env named _ hnumber).2.2 [(.value 4, "y")]

end Emit

end Lowering
