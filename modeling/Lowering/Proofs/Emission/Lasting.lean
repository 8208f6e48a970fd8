import Lowering.Proofs.Emission.SinkLaws

/-!
# What emission leaves behind

Emission adds to the journal and to the regions and takes nothing away, and it closes the scopes
that it opens. Main statements: this is a law of whole lowerings; and what the statement form of any
node of a tree leaves behind for good is left behind by the statement form of the tree.
-/

namespace Lowering

namespace Sink

/-- The journal and the regions of `s` are still there in `t`. -/
structure Retains (s t : Sink) : Prop where
  journal : s.journal <:+ t.journal
  finished : s.finished <:+ t.finished

/-- What is more, the scopes around the innermost one are those of `s`. -/
structure Continues (s t : Sink) : Prop extends s.Retains t where
  enclosing : t.enclosing = s.enclosing

namespace Retains

variable {s t u : Sink}

theorem refl (s : Sink) : s.Retains s :=
  ⟨List.suffix_rfl, List.suffix_rfl⟩

theorem trans (h : s.Retains t) (h' : t.Retains u) : s.Retains u :=
  ⟨h.journal.trans h'.journal, h.finished.trans h'.finished⟩

/-- One more entry. -/
theorem snoc {e : Entry} (h : s.Retains t) (hjournal : u.journal = e :: t.journal)
    (hfinished : u.finished = t.finished) : s.Retains u :=
  h.trans ⟨hjournal ▸ List.suffix_cons _ _, hfinished ▸ List.suffix_rfl⟩

theorem closeScope (s : Sink) : s.Retains s.closeScope := by
  cases henclosing : s.enclosing with
  | nil => simpa [Sink.closeScope, henclosing] using refl s
  | cons scope enclosing =>
    exact (refl s).snoc (e := .leaveScope) (by simp [Sink.closeScope, henclosing, write])
      (by simp [Sink.closeScope, henclosing, write])

theorem closeBraced (s : Sink) (brace : Brace) : s.Retains (s.closeBraced brace) :=
  ((closeScope s).snoc (u := s.closeScope.dedent.newLine) rfl rfl).snoc rfl rfl

/-- The text of `s` comes first in `t`. -/
theorem text (h : s.Retains t) : ∃ added, t.text = s.text ++ added := by
  obtain ⟨added, hadded⟩ := h.journal
  exact ⟨writtenBy added, text_of_journal hadded.symm⟩

theorem size_le (h : s.Retains t) : s.size ≤ t.size := by
  obtain ⟨added, htext⟩ := h.text
  rw [size_eq, size_eq, htext, String.utf8ByteSize_append]
  exact Nat.le_add_right _ _

theorem regions (h : s.Retains t) : s.regions <+: t.regions :=
  List.reverse_prefix.mpr h.finished

end Retains

namespace Continues

variable {s t u : Sink}

theorem refl (s : Sink) : s.Continues s :=
  ⟨.refl s, rfl⟩

theorem trans (h : s.Continues t) (h' : t.Continues u) : s.Continues u :=
  ⟨h.toRetains.trans h'.toRetains, h'.enclosing.trans h.enclosing⟩

/-- What was opened is closed, so that all scopes are as before. -/
theorem scopes_closeScope (h : s.openScope.Continues t) : t.closeScope.scopes = s.scopes := by
  have hscopes : t.enclosing = s.scopes := h.enclosing
  rw [scopes_closeScope_of_ne_nil (by simp [hscopes, scopes]), hscopes]

theorem closeScope (h : s.openScope.Continues t) : s.Continues t.closeScope where
  toRetains := (((Retains.refl s).snoc (u := s.openScope) rfl rfl).trans h.toRetains).trans
    (.closeScope t)
  enclosing := congrArg List.tail h.scopes_closeScope

theorem opening {brace : Brace} (h : (s.write (.opening brace)).indent.Continues t) :
    s.Continues t where
  toRetains :=
    ((Retains.refl s).snoc (u := (s.write (.opening brace)).indent) rfl rfl).trans h.toRetains
  enclosing := h.enclosing

theorem closing {brace : Brace} (h : s.Continues t) :
    s.Continues (t.dedent.newLine.write (.closing brace)) where
  toRetains := (h.toRetains.snoc (u := t.dedent.newLine) rfl rfl).snoc rfl rfl
  enclosing := h.enclosing

end Continues

end Sink

namespace Emit

theorem law_continues : SinkLaw Sink.Continues Sink.Continues where
  refl := .refl
  trans := .trans
  stop := .refl
  thenStop := .trans
  write s _ _ _ := ⟨(Sink.Retains.refl s).snoc rfl rfl, rfl⟩
  bind s _ _ _ := ⟨(Sink.Retains.refl s).snoc rfl rfl, rfl⟩
  bindFreshKey s _ := ⟨(Sink.Retains.refl s).snoc rfl rfl, rfl⟩
  setObject _ _ _ := ⟨⟨List.suffix_rfl, List.suffix_rfl⟩, rfl⟩
  region _ _ h := ⟨⟨h.journal, h.finished.trans (List.suffix_cons _ _)⟩, h.enclosing⟩
  scope := .closeScope
  scopeStop := .closeScope
  enclose h := (Sink.Continues.opening h).closing
  encloseStop := .opening

/-- The forms of every tree add to a sink. -/
theorem law_any : Law (fun _ _ => True) Sink.Continues Sink.Continues :=
  law_continues.toLaw

end Emit

/-! ## What is left behind for good -/

/-- `P` stays true of a sink to which something is added. -/
def Sink.Lasting (P : Sink → Prop) : Prop :=
  ∀ s t : Sink, s.Retains t → P s → P t

namespace Emit

variable {α β : Type} {env : Env} {P : Sink → Prop}

/-- Whether or not `act` succeeds, what is there stays there. -/
abbrev Appends (act : Emit α) : Prop :=
  ∀ s, Obeys Sink.Continues Sink.Continues act s

theorem appends_expression (e : Expr) : Appends (expression env e) :=
  law_any.expression env (e.looksUp_any _)

theorem appends_statement (needed : Bool) (e : Expr) : Appends (statement env needed e) :=
  law_any.statement env (fun _ _ => trivial) (e.looksUp_any _) needed

private theorem appends_statements (es : List Expr) : Appends (statements env es) :=
  law_any.statements es fun e _ needed => appends_statement needed e

theorem obeys_trivial (act : Emit α) (s : Sink) :
    Obeys (fun _ _ => True) (fun _ _ => True) act s := by
  unfold Obeys
  split <;> trivial

/-- Where `act` succeeds, `P` holds. -/
def Leaves (P : Sink → Prop) (act : Emit α) : Prop :=
  ∀ s, Obeys (fun _ t => P t) (fun _ _ => True) act s

namespace Leaves

variable {act : Emit α} {next : α → Emit β}

theorem andThen (h : Leaves P act) (hP : Sink.Lasting P) (hnext : ∀ a, Appends (next a)) :
    Leaves P (act >>= next) := fun s =>
  (h s).bind (fun a t _ => hnext a t) (fun _ _ ht hcontinues => hP _ _ hcontinues.toRetains ht)
    (fun _ _ => trivial) fun _ _ _ _ => trivial

theorem before (h : ∀ a, Leaves P (next a)) : Leaves P (act >>= next) := fun s =>
  (obeys_trivial act s).bind (fun a t _ => h a t) (fun _ _ _ h => h) (fun _ _ => trivial)
    fun _ _ _ _ => trivial

theorem traced (h : Leaves P act) (id : NodeId) (debug : Bool) (hP : Sink.Lasting P) :
    Leaves P (Emit.traced id debug act) := fun s =>
  (h s).traced fun _ => hP _ _ ⟨List.suffix_rfl, List.suffix_cons _ _⟩

theorem inBraces {act : Emit Unit} (h : Leaves P act) (hP : Sink.Lasting P) (brace : Brace) :
    Leaves P (do openBrace brace; inScope act; closeBrace brace) := fun s => by
  have hact := h (s.openBraced brace)
  unfold Obeys at hact ⊢
  rw [run_inBraces]
  cases hrun : act.run.run (s.openBraced brace) with
  | mk result t =>
    rw [hrun] at hact
    cases result with
    | error f => trivial
    | ok a => exact hP _ _ (.closeBraced t brace) hact

theorem enclosing (h : Leaves P act) (hP : Sink.Lasting P) (brace : Brace) :
    Leaves P (Emit.enclosing brace act) :=
  .before fun _ => h.andThen hP fun _ t => (Sink.Continues.refl t).closing

end Leaves

/-! ## Forms -/

section

variable (hP : Sink.Lasting P)
include hP

private theorem leaves_statements {es : List Expr} {child : Expr} (hchild : child ∈ es)
    (h : ∀ needed, Leaves P (statement env needed child)) : Leaves P (statements env es) := by
  induction es with
  | nil => cases hchild
  | cons first rest ih =>
    rcases List.mem_cons.mp hchild with rfl | hchild
    · exact (h true).andThen hP fun _ => appends_statements rest
    · exact .before fun _ => ih hchild

private theorem leaves_finishWith {owner e : Expr} (wanted : Bool)
    (h : ∀ needed, Leaves P (statement env needed e)) :
    Leaves P (finishWith env owner e wanted (fun needed => statement env needed e)
      (expression env e)) := by
  refine (h _).andThen hP fun _ s => ?_
  split
  · exact law_any.assignResult trivial (e.looksUp_any _) s
  · exact law_any.pure () s

private theorem leaves_blockBody {block child : Expr} {exprs : List Expr} (wanted : Bool)
    (hchild : child ∈ exprs) (h : ∀ needed, Leaves P (statement env needed child)) :
    Leaves P (blockBody env block wanted exprs) := by
  induction exprs with
  | nil => cases hchild
  | cons first rest ih =>
    cases rest with
    | nil =>
      obtain rfl := List.mem_singleton.mp hchild
      exact leaves_finishWith hP wanted h
    | cons second rest =>
      rcases List.mem_cons.mp hchild with rfl | hchild
      · exact (h false).andThen hP fun _ => law_any.blockBody trivial wanted
          (fun e _ => e.looksUp_any _) fun e _ needed => appends_statement needed e
      · exact .before fun _ => ih hchild

private theorem leaves_branchText {owner cond yes child : Expr} {no : Option Expr} (wanted : Bool)
    (hchild : child ∈ yes :: no.toList) (h : ∀ needed, Leaves P (statement env needed child)) :
    Leaves P (branchText env owner cond yes no wanted) := by
  have hbranch : Leaves P (bracedBranch env owner child wanted) :=
    (leaves_finishWith hP wanted h).inBraces hP .branch
  have hother (e : Expr) : Appends (bracedBranch env owner e wanted) :=
    law_any.inBraces rfl (law_any.finishWith trivial (e.looksUp_any _) wanted fun needed =>
      appends_statement needed e)
  refine .before fun _ => ?_
  rcases List.mem_cons.mp hchild with rfl | hchild
  · refine hbranch.andThen hP fun _ => ?_
    cases no with
    | none => exact law_any.pure ()
    | some no => exact law_any.bind (law_any.append _) fun _ => hother no
  · obtain rfl := Option.mem_toList.mp hchild
    exact .before fun _ => .before fun _ => hbranch

/-- What the statement form of a node of a tree leaves behind, that of the tree does. -/
theorem leaves_statement {e part : Expr} (hpart : part ∈ e.occurrences)
    (h : ∀ needed, Leaves P (statement env needed part)) (needed : Bool) :
    Leaves P (statement env needed e) := by
  induction e using Expr.childInduction generalizing needed with
  | step e ih =>
    rw [Expr.occurrences_eq] at hpart
    rcases List.mem_cons.mp hpart with rfl | hpart
    · exact h needed
    obtain ⟨child, hchild, hpart⟩ := List.mem_flatMap.mp hpart
    replace ih := ih child hchild hpart
    cases e with
    | literal => cases hchild
    | extension => exact fun _ => trivial
    | block node exprs =>
      rcases exprs with _ | ⟨first, _ | ⟨second, rest⟩⟩
      · cases hchild
      · obtain rfl := List.mem_singleton.mp hchild
        exact (ih needed).traced _ _ hP
      · rw [statement_block]
        exact .traced (.before fun _ => .before fun _ =>
          (leaves_blockBody hP _ hchild ih).inBraces hP .block) _ _ hP
    | decl node name type writeable init =>
      obtain rfl := Option.mem_toList.mp hchild
      rw [statement_decl]
      exact .traced ((ih _).andThen hP fun _ =>
        @FormLaw.declarationText _ _ _ _ _ _ _ type _ _ _ trivial (fun e _ => e.looksUp_any _)
          law_any.toFormLaw) _ _ hP
    | call node feature receiver args =>
      rw [statement_call]
      refine .traced ((leaves_statements hP hchild ih).andThen hP fun _ s => ?_) _ _ hP
      split
      · exact law_any.effectText trivial _ ‹_› (law_any.invocation _ _ (FormLaw.receiverText
          fun e _ => appends_expression e) (law_any.arguments _ fun e _ =>
            appends_expression e)) s
      · exact law_any.pure () s
    | construct node type params throws args =>
      rw [statement_construct]
      exact .traced ((leaves_statements hP hchild ih).andThen hP fun _ =>
        law_any.effectText trivial _ rfl (law_any.construction (law_any.arguments _ fun e _ =>
          appends_expression e) _ _)) _ _ hP
    | assign node target receiver value =>
      rw [statement_assign]
      exact .traced ((leaves_statements hP hchild ih).andThen hP fun _ =>
        law_any.effectText trivial _ rfl (law_any.assignment .any (fun _ _ => trivial) _
          (FormLaw.receiverText fun e _ => appends_expression e) (appends_expression value))) _ _ hP
    | branch node cond yes no =>
      rw [statement_branch]
      refine Leaves.traced ?_ _ _ hP
      rcases List.mem_cons.mp hchild with rfl | hchild
      · exact (ih true).andThen hP fun _ => law_any.bind (law_any.reserve trivial rfl _) fun _ =>
          law_any.branchText trivial _ (fun e _ => e.looksUp_any _)
            fun e _ needed => appends_statement needed e
      · exact .before fun _ => .before fun _ => leaves_branchText hP _ hchild ih
    | ret node value =>
      obtain rfl := Option.mem_toList.mp hchild
      rw [statement]
      refine Leaves.traced ?_ _ _ hP
      split
      · exact (ih false).andThen hP fun _ => law_any.bind law_any.newLine fun _ => law_any.append _
      · exact (ih true).andThen hP fun _ => law_any.bind law_any.newLine fun _ =>
          law_any.bind (law_any.append _) fun _ => law_any.bind
            (law_any.converted (appends_expression child) env child _) fun _ => law_any.append _
    | raise node value =>
      obtain rfl := List.mem_singleton.mp hchild
      exact .traced ((ih true).andThen hP fun _ => law_any.bind law_any.newLine fun _ =>
        law_any.bind (law_any.append _) fun _ => law_any.bind (appends_expression child)
          fun _ => law_any.append _) _ _ hP
    | cast node type value =>
      obtain rfl := List.mem_singleton.mp hchild
      exact (ih true).traced _ _ hP

/-- So does its body. -/
theorem leaves_bodyText {e part : Expr} (hpart : part ∈ e.occurrences)
    (h : ∀ needed, Leaves P (statement env needed part)) (expected : Option HostType) :
    Leaves P (bodyText env e expected) := by
  rw [bodyText_eq]
  refine (leaves_statement hP hpart h _).andThen hP fun _ s => ?_
  split
  · exact law_any.returning (law_any.bodyValue (e.looksUp_any _) expected) s
  · exact law_any.pure () s

theorem leaves_returningLast {exprs : List Expr} {child part : Expr} (hchild : child ∈ exprs)
    (hpart : part ∈ child.occurrences) (h : ∀ needed, Leaves P (statement env needed part))
    (expected : Option HostType) (returns : Bool) :
    Leaves P (returningLast env expected returns exprs) := by
  induction exprs with
  | nil => cases hchild
  | cons first rest ih =>
    cases rest with
    | nil =>
      obtain rfl := List.mem_singleton.mp hchild
      rw [returningLast_singleton]
      refine (leaves_statement hP hpart h _).andThen hP fun _ s => ?_
      split
      · exact law_any.returning (law_any.lastValue (child.looksUp_any _) expected) s
      · exact law_any.pure () s
    | cons second rest =>
      rcases List.mem_cons.mp hchild with rfl | hchild
      · exact (leaves_statement hP hpart h false).andThen hP fun _ =>
          law_any.returningLast env expected returns (fun _ _ _ _ => trivial)
            fun e _ => e.looksUp_any _
      · exact .before fun _ => ih hchild

theorem leaves_guarding {act : Emit Unit} (h : Leaves P act) (guarded : Bool) :
    Leaves P (guarding env guarded act) := by
  cases guarded with
  | false =>
    rw [guarding_false_eq]
    exact h
  | true =>
    have hguarded : Leaves P (Emit.guarded env act) := h.andThen hP fun _ =>
      law_continues.bindsFreshKey _
    rw [guarding_true_eq]
    exact .before fun _ => .before fun _ =>
      (hguarded.enclosing hP .guarded).andThen hP law_continues.clause

end

end Emit

end Lowering
