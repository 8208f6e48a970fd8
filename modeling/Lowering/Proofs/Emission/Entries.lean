import Lowering.Proofs.Emission.Lasting
import Lowering.Proofs.Tree.Scoping

/-!
# What emission adds to the journal

The forms of a tree start no return by themselves, and they declare locals only for nodes of the
tree, each with the type of its node. Main statements: which entries a law allows to be added, and
that the statement form of a declaration declares its local.
-/

namespace Lowering

/-- Such an entry may belong to a form of any tree. -/
def Entry.isCommon : Entry → Bool
  | .declaration .. | .implicitReturn => false
  | .opening brace | .closing brace => brace.isForm
  | _ => true

namespace Sink

/-- From `s` to `t`, only `allowed` entries were added to the journal. -/
def Logs (allowed : Entry → Prop) (s t : Sink) : Prop :=
  ∃ added, t.journal = added ++ s.journal ∧ ∀ e ∈ added, allowed e

namespace Logs

variable {allowed : Entry → Prop} {s t u : Sink}

theorem refl (s : Sink) : Logs allowed s s :=
  ⟨[], rfl, by simp⟩

theorem trans (h : Logs allowed s t) (h' : Logs allowed t u) : Logs allowed s u := by
  obtain ⟨added, hadded, hallowed⟩ := h
  obtain ⟨later, hlater, hallowed'⟩ := h'
  exact ⟨later ++ added, by rw [hlater, hadded, List.append_assoc],
    List.forall_mem_append.mpr ⟨hallowed', hallowed⟩⟩

theorem mono {allowed' : Entry → Prop} (h : Logs allowed s t)
    (hallowed : ∀ e, allowed e → allowed' e) : Logs allowed' s t := by
  obtain ⟨added, hadded, hlogged⟩ := h
  exact ⟨added, hadded, fun e he => hallowed e (hlogged e he)⟩

/-- One more entry. -/
theorem snoc {e : Entry} (h : Logs allowed s t) (hu : u.journal = e :: t.journal)
    (he : allowed e) : Logs allowed s u :=
  h.trans ⟨[e], hu, List.forall_mem_singleton.mpr he⟩

theorem allowed_of_mem (h : Logs allowed s t) {added : List Entry}
    (hadded : t.journal = added ++ s.journal) : ∀ e ∈ added, allowed e := by
  obtain ⟨logged, hlogged, hallowed⟩ := h
  obtain rfl : logged = added := List.append_cancel_right (hlogged.symm.trans hadded)
  exact hallowed

theorem suffix (h : Logs allowed s t) : s.journal <:+ t.journal := by
  obtain ⟨added, hadded, _⟩ := h
  exact ⟨added, hadded.symm⟩

theorem closeScope (h : Logs allowed s t) (hleave : allowed .leaveScope) :
    Logs allowed s t.closeScope := by
  cases henclosing : t.enclosing with
  | nil => simpa [Sink.closeScope, henclosing] using h
  | cons scope enclosing => exact h.snoc (by simp [Sink.closeScope, henclosing, write]) hleave

theorem closeBraced (hcommon : ∀ e : Entry, e.isCommon → allowed e) {brace : Brace}
    (hbrace : brace.isForm) (h : Logs allowed s t) : Logs allowed s (t.closeBraced brace) :=
  ((h.closeScope (hcommon _ rfl)).snoc (u := t.closeScope.dedent.newLine) rfl (hcommon _ rfl)).snoc
    rfl (hcommon (.closing brace) hbrace)

theorem openBraced (hcommon : ∀ e : Entry, e.isCommon → allowed e) (s : Sink) {brace : Brace}
    (hbrace : brace.isForm) : Logs allowed s (s.openBraced brace) :=
  ((refl s).snoc (u := s.write (.opening brace)) rfl (hcommon (.opening brace) hbrace)).snoc rfl
    (hcommon _ rfl)

end Logs

end Sink

/-- The forms add common entries, and declarations of locals with their types. -/
theorem Emit.formLaw_logs {among : Expr → HostType → Prop} {allowed : Entry → Prop}
    (hcommon : ∀ e : Entry, e.isCommon → allowed e)
    (hdeclare : ∀ x type name, among x type →
      allowed (.declaration (.value x.id) (type.sourceName true) name)) :
    FormLaw among (Sink.Logs allowed) (Sink.Logs allowed) where
  refl := .refl
  trans := .trans
  stop := .refl
  thenStop := .trans
  write s e he := by
    refine (Sink.Logs.refl s).snoc rfl (hcommon e ?_)
    cases e <;> first | rfl | cases he
  region _ _ h := h
  use _ _ := (Sink.Logs.refl _).snoc rfl (hcommon _ rfl)
  declare {s t x type name} he ht := by
    have hbind : s.Logs allowed (s.bind (.value x.id) name) :=
      (Sink.Logs.refl s).snoc rfl (hcommon _ rfl)
    have ht : s.Logs allowed t := by
      rcases ht.bound with rfl | rfl
      · exact hbind
      · exact hbind.snoc rfl (hcommon _ rfl)
    exact ht.snoc rfl (hdeclare x type name he)
  braced hbrace h := ((Sink.Logs.openBraced hcommon _ hbrace).trans h).closeBraced hcommon hbrace
  bracedStop hbrace h :=
    ((Sink.Logs.openBraced hcommon _ hbrace).trans h).closeScope (hcommon _ rfl)

/-- Bodies add the return of their value too. -/
theorem Emit.law_logs {among : Expr → HostType → Prop} {allowed : Entry → Prop}
    (hcommon : ∀ e : Entry, e.isCommon → allowed e)
    (hdeclare : ∀ x type name, among x type →
      allowed (.declaration (.value x.id) (type.sourceName true) name))
    (hreturn : allowed .implicitReturn) : Law among (Sink.Logs allowed) (Sink.Logs allowed) where
  toFormLaw := formLaw_logs hcommon hdeclare
  returns s := (Sink.Logs.refl s).snoc rfl hreturn

/-! ## Declarations -/

/-- The local for the value of node `i` has been declared. -/
def Sink.Declares (t : Sink) (i : NodeId) : Prop :=
  ∃ type name, .declaration (.value i) type name ∈ t.journal

theorem Sink.lasting_declares (i : NodeId) : Lasting (Declares · i) :=
  fun _ _ hretains ⟨type, name, hmem⟩ => ⟨type, name, hretains.journal.subset hmem⟩

namespace Emit

variable {env : Env} {i : NodeId}

/-- Where `act` succeeds, the local for the value of node `i` has been declared. -/
abbrev Declares {α : Type} (i : NodeId) (act : Emit α) : Prop :=
  Leaves (·.Declares i) act

private theorem declares_declarationText {node : Node} (name : String) (writeable : Bool)
    (type : HostType) (init : Option Expr) :
    Declares node.id (declarationText env node name writeable type init) := by
  have hdeclarator (name : String) : Declares node.id (declarator env node type init name) := by
    have hwrite : Declares node.id
        (write (.declaration (.value node.id) (type.sourceName true) name)) :=
      fun _ => ⟨_, _, List.mem_cons_self⟩
    refine hwrite.andThen (Sink.lasting_declares _) fun _ => ?_
    cases init with
    | none => exact law_any.append _
    | some init =>
      exact law_any.bind (law_any.append _) fun _ => law_any.bind
        (law_any.converted (appends_expression init) env init _) fun _ => law_any.append _
  refine .before fun _ => ?_
  cases writeable with
  | true => exact .before hdeclarator
  | false => exact .before fun _ => .before hdeclarator

theorem declares_own {e : Expr} (hi : i ∈ e.declared) (needed : Bool) :
    Declares i (statement env needed e) := by
  cases e with
  | decl node name type writeable init =>
    obtain rfl : i = node.id := List.mem_singleton.mp hi
    rw [statement_decl]
    refine Leaves.traced ?_ _ _ (Sink.lasting_declares _)
    cases init with
    | none => exact declares_declarationText name writeable _ none
    | some init => exact .before fun _ => declares_declarationText name writeable _ (some init)
  | _ => cases hi

end Emit

end Lowering
