import Lowering.Emission.Basic
import Lowering.Proofs.Outcome

/-!
# Views of the sink

What lowering relies on in a sink: the names that its scopes bind, and the effects whose text is
complete. Main statements: what each sink operation does to both views, that a scope which closes
leaves the names as they were, and the outcome of each emission.
-/

namespace Lowering

/-- The node whose invocation, construction or assignment an entry completes. -/
def Entry.effect? : Entry → Option NodeId
  | .effect id => some id
  | _ => none

namespace Sink

/-- The nodes whose invocation, construction or assignment has been written, first one first. -/
def effects (s : Sink) : List NodeId :=
  s.journal.reverse.filterMap Entry.effect?

/-- An open scope binds `key` to some name. -/
def Binds (s : Sink) (key : NameKey) : Prop :=
  (s.name? key).isSome

/-! ## Operations on the views -/

section

variable (s : Sink)

@[simp] theorem scopes_write (e : Entry) : (s.write e).scopes = s.scopes := rfl
@[simp] theorem scopes_append (text : String) : (s.append text).scopes = s.scopes := rfl
@[simp] theorem scopes_newLine : s.newLine.scopes = s.scopes := rfl
@[simp] theorem scopes_indent : s.indent.scopes = s.scopes := rfl
@[simp] theorem scopes_dedent : s.dedent.scopes = s.scopes := rfl
@[simp] theorem scopes_finishRegion (id : NodeId) (offset : Nat) (debug : Bool) :
    (s.finishRegion id offset debug).scopes = s.scopes := rfl

@[simp] theorem effects_write (e : Entry) :
    (s.write e).effects = s.effects ++ e.effect?.toList := by
  cases h : e.effect? <;> simp [effects, write, h]

@[simp] theorem effects_append (text : String) : (s.append text).effects = s.effects := by
  simp [append, Entry.effect?]

@[simp] theorem effects_newLine : s.newLine.effects = s.effects := by
  simp [newLine]

@[simp] theorem effects_indent : s.indent.effects = s.effects := rfl
@[simp] theorem effects_dedent : s.dedent.effects = s.effects := rfl
@[simp] theorem effects_finishRegion (id : NodeId) (offset : Nat) (debug : Bool) :
    (s.finishRegion id offset debug).effects = s.effects := rfl

@[simp] theorem effects_openScope : s.openScope.effects = s.effects := by
  change (s.write .enterScope).effects = s.effects
  simp [Entry.effect?]

@[simp] theorem effects_closeScope : s.closeScope.effects = s.effects := by
  cases h : s.enclosing with
  | nil => simp [closeScope, h]
  | cons scope enclosing =>
    simp only [closeScope, h]
    change (s.write .leaveScope).effects = s.effects
    simp [Entry.effect?]

@[simp] theorem effects_bind (key : NameKey) (name : String) :
    (s.bind key name).effects = s.effects := by
  change (s.write (.bind key name)).effects = s.effects
  simp [Entry.effect?]

end

/-! ## Extension -/

/-- `s'` has the scopes of `s`, except that the innermost one may bind more. -/
structure Extends (s s' : Sink) : Prop where
  enclosing : s'.enclosing = s.enclosing
  binds : ∀ key, s.Binds key → s'.Binds key

theorem name?_congr {s s' : Sink} (h : s'.scopes = s.scopes) (key : NameKey) :
    s'.name? key = s.name? key := by
  rw [name?, name?, h]

theorem binds_congr {s s' : Sink} (h : s'.scopes = s.scopes) (key : NameKey) :
    s'.Binds key ↔ s.Binds key := by
  rw [Binds, Binds, name?_congr h]

theorem Extends.of_scopes {s s' : Sink} (h : s'.scopes = s.scopes) : s.Extends s' where
  enclosing := (List.cons.inj h).2
  binds key := (binds_congr h key).mpr

theorem Extends.refl (s : Sink) : s.Extends s :=
  .of_scopes rfl

theorem Extends.trans {s t u : Sink} (h : s.Extends t) (h' : t.Extends u) : s.Extends u where
  enclosing := h'.enclosing.trans h.enclosing
  binds key hkey := h'.binds key (h.binds key hkey)

theorem binds_bind_self (s : Sink) (key : NameKey) (name : String) :
    (s.bind key name).Binds key := by
  simp [Binds]

theorem extends_bind (s : Sink) (key : NameKey) (name : String) :
    s.Extends (s.bind key name) where
  enclosing := rfl
  binds other hother := by
    by_cases h : other = key
    · subst h
      exact binds_bind_self s other name
    · rw [Binds, name?_bind_of_ne s h]
      exact hother

theorem scopes_closeScope_of_extends {s s' : Sink} (h : s.openScope.Extends s') :
    s'.closeScope.scopes = s.scopes := by
  have henclosing : s'.enclosing = s.scopes := h.enclosing
  rw [scopes_closeScope_of_ne_nil (by simp [henclosing, scopes]), henclosing]

theorem binds_openScope (s : Sink) (key : NameKey) : s.openScope.Binds key ↔ s.Binds key := by
  simp [Binds, name?]

end Sink

/-! ## Emissions -/

section

variable {α : Type} (s : Sink) (failed : Failure → Prop)

@[simp] theorem outcome_write (e : Entry) (ok : Unit → Sink → Prop) :
    Outcome (Emit.write e) s ok failed ↔ ok () (s.write e) :=
  Iff.rfl

@[simp] theorem outcome_append (text : String) (ok : Unit → Sink → Prop) :
    Outcome (Emit.append text) s ok failed ↔ ok () (s.append text) :=
  Iff.rfl

@[simp] theorem outcome_newLine (ok : Unit → Sink → Prop) :
    Outcome Emit.newLine s ok failed ↔ ok () s.newLine :=
  Iff.rfl

@[simp] theorem outcome_openBrace (brace : Brace) (ok : Unit → Sink → Prop) :
    Outcome (Emit.openBrace brace) s ok failed ↔ ok () (s.write (.opening brace)).indent :=
  Iff.rfl

@[simp] theorem outcome_closeBrace (brace : Brace) (ok : Unit → Sink → Prop) :
    Outcome (Emit.closeBrace brace) s ok failed ↔
      ok () (s.dedent.newLine.write (.closing brace)) :=
  Iff.rfl

@[simp] theorem outcome_bindFresh (key : NameKey) (proposed : String)
    (ok : String → Sink → Prop) :
    Outcome (Emit.bindFresh key proposed) s ok failed ↔
      ok (freshName s.reserved proposed) (s.bind key (freshName s.reserved proposed)) :=
  Iff.rfl

@[simp] theorem outcome_useOr (id : NodeId) (key : NameKey) (fallback : String)
    (ok : Unit → Sink → Prop) :
    Outcome (Emit.useOr id key fallback) s ok failed ↔
      ok () (s.write (.use id key ((s.name? key).getD fallback))) :=
  Iff.rfl

@[simp] theorem outcome_traced (id : NodeId) (debug : Bool) (act : Emit α)
    (ok : α → Sink → Prop) :
    Outcome (Emit.traced id debug act) s ok failed ↔
      Outcome act s (fun a s' => ok a (s'.finishRegion id s.size debug)) failed := by
  simp only [Emit.traced, outcome_bind, outcome_get, outcome_modify, outcome_pure]

theorem Emit.exists_run_of_traced_ok {act : Emit α} {id : NodeId} {debug : Bool} {a : α}
    {s u : Sink} (h : (Emit.traced id debug act).run.run s = (.ok a, u)) :
    ∃ t, act.run.run s = (.ok a, t) ∧ u = t.finishRegion id s.size debug := by
  have h : (act >>= fun a => do
      modify (·.finishRegion id s.size debug)
      pure a).run.run s = (.ok a, u) := h
  obtain ⟨a', t, hrun, h⟩ := exists_run_of_bind_ok h
  cases h
  exact ⟨t, hrun, rfl⟩

theorem Emit.run_write (e : Entry) (s : Sink) :
    (Emit.write e).run.run s = (.ok (), s.write e) :=
  rfl

theorem Emit.run_append (text : String) (s : Sink) :
    (Emit.append text).run.run s = (.ok (), s.write (.text text)) :=
  rfl

theorem Emit.run_newLine (s : Sink) : Emit.newLine.run.run s = (.ok (), s.newLine) :=
  rfl

theorem Emit.run_openBrace (brace : Brace) (s : Sink) :
    (Emit.openBrace brace).run.run s = (.ok (), (s.write (.opening brace)).indent) :=
  rfl

theorem Emit.run_closeBrace (brace : Brace) (s : Sink) :
    (Emit.closeBrace brace).run.run s = (.ok (), s.dedent.newLine.write (.closing brace)) :=
  rfl

theorem Emit.run_inScope (act : Emit α) (s : Sink) :
    (Emit.inScope act).run.run s =
      ((act.run.run s.openScope).1, (act.run.run s.openScope).2.closeScope) :=
  rfl

@[simp] theorem outcome_inScope (act : Emit α) (ok : α → Sink → Prop) :
    Outcome (Emit.inScope act) s ok failed ↔
      Outcome act s.openScope (fun a s' => ok a s'.closeScope) failed := by
  rw [Outcome, Emit.run_inScope, Outcome]
  cases act.run.run s.openScope with
  | mk result s' => cases result <;> rfl

end

end Lowering
