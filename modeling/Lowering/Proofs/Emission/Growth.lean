import Lowering.Proofs.Emission.Laws
import Lowering.Proofs.Sink.FreshName
import Lowering.Proofs.Sink.Growth

/-!
# Emission makes the journal grow

Whatever is emitted for a tree, names are bound only when they are free and used only while they are
bound, and as long as nothing fails the locals that are used were declared in braces that are still
open. Main statement: this is a law of emission.
-/

namespace Lowering

namespace Sink

theorem Faithful.openBraced {s : Sink} (h : s.Faithful) (brace : Brace) :
    (s.openBraced brace).Faithful :=
  Faithful.openScope (s := (s.write (.opening brace)).indent) (h.write rfl)

/-- `t` comes from `s` by growth, with the same scopes around the innermost one. -/
structure Yields (s t : Sink) : Prop where
  faithful : t.Faithful
  grows : Grows s.journal t.journal
  enclosing : (scopesAfter t.journal).tail = (scopesAfter s.journal).tail

namespace Yields

variable {s t u : Sink}

theorem refl (h : s.Faithful) : s.Yields s :=
  ⟨h, .refl _, rfl⟩

theorem trans (h : s.Yields t) (h' : t.Yields u) : s.Yields u :=
  ⟨h'.faithful, h.grows.trans h'.grows, h'.enclosing.trans h.enclosing⟩

theorem write (h : s.Faithful) {e : Entry} (he : e.isScopeless)
    (huse : ∀ id key name, e = .use id key name → NamesAfter s.journal key name) :
    s.Yields (s.write e) :=
  ⟨h.write he, .entry he huse, congrArg List.tail (scopesAfter_cons he s.journal)⟩

theorem writeQuiet (h : s.Faithful) {e : Entry} (he : e.isScopeless) (hquiet : e.isQuiet) :
    s.Yields (s.write e) := by
  apply write h he
  rintro id key name rfl
  cases hquiet

theorem newLine (h : s.Faithful) : s.Yields s.newLine :=
  writeQuiet h rfl rfl

theorem dedent (h : s.Faithful) : s.Yields s.dedent :=
  ⟨h, .refl _, rfl⟩

theorem bind (h : s.Faithful) {key : NameKey} {name : String} (hkey : key.isGenerated)
    (hfree : name ∉ s.reserved) : s.Yields (s.bind key name) where
  faithful := h.bind key name
  grows := by
    rw [reserved_eq, h.bindings_eq] at hfree
    exact .bind h.scopesAfter_ne_nil hkey hfree
  enclosing := by
    have hbound := congrArg List.tail (scopesAfter_bind h.scopesAfter_eq key name)
    rw [h.scopesAfter_eq]
    exact hbound

theorem scopesAfter_tail (h : s.openScope.Yields t) :
    (scopesAfter t.journal).tail = scopesAfter s.journal :=
  h.enclosing

theorem journal_closeScope (hs : s.Faithful) (h : s.openScope.Yields t) :
    t.closeScope.journal = .leaveScope :: t.journal := by
  cases henclosing : t.enclosing with
  | nil =>
    have hscopes := h.scopesAfter_tail
    rw [← h.faithful, ← hs] at hscopes
    simp [henclosing, scopes] at hscopes
  | cons scope enclosing => simp [Sink.closeScope, henclosing, Sink.write]

/-- What happens in a scope of its own, once it is closed. -/
theorem closeScope (hs : s.Faithful) (h : s.openScope.Yields t) : s.Yields t.closeScope := by
  refine ⟨h.faithful.closeScope, ?_, ?_⟩
  · rw [journal_closeScope hs h]
    exact h.grows.leaveScope h.scopesAfter_tail
  · rw [journal_closeScope hs h]
    exact congrArg List.tail h.scopesAfter_tail

/-- Before such a scope, a brace opens. -/
theorem openBraced (hs : s.Faithful) {brace : Brace} (h : (s.openBraced brace).Yields t) :
    s.Yields t.closeScope := by
  have hopen : s.Yields (s.write (.opening brace)) := writeQuiet hs rfl rfl
  have hclose : (s.write (.opening brace)).indent.Yields t.closeScope := closeScope hopen.faithful h
  exact hopen.trans ⟨hclose.faithful, hclose.grows, hclose.enclosing⟩

end Yields

theorem Reserves.free {s t : Sink} {e : Expr} {name : String} (h : s.Reserves t e name) :
    name ∉ s.reserved := by
  rw [h.name_eq]
  exact freshName_not_mem _ _

/-- If emission succeeds, it also closes all braces and declares all locals that it uses. -/
structure Completes (s t : Sink) : Prop extends s.Yields t where
  settles : Settles s.journal t.journal

namespace Completes

variable {s t u : Sink}

theorem refl (h : s.Faithful) : s.Completes s :=
  ⟨.refl h, .refl _⟩

theorem trans (h : s.Completes t) (h' : t.Completes u) : s.Completes u :=
  ⟨h.toYields.trans h'.toYields, h.settles.trans h'.grows.suffix h'.settles⟩

theorem write (h : s.Faithful) {e : Entry} (he : e.isScopeless) (hbrace : e.isBraceless)
    (huse : ∀ id key name, e = .use id key name → NamesAfter s.journal key name) :
    s.Completes (s.write e) :=
  ⟨.write h he huse, .entry he hbrace huse⟩

theorem namesAfter (h : s.Faithful) {key : NameKey} {name : String} (hname : s.Names key name) :
    NamesAfter s.journal key name := by
  rwa [Sink.Names, name?_eq, h.bindings_eq] at hname

theorem declare (h : s.Faithful) {e : Expr} {name : String} (type : String)
    (ht : s.Reserves t e name) : s.Completes (t.write (.declaration (.value e.id) type name)) := by
  have hbind : s.Yields (s.bind (.value e.id) name) := .bind h rfl ht.free
  have hbindings := bindingsAfter_bind h.scopesAfter_ne_nil (.value e.id) name
  replace ht := ht.bound
  have huses (id' : NodeId) (key : NameKey) (name' : String) (past : List Entry)
      (hstart : s.journal <:+ past) : ¬ .use id' key name' :: past <:+ t.journal := by
    intro hpast
    rcases ht with rfl | rfl <;>
      simp [Sink.newLine, Sink.append, Sink.bind, Sink.write, List.suffix_cons_iff,
        not_cons_suffix hstart] at hpast
  refine ⟨?_, .declare type ?_ ?_ ?_ huses⟩ <;> rcases ht with rfl | rfl
  · exact hbind.trans (.write hbind.faithful rfl (by simp))
  · have hline := hbind.trans (.newLine hbind.faithful)
    exact hline.trans (.write hline.faithful rfl (by simp))
  · exact hbind.grows.suffix
  · exact hbind.grows.suffix.trans (List.suffix_cons _ _)
  · exact hbindings
  · exact hbindings
  · rfl
  · rfl

theorem braced (h : s.Faithful) {brace : Brace} (ht : (s.openBraced brace).Completes t) :
    s.Completes (t.closeBraced brace) := by
  have hclose : s.Yields t.closeScope := .openBraced h ht.toYields
  have hline : s.Yields t.closeScope.dedent.newLine :=
    (hclose.trans (.dedent hclose.faithful)).trans (.newLine hclose.faithful)
  have hopen : (s.write (.opening brace)).Faithful := h.write rfl
  have hjournal : t.closeScope.journal = .leaveScope :: t.journal :=
    Yields.journal_closeScope (s := (s.write (.opening brace)).indent) hopen ht.toYields
  refine ⟨hline.trans (.writeQuiet hline.faithful rfl rfl), ?_⟩
  have hsettles := ht.settles.braced
    ("\n" ++ String.join (List.replicate t.closeScope.dedent.level t.closeScope.dedent.unit))
    ht.grows.suffix ht.enclosing
  rw [← hjournal] at hsettles
  exact hsettles

end Completes

end Sink

/-- Emission makes the journal grow. -/
theorem Emit.law_growth (among : Expr → HostType → Prop) :
    Law among (fun s t => s.Faithful → s.Completes t) (fun s t => s.Faithful → s.Yields t) where
  refl _ := .refl
  trans h h' hs := (h hs).trans (h' (h hs).faithful)
  stop _ := .refl
  thenStop h h' hs := (h hs).toYields.trans (h' (h hs).faithful)
  write s e he hs := by
    cases e with
    | text | field | effect => exact .write hs rfl rfl nofun
    | _ => cases he
  returns _ hs := .write hs rfl rfl nofun
  region _ _ h hs := (h hs).trans ⟨⟨(h hs).faithful, .refl _, rfl⟩, .refl _⟩
  use _ hname hs := .write hs rfl rfl fun _ _ _ heq => by
    cases heq
    exact Sink.Completes.namesAfter hs hname
  declare _ ht hs := .declare hs _ ht
  braced _ h hs := .braced hs (h (hs.openBraced _))
  bracedStop _ h hs := .openBraced hs (h (hs.openBraced _))

end Lowering
