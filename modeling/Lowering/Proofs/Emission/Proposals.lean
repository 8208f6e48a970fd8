import Lowering.Proofs.Emission.Growth

/-!
# Where generated names come from

The forms of a tree bind names for the values of its nodes only, each one the first that is free for
what the node proposes. Main statements: this is a law of emission, and a visible name that was not
visible before was bound in this way.
-/

namespace Lowering

/-- At the moment `past`, `name` is made for the value of `x`. -/
structure ProposesAt (past : List Entry) (x : Expr) (key : NameKey) (name : String) : Prop where
  needed : x.needsLocal
  key_eq : key = .value x.id
  name_eq : name = freshName ((bindingsAfter past).map (·.2)) (identifier x.proposedName)

/-- From `start` to `now`, names were only bound for the values of nodes `among`. -/
def Proposes (among : Expr → Prop) (start now : List Entry) : Prop :=
  ∀ key name past, start <:+ past → .bind key name :: past <:+ now →
    ∃ x, among x ∧ ProposesAt past x key name

namespace Proposes

variable {among : Expr → Prop} {start mid now : List Entry}

theorem refl (start : List Entry) : Proposes among start start :=
  fun _ _ _ h h' => absurd h' (not_cons_suffix h)

theorem trans (hmid : mid <:+ now) (h : Proposes among start mid) (h' : Proposes among mid now) :
    Proposes among start now := by
  intro key name past hstart hpast
  rcases suffix_or_suffix_of_cons hmid hpast with hle | hle
  · exact h key name past hstart hle
  · exact h' key name past hle hpast

/-- One more entry. -/
theorem snoc {e : Entry} (h : Proposes among start now)
    (he : ∀ key name, e = .bind key name → ∃ x, among x ∧ ProposesAt now x key name) :
    Proposes among start (e :: now) := by
  intro key name past hstart hpast
  rcases List.suffix_cons_iff.mp hpast with heq | hpast
  · obtain ⟨rfl, rfl⟩ := List.cons.inj heq
    exact he key name rfl
  · exact h key name past hstart hpast

end Proposes

/-- What is visible was visible at `start`, or it was bound since. -/
theorem exists_bind_of_mem_bindingsAfter {start past : List Entry} (hstart : start <:+ past)
    {b : NameKey × String} (hb : b ∈ bindingsAfter past) (hnew : b ∉ bindingsAfter start) :
    ∃ before, start <:+ before ∧ .bind b.1 b.2 :: before <:+ past := by
  obtain ⟨added, rfl⟩ := hstart
  induction added with
  | nil => exact absurd hb hnew
  | cons e added ih =>
    have hlater (h : b ∈ bindingsAfter (added ++ start)) :
        ∃ before, start <:+ before ∧ .bind b.1 b.2 :: before <:+ e :: (added ++ start) := by
      obtain ⟨before, hbefore, hbind⟩ := ih h
      exact ⟨before, hbefore, hbind.trans (List.suffix_cons _ _)⟩
    cases e with
    | leaveScope =>
      obtain ⟨scope, hscope, hmem⟩ := List.mem_flatten.mp hb
      exact hlater (List.mem_flatten.mpr ⟨scope, List.mem_of_mem_tail hscope, hmem⟩)
    | bind key name =>
      cases hscopes : scopesAfter (added ++ start) with
      | nil => simp [bindingsAfter, scopesAfter, hscopes] at hb
      | cons scope enclosing =>
        have hne : scopesAfter (added ++ start) ≠ [] := by simp [hscopes]
        rw [List.cons_append, bindingsAfter_bind hne] at hb
        rcases List.mem_cons.mp hb with rfl | hb
        · exact ⟨added ++ start, List.suffix_append _ _, List.suffix_rfl⟩
        · exact hlater hb
    | _ => exact hlater hb

namespace Sink

/-- `t` comes from `s` by growth, and names were only made for nodes `among`. -/
structure NamesOnly (among : Expr → Prop) (s t : Sink) : Prop extends s.Yields t where
  proposes : Proposes among s.journal t.journal

namespace NamesOnly

variable {among : Expr → Prop} {s t u : Sink}

theorem refl (h : s.Faithful) : NamesOnly among s s :=
  ⟨.refl h, .refl _⟩

theorem trans (h : NamesOnly among s t) (h' : NamesOnly among t u) : NamesOnly among s u :=
  ⟨h.toYields.trans h'.toYields, h.proposes.trans h'.grows.suffix h'.proposes⟩

/-- One more entry that binds nothing. -/
theorem write (h : s.Faithful) {e : Entry} (he : e.isScopeless)
    (huse : ∀ id key name, e = .use id key name → NamesAfter s.journal key name) :
    NamesOnly among s (s.write e) := by
  refine ⟨.write h he huse, (Proposes.refl _).snoc ?_⟩
  rintro key name rfl
  cases he

theorem declare (h : s.Faithful) {e : Expr} (he : among e) {name : String} (type : String)
    (ht : s.Reserves t e name) :
    NamesOnly among s (t.write (.declaration (.value e.id) type name)) := by
  have hbind : NamesOnly among s (s.bind (.value e.id) name) := by
    refine ⟨.bind h rfl ht.free, (Proposes.refl _).snoc ?_⟩
    rintro key name' heq
    obtain ⟨rfl, rfl⟩ := Entry.bind.inj heq
    refine ⟨e, he, ht.needed, rfl, ?_⟩
    rw [ht.name_eq, reserved_eq, h.bindings_eq]
  have ht : NamesOnly among s t := by
    rcases ht.bound with rfl | rfl
    · exact hbind
    · exact hbind.trans (write hbind.faithful rfl nofun)
  exact ht.trans (write ht.faithful rfl nofun)

/-- What happens between a pair of braces, once their scope is closed. -/
theorem closeScope (h : s.Faithful) {brace : Brace} (ht : NamesOnly among (s.openBraced brace) t) :
    NamesOnly among s t.closeScope := by
  refine ⟨.openBraced h ht.toYields, ?_⟩
  have hbrace : Proposes among s.journal (.opening brace :: s.journal) :=
    (Proposes.refl s.journal).snoc nofun
  have hopening : Proposes among s.journal (.enterScope :: .opening brace :: s.journal) :=
    hbrace.snoc nofun
  have hjournal : t.closeScope.journal = .leaveScope :: t.journal :=
    Yields.journal_closeScope (s := (s.write (.opening brace)).indent) (h.write rfl) ht.toYields
  rw [hjournal]
  exact (hopening.trans ht.grows.suffix ht.proposes).snoc nofun

theorem closeBraced (h : s.Faithful) {brace : Brace} (ht : NamesOnly among (s.openBraced brace) t) :
    NamesOnly among s (t.closeBraced brace) := by
  have hclose : NamesOnly among s t.closeScope := closeScope h ht
  have hdedent : NamesOnly among s t.closeScope.dedent :=
    ⟨hclose.toYields.trans (.dedent hclose.faithful), hclose.proposes⟩
  have hline : NamesOnly among s t.closeScope.dedent.newLine :=
    hdedent.trans (write hdedent.faithful rfl nofun)
  exact hline.trans (write hline.faithful rfl nofun)

end NamesOnly

end Sink

/-- Emission binds names for the values of nodes of the tree only. -/
theorem Emit.law_proposals (among : Expr → Prop) :
    Law (fun e _ => among e) (fun s t => s.Faithful → Sink.NamesOnly among s t)
      (fun s t => s.Faithful → Sink.NamesOnly among s t) where
  refl _ := .refl
  trans h h' hs := (h hs).trans (h' (h hs).faithful)
  stop _ := .refl
  thenStop h h' hs := (h hs).trans (h' (h hs).faithful)
  write s e he hs := by
    cases e with
    | text | field | effect => exact .write hs rfl nofun
    | _ => cases he
  returns _ hs := .write hs rfl nofun
  region _ _ h hs := (h hs).trans ⟨⟨(h hs).faithful, .refl _, rfl⟩, .refl _⟩
  use _ hname hs := .write hs rfl fun _ _ _ heq => by
    cases heq
    exact Sink.Completes.namesAfter hs hname
  declare he ht hs := .declare hs he _ ht
  braced _ h hs := .closeBraced hs (h (hs.openBraced _))
  bracedStop _ h hs := .closeScope hs (h (hs.openBraced _))

end Lowering
