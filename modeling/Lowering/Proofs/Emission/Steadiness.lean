import Lowering.Proofs.Emission.Entries

/-!
# Names that stay

The forms of a tree bind names only for the values of their own nodes, so that the names of all
other keys stay, and what is written for a read of such a key is the name that the key had before
them. Main statement: this is a law of emission.
-/

namespace Lowering

namespace Sink

variable {i : NodeId} {kept : NameKey → Prop} {s t u : Sink}

/-- From `s` to `t` all keys that are `kept` keep their names, and what is written for node `i` are
such names only. -/
structure Steady (i : NodeId) (kept : NameKey → Prop) (s t : Sink) : Prop where
  enclosing : t.enclosing = s.enclosing
  names : ∀ key, kept key → t.scope.names.lookup key = s.scope.names.lookup key
  uses : s.Logs (fun e => ∀ key name, e = .use i key name → kept key ∧ s.Names key name) t

namespace Steady

theorem name?_eq (h : Steady i kept s t) {key : NameKey} (hkey : kept key) :
    t.name? key = s.name? key := by
  simp [name?, scopes, List.findSome?_cons, h.names key hkey, h.enclosing]

theorem refl (s : Sink) : Steady i kept s s :=
  ⟨rfl, fun _ _ => rfl, .refl s⟩

theorem trans (h : Steady i kept s t) (h' : Steady i kept t u) : Steady i kept s u where
  enclosing := h'.enclosing.trans h.enclosing
  names key hkey := (h'.names key hkey).trans (h.names key hkey)
  uses := by
    refine h.uses.trans (h'.uses.mono fun e he key name heq => ?_)
    obtain ⟨hkey, hname⟩ := he key name heq
    rw [Names, h.name?_eq hkey] at hname
    exact ⟨hkey, hname⟩

/-- An entry that is written for another node, or does not write a name. -/
theorem snoc {e : Entry} (h : Steady i kept s t) (he : ∀ key name, e ≠ .use i key name) :
    Steady i kept s (t.write e) :=
  ⟨h.enclosing, h.names, h.uses.snoc rfl fun key name heq => absurd heq (he key name)⟩

theorem bind (s : Sink) {key : NameKey} (hkey : ¬ kept key) (name : String) :
    Steady i kept s (s.bind key name) where
  enclosing := rfl
  names other hother := by
    have hne : (other == key) = false := by
      rw [beq_eq_false_iff_ne]
      rintro rfl
      exact hkey hother
    simp [Sink.bind, Scope.bind, List.lookup_cons, hne]
  uses := (Logs.refl s).snoc rfl nofun

/-- What happens between braces leaves the scope around them as it was. -/
theorem closeBraced {brace : Brace} (h : Steady i kept (s.openBraced brace) t) :
    Steady i kept s (t.closeBraced brace) := by
  have henclosing : t.enclosing = s.scope :: s.enclosing := h.enclosing
  have hopen : s.Logs (fun e => ∀ key name, e = .use i key name → kept key ∧ s.Names key name)
      (s.openBraced brace) :=
    ((Logs.refl s).snoc (u := s.write (.opening brace)) rfl nofun).snoc rfl nofun
  have huses : s.Logs (fun e => ∀ key name, e = .use i key name → kept key ∧ s.Names key name) t :=
    hopen.trans (h.uses.mono fun _ he => he)
  have hscopes : (t.closeBraced brace).scopes = s.scopes := by
    have hclosed : t.closeScope.scopes = t.enclosing :=
      scopes_closeScope_of_ne_nil (henclosing ▸ List.cons_ne_nil _ _)
    exact hclosed.trans henclosing
  obtain ⟨hscope, houter⟩ := List.cons.inj hscopes
  have hbroken := (huses.closeScope nofun).snoc (u := t.closeScope.dedent.newLine) rfl nofun
  exact ⟨houter, fun key _ => by rw [hscope], hbroken.snoc rfl nofun⟩

end Steady

end Sink

/-- The forms of a tree keep the names of all keys but those of their own nodes. -/
theorem Emit.law_steady (i : NodeId) (kept : NameKey → Prop) :
    Law (fun x _ => x.needsLocal → ¬ kept (.value x.id)) (Sink.Steady i kept) (fun _ _ => True)
      (fun id key => id = i → kept key) where
  refl := .refl
  trans := .trans
  stop _ := trivial
  thenStop _ _ := trivial
  write s e he := (Sink.Steady.refl s).snoc fun key name heq => by
    rw [heq] at he
    cases he
  region _ _ h := ⟨h.enclosing, h.names, h.uses⟩
  use {s id key name} huses hname :=
    ⟨rfl, fun _ _ => rfl, (Sink.Logs.refl s).snoc rfl fun key' name' heq => by
      obtain ⟨rfl, rfl, rfl⟩ := Entry.use.inj heq
      exact ⟨huses rfl, hname⟩⟩
  declare {s t e type name} he ht := by
    have hbind : Sink.Steady i kept s (s.bind (.value e.id) name) := .bind s (he ht.needed) name
    have hbound : Sink.Steady i kept s t := by
      rcases ht.bound with rfl | rfl
      · exact hbind
      · exact hbind.snoc nofun
    exact hbound.snoc nofun
  braced _ h := h.closeBraced
  bracedStop _ _ := trivial
  returns s := (Sink.Steady.refl s).snoc nofun

end Lowering
