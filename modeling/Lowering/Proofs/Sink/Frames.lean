import Lowering.Proofs.Sink.Growth

/-!
# What is around a tree

Before the forms of a tree are written, lowering binds what the tree can refer to and opens the
braces of a function; afterwards it closes them again and names a caught exception. Main statements:
no name is used before or after the forms, and every name that was bound before them is visible when
they start.
-/

namespace Lowering

/-- The entry belongs to the text around a tree. -/
def Entry.isFraming : Entry → Bool
  | .text _ | .opening _ | .closing _ | .declaration (.synthetic _) .. => true
  | _ => false

namespace Sink

/-- From `s`, lowering prepared what is around a tree. -/
inductive Opens (s : Sink) : Sink → Prop
  | refl : Opens s s
  | write {t : Sink} {e : Entry} (h : Opens s t) (he : e.isFraming) : Opens s (t.write e)
  | indent {t : Sink} (h : Opens s t) : Opens s t.indent
  | openScope {t : Sink} (h : Opens s t) : Opens s t.openScope
  | setObject {t : Sink} (h : Opens s t) (key : String) (type : HostType) :
      Opens s (t.setObject key type)
  | bind {t : Sink} {key : NameKey} (h : Opens s t) (hkey : key.isGenerated = false)
      (name : String) : Opens s (t.bind key name)

/-- From `s`, lowering finished what was around a tree. -/
inductive Closes (s : Sink) : Sink → Prop
  | refl : Closes s s
  | write {t : Sink} {e : Entry} (h : Closes s t) (he : e.isFraming) : Closes s (t.write e)
  | indent {t : Sink} (h : Closes s t) : Closes s t.indent
  | dedent {t : Sink} (h : Closes s t) : Closes s t.dedent
  | finishRegion {t : Sink} (h : Closes s t) (id : NodeId) (offset : Nat) (debug : Bool) :
      Closes s (t.finishRegion id offset debug)
  | freshKey {t : Sink} (h : Closes s t) : Closes s t.freshKey.2
  | bind {t : Sink} {name : String} (h : Closes s t) (number : Nat) (hfree : name ∉ t.reserved) :
      Closes s (t.bind (.synthetic number) name)
  | closeScope {t : Sink} (h : Closes s t) : Closes s t.closeScope

theorem Opens.trans {s t u : Sink} (h : s.Opens t) (h' : t.Opens u) : s.Opens u := by
  induction h' with
  | refl => exact h
  | write _ he ih => exact ih.write he
  | indent _ ih => exact ih.indent
  | openScope _ ih => exact ih.openScope
  | setObject _ key type ih => exact ih.setObject key type
  | bind _ hkey name ih => exact ih.bind hkey name

theorem Closes.trans {s t u : Sink} (h : s.Closes t) (h' : t.Closes u) : s.Closes u := by
  induction h' with
  | refl => exact h
  | write _ he ih => exact ih.write he
  | indent _ ih => exact ih.indent
  | dedent _ ih => exact ih.dedent
  | finishRegion _ id offset debug ih => exact ih.finishRegion id offset debug
  | freshKey _ ih => exact ih.freshKey
  | bind _ number hfree ih => exact ih.bind number hfree
  | closeScope _ ih => exact ih.closeScope

end Sink

/-- Of the braces that are open at this moment and were not open at `start`, there is only that of a
`try`, if `guarded`. -/
def GuardedAfter (guarded : Bool) (start past : List Entry) : Prop :=
  match guarded with
  | true => ∃ before, .opening .guarded :: before <:+ past ∧
      bracesAfter past = before.length :: bracesAfter start
  | false => bracesAfter past = bracesAfter start

theorem GuardedAfter.mono {guarded : Bool} {start past later : List Entry}
    (h : GuardedAfter guarded start past) (hlater : past <:+ later)
    (hbraces : bracesAfter later = bracesAfter past) : GuardedAfter guarded start later := by
  cases guarded with
  | true =>
    obtain ⟨before, hbefore, hopen⟩ := h
    exact ⟨before, hbefore.trans hlater, hbraces.trans hopen⟩
  | false => exact hbraces.trans h

/-- From `s`, lowering prepared only text and braces. -/
structure Sink.Enters (s t : Sink) : Prop where
  opens : s.Opens t
  scopes : t.scopes = s.scopes

theorem Sink.Enters.trans {s t u : Sink} (h : s.Enters t) (h' : t.Enters u) : s.Enters u :=
  ⟨h.opens.trans h'.opens, h'.scopes.trans h.scopes⟩

/-- From `s`, lowering opened a `try`, if `guarded`. -/
structure Sink.Guards (guarded : Bool) (s t : Sink) : Prop extends s.Enters t where
  braces : GuardedAfter guarded s.journal t.journal

theorem Entry.isQuiet_of_isFraming {e : Entry} (h : e.isFraming) : e.isQuiet := by
  unfold isFraming at h
  split at h <;> simp_all [isQuiet]

private theorem Entry.isScopeless_of_isFraming {e : Entry} (h : e.isFraming) :
    e.isScopeless := by
  unfold isFraming at h
  split at h <;> simp_all [isScopeless]

namespace Sink

/-- What holds when lowering comes to a tree: the journal has used no name, and every name that was
bound still is. -/
structure Prepared (t : Sink) : Prop where
  faithful : t.Faithful
  quiet : ∀ e ∈ t.journal, e.isQuiet
  keys : ∀ b ∈ t.bindings, b.1.isGenerated = false
  moments : ∀ past, past <:+ t.journal → bindingsAfter past <:+ t.bindings

theorem Prepared.not_binds {t : Sink} (h : t.Prepared) {key : NameKey} (hkey : key.isGenerated) :
    ¬ t.Binds key := by
  intro hbinds
  obtain ⟨name, hname⟩ := Option.isSome_iff_exists.mp hbinds
  rw [name?_eq] at hname
  obtain ⟨before, after, heq, _⟩ := List.lookup_eq_some_iff.mp hname
  have hmem : (key, name) ∈ t.bindings := heq ▸ List.mem_append_right _ List.mem_cons_self
  exact Bool.false_ne_true ((h.keys _ hmem).symm.trans hkey)

private theorem Prepared.snoc {t u : Sink} {e : Entry} (h : t.Prepared) (hu : u.Faithful)
    (hjournal : u.journal = e :: t.journal) (he : e.isQuiet) (added : List (NameKey × String))
    (hbindings : u.bindings = added ++ t.bindings) (hadded : ∀ b ∈ added, b.1.isGenerated = false) :
    u.Prepared where
  faithful := hu
  quiet := by
    rw [hjournal]
    exact List.forall_mem_cons.mpr ⟨he, h.quiet⟩
  keys := by
    rw [hbindings]
    exact List.forall_mem_append.mpr ⟨hadded, h.keys⟩
  moments past hpast := by
    rw [hjournal] at hpast
    rcases List.suffix_cons_iff.mp hpast with rfl | hpast
    · have hall : u.bindings = bindingsAfter (e :: t.journal) := hjournal ▸ hu.bindings_eq
      exact hall ▸ List.suffix_refl _
    · rw [hbindings]
      exact (h.moments past hpast).trans (List.suffix_append _ _)

theorem Opens.prepared {s t : Sink} (h : s.Opens t) (hs : s.Prepared) : t.Prepared := by
  induction h with
  | refl => exact hs
  | write _ he ih =>
    exact ih.snoc (ih.faithful.write (Entry.isScopeless_of_isFraming he)) rfl
      (Entry.isQuiet_of_isFraming he) [] rfl (by simp)
  | indent _ ih => exact ⟨ih.faithful, ih.quiet, ih.keys, ih.moments⟩
  | openScope _ ih =>
    exact ih.snoc ih.faithful.openScope rfl rfl [] rfl (by simp)
  | setObject _ key type ih => exact ⟨ih.faithful, ih.quiet, ih.keys, ih.moments⟩
  | @bind t key _ hkey name ih =>
    exact ih.snoc (ih.faithful.bind key name) rfl rfl [(key, name)] rfl (by simpa)

/-- Names that were different at every moment stay so while what is around a tree is finished. -/
theorem Closes.nodup_moments {s t : Sink} (h : s.Closes t) (hs : s.Faithful)
    (hnames : ∀ past, past <:+ s.journal → ((bindingsAfter past).map (·.2)).Nodup) :
    t.Faithful ∧ ∀ past, past <:+ t.journal → ((bindingsAfter past).map (·.2)).Nodup := by
  have hcons {u v : Sink} {e : Entry} (hjournal : v.journal = e :: u.journal) (hv : v.Faithful)
      (hlast : (v.bindings.map (·.2)).Nodup)
      (hu : ∀ past, past <:+ u.journal → ((bindingsAfter past).map (·.2)).Nodup) :
      v.Faithful ∧ ∀ past, past <:+ v.journal → ((bindingsAfter past).map (·.2)).Nodup := by
    refine ⟨hv, fun past hpast => ?_⟩
    rw [hjournal] at hpast
    rcases List.suffix_cons_iff.mp hpast with rfl | hpast
    · rwa [← hjournal, ← hv.bindings_eq]
    · exact hu past hpast
  have hlast {u : Sink} (hu : u.Faithful)
      (h : ∀ past, past <:+ u.journal → ((bindingsAfter past).map (·.2)).Nodup) :
      (u.bindings.map (·.2)).Nodup := by
    rw [hu.bindings_eq]
    exact h u.journal List.suffix_rfl
  induction h with
  | refl => exact ⟨hs, hnames⟩
  | write _ he ih =>
    have hnodup := hlast ih.1 ih.2
    exact hcons rfl (ih.1.write (Entry.isScopeless_of_isFraming he)) hnodup ih.2
  | indent _ ih => exact ih
  | dedent _ ih => exact ih
  | finishRegion _ id offset debug ih => exact ih
  | freshKey _ ih => exact ih
  | @bind t name _ number hfree ih =>
    rw [reserved_eq] at hfree
    exact hcons rfl (ih.1.bind _ _) (List.nodup_cons.mpr ⟨hfree, hlast ih.1 ih.2⟩) ih.2
  | @closeScope t _ ih =>
    cases henclosing : t.enclosing with
    | nil => simpa [Sink.closeScope, henclosing] using ih
    | cons scope enclosing =>
      have hjournal : t.closeScope.journal = .leaveScope :: t.journal := by
        simp [Sink.closeScope, henclosing, Sink.write]
      have hbindings : t.bindings = t.scope.names ++ t.closeScope.bindings := by
        simp [Sink.closeScope, henclosing, bindings, scopes]
      refine hcons hjournal ih.1.closeScope ?_ ih.2
      have hall := hlast ih.1 ih.2
      rw [hbindings, List.map_append] at hall
      exact (List.nodup_append.mp hall).2.1

private theorem exists_quiet_cons {s t u : Sink} {e : Entry} (hjournal : u.journal = e :: t.journal)
    (he : e.isQuiet) (ht : ∃ added, t.journal = added ++ s.journal ∧ ∀ e ∈ added, e.isQuiet) :
    ∃ added, u.journal = added ++ s.journal ∧ ∀ e ∈ added, e.isQuiet := by
  obtain ⟨added, hadded, hquiet⟩ := ht
  exact ⟨e :: added, by rw [hjournal, hadded, List.cons_append],
    List.forall_mem_cons.mpr ⟨he, hquiet⟩⟩

/-- What is written before a tree uses no name. -/
theorem Opens.exists_journal {s t : Sink} (h : s.Opens t) :
    ∃ added, t.journal = added ++ s.journal ∧ ∀ e ∈ added, e.isQuiet := by
  induction h with
  | refl => exact ⟨[], rfl, by simp⟩
  | write _ he ih => exact exists_quiet_cons rfl (Entry.isQuiet_of_isFraming he) ih
  | indent _ ih => exact ih
  | openScope _ ih => exact exists_quiet_cons rfl rfl ih
  | setObject _ key type ih => exact ih
  | bind _ hkey name ih => exact exists_quiet_cons rfl rfl ih

/-- What is written after a tree uses no name. -/
theorem Closes.exists_journal {s t : Sink} (h : s.Closes t) :
    ∃ tail, t.journal = tail ++ s.journal ∧ ∀ e ∈ tail, e.isQuiet := by
  induction h with
  | refl => exact ⟨[], rfl, by simp⟩
  | write _ he ih => exact exists_quiet_cons rfl (Entry.isQuiet_of_isFraming he) ih
  | indent _ ih => exact ih
  | dedent _ ih => exact ih
  | finishRegion _ id offset debug ih => exact ih
  | freshKey _ ih => exact ih
  | bind _ number hfree ih => exact exists_quiet_cons rfl rfl ih
  | @closeScope t _ ih =>
    cases henclosing : t.enclosing with
    | nil => simpa [Sink.closeScope, henclosing] using ih
    | cons scope enclosing =>
      have hjournal : t.closeScope.journal = .leaveScope :: t.journal := by
        simp [Sink.closeScope, henclosing, Sink.write]
      exact exists_quiet_cons hjournal rfl ih

theorem Closes.suffix {s t : Sink} (h : s.Closes t) : s.journal <:+ t.journal := by
  obtain ⟨tail, htail, _⟩ := h.exists_journal
  exact ⟨tail, htail.symm⟩

end Sink

end Lowering
