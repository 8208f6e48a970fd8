import Lowering.Proofs.Sink.Journal

/-!
# Growth of the journal

What emission adds to a journal: bindings with names that were free, uses of names that are bound,
and declarations of the locals it uses, between braces that close again. Main statements: what holds
along one stretch of a journal and along the next holds along both, and a scope that closes leaves
no binding behind.
-/

namespace Lowering

/-- Lowering makes up the names for such a key by itself. -/
def NameKey.isGenerated : NameKey → Bool
  | .value _ | .synthetic _ => true
  | .instanceOf _ | .parameter _ => false

/-! ## Bindings -/

/-- To the bindings `earlier`, generated keys were added with names that were free. -/
inductive Supplies (earlier : List (NameKey × String)) : List (NameKey × String) → Prop
  | refl : Supplies earlier earlier
  | bind {later : List (NameKey × String)} {key : NameKey} {name : String}
      (h : Supplies earlier later) (hkey : key.isGenerated) (hfree : name ∉ later.map (·.2)) :
      Supplies earlier ((key, name) :: later)

namespace Supplies

variable {earlier later : List (NameKey × String)}

theorem trans {last : List (NameKey × String)} (h : Supplies earlier later)
    (h' : Supplies later last) : Supplies earlier last := by
  induction h' with
  | refl => exact h
  | bind _ hkey hfree ih => exact ih.bind hkey hfree

/-- Names that were all different stay so. -/
theorem nodup (h : Supplies earlier later) (hearlier : (earlier.map (·.2)).Nodup) :
    (later.map (·.2)).Nodup := by
  induction h with
  | refl => exact hearlier
  | bind _ _ hfree ih => exact List.nodup_cons.mpr ⟨hfree, ih⟩

/-- The other keys keep their names. -/
theorem lookup_eq (h : Supplies earlier later) {key : NameKey} (hkey : key.isGenerated = false) :
    later.lookup key = earlier.lookup key := by
  induction h with
  | refl => rfl
  | @bind later bound name _ hbound _ ih =>
    have hne : (key == bound) = false := by
      rw [beq_eq_false_iff_ne]
      rintro rfl
      exact Bool.false_ne_true (hkey.symm.trans hbound)
    rw [List.lookup_cons, hne, ih]

/-- Where no key was generated before, no other binding has the name of a generated key. -/
theorem not_mem_of_generated (h : Supplies earlier later)
    (hearlier : ∀ b ∈ earlier, b.1.isGenerated = false) {inner outer : List (NameKey × String)}
    {b : NameKey × String} (heq : later = inner ++ b :: outer) (hkey : b.1.isGenerated) :
    b.2 ∉ (inner ++ outer).map (·.2) := by
  induction h generalizing inner with
  | refl =>
    have hb : b ∈ earlier := heq ▸ List.mem_append_right _ List.mem_cons_self
    exact absurd hkey (by simp [hearlier b hb])
  | @bind later key name _ _ hfree ih =>
    cases inner with
    | nil =>
      obtain ⟨rfl, rfl⟩ := List.cons.inj heq
      exact hfree
    | cons first inner =>
      obtain ⟨rfl, rfl⟩ := List.cons.inj heq
      have hne : b.2 ≠ name := by
        rintro rfl
        exact hfree (List.mem_map_of_mem (List.mem_append_right _ List.mem_cons_self))
      simpa [hne] using ih rfl

end Supplies

/-! ## Bindings and uses along a stretch of the journal -/

/-- At this moment `name` stands for `key`: it is bound to it, or nothing is and it may stand for
itself. -/
def NamesAfter (past : List Entry) (key : NameKey) (name : String) : Prop :=
  (bindingsAfter past).lookup key = some name ∨
    (bindingsAfter past).lookup key = none ∧ ∀ id, key ≠ .value id

theorem NamesAfter.mem {past : List Entry} {d : NodeId} {name : String}
    (h : NamesAfter past (.value d) name) : (.value d, name) ∈ bindingsAfter past := by
  rcases h with h | ⟨_, h⟩
  · obtain ⟨before, after, heq, _⟩ := List.lookup_eq_some_iff.mp h
    rw [heq]
    exact List.mem_append_right _ List.mem_cons_self
  · exact absurd rfl (h d)

/-- From `start` to `now` names were bound for generated keys when they were free, and the names
that were used stood for their keys. -/
structure Grows (start now : List Entry) : Prop where
  suffix : start <:+ now
  supplies : ∀ past, start <:+ past → past <:+ now →
    Supplies (bindingsAfter start) (bindingsAfter past)
  uses : ∀ id key name past, start <:+ past → .use id key name :: past <:+ now →
    NamesAfter past key name

theorem not_cons_suffix {e : Entry} {start past : List Entry} (h : start <:+ past) :
    ¬ e :: past <:+ start := by
  intro hpast
  have hlength := hpast.length_le
  have hle := h.length_le
  rw [List.length_cons] at hlength
  omega

theorem cons_suffix_of_not_mem {e : Entry} {added start past : List Entry} (he : e ∉ added)
    (h : e :: past <:+ added ++ start) : e :: past <:+ start := by
  induction added with
  | nil => exact h
  | cons last added ih =>
    rw [List.mem_cons, not_or] at he
    rcases List.suffix_cons_iff.mp h with heq | h
    · exact absurd (List.cons.inj heq).1 he.1
    · exact ih he.2 h

theorem suffix_or_suffix_of_cons {e : Entry} {past mid now : List Entry}
    (hmid : mid <:+ now) (h : e :: past <:+ now) : e :: past <:+ mid ∨ mid <:+ past := by
  rcases List.suffix_or_suffix_of_suffix h hmid with hle | hle
  · exact .inl hle
  · rcases List.suffix_cons_iff.mp hle with rfl | hle
    · exact .inl List.suffix_rfl
    · exact .inr hle

namespace Grows

variable {start mid now : List Entry}

theorem refl (start : List Entry) : Grows start start where
  suffix := List.suffix_rfl
  supplies past h h' := by
    rw [h.eq_of_length_le h'.length_le]
    exact .refl
  uses _ _ _ _ h h' := absurd h' (not_cons_suffix h)

theorem trans (h : Grows start mid) (h' : Grows mid now) : Grows start now where
  suffix := h.suffix.trans h'.suffix
  supplies := forall_moments_trans h'.suffix h.supplies fun past hmid hpast =>
    (h.supplies mid h.suffix List.suffix_rfl).trans (h'.supplies past hmid hpast)
  uses id key name past hstart hpast := by
    rcases suffix_or_suffix_of_cons h'.suffix hpast with hle | hle
    · exact h.uses id key name past hstart hle
    · exact h'.uses id key name past hle hpast

/-- One more entry. -/
theorem snoc {e : Entry} (h : Grows start now)
    (hsupplies : Supplies (bindingsAfter start) (bindingsAfter (e :: now)))
    (huse : ∀ id key name, e = .use id key name → NamesAfter now key name) :
    Grows start (e :: now) where
  suffix := h.suffix.trans (List.suffix_cons e now)
  supplies := forall_moments_cons h.supplies hsupplies
  uses id key name past hstart hpast := by
    rcases List.suffix_cons_iff.mp hpast with heq | hpast
    · obtain ⟨rfl, rfl⟩ := List.cons.inj heq
      exact huse id key name rfl
    · exact h.uses id key name past hstart hpast

theorem entry {e : Entry} (he : e.isScopeless)
    (huse : ∀ id key name, e = .use id key name → NamesAfter start key name) :
    Grows start (e :: start) :=
  (refl start).snoc (bindingsAfter_cons he start ▸ .refl) huse

theorem bind {key : NameKey} {name : String} (hstart : scopesAfter start ≠ [])
    (hkey : key.isGenerated) (hfree : name ∉ (bindingsAfter start).map (·.2)) :
    Grows start (.bind key name :: start) := by
  refine (refl start).snoc ?_ fun _ _ _ h => by cases h
  rw [bindingsAfter_bind hstart]
  exact .bind .refl hkey hfree

/-- A scope of its own leaves no binding behind. -/
theorem leaveScope (h : Grows (.enterScope :: start) now)
    (hscopes : (scopesAfter now).tail = scopesAfter start) :
    Grows start (.leaveScope :: now) := by
  have hopen : Grows start (.enterScope :: start) :=
    (refl start).snoc .refl fun _ _ _ h => by cases h
  refine (hopen.trans h).snoc ?_ fun _ _ _ h => by cases h
  have hbindings : bindingsAfter (.leaveScope :: now) = bindingsAfter start :=
    congrArg List.flatten hscopes
  rw [hbindings]
  exact .refl

end Grows

/-! ## Declarations along a stretch of the journal -/

/-- At this moment the local `name` for the value of `d` has been declared, between braces that are
all still open. -/
def DeclaredAfter (past : List Entry) (d : NodeId) (name : String) : Prop :=
  ∃ type before, .declaration (.value d) type name :: before <:+ past ∧
    bracesAfter before <:+ bracesAfter past

/-- At this moment every visible name of a value is that of a declared local. -/
def DeclaresAll (past : List Entry) : Prop :=
  ∀ d name, (.value d, name) ∈ bindingsAfter past → DeclaredAfter past d name

theorem DeclaredAfter.mono {past later : List Entry} {d : NodeId} {name : String}
    (h : DeclaredAfter past d name) (hlater : past <:+ later)
    (hbraces : bracesAfter past <:+ bracesAfter later) : DeclaredAfter later d name := by
  obtain ⟨type, before, hbefore, hopen⟩ := h
  exact ⟨type, before, hbefore.trans hlater, hopen.trans hbraces⟩

/-- From `start` to `now` braces were opened and closed in pairs, and all names of values that were
used were those of declared locals. -/
structure Settles (start now : List Entry) : Prop where
  braces : bracesAfter now = bracesAfter start
  declares : DeclaresAll start → DeclaresAll now
  uses : DeclaresAll start → ∀ id d name past, start <:+ past →
    .use id (.value d) name :: past <:+ now → DeclaredAfter past d name

namespace Settles

variable {start mid now : List Entry}

theorem refl (start : List Entry) : Settles start start where
  braces := rfl
  declares := id
  uses _ _ _ _ _ h h' := absurd h' (not_cons_suffix h)

theorem trans (hsuffix : mid <:+ now) (h : Settles start mid) (h' : Settles mid now) :
    Settles start now where
  braces := h'.braces.trans h.braces
  declares := h'.declares ∘ h.declares
  uses hstart id d name past hpast hnow := by
    rcases suffix_or_suffix_of_cons hsuffix hnow with hle | hle
    · exact h.uses hstart id d name past hpast hle
    · exact h'.uses (h.declares hstart) id d name past hle hnow

/-- One more entry. -/
theorem entry {e : Entry} (hscope : e.isScopeless) (hbrace : e.isBraceless)
    (huse : ∀ id key name, e = .use id key name → NamesAfter start key name) :
    Settles start (e :: start) where
  braces := bracesAfter_cons hbrace start
  declares h d name hmem := by
    rw [bindingsAfter_cons hscope] at hmem
    exact (h d name hmem).mono (List.suffix_cons _ _) (bracesAfter_cons hbrace start ▸
      List.suffix_rfl)
  uses h id d name past hstart hpast := by
    rcases List.suffix_cons_iff.mp hpast with heq | hpast
    · obtain ⟨rfl, rfl⟩ := List.cons.inj heq
      exact h d name (huse id (.value d) name rfl).mem
    · exact (refl start).uses h id d name past hstart hpast

/-- A local is declared once its name is bound, and no name is used before that. -/
theorem declare {id : NodeId} {name : String} (type : String) (hsuffix : start <:+ mid)
    (hbindings : bindingsAfter mid = (.value id, name) :: bindingsAfter start)
    (hbraces : bracesAfter mid = bracesAfter start)
    (huses : ∀ id key name past, start <:+ past → ¬ .use id key name :: past <:+ mid) :
    Settles start (.declaration (.value id) type name :: mid) where
  braces := hbraces
  declares h d name' hmem := by
    rw [bindingsAfter_cons rfl, hbindings] at hmem
    rcases List.mem_cons.mp hmem with heq | hmem
    · obtain ⟨hd, rfl⟩ := Prod.mk.inj heq
      obtain rfl := NameKey.value.inj hd
      exact ⟨type, mid, List.suffix_rfl, List.suffix_rfl⟩
    · exact (h d name' hmem).mono (hsuffix.trans (List.suffix_cons _ _)) (hbraces ▸
        List.suffix_rfl)
  uses _ id' d name' past hstart hpast := by
    rcases List.suffix_cons_iff.mp hpast with heq | hpast
    · cases heq
    · exact absurd hpast (huses id' (.value d) name' past hstart)

/-- A pair of braces with a scope of its own. -/
theorem braced {brace : Brace} (text : String)
    (hsuffix : .enterScope :: .opening brace :: start <:+ now)
    (hscopes : (scopesAfter now).tail = scopesAfter start)
    (h : Settles (.enterScope :: .opening brace :: start) now) :
    Settles start (.closing brace :: .text text :: .leaveScope :: now) := by
  have hbraces : (bracesAfter now).tail = bracesAfter start := congrArg List.tail h.braces
  have hopen : start <:+ .enterScope :: .opening brace :: start :=
    (List.suffix_cons _ _).trans (List.suffix_cons _ _)
  have hstart : start <:+ .closing brace :: .text text :: .leaveScope :: now :=
    (hopen.trans hsuffix).trans (((List.suffix_cons _ _).trans (List.suffix_cons _ _)).trans
      (List.suffix_cons _ _))
  refine ⟨hbraces, fun hdeclares d name hmem => ?_, fun hdeclares id d name past hpast hnow => ?_⟩
  · have hbindings : bindingsAfter (.closing brace :: .text text :: .leaveScope :: now) =
        bindingsAfter start := congrArg List.flatten hscopes
    rw [hbindings] at hmem
    exact (hdeclares d name hmem).mono hstart (hbraces.symm ▸ List.suffix_rfl)
  · simp only [List.suffix_cons_iff, reduceCtorEq, List.cons.injEq, false_and, false_or] at hnow
    rcases suffix_or_suffix_of_cons hsuffix hnow with hle | hle
    · simp only [List.suffix_cons_iff, reduceCtorEq, List.cons.injEq, false_and, false_or] at hle
      exact absurd hle (not_cons_suffix hpast)
    · refine h.uses (fun d name hmem => ?_) id d name past hle hnow
      exact (hdeclares d name hmem).mono hopen (List.suffix_cons _ _)

end Settles

end Lowering
