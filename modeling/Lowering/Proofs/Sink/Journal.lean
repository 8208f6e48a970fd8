import Lowering.Proofs.Emission.Views

/-!
# Moments of the journal

The journal of a sink tells what was written, what was bound and which braces were open at every
moment, not only at the end: the entries up to a moment are a suffix of the journal, the latest
entry first. Main statements: the text of an entry stands where the text before it ends; and what
the entries say of the present agrees with the scopes of the sink, whichever operation comes next.
-/

namespace Lowering

/-- The names bound in each open scope, inner scopes first. -/
def scopesAfter : List Entry → List (List (NameKey × String))
  | [] => [[]]
  | .enterScope :: past => [] :: scopesAfter past
  | .leaveScope :: past => (scopesAfter past).tail
  | .bind key name :: past =>
    match scopesAfter past with
    | [] => []
    | scope :: enclosing => ((key, name) :: scope) :: enclosing
  | _ :: past => scopesAfter past

/-- All visible bindings, latest first. -/
def bindingsAfter (past : List Entry) : List (NameKey × String) :=
  (scopesAfter past).flatten

/-- The positions of the braces that are open, inner ones first. -/
def bracesAfter : List Entry → List Nat
  | [] => []
  | .opening _ :: past => past.length :: bracesAfter past
  | .closing _ :: past => (bracesAfter past).tail
  | _ :: past => bracesAfter past

/-! ## What was written -/

/-- What is written when the entries `added` come to a journal, latest first. -/
def writtenBy (added : List Entry) : String :=
  String.join (added.reverse.map (·.written))

@[simp] theorem writtenBy_nil : writtenBy [] = "" := rfl

theorem writtenBy_cons (e : Entry) (added : List Entry) :
    writtenBy (e :: added) = writtenBy added ++ e.written := by
  simp [writtenBy, String.join_append]

theorem writtenBy_append (later added : List Entry) :
    writtenBy (later ++ added) = writtenBy added ++ writtenBy later := by
  simp [writtenBy, String.join_append]

theorem exists_suffix_of_mem {e : Entry} {journal : List Entry} (h : e ∈ journal) :
    ∃ past, e :: past <:+ journal := by
  obtain ⟨later, past, rfl⟩ := List.append_of_mem h
  exact ⟨past, later, rfl⟩

/-- In `source`, what the entries `past` write is followed by `text`. -/
def TextAt (source : String) (past : List Entry) (text : String) : Prop :=
  ∃ after, source = writtenBy past ++ text ++ after

theorem textAt_of_suffix {e : Entry} {past later : List Entry} (h : e :: past <:+ later) :
    TextAt (writtenBy later) past e.written := by
  obtain ⟨added, rfl⟩ := h
  exact ⟨writtenBy added, by rw [writtenBy_append, writtenBy_cons]⟩

theorem Sink.textAt {s : Sink} {e : Entry} {past : List Entry} (h : e :: past <:+ s.journal) :
    TextAt s.text past e.written :=
  textAt_of_suffix h

/-- Every brace that was opened or closed stands in the text. -/
def BracesWritten (past : List Entry) : Prop :=
  ∀ brace earlier, (.opening brace :: earlier <:+ past → TextAt (writtenBy past) earlier "\x7b") ∧
    (.closing brace :: earlier <:+ past → TextAt (writtenBy past) earlier "\x7d")

theorem bracesWritten (past : List Entry) : BracesWritten past :=
  fun _ _ => ⟨textAt_of_suffix, textAt_of_suffix⟩

theorem Sink.text_of_journal {s t : Sink} {added : List Entry}
    (h : t.journal = added ++ s.journal) : t.text = s.text ++ writtenBy added := by
  change writtenBy t.journal = writtenBy s.journal ++ writtenBy added
  rw [h, writtenBy_append]

/-! ## Moments -/

namespace Entry

/-- The entry changes no scope. -/
def isScopeless : Entry → Bool
  | .enterScope | .leaveScope | .bind .. => false
  | _ => true

/-- The entry is no brace. -/
def isBraceless : Entry → Bool
  | .opening _ | .closing _ => false
  | _ => true

/-- The entry neither uses a name nor reads or assigns a field, it completes no effect, and it
declares no local for a value and starts no return. -/
def isQuiet : Entry → Bool
  | .use .. | .field .. | .effect _ | .declaration (.value _) .. | .implicitReturn => false
  | _ => true

end Entry

theorem scopesAfter_cons {e : Entry} (he : e.isScopeless) (past : List Entry) :
    scopesAfter (e :: past) = scopesAfter past := by
  cases e with
  | enterScope | leaveScope | bind => cases he
  | _ => rfl

theorem bindingsAfter_cons {e : Entry} (he : e.isScopeless) (past : List Entry) :
    bindingsAfter (e :: past) = bindingsAfter past := by
  rw [bindingsAfter, scopesAfter_cons he, bindingsAfter]

theorem bracesAfter_cons {e : Entry} (he : e.isBraceless) (past : List Entry) :
    bracesAfter (e :: past) = bracesAfter past := by
  cases e with
  | opening | closing => cases he
  | _ => rfl

theorem scopesAfter_bind {past : List Entry} {scope : List (NameKey × String)}
    {enclosing : List (List (NameKey × String))} (h : scopesAfter past = scope :: enclosing)
    (key : NameKey) (name : String) :
    scopesAfter (.bind key name :: past) = ((key, name) :: scope) :: enclosing := by
  simp [scopesAfter, h]

theorem bindingsAfter_bind {past : List Entry} (h : scopesAfter past ≠ []) (key : NameKey)
    (name : String) :
    bindingsAfter (.bind key name :: past) = (key, name) :: bindingsAfter past := by
  cases hscopes : scopesAfter past with
  | nil => exact absurd hscopes h
  | cons scope enclosing => simp [bindingsAfter, scopesAfter_bind hscopes, hscopes]

/-- What holds at the moments from `start` to `now` holds at those to the next one if it holds
then. -/
theorem forall_moments_cons {start now : List Entry} {e : Entry} {P : List Entry → Prop}
    (h : ∀ past, start <:+ past → past <:+ now → P past) (hlast : P (e :: now)) (past : List Entry)
    (hstart : start <:+ past) (hpast : past <:+ e :: now) : P past := by
  rcases List.suffix_cons_iff.mp hpast with rfl | hpast
  · exact hlast
  · exact h past hstart hpast

/-- A moment between two others is before or after any third one between them. -/
theorem forall_moments_trans {start mid now : List Entry} {P : List Entry → Prop}
    (hmid : mid <:+ now) (h : ∀ past, start <:+ past → past <:+ mid → P past)
    (h' : ∀ past, mid <:+ past → past <:+ now → P past) (past : List Entry)
    (hstart : start <:+ past) (hpast : past <:+ now) : P past := by
  rcases List.suffix_or_suffix_of_suffix hpast hmid with hle | hle
  · exact h past hstart hle
  · exact h' past hle hpast

namespace Sink

/-- The visible bindings, latest first. -/
def bindings (s : Sink) : List (NameKey × String) :=
  s.scopes.flatMap (·.names)

@[simp] theorem bindings_openScope (s : Sink) : s.openScope.bindings = s.bindings := rfl

/-- The journal tells which scopes are open and what they bind. -/
def Faithful (s : Sink) : Prop :=
  s.scopes.map (·.names) = scopesAfter s.journal

theorem Faithful.bindings_eq {s : Sink} (h : s.Faithful) :
    s.bindings = bindingsAfter s.journal := by
  rw [bindings, bindingsAfter, ← h, List.flatMap_def]

theorem reserved_eq (s : Sink) : s.reserved = s.bindings.map (·.2) := by
  simp only [reserved, bindings, List.map_flatMap]
  rfl

private theorem findSome?_lookup (scopes : List Scope) (key : NameKey) :
    scopes.findSome? (·.names.lookup key) = (scopes.flatMap (·.names)).lookup key := by
  induction scopes with
  | nil => rfl
  | cons scope scopes ih =>
    rw [List.findSome?_cons, List.flatMap_cons, List.lookup_append, ih]
    cases scope.names.lookup key <;> rfl

/-- A name is looked up among the visible bindings. -/
theorem name?_eq (s : Sink) (key : NameKey) : s.name? key = s.bindings.lookup key :=
  findSome?_lookup s.scopes key

section

variable {s : Sink} (h : s.Faithful)
include h

theorem Faithful.write {e : Entry} (he : e.isScopeless) : (s.write e).Faithful :=
  h.trans (scopesAfter_cons he s.journal).symm

theorem Faithful.scopesAfter_ne_nil : scopesAfter s.journal ≠ [] :=
  h ▸ List.cons_ne_nil _ _

theorem Faithful.scopesAfter_eq :
    scopesAfter s.journal = s.scope.names :: s.enclosing.map (·.names) :=
  h.symm

theorem Faithful.bind (key : NameKey) (name : String) : (s.bind key name).Faithful :=
  (scopesAfter_bind h.scopesAfter_eq key name).symm

theorem Faithful.openScope : s.openScope.Faithful :=
  congrArg ([] :: ·) h

theorem Faithful.closeScope : s.closeScope.Faithful := by
  cases henclosing : s.enclosing with
  | nil => simpa [Sink.closeScope, henclosing] using h
  | cons scope enclosing =>
    simp [Sink.closeScope, henclosing, Faithful, scopes, scopesAfter, h.scopesAfter_eq, Sink.write]

end

end Sink

end Lowering
