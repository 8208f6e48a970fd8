import Lowering.Proofs.Emission.Course
import Lowering.Proofs.Emission.Views

/-!
# Events in the journal

The journal of a sink read as events: the names that were written for locals, parameters and
instances, and the effects whose text is complete. Main statements: what each operation adds, and
which values of nodes are bound while a part of a tree is written.
-/

namespace Lowering

/-- What an entry does. The name that a node has for its own value is no event. -/
def Entry.event? : Entry → Option Event
  | .use id key _ => if key = .value id then none else some (.use id)
  | .effect id => some (.effect id)
  | _ => none

/-- The node whose effect is complete. -/
def Event.effect? : Event → Option NodeId
  | .use _ => none
  | .effect id => some id

namespace Sink

/-- All events, first one first. -/
def events (s : Sink) : List Event :=
  s.journal.reverse.filterMap Entry.event?

theorem effects_eq (s : Sink) : s.effects = s.events.filterMap Event.effect? := by
  rw [effects, events, List.filterMap_filterMap]
  congr 1
  funext e
  cases e with
  | use id key name =>
    simp only [Entry.effect?, Entry.event?]
    split <;> rfl
  | _ => rfl

section

variable (s : Sink)

@[simp] theorem events_write (e : Entry) : (s.write e).events = s.events ++ e.event?.toList := by
  cases h : e.event? <;> simp [events, write, h]

@[simp] theorem events_append (text : String) : (s.append text).events = s.events := by
  simp [append, Entry.event?]

@[simp] theorem events_newLine : s.newLine.events = s.events := by
  simp [newLine]

@[simp] theorem events_indent : s.indent.events = s.events := rfl
@[simp] theorem events_dedent : s.dedent.events = s.events := rfl
@[simp] theorem events_finishRegion (id : NodeId) (offset : Nat) (debug : Bool) :
    (s.finishRegion id offset debug).events = s.events := rfl

@[simp] theorem events_openScope : s.openScope.events = s.events := by
  change (s.write .enterScope).events = s.events
  simp [Entry.event?]

@[simp] theorem events_closeScope : s.closeScope.events = s.events := by
  cases h : s.enclosing with
  | nil => simp [closeScope, h]
  | cons scope enclosing =>
    simp only [closeScope, h]
    change (s.write .leaveScope).events = s.events
    simp [Entry.event?]

@[simp] theorem events_bind (key : NameKey) (name : String) :
    (s.bind key name).events = s.events := by
  change (s.write (.bind key name)).events = s.events
  simp [Entry.event?]

end

/-! ## Bound values -/

/-- None of `ids` has a name for its value. -/
def Lacks (s : Sink) (ids : List NodeId) : Prop :=
  ∀ i ∈ ids, ¬ s.Binds (.value i)

/-- `t` has the scopes of `s`, except that the innermost one may bind more, of values only those of
`ids`. -/
structure Gains (ids : List NodeId) (s t : Sink) : Prop extends s.Extends t where
  fresh : ∀ i, t.Binds (.value i) → s.Binds (.value i) ∨ i ∈ ids

variable {s t u : Sink} {ids ids' : List NodeId}

theorem Gains.of_scopes (h : t.scopes = s.scopes) : s.Gains ids t :=
  ⟨.of_scopes h, fun _ hi => .inl ((binds_congr h _).mp hi)⟩

theorem Gains.mono (h : Gains ids s t) (hids : ids ⊆ ids') : Gains ids' s t :=
  ⟨h.toExtends, fun i hi => (h.fresh i hi).imp_right fun hmem => hids hmem⟩

theorem Gains.trans (h : Gains ids s t) (h' : Gains ids' t u) : Gains (ids ++ ids') s u where
  toExtends := h.toExtends.trans h'.toExtends
  fresh i hi := by
    rcases h'.fresh i hi with hi | hmem
    · exact (h.fresh i hi).imp_right (List.mem_append_left _)
    · exact .inr (List.mem_append_right _ hmem)

theorem gains_bind (s : Sink) (id : NodeId) (name : String) :
    s.Gains [id] (s.bind (.value id) name) where
  toExtends := s.extends_bind _ name
  fresh i hi := by
    by_cases h : i = id
    · exact .inr (List.mem_singleton.mpr h)
    · rw [Binds, name?_bind_of_ne s (fun heq => h (NameKey.value.inj heq))] at hi
      exact .inl hi

theorem Lacks.gains (h : s.Lacks ids) (ht : s.Gains ids' t) (hids : ids.Disjoint ids') :
    t.Lacks ids :=
  fun i hi hbinds => (ht.fresh i hbinds).elim (h i hi) (hids hi)

theorem Lacks.subset (h : s.Lacks ids) (hids : ids' ⊆ ids) : s.Lacks ids' :=
  fun i hi => h i (hids hi)

theorem Lacks.of_scopes (h : s.Lacks ids) (ht : t.scopes = s.scopes) : t.Lacks ids :=
  fun i hi hbinds => h i hi ((binds_congr ht _).mp hbinds)

theorem Lacks.openScope (h : s.Lacks ids) : s.openScope.Lacks ids :=
  fun i hi hbinds => h i hi ((binds_openScope s _).mp hbinds)

end Sink

end Lowering
