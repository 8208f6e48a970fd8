import Lowering.Sink.Entry

/-! # The sink

Where generated text goes: what was written, the current indentation, the open scopes, and the
regions of the text that belong to nodes. The outermost scope never closes. -/

namespace Lowering

/-- The stretch of text that was written for a node, in UTF-8 bytes. -/
structure Region where
  id : NodeId
  offset : Nat
  length : Nat
  debug : Bool
deriving DecidableEq, Repr, Inhabited

structure Sink where
  /-- The text of one level of indentation. -/
  unit : String := "  "
  level : Nat := 0
  /-- The innermost scope. -/
  scope : Scope := {}
  /-- The scopes around it, inner ones first. -/
  enclosing : List Scope := []
  /-- Everything written, latest first. -/
  journal : List Entry := []
  /-- Finished regions, latest first. -/
  finished : List Region := []
  nextSynthetic : Nat := 0
deriving DecidableEq, Repr, Inhabited

namespace Sink

/-- All open scopes, inner ones first. -/
def scopes (s : Sink) : List Scope :=
  s.scope :: s.enclosing

def depth (s : Sink) : Nat :=
  s.scopes.length

/-- The whole text. -/
def text (s : Sink) : String :=
  String.join (s.journal.reverse.map (·.written))

/-- The length of the text in UTF-8 bytes. -/
def size (s : Sink) : Nat :=
  s.journal.foldr (·.size + ·) 0

/-- The regions in the order in which they were finished. -/
def regions (s : Sink) : List Region :=
  s.finished.reverse

def write (s : Sink) (e : Entry) : Sink :=
  { s with journal := e :: s.journal }

@[simp] theorem text_write (s : Sink) (e : Entry) :
    (s.write e).text = s.text ++ e.written := by
  simp [text, write, String.join_append]

@[simp] theorem size_write (s : Sink) (e : Entry) : (s.write e).size = s.size + e.size := by
  simp [size, write, Nat.add_comm]

/-- Sizes are those of the text. -/
theorem size_eq (s : Sink) : s.size = s.text.utf8ByteSize := by
  obtain ⟨unit, level, scope, enclosing, journal, finished, next⟩ := s
  simp only [size, text]
  induction journal with
  | nil => rfl
  | cons e journal ih =>
    rw [List.foldr_cons, ih, List.reverse_cons, List.map_append, String.join_append,
      String.utf8ByteSize_append, Nat.add_comm]
    simp [Entry.size]

def append (s : Sink) (text : String) : Sink :=
  s.write (.text text)

/-- A line break and the indentation of the new line. -/
def newLine (s : Sink) : Sink :=
  s.append ("\n" ++ String.join (List.replicate s.level s.unit))

def indent (s : Sink) : Sink :=
  { s with level := s.level + 1 }

def dedent (s : Sink) : Sink :=
  { s with level := s.level - 1 }

def openScope (s : Sink) : Sink :=
  { s.write .enterScope with scope := {}, enclosing := s.scope :: s.enclosing }

/-- Close the innermost scope, unless it is the outermost one. -/
def closeScope (s : Sink) : Sink :=
  match s.enclosing with
  | [] => s
  | scope :: enclosing => { s.write .leaveScope with scope, enclosing }

@[simp] theorem scopes_openScope (s : Sink) : s.openScope.scopes = {} :: s.scopes := rfl

theorem scopes_closeScope_of_ne_nil {s : Sink} (h : s.enclosing ≠ []) :
    s.closeScope.scopes = s.enclosing := by
  cases henclosing : s.enclosing with
  | nil => exact absurd henclosing h
  | cons scope enclosing => simp [closeScope, henclosing, scopes]

/-- The names reserved by any open scope. -/
def reserved (s : Sink) : List String :=
  s.scopes.flatMap (·.reserved)

def bind (s : Sink) (key : NameKey) (name : String) : Sink :=
  { s.write (.bind key name) with scope := s.scope.bind key name }

@[simp] theorem reserved_bind (s : Sink) (key : NameKey) (name : String) :
    (s.bind key name).reserved = name :: s.reserved := rfl

/-- Bind `key` to a name made from `proposed` that no open scope reserves. -/
def bindFresh (s : Sink) (key : NameKey) (proposed : String) : String × Sink :=
  let name := freshName s.reserved proposed
  (name, s.bind key name)

/-- The next number for a synthetic key. -/
def freshKey (s : Sink) : NameKey × Sink :=
  (.synthetic s.nextSynthetic, { s with nextSynthetic := s.nextSynthetic + 1 })

/-- The innermost binding of a key. -/
def name? (s : Sink) (key : NameKey) : Option String :=
  s.scopes.findSome? (·.names.lookup key)

@[simp] theorem name?_bind_self (s : Sink) (key : NameKey) (name : String) :
    (s.bind key name).name? key = some name := by
  simp [name?, bind, scopes, Scope.bind, write]

theorem name?_bind_of_ne (s : Sink) {key other : NameKey} (hne : other ≠ key) (name : String) :
    (s.bind key name).name? other = s.name? other := by
  have hother : (other == key) = false := by simpa using hne
  simp [name?, bind, scopes, Scope.bind, write, List.findSome?_cons, List.lookup_cons, hother]

/-- A node has a name that stands for its value. -/
def isNamed (s : Sink) (id : NodeId) : Bool :=
  (s.name? (.value id)).isSome

def setObject (s : Sink) (key : String) (type : HostType) : Sink :=
  { s with scope := s.scope.setObject key type }

def object? (s : Sink) (key : String) : Option HostType :=
  s.scopes.findSome? (·.objects.lookup key)

/-- The text since `offset` belongs to node `id`. -/
def finishRegion (s : Sink) (id : NodeId) (offset : Nat) (debug : Bool) : Sink :=
  { s with finished := ⟨id, offset, s.size - offset, debug⟩ :: s.finished }

end Sink

end Lowering
