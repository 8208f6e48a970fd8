import Lowering.Assoc
import Lowering.Host.TypeHash

/-! # The class hierarchy

Known classes, keyed by the hash of their name, and the walk up their super classes and interfaces.
A class that is not known has no super types besides the root. -/

namespace Lowering

structure ClassDecl where
  name : String
  superClass : Option String := none
  interfaces : List String := []
deriving DecidableEq, Repr

/-- The names right above a class: its super class, then its interfaces. -/
def ClassDecl.parents (c : ClassDecl) : List String :=
  c.superClass.toList ++ c.interfaces

structure Hierarchy where
  classes : List (TypeHash × ClassDecl) := []

namespace Hierarchy

def empty : Hierarchy := {}

def size (h : Hierarchy) : Nat :=
  h.classes.length

def isEmpty (h : Hierarchy) : Bool :=
  h.classes.isEmpty

/-- Add a class, in place of the one whose name has the same hash. -/
def register (h : Hierarchy) (c : ClassDecl) : Hierarchy :=
  ⟨Assoc.put (.ofName c.name) c h.classes⟩

def find? (h : Hierarchy) (name : String) : Option ClassDecl :=
  h.classes.lookup (.ofName name)

@[simp] theorem find?_register_self (h : Hierarchy) (c : ClassDecl) :
    (h.register c).find? c.name = some c := by
  simp [find?, register]

theorem find?_register_of_ne (h : Hierarchy) {c : ClassDecl} {name : String}
    (hne : TypeHash.ofName name ≠ TypeHash.ofName c.name) :
    (h.register c).find? name = h.find? name :=
  Assoc.lookup_put_of_ne hne c h.classes

def contains (h : Hierarchy) (name : String) : Bool :=
  (h.find? name).isSome

/-- The type of a known class. -/
def declaredType? (h : Hierarchy) (name : String) : Option HostType :=
  (h.find? name).map fun c => .named c.name

def parents (h : Hierarchy) (name : String) : List String :=
  match h.find? name with
  | some c => c.parents
  | none => []

/-- The names of `queue` and all above them, nearest first and each once, in at most `steps` steps.
Neither the root nor the names in `seen` are listed or walked through. -/
def walk (h : Hierarchy) : Nat → List String → List String → List String
  | 0, _, _ => []
  | _ + 1, _, [] => []
  | steps + 1, seen, name :: queue =>
    if name = HostType.objectName ∨ name ∈ seen then h.walk steps seen queue
    else name :: h.walk steps (name :: seen) (queue ++ h.parents name)

/-- Enough steps for any walk from one name: every name is walked through once, and there are no
more names than edges and the starting name. -/
def walkBound (h : Hierarchy) : Nat :=
  let edges := h.classes.foldr (fun entry count => entry.2.parents.length + count) 0
  (edges + 1) * edges + 2

/-- A name and all above it, nearest first, and the root last. -/
def ancestors (h : Hierarchy) (name : String) : List String :=
  h.walk h.walkBound [] [name] ++ [HostType.objectName]

private theorem objectName_not_mem_walk (h : Hierarchy) (steps : Nat) (seen queue : List String) :
    HostType.objectName ∉ h.walk steps seen queue := by
  induction steps generalizing seen queue with
  | zero => simp [walk]
  | succ steps ih =>
    cases queue with
    | nil => simp [walk]
    | cons name queue =>
      rw [walk]
      split
      · exact ih seen queue
      · rename_i hnew
        intro hmem
        rcases List.mem_cons.mp hmem with heq | hmem
        · exact hnew (.inl heq.symm)
        · exact ih _ _ hmem

/-- Only the last ancestor is the root. -/
theorem exists_ancestors_eq (h : Hierarchy) (name : String) :
    ∃ below, h.ancestors name = below ++ [HostType.objectName] ∧ HostType.objectName ∉ below :=
  ⟨_, rfl, h.objectName_not_mem_walk _ _ _⟩

theorem mem_ancestors_self (h : Hierarchy) (name : String) : name ∈ h.ancestors name := by
  by_cases hroot : name = HostType.objectName
  · exact List.mem_append_right _ (List.mem_singleton.mpr hroot)
  · refine List.mem_append_left _ ?_
    simp [walkBound, walk, hroot]

private theorem mem_walk_cases {h : Hierarchy} {steps : Nat} {seen queue : List String}
    {name : String} (hname : name ∈ h.walk steps seen queue) :
    name ∈ queue ∨ ∃ below ∈ h.walk steps seen queue, name ∈ h.parents below := by
  induction steps generalizing seen queue with
  | zero => simp [walk] at hname
  | succ steps ih =>
    cases queue with
    | nil => simp [walk] at hname
    | cons first queue =>
      rw [walk] at hname ⊢
      split at hname <;> rename_i hfirst
      · rw [if_pos hfirst]
        exact (ih hname).imp_left (List.mem_cons_of_mem _)
      · rw [if_neg hfirst]
        rcases List.mem_cons.mp hname with rfl | hname
        · exact .inl List.mem_cons_self
        rcases ih hname with hqueue | ⟨below, hbelow, hparent⟩
        · rcases List.mem_append.mp hqueue with hqueue | hparent
          · exact .inl (List.mem_cons_of_mem _ hqueue)
          · exact .inr ⟨first, List.mem_cons_self, hparent⟩
        · exact .inr ⟨below, List.mem_cons_of_mem _ hbelow, hparent⟩

/-- An ancestor is right above another one, unless it is the name itself or the root. -/
theorem mem_ancestors_cases {h : Hierarchy} {name above : String}
    (habove : above ∈ h.ancestors name) (hroot : above ≠ HostType.objectName) :
    above = name ∨ ∃ below ∈ h.ancestors name, above ∈ h.parents below := by
  have hwalk : above ∈ h.walk h.walkBound [] [name] := by
    simpa [ancestors, hroot] using habove
  rcases mem_walk_cases hwalk with hself | ⟨below, hbelow, hparent⟩
  · exact .inl (List.mem_singleton.mp hself)
  · exact .inr ⟨below, List.mem_append_left _ hbelow, hparent⟩

/-- `sub` is `sup` or has it above it; the root is above everything. -/
def isSubclass (h : Hierarchy) (sub sup : String) : Bool :=
  sup == HostType.objectName || (h.ancestors sub).contains sup

end Hierarchy

end Lowering
