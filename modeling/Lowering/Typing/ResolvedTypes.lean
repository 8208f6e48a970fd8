import Lowering.Assoc
import Lowering.Failure
import Lowering.Hierarchy.Subtyping
import Lowering.Tree.Feature
import Lowering.Typing.Expectation

/-! # Resolved types

The types of nodes, one for each expectation under which a node was typed. A second type under one
expectation is merged into the first. -/

namespace Lowering

structure Resolution where
  expectation : Expectation
  actual : HostType
  conformance : Conformance
  isReturn : Bool
deriving DecidableEq, Repr, Inhabited

namespace Resolution

/-- A type that tells nothing about a value. -/
def isBlank (r : Resolution) : Bool :=
  r.actual.isVoid || r.actual.isAny

/-- The offer `new` merged into `old` under one expectation. Blank types give way to others, and
different types widen to their join unless either was to be exact. -/
def merge (h : Hierarchy) (span : Span) (old new : Resolution) : Except Failure Resolution :=
  if old.actual = new.actual ∨ new.isBlank then .ok old
  else if old.isBlank then .ok new
  else if old.conformance = .exact ∨ new.conformance = .exact then
    .error (.conflict old.actual new.actual span)
  else
    .ok {
      expectation := old.expectation
      actual := h.join old.actual new.actual
      conformance := if new.conformance = .conversion then .conversion else old.conformance
      isReturn := old.isReturn || new.isReturn }

/-- Merge an offer into the resolution with its expectation, or add it at the end. -/
def mergeInto (h : Hierarchy) (span : Span) (offer : Resolution) :
    List Resolution → Except Failure (List Resolution)
  | [] => .ok [offer]
  | r :: rs =>
    if r.expectation = offer.expectation then
      (r.merge h span offer).map (· :: rs)
    else (mergeInto h span offer rs).map (r :: ·)

end Resolution

/-- The resolutions of nodes, in order of first mention. -/
structure ResolvedTypes where
  entries : List (NodeId × List Resolution) := []
deriving Repr, Inhabited

namespace ResolvedTypes

def resolutions (t : ResolvedTypes) (id : NodeId) : List Resolution :=
  (t.entries.lookup id).getD []

/-- Record an offer for a node. -/
def accept (h : Hierarchy) (t : ResolvedTypes) (id : NodeId) (span : Span) (offer : Resolution) :
    Except Failure ResolvedTypes :=
  (Resolution.mergeInto h span offer (t.resolutions id)).map fun rs =>
    ⟨Assoc.put id rs t.entries⟩

/-- An accepted offer is merged into the resolutions of its node. -/
theorem resolutions_accept {h : Hierarchy} {t t' : ResolvedTypes} {id : NodeId} {span : Span}
    {offer : Resolution} (haccept : t.accept h id span offer = .ok t') :
    Resolution.mergeInto h span offer (t.resolutions id) = .ok (t'.resolutions id) := by
  cases hmerge : Resolution.mergeInto h span offer (t.resolutions id) with
  | error failure => simp [accept, hmerge, Except.map] at haccept
  | ok rs =>
    simp only [accept, hmerge, Except.map, Except.ok.injEq] at haccept
    simp [← haccept, resolutions]

/-- Other nodes keep their resolutions. -/
theorem resolutions_accept_of_ne {h : Hierarchy} {t t' : ResolvedTypes} {id other : NodeId}
    {span : Span} {offer : Resolution} (haccept : t.accept h id span offer = .ok t')
    (hne : other ≠ id) : t'.resolutions other = t.resolutions other := by
  cases hmerge : Resolution.mergeInto h span offer (t.resolutions id) with
  | error failure => simp [accept, hmerge, Except.map] at haccept
  | ok rs =>
    simp only [accept, hmerge, Except.map, Except.ok.injEq] at haccept
    simp only [← haccept, resolutions, Assoc.lookup_put_of_ne hne]

def resolution? (t : ResolvedTypes) (id : NodeId) (e : Expectation) : Option Resolution :=
  (t.resolutions id).find? (·.expectation = e)

/-- The type of a node under its first expectation. -/
def actual? (t : ResolvedTypes) (id : NodeId) : Option HostType :=
  (t.resolutions id).head?.map (·.actual)

/-- The type that was asked for by the first expectation of a node. -/
def expected? (t : ResolvedTypes) (id : NodeId) : Option HostType :=
  (t.resolutions id).head?.bind (·.expectation.type)

def contains (t : ResolvedTypes) (id : NodeId) : Bool :=
  (t.entries.lookup id).isSome

def size (t : ResolvedTypes) : Nat :=
  t.entries.length

def isEmpty (t : ResolvedTypes) : Bool :=
  t.entries.isEmpty

/-- The entries by ascending node. -/
def ascending (t : ResolvedTypes) : List (NodeId × List Resolution) :=
  t.entries.mergeSort (·.1 ≤ ·.1)

end ResolvedTypes

end Lowering
