import Mathlib.Logic.Relation
import Lowering.Proofs.Emission.Lasting

/-!
# Runs of a sink

A run takes a sink from one operation to the next. Every operation keeps what was written and
recorded before it. Main statements: a run only adds to the text and to the regions, and every
emission is a run, whether or not it fails.
-/

namespace Lowering

namespace Sink

/-- One operation. A region starts somewhere in the text that there is, and ends with it. -/
inductive Step : Sink → Sink → Prop
  | write (s : Sink) (e : Entry) : Step s (s.write e)
  | indent (s : Sink) : Step s s.indent
  | dedent (s : Sink) : Step s s.dedent
  | openScope (s : Sink) : Step s s.openScope
  | closeScope (s : Sink) : Step s s.closeScope
  | bind (s : Sink) (key : NameKey) (name : String) : Step s (s.bind key name)
  | setObject (s : Sink) (key : String) (type : HostType) : Step s (s.setObject key type)
  | freshKey (s : Sink) : Step s s.freshKey.2
  | finishRegion (s : Sink) (id : NodeId) {offset : Nat} (debug : Bool) :
      offset ≤ s.size → Step s (s.finishRegion id offset debug)

/-- Any number of operations. -/
abbrev Steps : Sink → Sink → Prop :=
  Relation.ReflTransGen Step

variable {s t : Sink}

theorem Step.retains (h : s.Step t) : s.Retains t := by
  cases h with
  | write | openScope | bind => exact (Retains.refl s).snoc rfl rfl
  | closeScope => exact .closeScope s
  | finishRegion => exact ⟨List.suffix_rfl, List.suffix_cons _ _⟩
  | _ => exact ⟨List.suffix_rfl, List.suffix_rfl⟩

/-- A run takes nothing away. -/
theorem Steps.retains (h : s.Steps t) : s.Retains t := by
  induction h with
  | refl => exact .refl s
  | tail _ hstep ih => exact ih.trans hstep.retains

end Sink

/-- Emission is made of single operations. -/
theorem Emit.law_steps : SinkLaw Sink.Steps Sink.Steps where
  refl _ := .refl
  trans := .trans
  stop _ := .refl
  thenStop := .trans
  write s e _ _ := .single (.write s e)
  bind s key name _ := .single (.bind s key name)
  bindFreshKey s name := .tail (.single (.freshKey s)) (.bind _ _ name)
  setObject s key type := .single (.setObject s key type)
  region id debug h := h.tail (.finishRegion _ id debug h.retains.size_le)
  scope h := (h.head (.openScope _)).tail (.closeScope _)
  scopeStop h := (h.head (.openScope _)).tail (.closeScope _)
  enclose h := (((((h.head (.indent _)).head (.write _ _)).tail (.dedent _)).tail
    (.write _ _))).tail (.write _ _)
  encloseStop h := (h.head (.indent _)).head (.write _ _)

end Lowering
