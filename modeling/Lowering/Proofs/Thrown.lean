import Lowering.Emission.Body
import Lowering.Proofs.Tree.Occurrences

/-!
# Exceptions that a function lets escape

A tree throws what its invocations and constructions declare and the values that it throws itself.
Main statements: which exceptions of a tree are unhandled, and that a function needs a clause that
throws again just if its tree lets one escape that the host does not allow it to throw.
-/

namespace Lowering

/-- Evaluating the node itself may throw a `t`. -/
inductive ResolvedTypes.Throws (types : ResolvedTypes) : Expr → HostType → Prop
  | invocation {node : Node} {feature : Feature} {receiver : Option Expr} {args : List Expr}
      {t : WrittenType} (hinvocation : feature.isInvocation) (hdeclared : t ∈ feature.throws) :
      Throws types (.call node feature receiver args) t.resolve
  | construction {node : Node} {type : WrittenType} {params throws : List WrittenType}
      {args : List Expr} {t : WrittenType} (hdeclared : t ∈ throws) :
      Throws types (.construct node type params throws args) t.resolve
  | raise {node : Node} {value : Expr} : Throws types (.raise node value) (types.typeOf value)

/-- The host allows a function that declares `declared` to throw a `t`. -/
def Hierarchy.Permits (h : Hierarchy) (declared : List HostType) (t : HostType) : Prop :=
  h.isSubtype t (.named runtimeExceptionName) ∨ h.isSubtype t (.named errorName) ∨
    ∃ d ∈ declared, h.isSubtype t d

/-- Some node of the tree may throw what a function that declares `declared` must not. -/
def Hierarchy.LetsEscape (h : Hierarchy) (types : ResolvedTypes) (declared : List HostType)
    (e : Expr) : Prop :=
  ∃ part ∈ e.occurrences, ∃ t, types.Throws part t ∧ ¬ h.Permits declared t

theorem ResolvedTypes.mem_thrownBy {types : ResolvedTypes} {e : Expr} {t : HostType} :
    t ∈ types.thrownBy e ↔ types.Throws e t := by
  constructor
  · intro h
    cases e with
    | call node feature receiver args =>
      rw [thrownBy] at h
      split at h
      · rename_i hinvocation
        rw [WrittenType.resolveAll_eq_map] at h
        obtain ⟨written, hwritten, rfl⟩ := List.mem_map.mp h
        exact .invocation hinvocation hwritten
      · cases h
    | construct node type params throws args =>
      rw [thrownBy, WrittenType.resolveAll_eq_map] at h
      obtain ⟨written, hwritten, rfl⟩ := List.mem_map.mp h
      exact .construction hwritten
    | raise node value =>
      obtain rfl := List.mem_singleton.mp h
      exact .raise
    | _ => cases h
  · intro h
    cases h with
    | invocation hinvocation hdeclared =>
      rw [thrownBy, if_pos hinvocation, WrittenType.resolveAll_eq_map]
      exact List.mem_map_of_mem hdeclared
    | construction hdeclared =>
      rw [thrownBy, WrittenType.resolveAll_eq_map]
      exact List.mem_map_of_mem hdeclared
    | raise => exact List.mem_singleton_self _

namespace Hierarchy

variable {h : Hierarchy} {types : ResolvedTypes} {declared more : List HostType} {e part : Expr}
  {t : HostType}

theorem Permits.mono (hdeclared : declared ⊆ more) (ht : h.Permits declared t) :
    h.Permits more t := by
  rcases ht with hruntime | herror | ⟨d, hd, hsub⟩
  · exact .inl hruntime
  · exact .inr (.inl herror)
  · exact .inr (.inr ⟨d, hdeclared hd, hsub⟩)

/-- A function that declares more lets less escape. -/
theorem LetsEscape.anti (hdeclared : declared ⊆ more) (he : h.LetsEscape types more e) :
    h.LetsEscape types declared e := by
  obtain ⟨part, hpart, t, hthrows, ht⟩ := he
  exact ⟨part, hpart, t, hthrows, mt (.mono hdeclared) ht⟩

/-- What a part of a tree lets escape, the tree does. -/
theorem LetsEscape.mono (hpart : part ∈ e.occurrences)
    (hescapes : h.LetsEscape types declared part) : h.LetsEscape types declared e := by
  obtain ⟨below, hbelow, t, hthrows, ht⟩ := hescapes
  exact ⟨below, Expr.occurrences_subset hpart hbelow, t, hthrows, ht⟩

/-- The unhandled exceptions of a tree are those that must not escape. -/
theorem mem_unhandled : t ∈ h.unhandled (types.thrownTypes e) declared ↔
    (∃ part ∈ e.occurrences, types.Throws part t) ∧ ¬ h.Permits declared t := by
  simp only [unhandled, ResolvedTypes.thrownTypes, List.mem_eraseDups, List.mem_filter,
    List.mem_flatMap, ResolvedTypes.mem_thrownBy, Expr.cons_descendants, Permits]
  simp

end Hierarchy

/-- Just where a checked exception would escape, it has to be caught and thrown again. -/
theorem Env.needsRethrow_iff {env : Env} {e : Expr} {declared : List HostType} :
    env.needsRethrow e declared ↔ env.hierarchy.LetsEscape env.types declared e := by
  rw [needsRethrow, Bool.not_eq_true', List.isEmpty_eq_false_iff_exists_mem]
  constructor
  · rintro ⟨t, ht⟩
    obtain ⟨⟨part, hpart, hthrows⟩, hescapes⟩ := Hierarchy.mem_unhandled.mp ht
    exact ⟨part, hpart, t, hthrows, hescapes⟩
  · rintro ⟨part, hpart, t, hthrows, hescapes⟩
    exact ⟨t, Hierarchy.mem_unhandled.mpr ⟨⟨part, hpart, hthrows⟩, hescapes⟩⟩

end Lowering
