import Lowering.Emission.Inlining
import Lowering.Proofs.Emission.Inline
import Lowering.Proofs.Tree.Scoping

/-!
# Values written in place

What can be written in place where nothing has a name yet: trees without declarations and effects.
Main statements: the expression form of such a tree is settled, completes no effect, and looks up
only locals from outside.
-/

namespace Lowering

namespace Expr

/-- No node of the tree needs a local. -/
def Plain (e : Expr) : Prop :=
  ∀ part ∈ e.occurrences, part.needsLocal = false

theorem Plain.self {e : Expr} (h : e.Plain) : e.needsLocal = false :=
  h e (mem_occurrences_self e)

theorem Plain.child {e child : Expr} (h : e.Plain) (hchild : child ∈ e.children) : child.Plain :=
  fun part hpart => h part (mem_occurrences_of_mem_children hchild hpart)

private theorem isInline_of_needsLocal {e : Expr} (h : e.needsLocal = false) : e.isInline := by
  unfold needsLocal at h
  split at h <;> simp_all [isInline]

private theorem isEffect_of_needsLocal {e : Expr} (h : e.needsLocal = false) :
    e.isEffect = false := by
  unfold needsLocal at h
  split at h <;> simp_all [isEffect]

theorem declared_of_needsLocal {e : Expr} (h : e.needsLocal = false) :
    e.declared = [] := by
  unfold needsLocal at h
  split at h <;> simp_all [declared]

theorem Plain.settled {e : Expr} (h : e.Plain) (s : Sink) : e.Settled s := by
  induction e using childInduction with
  | step e ih =>
    exact .inline (isInline_of_needsLocal h.self) fun part hpart =>
      ih part (inlined_subset_children hpart) (h.child (inlined_subset_children hpart))

theorem Plain.effects_eq_nil {e : Expr} (h : e.Plain) : e.effects = [] := by
  induction e using childInduction with
  | step e ih =>
    have hchildren : e.children.flatMap effects = [] :=
      List.flatMap_eq_nil_iff.mpr fun child hchild => ih child hchild (h.child hchild)
    simp [effects_eq, hchildren, isEffect_of_needsLocal h.self]

private theorem inSequence_of_declared {scope : List NodeId} {es : List Expr}
    (h : ∀ e ∈ es, e.declared = []) : inSequence scope es = es.map fun e => (scope, e) := by
  induction es with
  | nil => rfl
  | cons e es ih =>
    rw [inSequence, h e List.mem_cons_self, List.nil_append,
      ih fun e he => h e (List.mem_cons_of_mem _ he), List.map_cons]

private theorem Plain.inScopes_eq {e : Expr} (h : e.Plain) (scope : List NodeId) :
    e.inScopes scope = e.children.map fun child => (scope, child) := by
  have hdeclared (child : Expr) (hchild : child ∈ e.children) : child.declared = [] :=
    declared_of_needsLocal (h.child hchild).self
  cases e with
  | branch => exact absurd h.self (by simp [needsLocal])
  | _ => exact inSequence_of_declared hdeclared

/-- All locals that a plain tree looks up are declared outside. -/
theorem Plain.mem_scope {e : Expr} {d : NodeId} {scope : List NodeId} (h : e.Plain)
    (hscoped : Scoped scope e) (hread : e.ReadsLocal d) : d ∈ scope := by
  induction hread with
  | @read node feature receiver args hkind =>
    have hdeclared : (receiver.toList ++ args).flatMap declared = [] :=
      List.flatMap_eq_nil_iff.mpr fun child hchild =>
        declared_of_needsLocal (h.child hchild).self
    simpa [hdeclared] using hscoped.refers d hkind
  | assigned hkind => exact hscoped.refers d hkind
  | part hpart _ ih =>
    have hchild := inlined_subset_children hpart
    refine ih (h.child hchild) (hscoped.children (scope, _) ?_)
    rw [h.inScopes_eq]
    exact List.mem_map_of_mem hchild

end Expr

namespace Sink

theorem isNamed_eq_false {s : Sink} {i : NodeId} : s.isNamed i = false ↔ ¬ s.Binds (.value i) := by
  simp [isNamed, Binds]

/-- A value without a name can be written in place if no node without a name needs a local. -/
theorem canInline_iff {s : Sink} {e : Expr} (hname : s.isNamed e.id = false) :
    s.canInline e ↔ ∀ part ∈ e.occurrences, s.isNamed part.id ∨ part.needsLocal = false := by
  simp [canInline, ← Expr.cons_descendants, hname]

/-- Where no node has a name, only plain trees are written in place. -/
theorem plain_of_canInline {s : Sink} {e : Expr} (hs : ∀ i ∈ e.ids, ¬ s.Binds (.value i))
    (h : s.canInline e) : e.Plain := by
  have hnamed (part : Expr) (hpart : part ∈ e.occurrences) : s.isNamed part.id = false :=
    isNamed_eq_false.mpr (hs _ (List.mem_map_of_mem hpart))
  intro part hpart
  simpa [hnamed part hpart] using
    (canInline_iff (hnamed e e.mem_occurrences_self)).mp h part hpart

end Sink

end Lowering
