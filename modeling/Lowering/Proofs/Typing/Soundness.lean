import Lowering.Proofs.Typing.Agreement
import Lowering.Proofs.Typing.Conformance
import Lowering.Proofs.Typing.Invariants

/-!
# Recorded resolutions are sound

Every offer that typing records is plausible, and so is what offers are merged into; and the last
offer for a node of a tree without sharing is that of its own type. Main statement: all resolutions
of an inferred tree without sharing are sound.
-/

namespace Lowering

variable {h : Hierarchy} {types : ResolvedTypes} {c : TypingContext} {e : Expectation}

private theorem Recording.allows_plausible (h : Hierarchy) :
    Allows h (·.All (·.Plausible h)) fun _ => True := by
  refine allows_all (·.Plausible h) (fun _ _ => trivial) (fun hclassify => ?_)
    (fun _ => id) fun span old new hold hnew hsame => ?_
  · exact Resolution.plausible_of_classifies (Expectation.classify_eq_ok.mp hclassify)
  · split
    · exact hold.merge hnew hsame ‹_›
    · trivial

/-- Type inference finds plausible resolutions, also for a tree with sharing. -/
theorem ResolvedTypes.plausible_of_infer {x : Expr} (hinfer : x.infer h e c = .ok types) :
    types.All (·.Plausible h) := by
  have hplausible := (Recording.allows_plausible h).infer (fun _ _ hr => by cases hr) x e c
  rwa [hinfer] at hplausible

/-- The type that a tree without sharing has in the end is accepted where it stands. -/
theorem Expr.accepts_of_judge {x : Expr} {verdict : Verdict} (hx : x.judge h c e = .ok verdict) :
    e.Accepts h verdict.type := by
  obtain ⟨_, _, _, type, conformance, _, _, _, hclassify, rfl⟩ := Expr.judge_eq_ok hx
  exact (Expectation.classify_eq_ok.mp hclassify).accepts.refine

/-- Each node of a tree without sharing has one resolution, whose type is accepted as a whole. -/
theorem ResolvedTypes.exists_resolutions_eq {x part : Expr} (hx : x.Unshared)
    (hinfer : x.infer h e c = .ok types) (hpart : part ∈ x.occurrences) :
    ∃ r, types.resolutions part.id = [r] ∧ r.expectation.Accepts h r.actual := by
  obtain ⟨verdict, hjudge, hrecords⟩ := Expr.exists_judge_of_infer hx hinfer
  obtain ⟨_, e', below, hbelow, hsubset⟩ := Expr.exists_judge_of_mem_occurrences hjudge hpart
  obtain ⟨verdicts, hjudgements, _⟩ := Expr.judgements_eq hbelow
  have hmem : ⟨part.id, e', below.type⟩ ∈ below.judgements := by
    rw [hjudgements]
    exact List.mem_append_right _ List.mem_cons_self
  obtain ⟨only, honly, hexpectation, hactual⟩ := hrecords _ (hsubset hmem)
  refine ⟨only, honly, ?_⟩
  rw [hexpectation, hactual]
  exact Expr.accepts_of_judge hbelow

/-- The type in every resolution of an inferred tree without sharing is accepted as a whole. -/
theorem ResolvedTypes.accepts_of_infer {x : Expr} (hx : x.Unshared)
    (hinfer : x.infer h e c = .ok types) {id : NodeId} {r : Resolution}
    (hr : r ∈ types.resolutions id) : r.expectation.Accepts h r.actual := by
  have hid : id ∈ x.ids := by
    by_contra hid
    rw [Expr.resolutions_eq_nil_of_infer hx hinfer hid] at hr
    cases hr
  obtain ⟨part, hpart, rfl⟩ := List.mem_map.mp hid
  obtain ⟨only, honly, haccepts⟩ := exists_resolutions_eq hx hinfer hpart
  rw [honly, List.mem_singleton] at hr
  exact hr ▸ haccepts

/-- Type inference records sound resolutions for a tree without sharing. -/
theorem ResolvedTypes.sound_of_infer {x : Expr} (hx : x.Unshared)
    (hinfer : x.infer h e c = .ok types) (id : NodeId) :
    ∀ r ∈ types.resolutions id, r.Sound h := fun r hr =>
  (plausible_of_infer hinfer id r hr).sound (accepts_of_infer hx hinfer hr)

private def mixed : Expr :=
  .branch ⟨3, {}⟩ (.literal ⟨0, {}⟩ (.boolean true)) (.literal ⟨1, {}⟩ (.int 1))
    (some (.literal ⟨2, {}⟩ (.string "a")))

/-- Where an object is asked for, the number in one branch is boxed, and that is recorded for the
`if` too. -/
theorem ResolvedTypes.sound_of_infer_boxed :
    mixed.Unshared ∧ ∃ types, mixed.infer .empty (.convertible .object) {} = .ok types ∧
      ∃ r ∈ types.resolutions 3, r.actual = .object ∧ r.conformance = .conversion ∧
        r.Sound .empty := by
  have hunshared : mixed.Unshared := by decide
  have hresolutions : (mixed.infer .empty (.convertible .object) {}).toOption.map
      (·.resolutions 3) = some [⟨.convertible .object, .object, .conversion, false⟩] := by
    decide +kernel
  obtain ⟨types, hinfer, hresolutions⟩ := exists_of_toOption_map hresolutions
  have hmem : ⟨.convertible .object, .object, .conversion, false⟩ ∈ types.resolutions 3 := by
    simp [hresolutions]
  exact ⟨hunshared, types, hinfer, _, hmem, rfl, rfl,
    ResolvedTypes.sound_of_infer hunshared hinfer 3 _ hmem⟩

end Lowering
