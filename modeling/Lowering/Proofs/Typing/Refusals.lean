import Lowering.Proofs.Typing.Calls
import Lowering.Proofs.Typing.Strictness

/-!
# Types that are refused

A type that is accepted for a state goes to the node of the state and, where the value of the state
is its parent's, to the node of the parent, in this order. Main statement: if it is refused then
nothing has changed, unless the own node took the type and only the parent's refuses it. Then what
the own node took stays, and nothing else has changed.
-/

namespace Lowering

/-- The offer `new` cannot be merged into `old`. -/
structure Resolution.Conflicts (old new : Resolution) : Prop where
  ne : old.actual ≠ new.actual
  old_tells : old.isBlank = false
  new_tells : new.isBlank = false
  exact : old.conformance = .exact ∨ new.conformance = .exact

theorem Resolution.merge_eq_error_iff {h : Hierarchy} {span : Span} {old new : Resolution}
    {f : Failure} : old.merge h span new = .error f ↔
      old.Conflicts new ∧ f = .conflict old.actual new.actual span := by
  constructor
  · intro hmerge
    unfold merge at hmerge
    split at hmerge
    · cases hmerge
    rename_i hdiffers
    split at hmerge
    · cases hmerge
    rename_i hold
    split at hmerge
    · rename_i hexact
      rw [not_or] at hdiffers
      exact ⟨⟨hdiffers.1, by simpa using hold, by simpa using hdiffers.2, hexact⟩,
        (Except.error.inj hmerge).symm⟩
    · cases hmerge
  · rintro ⟨hconflicts, rfl⟩
    exact merge_eq_conflict hconflicts.ne hconflicts.old_tells hconflicts.new_tells
      hconflicts.exact

/-- The table refuses only an offer that conflicts with what the node has under its expectation. -/
theorem ResolvedTypes.accept_eq_conflict_iff {h : Hierarchy} {types : ResolvedTypes} {id : NodeId}
    {span : Span} {offer : Resolution} {f : Failure} : types.accept h id span offer = .error f ↔
      ∃ old, types.resolution? id offer.expectation = some old ∧ old.Conflicts offer ∧
        f = .conflict old.actual offer.actual span := by
  rw [accept_eq_error_iff (o := ⟨id, span, offer⟩)]
  simp only [Resolution.merge_eq_error_iff]

/-- The offer is one for the node of state `i` and for that of its parent. The first takes it, which
makes the table `types`, and the second refuses it. -/
def RefusedAbove (h : Hierarchy) (s : TypingStates) (i : Nat) (offer : Resolution)
    (types : ResolvedTypes) (f : Failure) : Prop :=
  ∃ state p parent old, s.live? i = .ok state ∧ state.role = .value ∧ state.parent = some p ∧
    s.live? p = .ok parent ∧ s.types.accept h state.node.id state.node.span offer = .ok types ∧
    types.resolution? parent.node.id offer.expectation = some old ∧ old.Conflicts offer ∧
    f = .conflict old.actual offer.actual state.node.span

variable {h : Hierarchy} {s s' : TypingStates} {i : Nat} {e : Expectation} {type : HostType}
  {conformance : Conformance} {isReturn : Bool} {f : Failure} {types : ResolvedTypes}

theorem Typing.types_eq_or_refusedAbove
    (haccept : (accept h i e type conformance isReturn).run.run s = (.error f, s')) :
    s'.types = s.types ∨
      RefusedAbove h s i ⟨e, refine e type, conformance, isReturn⟩ s'.types f := by
  rw [run_accept] at haccept
  split at haccept
  · cases haccept
    exact .inl rfl
  rename_i state hlive
  dsimp only at haccept
  split at haccept
  · rename_i p hrole hparent
    split at haccept
    · cases haccept
      exact .inl rfl
    rename_i parent hp
    split at haccept
    · cases haccept
      exact .inl rfl
    rename_i own hown
    split at haccept
    · rename_i hrefused
      cases haccept
      obtain ⟨old, hold, hconflicts⟩ := ResolvedTypes.accept_eq_conflict_iff.mp hrefused
      exact .inr ⟨state, p, parent, old, hlive, hrole, hparent, hp, hown, hold, hconflicts⟩
    · cases haccept
  · split at haccept
    · cases haccept
      exact .inl rfl
    · cases haccept

theorem Typing.run_accept_of_refusedAbove
    (hrefused : RefusedAbove h s i ⟨e, refine e type, conformance, isReturn⟩ types f) :
    (accept h i e type conformance isReturn).run.run s = (.error f, ⟨s.states, types⟩) := by
  obtain ⟨state, p, parent, old, hlive, hrole, hparent, hp, hown, hold⟩ := hrefused
  have habove := (ResolvedTypes.accept_eq_conflict_iff (h := h)).mpr ⟨old, hold⟩
  rw [run_accept]
  simp only [hlive, hrole, hparent, hp, hown, habove]

/-- What a refused type leaves behind is the resolution that the own node has taken. -/
theorem RefusedAbove.resolution? {offer : Resolution}
    (hrefused : RefusedAbove h s i offer types f) :
    ∃ state, s.live? i = .ok state ∧
      (∀ id e, (id, e) ≠ (state.node.id, offer.expectation) →
        types.resolution? id e = s.types.resolution? id e) ∧
      ∃ new, types.resolution? state.node.id offer.expectation = some new ∧
        match s.types.resolution? state.node.id offer.expectation with
        | some old => h.Widens old.actual offer.actual new.actual
        | none => new = offer := by
  obtain ⟨state, p, parent, old, hlive, hrole, hparent, hp, hown, hold⟩ := hrefused
  have haccept : s.types.accept h (Offer.mk state.node.id state.node.span offer).id
    state.node.span offer = .ok types := hown
  exact ⟨state, hlive, fun id e => ResolvedTypes.resolution?_accept_of_ne haccept,
    ResolvedTypes.exists_resolution?_accept haccept⟩

/-- If a type is not accepted for a state then all states are as before, and so is the table, unless
only the node of the parent refuses the type. Then the resolution of the own node under the
expectation is added or widened, and no other one has changed. -/
theorem accept_refused (h : Hierarchy) (s : TypingStates) (i : Nat) (e : Expectation)
    (type : HostType) (conformance : Conformance) (isReturn : Bool) :
    let offer : Resolution := ⟨e, Typing.refine e type, conformance, isReturn⟩
    let answer := (Typing.accept h i e type conformance isReturn).run.run s
    (∀ f s', answer = (.error f, s') →
      s'.states = s.states ∧ (s'.types = s.types ∨ RefusedAbove h s i offer s'.types f)) ∧
    ∀ f types, RefusedAbove h s i offer types f →
      answer = (.error f, ⟨s.states, types⟩) ∧
      ∃ state, s.live? i = .ok state ∧
        (∀ id e', (id, e') ≠ (state.node.id, e) →
          types.resolution? id e' = s.types.resolution? id e') ∧
        ∃ new, types.resolution? state.node.id e = some new ∧
          match s.types.resolution? state.node.id e with
          | some old => h.Widens old.actual offer.actual new.actual
          | none => new = offer := by
  intro offer answer
  refine ⟨fun f s' haccept => ⟨?_, Typing.types_eq_or_refusedAbove haccept⟩,
    fun f types hrefused => ⟨Typing.run_accept_of_refusedAbove hrefused, hrefused.resolution?⟩⟩
  have hstates := Typing.states_run_accept h i e type conformance isReturn s
  rw [show s' = answer.2 from congrArg Prod.snd haccept.symm]
  exact hstates

/-- A second branch offers a string where the first one insists on an integer. The node of the
conditional refuses it, and the string stays at the node of the branch. -/
theorem refused_half_way :
    ¬ ∀ (h : Hierarchy) (calls : List StateCall) (i : Nat) (e : Expectation) (type : HostType)
      (conformance : Conformance) (isReturn : Bool) (f : Failure) (s' : TypingStates),
      let s := TypingStates.reached h calls
      (Typing.accept h i e type conformance isReturn).run.run s = (.error f, s') →
        s'.states = s.states ∧ ∀ id e, s'.types.resolution? id e = s.types.resolution? id e := by
  intro hall
  let calls : List StateCall := [.root ⟨3, {}⟩ {}, .value 0 ⟨1, {}⟩,
    .accept 1 .free .int .exact false, .discard 1, .value 0 ⟨2, {}⟩]
  let states : Array TypingState := #[⟨none, ⟨3, {}⟩, .root, {}, some 2, false⟩,
    ⟨some 0, ⟨1, {}⟩, .value, {}, none, true⟩, ⟨some 0, ⟨2, {}⟩, .value, {}, none, false⟩]
  let first : Resolution := ⟨.free, .int, .exact, false⟩
  let second : Resolution := ⟨.free, .string, .subtype, false⟩
  let known : List (NodeId × List Resolution) := [(1, [first]), (3, [first])]
  have hreached : TypingStates.reached .empty calls = ⟨states, ⟨known⟩⟩ := rfl
  have hrun : (Typing.accept .empty 2 .free .string .subtype false).run.run ⟨states, ⟨known⟩⟩ =
      (.error (.conflict .int .string {}), ⟨states, ⟨known ++ [(2, [second])]⟩⟩) := rfl
  obtain ⟨-, hkept⟩ := hall .empty calls 2 .free .string .subtype false _ _ (hreached ▸ hrun)
  have hempty := hkept 2 .free
  rw [hreached] at hempty
  cases hempty

end Lowering
