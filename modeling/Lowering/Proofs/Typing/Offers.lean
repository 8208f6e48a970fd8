import Lowering.Proofs.Hierarchy.UpperBound
import Lowering.Proofs.Typing.Calls
import Lowering.Proofs.Typing.Mentions

/-!
# Offers to the table

What any sequence of offers makes of the table, also where some of them are refused. Main statement:
a node has one resolution for each expectation it was offered a type under, in the order of the
first of these offers; and an offer changes no other resolution than its own, whose type stays,
gives way to the offered one if it tells nothing, or becomes one that both convert to.
-/

namespace Lowering

/-- A type offered for a node. -/
structure Offer where
  id : NodeId
  span : Span
  resolution : Resolution

variable {h : Hierarchy} {span : Span} {o : Offer} {id : NodeId} {types types' : ResolvedTypes}

/-! ## Offers of one node -/

/-- What becomes of the type `old` of a node when another one is offered for it. -/
inductive Hierarchy.Widens (h : Hierarchy) (old offered : HostType) : HostType → Prop
  | kept : Widens h old offered old
  | filled (hblank : old.isBlank) : Widens h old offered offered
  | joined {new : HostType} (hold : h.isConvertible old new)
      (hoffered : h.isConvertible offered new) : Widens h old offered new

theorem Hierarchy.widens_blend (h : Hierarchy) (old offered : HostType) :
    h.Widens old offered (h.blend old offered) := by
  unfold blend
  split
  · exact .kept
  · rename_i hdiffers
    split
    · rename_i hblank
      exact .filled hblank
    · rename_i htells
      have hne {t : HostType} (ht : ¬ (t.isVoid || t.isAny)) : t ≠ .void := by
        rintro rfl
        exact ht rfl
      have hoffered : ¬ (offered.isVoid || offered.isAny) := fun hblank => hdiffers (.inr hblank)
      obtain ⟨hold, hnew⟩ := Hierarchy.convertible_join (h := h) (hne htells) (hne hoffered)
      exact .joined hold hnew

namespace Resolution

variable {offer : Resolution} {rs rs' : List Resolution}

theorem mergeInto_of_not_mem (h : Hierarchy) (span : Span)
    (hnew : offer.expectation ∉ rs.map (·.expectation)) :
    mergeInto h span offer rs = .ok (rs ++ [offer]) := by
  induction rs with
  | nil => rfl
  | cons first rest ih =>
    rw [List.map_cons, List.mem_cons, not_or] at hnew
    rw [mergeInto, if_neg (Ne.symm hnew.1), ih hnew.2]
    rfl

/-- Resolutions under other expectations stay as they are. -/
theorem find?_mergeInto_of_ne (hmerge : mergeInto h span offer rs = .ok rs') {e : Expectation}
    (he : e ≠ offer.expectation) :
    rs'.find? (·.expectation = e) = rs.find? (·.expectation = e) := by
  cases mergeInto_eq_ok hmerge with
  | added => simp [Ne.symm he]
  | merged _ hsame hmerged => simp [expectation_merge hsame hmerged, hsame, Ne.symm he]

/-- The resolution with the expectation of the offer is the one that was there, merged with it, or
the offer if there was none. -/
theorem find?_mergeInto (hmerge : mergeInto h span offer rs = .ok rs') :
    ∃ r', rs'.find? (·.expectation = offer.expectation) = some r' ∧
      match rs.find? (·.expectation = offer.expectation) with
      | some r => r.merge h span offer = .ok r'
      | none => r' = offer := by
  have hnone {rs : List Resolution} (hnew : offer.expectation ∉ rs.map (·.expectation)) :
      rs.find? (·.expectation = offer.expectation) = none := by
    refine List.find?_eq_none.mpr fun r hr hsame => hnew ?_
    exact List.mem_map.mpr ⟨r, hr, of_decide_eq_true hsame⟩
  cases mergeInto_eq_ok hmerge with
  | added hnew => exact ⟨offer, by simp [List.find?_append, hnone hnew], by rw [hnone hnew]⟩
  | @merged _ new _ _ hbefore hsame hmerged =>
    refine ⟨new, ?_, ?_⟩
    · simp [List.find?_append, hnone hbefore, expectation_merge hsame hmerged]
    · simpa [List.find?_append, hnone hbefore, hsame] using hmerged

end Resolution

/-! ## Recording an offer -/

namespace ResolvedTypes

/-- The table after an offer was recorded or refused. -/
def offered (h : Hierarchy) (types : ResolvedTypes) (o : Offer) : ResolvedTypes :=
  ((Typing.record h o.id o.span o.resolution).run.run { types }).2.types

/-- The expectations of a node, the first one first. -/
def expectations (types : ResolvedTypes) (id : NodeId) : List Expectation :=
  (types.resolutions id).map (·.expectation)

theorem offered_of_ok (haccept : types.accept h o.id o.span o.resolution = .ok types') :
    types.offered h o = types' := by
  rw [offered, Typing.run_record]
  simp only [haccept]

theorem offered_of_error {f : Failure}
    (haccept : types.accept h o.id o.span o.resolution = .error f) :
    types.offered h o = types := by
  rw [offered, Typing.run_record]
  simp only [haccept]

private theorem mem_expectations_of_error {f : Failure}
    (haccept : types.accept h o.id o.span o.resolution = .error f) :
    o.resolution.expectation ∈ types.expectations o.id := by
  by_contra hnew
  rw [accept, Resolution.mergeInto_of_not_mem h o.span hnew] at haccept
  cases haccept

/-- An expectation that is new to its node comes last. -/
theorem expectations_offered (h : Hierarchy) (types : ResolvedTypes) (o : Offer) (id : NodeId) :
    (types.offered h o).expectations id =
      if id = o.id ∧ o.resolution.expectation ∉ types.expectations o.id
      then types.expectations id ++ [o.resolution.expectation] else types.expectations id := by
  cases haccept : types.accept h o.id o.span o.resolution with
  | error f =>
    rw [offered_of_error haccept, if_neg fun hnew => hnew.2 (mem_expectations_of_error haccept)]
  | ok types' =>
    rw [offered_of_ok haccept]
    by_cases hid : id = o.id
    · subst hid
      have hmerged := Resolution.expectations_mergeInto (resolutions_accept haccept)
      by_cases hmem : o.resolution.expectation ∈ types.expectations o.id
      · rw [if_neg fun hnew => hnew.2 hmem]
        exact hmerged.trans (if_pos hmem)
      · rw [if_pos ⟨rfl, hmem⟩]
        exact hmerged.trans (if_neg hmem)
    · rw [if_neg fun hnew => hid hnew.1, expectations, expectations,
        resolutions_accept_of_ne haccept hid]

theorem expectations_prefix (h : Hierarchy) (types : ResolvedTypes) (offers : List Offer)
    (id : NodeId) :
    types.expectations id <+: (offers.foldl (offered h) types).expectations id := by
  induction offers generalizing types with
  | nil => exact List.prefix_refl _
  | cons o offers ih =>
    refine .trans ?_ (ih (types.offered h o))
    rw [expectations_offered]
    split
    · exact List.prefix_append _ _
    · exact List.prefix_refl _

theorem nodup_expectations (htypes : ∀ id, (types.expectations id).Nodup) (offers : List Offer)
    (id : NodeId) : ((offers.foldl (offered h) types).expectations id).Nodup := by
  induction offers generalizing types with
  | nil => exact htypes id
  | cons o offers ih =>
    refine ih fun id => ?_
    rw [expectations_offered]
    split
    · rename_i hnew
      obtain ⟨rfl, hnew⟩ := hnew
      exact (List.nodup_append_comm.mp (List.nodup_cons.mpr ⟨hnew, htypes o.id⟩))
    · exact htypes id

/-- The first expectation of a node is that of the first offer for it. -/
theorem head?_expectations (h : Hierarchy) (types : ResolvedTypes) (offers : List Offer)
    (id : NodeId) :
    ((offers.foldl (offered h) types).expectations id).head? =
      ((types.expectations id).head? <|>
        (offers.find? (·.id = id)).map (·.resolution.expectation)) := by
  induction offers generalizing types with
  | nil => simp
  | cons o offers ih =>
    rw [List.foldl_cons, ih, expectations_offered]
    by_cases hid : o.id = id
    · subst hid
      cases hfirst : types.expectations o.id with
      | nil => simp
      | cons first rest => split <;> simp
    · simp [hid, Ne.symm hid]

theorem actual?_eq (types : ResolvedTypes) (id : NodeId) :
    types.actual? id = (types.expectations id).head?.bind fun e =>
      (types.resolution? id e).map (·.actual) := by
  unfold actual? expectations resolution?
  cases types.resolutions id with
  | nil => rfl
  | cons first rest => simp

/-- An accepted offer changes only the resolution with its expectation. -/
theorem resolution?_accept_of_ne (haccept : types.accept h o.id o.span o.resolution = .ok types')
    {e : Expectation} (hne : (id, e) ≠ (o.id, o.resolution.expectation)) :
    types'.resolution? id e = types.resolution? id e := by
  unfold resolution?
  by_cases hid : id = o.id
  · subst hid
    exact Resolution.find?_mergeInto_of_ne (resolutions_accept haccept)
      fun he => hne (congrArg _ he)
  · rw [resolutions_accept_of_ne haccept hid]

/-- The resolution of an accepted offer widens the one that was there. -/
theorem exists_resolution?_accept
    (haccept : types.accept h o.id o.span o.resolution = .ok types') :
    ∃ r', types'.resolution? o.id o.resolution.expectation = some r' ∧
      match types.resolution? o.id o.resolution.expectation with
      | some r => h.Widens r.actual o.resolution.actual r'.actual
      | none => r' = o.resolution := by
  obtain ⟨r', hr', hmerged⟩ := Resolution.find?_mergeInto (resolutions_accept haccept)
  refine ⟨r', hr', ?_⟩
  unfold resolution?
  split
  · rename_i r hr
    rw [hr] at hmerged
    rw [Resolution.actual_merge hmerged]
    exact h.widens_blend _ _
  · rename_i hnone
    rwa [hnone] at hmerged

/-- After any offers, no expectation of a node occurs twice, and the type of the node is that under
the expectation of the first offer for it. Later offers keep the expectations and their order. One
that is refused changes nothing; one that is accepted changes no resolution but that with its
expectation, which it adds or widens. -/
theorem offers_widen (h : Hierarchy) (offers : List Offer) :
    let types := offers.foldl (offered h) {}
    (∀ id : NodeId, (types.expectations id).Nodup) ∧
    (∀ id : NodeId, types.actual? id = (offers.find? (·.id = id)).bind fun first =>
      (types.resolution? id first.resolution.expectation).map (·.actual)) ∧
    (∀ (later : List Offer) (id : NodeId),
      types.expectations id <+: (later.foldl (offered h) types).expectations id) ∧
    ∀ o : Offer,
      match types.accept h o.id o.span o.resolution with
      | .error _ => types.offered h o = types
      | .ok _ =>
        (∀ (id : NodeId) (e : Expectation), (id, e) ≠ (o.id, o.resolution.expectation) →
          (types.offered h o).resolution? id e = types.resolution? id e) ∧
        ∃ new, (types.offered h o).resolution? o.id o.resolution.expectation = some new ∧
          match types.resolution? o.id o.resolution.expectation with
          | some old => h.Widens old.actual o.resolution.actual new.actual
          | none => new = o.resolution := by
  intro types
  have hempty (id : NodeId) : (expectations {} id).Nodup := List.nodup_nil
  refine ⟨nodup_expectations hempty offers, fun id => ?_, expectations_prefix h types,
    fun o => ?_⟩
  · rw [actual?_eq, head?_expectations]
    cases offers.find? (·.id = id) <;> rfl
  · cases haccept : types.accept h o.id o.span o.resolution with
    | error f => exact offered_of_error haccept
    | ok types' =>
      rw [offered_of_ok haccept]
      exact ⟨fun id e => resolution?_accept_of_ne haccept, exists_resolution?_accept haccept⟩

end ResolvedTypes

end Lowering
