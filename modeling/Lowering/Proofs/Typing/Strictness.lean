import Lowering.Proofs.Typing.Offers

/-!
# Exact types that stay

An offer is merged into the resolution with its expectation, and an offer of the type that is there
changes nothing, not even how strictly the type was asked for. So the first offer that tells
something decides whether the type may be widened. Main statements: an accepted exact type stays and
other types are refused, unless the same type was there before and was not exact; and the order of
an exact offer and another one of the same type makes no difference exactly where the resolution
that is there before them decides about both alike.
-/

namespace Lowering

variable {h : Hierarchy} {span : Span} {o o' : Offer} {types types' : ResolvedTypes}
  {type : HostType} {f : Failure}

/-- Two offers of one type, for one node and under one expectation. -/
structure Offer.Alike (o o' : Offer) : Prop where
  id : o'.id = o.id
  expectation : o'.resolution.expectation = o.resolution.expectation
  actual : o'.resolution.actual = o.resolution.actual

theorem Offer.Alike.isBlank_eq (halike : o.Alike o') :
    o'.resolution.isBlank = o.resolution.isBlank := by
  simp only [Resolution.isBlank, halike.actual]

theorem Offer.Alike.resolution?_eq (halike : o.Alike o') (types : ResolvedTypes) :
    types.resolution? o'.id o'.resolution.expectation =
      types.resolution? o.id o.resolution.expectation := by
  rw [halike.id, halike.expectation]

/-- The join of two types that tell something tells something. -/
theorem Hierarchy.isBlank_join {a b : HostType} (ha : a.isBlank = false) (hb : b.isBlank = false) :
    (h.join a b).isBlank = false := by
  have hne {t : HostType} (ht : t.isBlank = false) : t ≠ .void := by
    rintro rfl
    cases ht
  refine HostType.isBlank_eq_false (fun hvoid => ?_)
    (h.isAny_join (HostType.isAny_of_isBlank ha) (HostType.isAny_of_isBlank hb))
  have hconvertible := (convertible_join (h := h) (hne ha) (hne hb)).1
  rw [hvoid] at hconvertible
  have hisVoid := isVoid_of_isConvertible ha hconvertible
  simp [HostType.isBlank, hisVoid] at ha

/-! ## Merging -/

namespace Resolution

variable {r old new offer : Resolution} {rs : List Resolution}

theorem merge_of_actual_eq (heq : old.actual = new.actual) : old.merge h span new = .ok old :=
  if_pos (.inl heq)

theorem merge_of_isBlank (hold : old.isBlank) (hnew : new.isBlank = false) :
    old.merge h span new = .ok new := by
  have hne : old.actual ≠ new.actual := fun heq => by
    simp only [isBlank, heq] at hold hnew
    simp [hnew] at hold
  simp [merge, hne, hnew, hold]

/-- Different types that tell something conflict if either is to be exact. -/
theorem merge_eq_conflict (hne : old.actual ≠ new.actual) (hold : old.isBlank = false)
    (hnew : new.isBlank = false) (hexact : old.conformance = .exact ∨ new.conformance = .exact) :
    old.merge h span new = .error (.conflict old.actual new.actual span) := by
  simp [merge, hne, hold, hnew, hexact]

theorem exists_merge_eq_join (h : Hierarchy) (span : Span) (hne : old.actual ≠ new.actual)
    (hold : old.isBlank = false) (hnew : new.isBlank = false)
    (hloose : old.conformance ≠ .exact) (hloose' : new.conformance ≠ .exact) :
    ∃ r, old.merge h span new = .ok r ∧ r.actual = h.join old.actual new.actual ∧
      r.conformance ≠ .exact := by
  refine ⟨_, by simp [merge, hne, hold, hnew, hloose, hloose']; rfl, rfl, ?_⟩
  dsimp only
  split
  · decide
  · exact hloose

/-- Into an exact resolution that tells something no other type is merged. -/
theorem merge_of_exact (h : Hierarchy) (span : Span) (new : Resolution)
    (hexact : old.conformance = .exact) (htells : old.isBlank = false) :
    old.merge h span new =
      if old.actual = new.actual ∨ new.isBlank then .ok old
      else .error (.conflict old.actual new.actual span) := by
  simp [merge, hexact, htells]

/-- An offer is refused only by the resolution that it would be merged into. -/
theorem mergeInto_eq_error_iff : mergeInto h span offer rs = .error f ↔
    ∃ r, rs.find? (·.expectation = offer.expectation) = some r ∧
      r.merge h span offer = .error f := by
  induction rs with
  | nil => simp [mergeInto]
  | cons first rest ih =>
    rw [mergeInto]
    by_cases hsame : first.expectation = offer.expectation
    · cases hmerge : first.merge h span offer <;> simp [hsame, hmerge, Except.map]
    · simp only [if_neg hsame, List.find?_cons, decide_eq_false hsame, ← ih]
      cases mergeInto h span offer rest <;> simp [Except.map]

/-- An offer that its resolution absorbs changes nothing. -/
theorem mergeInto_of_merge_self (hr : rs.find? (·.expectation = offer.expectation) = some r)
    (hmerge : r.merge h span offer = .ok r) : mergeInto h span offer rs = .ok rs := by
  induction rs with
  | nil => cases hr
  | cons first rest ih =>
    rw [mergeInto]
    by_cases hsame : first.expectation = offer.expectation
    · obtain rfl : first = r := by simpa [hsame] using hr
      simp [hsame, hmerge, Except.map]
    · rw [if_neg hsame, ih (by simpa [hsame] using hr)]
      rfl

end Resolution

/-! ## Offers -/

namespace ResolvedTypes

variable {id : NodeId} {e : Expectation} {r r' : Resolution}

theorem accept_eq_error_iff : types.accept h o.id o.span o.resolution = .error f ↔
    ∃ r, types.resolution? o.id o.resolution.expectation = some r ∧
      r.merge h o.span o.resolution = .error f := by
  refine Iff.trans ?_ Resolution.mergeInto_eq_error_iff
  unfold accept
  cases Resolution.mergeInto h o.span o.resolution (types.resolutions o.id) <;> simp [Except.map]

theorem accept_of_merge_self (hr : types.resolution? o.id o.resolution.expectation = some r)
    (hmerge : r.merge h o.span o.resolution = .ok r) :
    types.accept h o.id o.span o.resolution = .ok types := by
  have hlookup : types.entries.lookup o.id = some (types.resolutions o.id) := by
    unfold resolution? resolutions at hr
    unfold resolutions
    cases hentry : types.entries.lookup o.id with
    | none => simp [hentry] at hr
    | some rs => rfl
  rw [accept, Resolution.mergeInto_of_merge_self hr hmerge]
  simp only [Except.map, Assoc.put_of_lookup hlookup]

theorem exists_accept_of_merge (hr : types.resolution? o.id o.resolution.expectation = some r)
    (hmerge : r.merge h o.span o.resolution = .ok r') :
    ∃ types', types.accept h o.id o.span o.resolution = .ok types' ∧
      types'.resolution? o.id o.resolution.expectation = some r' := by
  cases haccept : types.accept h o.id o.span o.resolution with
  | error f =>
    obtain ⟨r₁, hr₁, herror⟩ := accept_eq_error_iff.mp haccept
    obtain rfl : r = r₁ := Option.some.inj (hr.symm.trans hr₁)
    rw [hmerge] at herror
    cases herror
  | ok types' =>
    obtain ⟨r₁, hr₁, hmerged⟩ := Resolution.find?_mergeInto (resolutions_accept haccept)
    unfold resolution? at hr
    rw [hr] at hmerged
    obtain rfl : r' = r₁ := Except.ok.inj (hmerge.symm.trans hmerged)
    exact ⟨types', rfl, hr₁⟩

/-- Different types that tell something are refused if either is to be exact. -/
theorem accept_eq_conflict (hr : types.resolution? o.id o.resolution.expectation = some r)
    (hne : r.actual ≠ o.resolution.actual) (hblank : r.isBlank = false)
    (htells : o.resolution.isBlank = false)
    (hexact : r.conformance = .exact ∨ o.resolution.conformance = .exact) :
    types.accept h o.id o.span o.resolution =
      .error (.conflict r.actual o.resolution.actual o.span) :=
  accept_eq_error_iff.mpr ⟨r, hr, Resolution.merge_eq_conflict hne hblank htells hexact⟩

/-- What node `id` has under `e`, if anything, tells nothing. -/
def Unsettled (types : ResolvedTypes) (id : NodeId) (e : Expectation) : Prop :=
  ∀ r, types.resolution? id e = some r → r.isBlank

/-- The first offer that tells something is recorded as it is. -/
theorem Unsettled.exists_accept (hunsettled : types.Unsettled o.id o.resolution.expectation)
    (htells : o.resolution.isBlank = false) :
    ∃ types', types.accept h o.id o.span o.resolution = .ok types' ∧
      types'.resolution? o.id o.resolution.expectation = some o.resolution := by
  cases hr : types.resolution? o.id o.resolution.expectation with
  | some r =>
    exact exists_accept_of_merge hr (Resolution.merge_of_isBlank (hunsettled r hr) htells)
  | none =>
    cases haccept : types.accept h o.id o.span o.resolution with
    | error f =>
      obtain ⟨r, hr', -⟩ := accept_eq_error_iff.mp haccept
      rw [hr] at hr'
      cases hr'
    | ok types' =>
      obtain ⟨r, hr', hmerged⟩ := Resolution.find?_mergeInto (resolutions_accept haccept)
      unfold resolution? at hr
      rw [hr] at hmerged
      exact ⟨types', rfl, hmerged ▸ hr'⟩

/-- Node `id` has `type` under `e`, and no other type will do. -/
def Insists (types : ResolvedTypes) (id : NodeId) (e : Expectation) (type : HostType) : Prop :=
  ∃ r, types.resolution? id e = some r ∧ r.actual = type ∧ r.conformance = .exact

/-- Node `id` has `type` under `e`, and a wider one will do. -/
def Tolerates (types : ResolvedTypes) (id : NodeId) (e : Expectation) (type : HostType) : Prop :=
  ∃ r, types.resolution? id e = some r ∧ r.actual = type ∧ r.conformance ≠ .exact

theorem Tolerates.accept_eq
    (htolerates : types.Tolerates o.id o.resolution.expectation o.resolution.actual) :
    types.accept h o.id o.span o.resolution = .ok types := by
  obtain ⟨r, hr, hactual, _⟩ := htolerates
  exact accept_of_merge_self hr (Resolution.merge_of_actual_eq hactual)

theorem Insists.accept_eq (hinsists : types.Insists id e type) (htells : type.isBlank = false)
    (hid : o.id = id) (he : o.resolution.expectation = e) :
    types.accept h o.id o.span o.resolution =
      if type = o.resolution.actual ∨ o.resolution.isBlank then .ok types
      else .error (.conflict type o.resolution.actual o.span) := by
  subst hid he
  obtain ⟨r, hr, rfl, hexact⟩ := hinsists
  have hmerge := Resolution.merge_of_exact h o.span o.resolution hexact htells
  split
  · rename_i hsame
    exact accept_of_merge_self hr (hmerge.trans (if_pos hsame))
  · rename_i hdiffers
    exact accept_eq_error_iff.mpr ⟨r, hr, hmerge.trans (if_neg hdiffers)⟩

/-- No offer changes what a node insists on. -/
theorem Insists.offer (hinsists : types.Insists id e type) (htells : type.isBlank = false)
    (o : Offer) : (types.offered h o).Insists id e type := by
  cases haccept : types.accept h o.id o.span o.resolution with
  | error f => rwa [offered_of_error haccept]
  | ok types' =>
    rw [offered_of_ok haccept]
    by_cases hpair : (id, e) = (o.id, o.resolution.expectation)
    · obtain ⟨rfl, rfl⟩ := Prod.mk.inj hpair
      rw [hinsists.accept_eq htells rfl rfl] at haccept
      split at haccept
      · exact Except.ok.inj haccept ▸ hinsists
      · cases haccept
    · rwa [Insists, resolution?_accept_of_ne haccept hpair]

theorem Insists.foldl_offered (hinsists : types.Insists id e type) (htells : type.isBlank = false)
    (offers : List Offer) : (offers.foldl (offered h) types).Insists id e type := by
  induction offers generalizing types with
  | nil => exact hinsists
  | cons o offers ih => exact ih (hinsists.offer htells o)

/-- An accepted exact type is insisted on, unless it was there before and was not exact. -/
theorem insists_of_accept (hexact : o.resolution.conformance = .exact)
    (htells : o.resolution.isBlank = false)
    (haccept : types.accept h o.id o.span o.resolution = .ok types')
    (hnew : ¬ types.Tolerates o.id o.resolution.expectation o.resolution.actual) :
    types'.Insists o.id o.resolution.expectation o.resolution.actual := by
  by_cases hunsettled : types.Unsettled o.id o.resolution.expectation
  · obtain ⟨types₁, haccept₁, hr⟩ := hunsettled.exists_accept (h := h) htells
    obtain rfl : types₁ = types' := Except.ok.inj (haccept₁.symm.trans haccept)
    exact ⟨o.resolution, hr, rfl, hexact⟩
  · simp only [Unsettled, not_forall, Bool.not_eq_true] at hunsettled
    obtain ⟨r, hr, hblank⟩ := hunsettled
    by_cases hsame : r.actual = o.resolution.actual
    · have hself := accept_of_merge_self (h := h) hr (Resolution.merge_of_actual_eq hsame)
      obtain rfl : types = types' := Except.ok.inj (hself.symm.trans haccept)
      exact ⟨r, hr, hsame, by_contra fun hloose => hnew ⟨r, hr, hsame, hloose⟩⟩
    · have hrefused := accept_eq_conflict (h := h) hr hsame hblank htells (.inr hexact)
      cases haccept.symm.trans hrefused

/-! ## Offers in a row -/

/-- One of the offers, made one after the other, is refused. -/
def conflicts (h : Hierarchy) : ResolvedTypes → List Offer → Bool
  | _, [] => false
  | types, o :: offers =>
    !(types.accept h o.id o.span o.resolution).isOk || conflicts h (types.offered h o) offers

theorem conflicts_of_ok (haccept : types.accept h o.id o.span o.resolution = .ok types')
    (offers : List Offer) : types.conflicts h (o :: offers) = types'.conflicts h offers := by
  rw [conflicts, offered_of_ok haccept, haccept]
  rfl

theorem conflicts_of_error (haccept : types.accept h o.id o.span o.resolution = .error f)
    (offers : List Offer) : types.conflicts h (o :: offers) = true := by
  rw [conflicts, haccept]
  rfl

/-- What node `id` has under `e` decides alike about an exact offer of `type` and another one,
whichever comes first. -/
def Decides (h : Hierarchy) (types : ResolvedTypes) (id : NodeId) (e : Expectation)
    (type : HostType) : Prop :=
  ∃ r, types.resolution? id e = some r ∧ r.isBlank = false ∧
    (r.conformance = .exact ∨ r.actual = type ∨ h.join r.actual type ≠ type)

section

variable (hexact : o.resolution.conformance = .exact) (htells : o.resolution.isBlank = false)
  (hloose : o'.resolution.conformance ≠ .exact) (halike : o.Alike o')
include hexact htells hloose halike

theorem conflicts_swap (later : List Offer)
    (hdecides : types.Decides h o.id o.resolution.expectation o.resolution.actual) :
    types.conflicts h (o :: o' :: later) = types.conflicts h (o' :: o :: later) := by
  obtain ⟨r, hr, hblank, hcases⟩ := hdecides
  have hr' := (halike.resolution?_eq types).trans hr
  have htells' := halike.isBlank_eq.trans htells
  by_cases hsame : r.actual = o.resolution.actual
  · have hself : types.accept h o.id o.span o.resolution = .ok types :=
      accept_of_merge_self hr (Resolution.merge_of_actual_eq hsame)
    have hself' : types.accept h o'.id o'.span o'.resolution = .ok types :=
      accept_of_merge_self hr' (Resolution.merge_of_actual_eq (hsame.trans halike.actual.symm))
    rw [conflicts_of_ok hself, conflicts_of_ok hself', conflicts_of_ok hself',
      conflicts_of_ok hself]
  have hsame' : r.actual ≠ o'.resolution.actual := halike.actual ▸ hsame
  rw [conflicts_of_error (accept_eq_conflict hr hsame hblank htells (.inr hexact))]
  symm
  by_cases hstrict : r.conformance = .exact
  · exact conflicts_of_error (accept_eq_conflict hr' hsame' hblank htells' (.inl hstrict)) _
  · have hwider : h.join r.actual o.resolution.actual ≠ o.resolution.actual :=
      (hcases.resolve_left hstrict).resolve_left hsame
    obtain ⟨joined, hmerge, hjoin, -⟩ := Resolution.exists_merge_eq_join h o'.span
      hsame' hblank htells' hstrict hloose
    obtain ⟨types', haccept, hjoined⟩ := exists_accept_of_merge hr' hmerge
    rw [halike.resolution?_eq] at hjoined
    rw [halike.actual] at hjoin
    have hjoinedBlank : joined.isBlank = false := by
      change HostType.isBlank joined.actual = false
      rw [hjoin]
      exact Hierarchy.isBlank_join hblank htells
    rw [conflicts_of_ok haccept]
    exact conflicts_of_error
      (accept_eq_conflict hjoined (hjoin ▸ hwider) hjoinedBlank htells (.inr hexact)) _

private theorem exists_conflicts_ne (hunsettled : types.Unsettled o.id o.resolution.expectation) :
    ∃ later, types.conflicts h (o :: o' :: later) ≠ types.conflicts h (o' :: o :: later) := by
  have htells' := halike.isBlank_eq.trans htells
  obtain ⟨other, hother, hne⟩ :
      ∃ other : HostType, other.isBlank = false ∧ o.resolution.actual ≠ other := by
    by_cases hint : o.resolution.actual = .int
    · exact ⟨.string, rfl, by rw [hint]; decide⟩
    · exact ⟨.int, rfl, hint⟩
  let wider : Offer := ⟨o.id, o.span, ⟨o.resolution.expectation, other, .subtype, false⟩⟩
  refine ⟨[wider], ?_⟩
  have hfirst : types.conflicts h [o, o', wider] = true := by
    obtain ⟨types₁, haccept, hr⟩ := hunsettled.exists_accept (h := h) htells
    have hself : types₁.accept h o'.id o'.span o'.resolution = .ok types₁ :=
      accept_of_merge_self ((halike.resolution?_eq types₁).trans hr)
        (Resolution.merge_of_actual_eq halike.actual.symm)
    rw [conflicts_of_ok haccept, conflicts_of_ok hself]
    exact conflicts_of_error
      (accept_eq_conflict (o := wider) hr hne htells hother (.inl hexact)) _
  have hsecond : types.conflicts h [o', o, wider] = false := by
    have hunsettled' : types.Unsettled o'.id o'.resolution.expectation := by
      rwa [halike.id, halike.expectation]
    obtain ⟨types₁, haccept, hr⟩ := hunsettled'.exists_accept (h := h) htells'
    rw [halike.resolution?_eq] at hr
    have hself : types₁.accept h o.id o.span o.resolution = .ok types₁ :=
      accept_of_merge_self hr (Resolution.merge_of_actual_eq halike.actual)
    have hne' : o'.resolution.actual ≠ wider.resolution.actual := halike.actual ▸ hne
    obtain ⟨r, hmerge, -⟩ := Resolution.exists_merge_eq_join h o.span hne' htells' hother hloose
      nofun
    obtain ⟨types₂, hwider, -⟩ := exists_accept_of_merge (o := wider) hr hmerge
    rw [conflicts_of_ok haccept, conflicts_of_ok hself, conflicts_of_ok hwider]
    rfl
  simp [hfirst, hsecond]

theorem decides_of_conflicts_swap
    (hswap : ∀ later,
      types.conflicts h (o :: o' :: later) = types.conflicts h (o' :: o :: later)) :
    types.Decides h o.id o.resolution.expectation o.resolution.actual := by
  by_cases hunsettled : types.Unsettled o.id o.resolution.expectation
  · obtain ⟨later, hne⟩ := exists_conflicts_ne (h := h) hexact htells hloose halike hunsettled
    exact absurd (hswap later) hne
  simp only [Unsettled, not_forall, Bool.not_eq_true] at hunsettled
  obtain ⟨r, hr, hblank⟩ := hunsettled
  refine ⟨r, hr, hblank, ?_⟩
  by_contra hnot
  simp only [not_or, not_not] at hnot
  obtain ⟨hstrict, hsame, hjoin⟩ := hnot
  have hr' := (halike.resolution?_eq types).trans hr
  have htells' := halike.isBlank_eq.trans htells
  obtain ⟨joined, hmerge, hactual, -⟩ := Resolution.exists_merge_eq_join h o'.span
    (halike.actual ▸ hsame) hblank htells' hstrict hloose
  obtain ⟨types', haccept, hjoined⟩ := exists_accept_of_merge hr' hmerge
  rw [halike.resolution?_eq] at hjoined
  have hself : types'.accept h o.id o.span o.resolution = .ok types' := by
    refine accept_of_merge_self hjoined (Resolution.merge_of_actual_eq ?_)
    rw [hactual, halike.actual, hjoin]
  have hfirst := hswap []
  rw [conflicts_of_error (accept_eq_conflict hr hsame hblank htells (.inr hexact)),
    conflicts_of_ok haccept, conflicts_of_ok hself] at hfirst
  cases hfirst

end

/-- After any offers, let `o` be an exact one whose type tells something. If it is accepted, then
either the node had the type already without insisting on it, and `o` changes nothing; or from then
on, whatever is offered in between, offers for the same node and expectation leave the table as it
is if they are of the same type or tell nothing, and are refused otherwise. The order of `o` and an
offer alike that is not exact never makes a difference exactly if what the node has decides about
both alike. -/
theorem exact_stays (h : Hierarchy) (offers : List Offer) {o : Offer}
    (hexact : o.resolution.conformance = .exact) (htells : o.resolution.isBlank = false) :
    let types := offers.foldl (offered h) {}
    let e := o.resolution.expectation
    let type := o.resolution.actual
    (∀ types', types.accept h o.id o.span o.resolution = .ok types' →
      (types.Tolerates o.id e type → types' = types) ∧
      (¬ types.Tolerates o.id e type → ∀ later : List Offer,
        let now := later.foldl (offered h) types'
        (now.resolution? o.id e).map (·.actual) = some type ∧
        ∀ o' : Offer, o'.id = o.id → o'.resolution.expectation = e →
          now.accept h o'.id o'.span o'.resolution =
            if type = o'.resolution.actual ∨ o'.resolution.isBlank then .ok now
            else .error (.conflict type o'.resolution.actual o'.span))) ∧
    ∀ o' : Offer, o.Alike o' → o'.resolution.conformance ≠ .exact →
      ((∀ later, types.conflicts h (o :: o' :: later) = types.conflicts h (o' :: o :: later)) ↔
        types.Decides h o.id e type) := by
  intro types e type
  refine ⟨fun types' haccept => ⟨fun htolerates => ?_, fun hnew later => ?_⟩,
    fun o' halike hloose => ⟨?_, fun hdecides later => ?_⟩⟩
  · exact Except.ok.inj (haccept.symm.trans htolerates.accept_eq)
  · have hinsists := (insists_of_accept hexact htells haccept hnew).foldl_offered
      (h := h) htells later
    refine ⟨?_, fun o' hid he => hinsists.accept_eq htells hid he⟩
    obtain ⟨r, hr, hactual, -⟩ := hinsists
    rw [hr, Option.map_some, hactual]
  · exact decides_of_conflicts_swap hexact htells hloose halike
  · exact conflicts_swap hexact htells hloose halike later hdecides

/-- An integer that was to be exact, offered where nothing is known, is not widened. -/
theorem exact_stays_int :
    let o : Offer := ⟨1, {}, ⟨.free, .int, .exact, false⟩⟩
    let wider : Offer := ⟨1, {}, ⟨.free, .primitive .long, .subtype, false⟩⟩
    let types := [(⟨1, {}, ⟨.free, .void, .subtype, false⟩⟩ : Offer)].foldl (offered .empty) {}
    o.resolution.conformance = .exact ∧ o.resolution.isBlank = false ∧
      ∃ types', types.accept .empty o.id o.span o.resolution = .ok types' ∧
        ¬ types.Tolerates 1 .free .int ∧
        (types'.resolution? 1 .free).map (·.actual) = some .int ∧
        types'.accept .empty 1 {} wider.resolution =
          .error (.conflict .int (.primitive .long) {}) := by
  intro o wider types
  have hnew : ¬ types.Tolerates 1 .free .int := by
    rintro ⟨r, hr, hactual, -⟩
    obtain rfl : ⟨.free, .void, .subtype, false⟩ = r := Option.some.inj hr
    cases hactual
  obtain ⟨hstays, -⟩ := exact_stays .empty [⟨1, {}, ⟨.free, .void, .subtype, false⟩⟩]
    (o := o) rfl rfl
  have haccept : types.accept .empty o.id o.span o.resolution = .ok ⟨[(1, [o.resolution])]⟩ := rfl
  obtain ⟨hactual, hwider⟩ := (hstays _ haccept).2 hnew []
  exact ⟨rfl, rfl, _, haccept, hnew, hactual, hwider wider rfl rfl⟩

/-- An exact offer of the type that is there is accepted and forgotten: a later type widens it, and
with the two offers the other way round the later type is refused. -/
theorem exact_forgotten :
    (¬ ∀ (h : Hierarchy) (offers later : List Offer) (o o' : Offer),
      o.resolution.conformance = .exact → o.resolution.isBlank = false →
      ((offers.foldl (offered h) {}).accept h o.id o.span o.resolution).isOk →
      o'.id = o.id → o'.resolution.expectation = o.resolution.expectation →
      let now := (offers ++ o :: later).foldl (offered h) {}
      (now.accept h o'.id o'.span o'.resolution).isOk →
      ((now.offered h o').resolution? o.id o.resolution.expectation).map (·.actual) =
        some o.resolution.actual) ∧
    ¬ ∀ (h : Hierarchy) (offers later : List Offer) (o o' : Offer), o.Alike o' →
      o.resolution.conformance = .exact → o.resolution.isBlank = false →
      o'.resolution.conformance ≠ .exact →
      let types := offers.foldl (offered h) {}
      types.conflicts h (o :: o' :: later) = types.conflicts h (o' :: o :: later) := by
  let loose : Offer := ⟨1, {}, ⟨.free, .int, .subtype, false⟩⟩
  let exact : Offer := ⟨1, {}, ⟨.free, .int, .exact, false⟩⟩
  let wider : Offer := ⟨1, {}, ⟨.free, .primitive .long, .subtype, false⟩⟩
  constructor
  · intro hall
    have hkept := hall .empty [loose] [] exact wider rfl rfl rfl rfl rfl rfl
    exact absurd hkept (by decide)
  · intro hall
    have hswap := hall .empty [] [wider] exact loose ⟨rfl, rfl, rfl⟩ rfl rfl (by decide)
    exact absurd hswap (by decide)

end ResolvedTypes

end Lowering
