import Lowering.Proofs.Typing.Fitting
import Lowering.Proofs.Typing.Recording

/-!
# Type inference is judging

Without sharing, the table never holds more than one resolution of a node. Main statement: on a tree
without sharing, type inference records what judging the tree says, or fails as judging does.
-/

namespace Lowering

variable {h : Hierarchy} {types types' : ResolvedTypes} {id : NodeId} {e : Expectation}

/-! ## Recording one type -/

/-- The only type that the table has for a node was recorded under `e`; there may be none yet. -/
def ResolvedTypes.Holds (types : ResolvedTypes) (id : NodeId) (e : Expectation) :
    Option HostType → Prop
  | none => types.resolutions id = []
  | some type => ∃ r : Resolution, types.resolutions id = [r] ∧ r.Fits e ∧ r.actual = type

theorem ResolvedTypes.Holds.congr {held : Option HostType} (h : types.Holds id e held)
    (heq : types'.resolutions id = types.resolutions id) : types'.Holds id e held := by
  cases held <;> simpa only [Holds, heq] using h

namespace Recording

private theorem mergeInto_of_holds (h : Hierarchy) {held : Option HostType}
    (hheld : types.Holds id e held) (span : Span) {offer : Resolution} (hoffer : offer.Fits e) :
    ∃ r, Resolution.mergeInto h span offer (types.resolutions id) = .ok [r] ∧ r.Fits e ∧
      r.actual = held.elim offer.actual (h.blend · offer.actual) := by
  cases held with
  | none =>
    rw [show types.resolutions id = [] from hheld]
    exact ⟨offer, rfl, hoffer, rfl⟩
  | some type =>
    obtain ⟨old, hold, hfits, rfl⟩ := hheld
    obtain ⟨r, hmerge, hr, hactual⟩ := Resolution.merge_of_fits h span hfits hoffer
    refine ⟨r, ?_, hr, hactual⟩
    have hsame : old.expectation = offer.expectation :=
      hfits.expectation.trans hoffer.expectation.symm
    rw [hold, Resolution.mergeInto, if_pos hsame, hmerge]
    rfl

private theorem outcome_put {held : Option HostType} (hheld : types.Holds id e held) (span : Span)
    {offer : Resolution} (hoffer : offer.Fits e) :
    Outcome (put h id span offer) types
      (fun _ types' =>
        types'.Holds id e (some (held.elim offer.actual (h.blend · offer.actual))) ∧
        ∀ other, other ≠ id → types'.resolutions other = types.resolutions other)
      fun _ => False := by
  obtain ⟨r, hmerge, hr, hactual⟩ := mergeInto_of_holds h hheld span hoffer
  cases haccept : types.accept h id span offer with
  | error f => simp [ResolvedTypes.accept, hmerge, Except.map] at haccept
  | ok types' =>
    simp only [put, outcome_bind, outcome_get, haccept, outcome_ofExcept]
    refine ⟨⟨r, ?_, hr, hactual⟩, fun other hne =>
      ResolvedTypes.resolutions_accept_of_ne haccept hne⟩
    have hresolutions := ResolvedTypes.resolutions_accept haccept
    rw [hmerge] at hresolutions
    exact (Except.ok.inj hresolutions).symm

/-! ## Agreement -/

/-- From `types`, `act` fails as `result` does, or ends with an answer and in a table that `ok`
relates to that of `result`. -/
def Agrees {α β : Type} (act : Recording α) (types : ResolvedTypes) (result : Except Failure β)
    (ok : α → ResolvedTypes → β → Prop) : Prop :=
  match result with
  | .ok b => Outcome act types (fun a types' => ok a types' b) fun _ => False
  | .error f => Outcome act types (fun _ _ => False) (· = f)

section

variable {α β γ δ : Type} {act : Recording α} {result : Except Failure β}
  {ok : α → ResolvedTypes → β → Prop}

theorem Agrees.bind {next : α → Recording γ} {next' : β → Except Failure δ}
    {ok' : γ → ResolvedTypes → δ → Prop} (hact : Agrees act types result ok)
    (hnext : ∀ a types' b, result = .ok b → ok a types' b → Agrees (next a) types' (next' b) ok') :
    Agrees (act >>= next) types (result >>= next') ok' := by
  cases hresult : result with
  | error f =>
    subst hresult
    exact (outcome_bind _ _ _ _ _).mpr (hact.imp fun _ _ h => h.elim)
  | ok b =>
    subst hresult
    change Agrees _ _ (next' b) ok'
    have hb : Outcome act types (fun a types' => Agrees (next a) types' (next' b) ok')
        fun _ => False := hact.imp fun a types' h => hnext a types' b rfl h
    generalize next' b = rest at hb ⊢
    cases rest <;> exact (outcome_bind _ _ _ _ _).mpr (hb.mono (fun _ _ h => h) fun _ h => h.elim)

theorem Agrees.imp {ok' : α → ResolvedTypes → β → Prop} (hact : Agrees act types result ok)
    (hok : ∀ a types' b, ok a types' b → ok' a types' b) : Agrees act types result ok' := by
  cases result with
  | ok b => exact Outcome.imp hact fun a types' h => hok a types' b h
  | error f => exact hact

theorem agrees_ofExcept (result : Except Failure α) :
    Agrees (ofExcept result) types result fun a types' b => a = b ∧ types' = types := by
  cases result with
  | ok a => exact ⟨rfl, rfl⟩
  | error f => exact (rfl : f = f)

theorem agrees_of_outcome {next : α → Recording γ} {ok' : γ → ResolvedTypes → β → Prop}
    (hact : Outcome act types (fun a types' => Agrees (next a) types' result ok') fun _ => False) :
    Agrees (act >>= next) types result ok' := by
  cases result <;>
    exact (outcome_bind _ _ _ _ _).mpr (hact.mono (fun _ _ h => h) fun _ h => h.elim)

end

end Recording

/-- The table has what the judgement says of a node, and nothing else of it. -/
def ResolvedTypes.Records (types : ResolvedTypes) (j : Judgement) : Prop :=
  ∃ r, types.resolutions j.id = [r] ∧ r.expectation = j.expectation ∧ r.actual = j.actual

theorem ResolvedTypes.Records.congr {j : Judgement} (h : types.Records j)
    (heq : types'.resolutions j.id = types.resolutions j.id) : types'.Records j := by
  unfold Records
  rwa [heq]

theorem ResolvedTypes.Holds.records {type : HostType} (h : types.Holds id e (some type)) :
    types.Records ⟨id, e, type⟩ := by
  obtain ⟨r, hr, hfits, htype⟩ := h
  exact ⟨r, hr, hfits.expectation, htype⟩

namespace Recording

/-- Where nothing is known of the nodes of `x`, recording does what judging says. What the table
`held` for the node whose value it is gets blended with the type of `x`. -/
def Agreed (h : Hierarchy) (x : Expr) : Prop :=
  ∀ outer c e types held, (∀ i ∈ x.ids, types.resolutions i = []) →
    (∀ p ∈ outer, p ∉ x.ids ∧ types.Holds p e held) →
    Agrees (record h x outer c e) types (x.judge h c e) fun b types' verdict =>
      b = (verdict.type, verdict.after) ∧ (∀ j ∈ verdict.judgements, types'.Records j) ∧
      (∀ p ∈ outer,
        types'.Holds p e (some (held.elim verdict.type (h.blend · verdict.type)))) ∧
      ∀ i, i ∉ x.ids → some i ≠ outer → types'.resolutions i = types.resolutions i

private theorem mem_ids_of_judge {x : Expr} {c : TypingContext} {verdict : Verdict}
    (hx : x.judge h c e = .ok verdict) {j : Judgement} (hj : j ∈ verdict.judgements) :
    j.id ∈ x.ids := by
  have hid : j.id ∈ verdict.judgements.map (·.id) := List.mem_map_of_mem hj
  rw [Expr.ids_judgements hx] at hid
  exact x.map_id_postorder_perm.mem_iff.mp hid

private def Held (h : Hierarchy) (held : Option HostType) (passed : List HostType) :
    Option HostType :=
  passed.foldl (fun held type => some (held.elim type (h.blend · type))) held

private theorem Agreed.child {x : Expr} (hx : Agreed h x) {ask : Ask}
    (hask : ask.passed → ask.expectation = e) (c : TypingContext) {held : Option HostType}
    (hid : id ∉ x.ids) (hnew : ∀ i ∈ x.ids, types.resolutions i = [])
    (hheld : types.Holds id e held) :
    Agrees (record h x (if ask.passed then some id else none) c ask.expectation) types
      (x.judge h c ask.expectation) fun b types' verdict =>
        b = (verdict.type, verdict.after) ∧ (∀ j ∈ verdict.judgements, types'.Records j) ∧
        types'.Holds id e (Held h held (if ask.passed then [verdict.type] else [])) ∧
        ∀ i, i ∉ x.ids → i ≠ id → types'.resolutions i = types.resolutions i := by
  cases hpassed : ask.passed with
  | true =>
    rw [hask hpassed]
    apply (hx (some id) c e types held hnew (by simp [hid, hheld])).imp
    intro b types' verdict hpost
    obtain ⟨hb, hrecords, hholds, hframe⟩ := hpost
    exact ⟨hb, hrecords, hholds id rfl, fun i hi hne => hframe i hi (by simpa using hne)⟩
  | false =>
    apply (hx none c ask.expectation types held hnew (by simp)).imp
    intro b types' verdict hpost
    obtain ⟨hb, hrecords, _, hframe⟩ := hpost
    refine ⟨hb, hrecords, ?_, fun i hi _ => hframe i hi (by simp)⟩
    exact hheld.congr (hframe id hid (by simp))

private theorem agrees_all {xs : List Expr} (hxs : ∀ x ∈ xs, Agreed h x) {asks : List Ask}
    (hlength : asks.length = xs.length)
    (hpassed : ∀ ask ∈ asks, ask.passed → ask.expectation = e) (c : TypingContext)
    {held : Option HostType} (hnodup : (xs.flatMap Expr.ids).Nodup)
    (hid : id ∉ xs.flatMap Expr.ids) (hnew : ∀ i ∈ xs.flatMap Expr.ids, types.resolutions i = [])
    (hheld : types.Holds id e held) :
    Agrees (all id c (asks.zip (xs.map (record h)))) types
      (Judge.all c (asks.zip (xs.map (Expr.judge h)))) fun b types' v =>
        b = (v.1.map (·.type), v.2) ∧
        (∀ verdict ∈ v.1, ∀ j ∈ verdict.judgements, types'.Records j ∧ j.id ∈ xs.flatMap Expr.ids) ∧
        types'.Holds id e (Held h held (Ask.passedTypes asks (v.1.map (·.type)))) ∧
        ∀ i, i ∉ xs.flatMap Expr.ids → i ≠ id → types'.resolutions i = types.resolutions i := by
  induction xs generalizing asks c types held with
  | nil =>
    obtain rfl : asks = [] := List.eq_nil_of_length_eq_zero hlength
    exact ⟨rfl, by simp, hheld, fun _ _ _ => rfl⟩
  | cons x xs ih =>
    obtain ⟨ask, asks, rfl⟩ := List.exists_cons_of_length_eq_add_one hlength
    rw [List.flatMap_cons] at hnodup
    simp only [List.flatMap_cons, List.mem_append, not_or] at hid hnew ⊢
    obtain ⟨_, hnodup', hdisjoint⟩ := List.nodup_append.mp hnodup
    have hapart (i : NodeId) (hi : i ∈ xs.flatMap Expr.ids) : i ∉ x.ids ∧ i ≠ id :=
      ⟨fun hmem => hdisjoint i hmem i hi rfl, fun heq => hid.2 (heq ▸ hi)⟩
    apply ((hxs x List.mem_cons_self).child (hpassed ask List.mem_cons_self) c hid.1
      (fun i hi => hnew i (.inl hi)) hheld).bind
    intro b types₁ verdict hverdict hpost
    obtain ⟨hb, hrecords, hheld₁, hframe₁⟩ := hpost
    subst hb
    refine (ih (fun x hx => hxs x (List.mem_cons_of_mem _ hx)) (Nat.succ.inj hlength)
      (fun ask hask => hpassed ask (List.mem_cons_of_mem _ hask)) verdict.after hnodup' hid.2
      (fun i hi => ?_) hheld₁).bind
      fun b types₂ verdicts _ ⟨hb, hrecords₂, hheld₂, hframe₂⟩ => ?_
    · rw [hframe₁ i (hapart i hi).1 (hapart i hi).2]
      exact hnew i (.inr hi)
    · subst hb
      refine ⟨rfl, List.forall_mem_cons.mpr ⟨fun j hj => ?_, fun verdict' hverdict' j hj => ?_⟩, ?_,
        fun i hi hne => (hframe₂ i hi.2 hne).trans (hframe₁ i hi.1 hne)⟩
      · have hj' := mem_ids_of_judge hverdict hj
        refine ⟨(hrecords j hj).congr (hframe₂ j.id (fun hmem => ?_) fun heq => ?_), .inl hj'⟩
        · exact hdisjoint j.id hj' j.id hmem rfl
        · exact hid.1 (heq ▸ hj')
      · exact (hrecords₂ verdict' hverdict' j hj).imp_right .inr
      · cases hpasses : ask.passed <;>
          simpa [Ask.passedTypes, hpasses, Held] using hheld₂

/-! ## Nodes -/

private theorem held_eq_blendAll (passed : List HostType) :
    Held h none passed = h.blendAll passed := by
  have hsome (type : HostType) (types : List HostType) :
      Held h (some type) types = some (types.foldl h.blend type) := by
    induction types generalizing type with
    | nil => rfl
    | cons next types ih => exact ih (h.blend type next)
  cases passed with
  | nil => rfl
  | cons type types => exact hsome type types

private theorem passedTypes_branch (e : Expectation) (no : Option Expr)
    {childTypes : List HostType} (hlength : childTypes.length = no.toList.length + 2) :
    Ask.passedTypes
      (.operand (.convertible .boolean) :: .value e :: no.toList.map fun _ => .value e) childTypes =
      childTypes.tail := by
  cases no with
  | none =>
    obtain ⟨_, _, rfl⟩ := List.length_eq_two.mp hlength
    rfl
  | some no =>
    obtain ⟨_, _, _, rfl⟩ := List.length_eq_three.mp hlength
    rfl

private theorem resolution?_of_holds {type : HostType} (hholds : types.Holds id e (some type)) :
    ∃ r, types.resolution? id e = some r ∧ r.actual = type := by
  obtain ⟨r, hr, hfits, htype⟩ := hholds
  exact ⟨r, by simp [ResolvedTypes.resolution?, hr, hfits.expectation], htype⟩

private theorem outcome_passedType {x : Expr} {c : TypingContext} {asks : List Ask}
    (hasks : x.asks c e = .ok asks) {childTypes : List HostType}
    (hlength : childTypes.length = x.children.length)
    (hholds : types.Holds x.id e (h.blendAll (Ask.passedTypes asks childTypes)))
    (inner : TypingContext) :
    Outcome (passedType e childTypes x) types (fun value types' => types' = types ∧
      x.ownType inner value =
        x.ownType inner ((h.blendAll (Ask.passedTypes asks childTypes)).getD .void))
      fun _ => False := by
  cases x with
  | branch node cond yes no =>
    obtain rfl := Except.ok.inj hasks
    have htail := passedTypes_branch e no hlength
    obtain ⟨type, hblend⟩ : ∃ type, h.blendAll childTypes.tail = some type := by
      obtain ⟨_, _, rfl⟩ := List.exists_cons_of_length_eq_add_one hlength
      obtain ⟨_, _, rfl⟩ := List.exists_cons_of_length_eq_add_one (Nat.succ.inj hlength)
      exact ⟨_, rfl⟩
    rw [htail, hblend] at hholds ⊢
    obtain ⟨r, hr, hactual⟩ := resolution?_of_holds hholds
    refine ⟨rfl, congrArg Except.ok ?_⟩
    rw [show types.resolution? node.id e = some r from hr]
    exact hactual
  | block node exprs =>
    obtain rfl := Except.ok.inj hasks
    have hlength' : childTypes.length = exprs.length := hlength
    rw [Ask.passedTypes_statements hlength']
    refine ⟨rfl, congrArg Except.ok ?_⟩
    rw [List.getLastD_eq_getLast?]
    cases childTypes.getLast? <;> rfl
  | _ => exact ⟨rfl, Expr.ownType_congr rfl _ _ _⟩

private theorem blend_self (h : Hierarchy) (type : HostType) : h.blend type type = type := by
  simp [Hierarchy.blend]

private theorem agrees_settle {x : Expr} {type : HostType} {own held : Option HostType}
    {outer : Option NodeId} (hown : types.Holds x.id e own) (hkept : ∀ t ∈ own, type = t)
    (houter : ∀ p ∈ outer, p ≠ x.id ∧ types.Holds p e held) (after : TypingContext)
    (verdicts : List Verdict) :
    Agrees (settle h outer e x (type, after)) types (Judge.conclude h e x type after verdicts)
      fun b types' verdict => b = (verdict.type, verdict.after) ∧
        verdict.judgements =
          verdicts.flatMap (·.judgements) ++ [⟨x.id, e, verdict.type⟩] ∧
        types'.Holds x.id e (some verdict.type) ∧
        (∀ p ∈ outer, types'.Holds p e (some (held.elim verdict.type (h.blend · verdict.type)))) ∧
        ∀ i, i ≠ x.id → some i ≠ outer → types'.resolutions i = types.resolutions i := by
  apply (agrees_ofExcept _).bind
  intro conformance types₀ _ hclassify hpost
  obtain ⟨hconformance, htypes⟩ := hpost
  subst hconformance htypes
  have hoffer := Resolution.fits_of_classify hclassify e.isReturn
  have hblend : own.elim (Typing.refine e type) (h.blend · (Typing.refine e type)) =
      Typing.refine e type := by
    cases own with
    | none => rfl
    | some t =>
      obtain rfl : type = t := hkept t rfl
      obtain ⟨r, _, hfits, rfl⟩ := hown
      rw [hfits.refined]
      exact blend_self h r.actual
  cases outer with
  | none =>
    refine (outcome_bind _ _ _ _ _).mpr
      ((outcome_bind _ _ _ _ _).mpr ((outcome_put hown x.span hoffer).imp
        fun _ types₁ ⟨hown₁, hframe₁⟩ => ?_))
    rw [hblend] at hown₁
    exact ⟨rfl, rfl, hown₁, by simp, fun i hi _ => hframe₁ i hi⟩
  | some p =>
    obtain ⟨hne, hheld⟩ := houter p rfl
    refine (outcome_bind _ _ _ _ _).mpr
      ((outcome_bind _ _ _ _ _).mpr ((outcome_put hown x.span hoffer).imp
        fun _ types₁ ⟨hown₁, hframe₁⟩ => ?_))
    rw [hblend] at hown₁
    apply (outcome_put (hheld.congr (hframe₁ p hne)) x.span hoffer).imp
    intro _ types₂ hpost
    obtain ⟨hheld₂, hframe₂⟩ := hpost
    refine ⟨rfl, rfl, hown₁.congr (hframe₂ x.id hne.symm), ?_, fun i hi hip => ?_⟩
    · rintro _ ⟨⟩
      exact hheld₂
    · exact (hframe₂ i fun heq => hip (congrArg some heq)).trans (hframe₁ i hi)

private theorem eq_of_passed {x : Expr} {c inner : TypingContext} {asks : List Ask}
    (hasks : x.asks c e = .ok asks) {childTypes : List HostType} {t type : HostType}
    (ht : t ∈ h.blendAll (Ask.passedTypes asks childTypes))
    (htype : x.ownType inner ((h.blendAll (Ask.passedTypes asks childTypes)).getD .void) =
      .ok type) : type = t := by
  cases hpasses : x.passesValue with
  | true =>
    rw [Expr.ownType_of_passesValue hpasses, Option.mem_def.mp ht] at htype
    exact (Except.ok.inj htype).symm
  | false =>
    rw [Ask.passedTypes_of_not_passed (Expr.passed_eq_false hasks hpasses)] at ht
    cases ht

theorem agreed (h : Hierarchy) {x : Expr} (hx : x.Unshared) : Agreed h x := by
  induction x using Expr.childInduction with
  | step x ih =>
    intro outer c e types held hnew houter
    obtain ⟨hid, hnodup⟩ := (Expr.unshared_iff x).mp hx
    have hbelow (i : NodeId) (hi : i ∈ x.children.flatMap Expr.ids) : i ∈ x.ids := by
      rw [Expr.ids_eq]
      exact List.mem_cons_of_mem _ hi
    -- The children find nothing recorded for `x` and leave there what they pass to it.
    have hnone : types.Holds x.id e none := hnew x.id x.id_mem_ids
    rw [record_eq, Expr.judge_eq, inside, bind_assoc]
    apply (agrees_ofExcept _).bind
    intro asks types₀ _ hasks hpost
    obtain ⟨hasksEq, htypes⟩ := hpost
    subst hasksEq htypes
    rw [bind_assoc]
    apply (agrees_all (fun child hchild => ih child hchild (hx.child hchild))
      (Expr.length_asks hasks) (Expr.expectation_of_passed hasks) c hnodup hid
      (fun i hi => hnew i (hbelow i hi)) hnone).bind
    intro b types₁ verdicts hall hpost
    obtain ⟨hb, hrecords, hheld, hframe⟩ := hpost
    subst hb
    rw [bind_assoc]
    rw [held_eq_blendAll] at hheld
    have hlength := Judge.length_all (Expr.length_asks hasks) hall
    apply agrees_of_outcome
    apply (outcome_passedType hasks (by simpa using hlength) hheld verdicts.2).imp
    intro value types₂ hpost
    obtain ⟨htypes, hown⟩ := hpost
    subst htypes
    rw [bind_assoc, hown]
    apply (agrees_ofExcept _).bind
    intro type types₃ _ htype hpost
    obtain ⟨htypeEq, htypes⟩ := hpost
    subst htypeEq htypes
    rw [pure_bind]
    have hkept : ∀ t ∈ h.blendAll (Ask.passedTypes asks (verdicts.1.map (·.type))), type = t :=
      fun t ht => eq_of_passed hasks ht htype
    have hheldOuter : ∀ p ∈ outer, p ≠ x.id ∧ types₃.Holds p e held := fun p hp => by
      obtain ⟨hp, hholds⟩ := houter p hp
      have hne : p ≠ x.id := fun heq => hp (heq ▸ x.id_mem_ids)
      exact ⟨hne, hholds.congr (hframe p (fun hmem => hp (hbelow p hmem)) hne)⟩
    apply (agrees_settle hheld hkept hheldOuter _ _).imp
    intro b types₄ verdict hpost
    obtain ⟨hb, hjudgements, hown', houter', hframe'⟩ := hpost
    refine ⟨hb, fun j hj => ?_, houter', fun i hi hne => ?_⟩
    · rw [hjudgements] at hj
      rcases List.mem_append.mp hj with hj | hj
      · obtain ⟨below, hmem, hj⟩ := List.mem_flatMap.mp hj
        obtain ⟨hj, hjid⟩ := hrecords below hmem j hj
        refine hj.congr (hframe' j.id (fun heq => hid (heq ▸ hjid)) fun heq => ?_)
        exact (houter j.id heq.symm).1 (hbelow j.id hjid)
      · obtain rfl := List.mem_singleton.mp hj
        exact hown'.records
    · have hne' : i ≠ x.id := fun heq => hi (heq ▸ x.id_mem_ids)
      exact (hframe' i hne' hne).trans (hframe i (fun hmem => hi (hbelow i hmem)) hne')

end Recording

/-! ## Whole trees -/

namespace Expr

variable {x : Expr} {c : TypingContext}

/-- Inference fails as judging does, or it records the judgements and nothing on other nodes. -/
theorem infer_agrees (hx : x.Unshared) (h : Hierarchy) (c : TypingContext)
    (e : Expectation) :
    match x.judge h c e with
    | .ok verdict => ∃ types, x.infer h e c = .ok types ∧
        (∀ j ∈ verdict.judgements, types.Records j) ∧ ∀ i, i ∉ x.ids → types.resolutions i = []
    | .error f => x.infer h e c = .error f := by
  have hagreed := Recording.agreed h hx none c e {} none (fun _ _ => rfl) (by simp)
  rw [Typing.infer_eq_record]
  cases hjudge : x.judge h c e with
  | error f =>
    rw [hjudge] at hagreed
    cases hrun : (Recording.record h x none c e).run.run {} with
    | mk result types =>
      cases result with
      | ok b => exact (hagreed.of_run_ok hrun).elim
      | error f' => exact congrArg Except.error (hagreed.of_run_error hrun)
  | ok verdict =>
    rw [hjudge] at hagreed
    obtain ⟨b, types, hrun, _, hrecords, _, hframe⟩ := hagreed.exists_run_ok
    rw [hrun]
    exact ⟨types, rfl, hrecords, fun i hi => hframe i hi (by simp)⟩

/-- A tree without sharing that type inference accepts is judged, and its table has the
judgements. -/
theorem exists_judge_of_infer (hx : x.Unshared) {h : Hierarchy} {e : Expectation}
    (hinfer : x.infer h e c = .ok types) :
    ∃ verdict, x.judge h c e = .ok verdict ∧ ∀ j ∈ verdict.judgements, types.Records j := by
  have hagrees := infer_agrees hx h c e
  cases hjudge : x.judge h c e with
  | error f =>
    simp only [hjudge, hinfer] at hagrees
    cases hagrees
  | ok verdict =>
    simp only [hjudge, hinfer, Except.ok.injEq, exists_eq_left'] at hagrees
    exact ⟨verdict, rfl, hagrees.1⟩

/-- Nothing is recorded for nodes outside the tree. -/
theorem resolutions_eq_nil_of_infer (hx : x.Unshared) {h : Hierarchy} {e : Expectation}
    (hinfer : x.infer h e c = .ok types) {i : NodeId} (hi : i ∉ x.ids) :
    types.resolutions i = [] := by
  have hagrees := infer_agrees hx h c e
  cases hjudge : x.judge h c e with
  | error f =>
    simp only [hjudge, hinfer] at hagrees
    cases hagrees
  | ok verdict =>
    simp only [hjudge, hinfer, Except.ok.injEq, exists_eq_left'] at hagrees
    exact hagrees.2 i hi

/-- Type inference fails as judging does, or its table has one resolution for every node of the
tree, with the expectation and the type of the judgement on the node, and nothing else. -/
theorem infer_eq_judge (hx : x.Unshared) (h : Hierarchy) (c : TypingContext) (e : Expectation) :
    match x.judge h c e with
    | .ok verdict => verdict.judgements.map (·.id) = x.postorder.map Expr.id ∧
        ∃ types, x.infer h e c = .ok types ∧ (∀ j ∈ verdict.judgements, types.Records j) ∧
          ∀ i, i ∉ x.ids → types.resolutions i = []
    | .error f => x.infer h e c = .error f := by
  have hagrees := infer_agrees hx h c e
  cases hjudge : x.judge h c e with
  | error f => simpa only [hjudge] using hagrees
  | ok verdict => exact ⟨ids_judgements hjudge, by simpa only [hjudge] using hagrees⟩

private def widened : Expr :=
  .branch ⟨3, {}⟩ (.literal ⟨0, {}⟩ (.boolean true)) (.literal ⟨1, {}⟩ (.int 1))
    (some (.literal ⟨2, {}⟩ (.long 2)))

theorem infer_eq_judge_branch :
    widened.Unshared ∧ ∃ verdict types, widened.judge .empty {} .free = .ok verdict ∧
      verdict.type = .primitive .long ∧ verdict.judgements.map (·.id) = [0, 1, 2, 3] ∧
      widened.infer .empty .free {} = .ok types ∧ ∀ j ∈ verdict.judgements, types.Records j := by
  have hunshared : widened.Unshared := by decide
  have hjudge : widened.judge .empty {} .free = .ok ⟨.primitive .long, {},
      [⟨0, .convertible .boolean, .primitive .boolean⟩, ⟨1, .free, .primitive .int⟩,
        ⟨2, .free, .primitive .long⟩, ⟨3, .free, .primitive .long⟩]⟩ := by decide +kernel
  have hagrees := infer_eq_judge hunshared .empty {} .free
  rw [hjudge] at hagrees
  obtain ⟨_, types, hinfer, hrecords, _⟩ := hagrees
  exact ⟨hunshared, _, types, hjudge, rfl, rfl, hinfer, hrecords⟩

end Expr

end Lowering
