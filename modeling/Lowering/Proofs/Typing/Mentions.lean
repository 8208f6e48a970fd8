import Lowering.Proofs.Typing.Conformance
import Lowering.Proofs.Typing.Invariants

/-!
# What the table mentions

An offer adds an entry for its node or changes the one that is there, and it adds a resolution or
merges into the one with its expectation. Main statements: a node of the table has resolutions under
different expectations and at least one, and the table of an inferred tree has the nodes of the tree
and no others, also where nodes are shared.
-/

namespace Lowering

variable {h : Hierarchy} {types types' : ResolvedTypes}

/-! ## Expectations -/

namespace Resolution

variable {span : Span} {offer : Resolution} {rs rs' : List Resolution}

theorem expectation_merge {old new r : Resolution} (hsame : old.expectation = new.expectation)
    (hmerge : old.merge h span new = .ok r) : r.expectation = new.expectation := by
  rcases merge_eq_ok hmerge with rfl | rfl | ⟨_, _, _, _, rfl⟩
  · exact hsame
  · rfl
  · exact hsame

/-- What merging an offer makes of the resolutions of a node. -/
inductive MergedInto (h : Hierarchy) (span : Span) (offer : Resolution) :
    List Resolution → List Resolution → Prop
  | added {rs : List Resolution} (hnew : offer.expectation ∉ rs.map (·.expectation)) :
      MergedInto h span offer rs (rs ++ [offer])
  | merged {old new : Resolution} {before after : List Resolution}
      (hbefore : offer.expectation ∉ before.map (·.expectation))
      (hsame : old.expectation = offer.expectation) (hmerge : old.merge h span offer = .ok new) :
      MergedInto h span offer (before ++ old :: after) (before ++ new :: after)

theorem MergedInto.cons {first : Resolution} (hne : first.expectation ≠ offer.expectation)
    (hrest : MergedInto h span offer rs rs') :
    MergedInto h span offer (first :: rs) (first :: rs') := by
  cases hrest with
  | added hnew => exact .added (List.not_mem_cons_of_ne_of_not_mem hne.symm hnew)
  | @merged old new before after hbefore hsame hmerge =>
    have hbefore := List.not_mem_cons_of_ne_of_not_mem hne.symm hbefore
    exact @merged _ _ _ old new (first :: before) after hbefore hsame hmerge

theorem mergeInto_eq_ok (hmerge : mergeInto h span offer rs = .ok rs') :
    MergedInto h span offer rs rs' := by
  induction rs generalizing rs' with
  | nil =>
    obtain rfl := Except.ok.inj hmerge
    exact .added List.not_mem_nil
  | cons first rest ih =>
    rw [mergeInto] at hmerge
    split at hmerge
    · rename_i hsame
      cases hmerged : first.merge h span offer with
      | error f => simp [hmerged, Except.map] at hmerge
      | ok merged =>
        obtain rfl : merged :: rest = rs' := by simpa [hmerged, Except.map] using hmerge
        exact @MergedInto.merged _ _ _ first merged [] rest List.not_mem_nil hsame hmerged
    · rename_i hne
      cases hmerged : mergeInto h span offer rest with
      | error f => simp [hmerged, Except.map] at hmerge
      | ok merged =>
        obtain rfl : first :: merged = rs' := by simpa [hmerged, Except.map] using hmerge
        exact (ih hmerged).cons hne

/-- Expectations keep their places, and a new one comes last. -/
theorem expectations_mergeInto (hmerge : mergeInto h span offer rs = .ok rs') :
    rs'.map (·.expectation) =
      if offer.expectation ∈ rs.map (·.expectation) then rs.map (·.expectation)
      else rs.map (·.expectation) ++ [offer.expectation] := by
  cases mergeInto_eq_ok hmerge with
  | added hnew => rw [if_neg hnew, List.map_append, List.map_singleton]
  | merged _ hsame hmerged => simp [expectation_merge hsame hmerged, hsame]

theorem mem_mergeInto (hmerge : mergeInto h span offer rs = .ok rs') (e : Expectation) :
    e ∈ rs'.map (·.expectation) ↔ e ∈ rs.map (·.expectation) ∨ e = offer.expectation := by
  rw [expectations_mergeInto hmerge]
  split
  · exact ⟨.inl, fun he => he.elim id fun heq => heq ▸ ‹_›⟩
  · rw [List.mem_append, List.mem_singleton]

end Resolution

/-! ## Offers -/

namespace ResolvedTypes

variable {id : NodeId} {span : Span} {offer : Resolution}

/-- A type was recorded for node `id` under `e`. -/
def Mentions (types : ResolvedTypes) (id : NodeId) (e : Expectation) : Prop :=
  e ∈ (types.resolutions id).map (·.expectation)

/-- What is mentioned in `types` is mentioned in `types'`. -/
def Within (types types' : ResolvedTypes) : Prop :=
  ∀ id e, types.Mentions id e → types'.Mentions id e

theorem Within.trans {types₁ types₂ : ResolvedTypes} (h : types.Within types₁)
    (h' : types₁.Within types₂) : types.Within types₂ :=
  fun id e hmentions => h' id e (h id e hmentions)

theorem mentions_accept (haccept : types.accept h id span offer = .ok types') :
    types.Within types' ∧ types'.Mentions id offer.expectation := by
  have hmem := Resolution.mem_mergeInto (resolutions_accept haccept)
  refine ⟨fun other e hmentions => ?_, (hmem _).mpr (.inr rfl)⟩
  by_cases hother : other = id
  · subst hother
    exact (hmem e).mpr (.inl hmentions)
  · rwa [Mentions, resolutions_accept_of_ne haccept hother]

/-- An accepted offer has its node in the table. -/
theorem contains_accept (haccept : types.accept h id span offer = .ok types') (i : NodeId) :
    types'.contains i ↔ types.contains i ∨ i = id := by
  cases hmerge : Resolution.mergeInto h span offer (types.resolutions id) with
  | error f => simp [accept, hmerge, Except.map] at haccept
  | ok rs =>
    obtain rfl : ⟨Assoc.put id rs types.entries⟩ = types' := by
      simpa [accept, hmerge, Except.map] using haccept
    by_cases hi : i = id
    · simp [hi, contains]
    · simp [hi, contains, Assoc.lookup_put_of_ne hi]

/-- Nodes of the table have resolutions, all under different expectations. -/
structure Tidy (types : ResolvedTypes) : Prop where
  ne_nil : ∀ id, types.contains id → types.resolutions id ≠ []
  nodup : ∀ id, ((types.resolutions id).map (·.expectation)).Nodup

theorem Tidy.accept (htidy : types.Tidy) (haccept : types.accept h id span offer = .ok types') :
    types'.Tidy where
  ne_nil i hi := by
    by_cases heq : i = id
    · subst heq
      have hmentions := (mentions_accept haccept).2
      rintro hnil
      rw [Mentions, hnil] at hmentions
      cases hmentions
    · rw [resolutions_accept_of_ne haccept heq]
      exact htidy.ne_nil i (((contains_accept haccept i).mp hi).resolve_right heq)
  nodup i := by
    by_cases heq : i = id
    · subst heq
      have hnodup := htidy.nodup i
      rw [Resolution.expectations_mergeInto (resolutions_accept haccept)]
      split
      · exact hnodup
      · rename_i hnew
        exact List.nodup_append.mpr ⟨hnodup, List.nodup_singleton _, fun e he e' he' => by
          rintro rfl
          exact hnew (List.mem_singleton.mp he' ▸ he)⟩
    · rw [resolutions_accept_of_ne haccept heq]
      exact htidy.nodup i

end ResolvedTypes

namespace Recording

theorem outcome_put_of_accept {id : NodeId} {span : Span} {offer : Resolution}
    {ok : Unit → ResolvedTypes → Prop}
    (hok : ∀ types', types.accept h id span offer = .ok types' → ok () types') :
    Outcome (put h id span offer) types ok fun _ => True := by
  simp only [put, outcome_bind, outcome_get]
  cases haccept : types.accept h id span offer with
  | error f => trivial
  | ok types' => exact hok types' haccept

private theorem allows_tidy (h : Hierarchy) : Allows h ResolvedTypes.Tidy fun _ => True where
  rules _ := trivial
  put _ _ _ _ htidy := outcome_put_of_accept fun _ => htidy.accept

end Recording

theorem ResolvedTypes.tidy_of_infer {x : Expr} {e : Expectation} {c : TypingContext}
    (hinfer : x.infer h e c = .ok types) : types.Tidy := by
  have hempty : ResolvedTypes.Tidy {} := ⟨fun _ hi => Bool.noConfusion hi, fun _ => List.nodup_nil⟩
  have htidy := (Recording.allows_tidy h).infer hempty x e c
  rwa [hinfer] at htidy

/-! ## Nodes -/

namespace Recording

private def Lists (h : Hierarchy) (x : Expr) : Prop :=
  ∀ outer c e types, Outcome (record h x outer c e) types
    (fun _ types' => ∀ i, types'.contains i ↔ types.contains i ∨ i ∈ x.ids ∨ some i = outer)
    fun _ => True

private theorem lists_all (id : NodeId) {xs : List Expr} (hxs : ∀ x ∈ xs, Lists h x)
    {asks : List Ask} (hlength : asks.length = xs.length) (c : TypingContext)
    (types : ResolvedTypes) :
    Outcome (all id c (asks.zip (xs.map (record h)))) types
      (fun _ types' => ∀ i, i ≠ id →
        (types'.contains i ↔ types.contains i ∨ i ∈ xs.flatMap Expr.ids))
      fun _ => True := by
  induction xs generalizing asks c types with
  | nil => simp [all]
  | cons x xs ih =>
    obtain ⟨ask, asks, rfl⟩ := List.exists_cons_of_length_eq_add_one hlength
    obtain ⟨hx, hrest⟩ := List.forall_mem_cons.mp hxs
    simp only [List.map_cons, List.zip_cons_cons, all, outcome_bind]
    apply (hx _ c ask.expectation types).imp
    intro typed types₁ hfirst
    apply (ih hrest (Nat.succ.inj hlength) typed.2 types₁).imp
    intro _ types₂ hlater i hi
    have hother : some i ≠ if ask.passed then some id else none := by
      split <;> simp [hi]
    rw [hlater i hi, hfirst i, List.flatMap_cons, List.mem_append, or_assoc]
    simp [hother]

private theorem lists_settle (outer : Option NodeId) (e : Expectation) (x : Expr)
    (typed : HostType × TypingContext) (types : ResolvedTypes) :
    Outcome (settle h outer e x typed) types
      (fun _ types' => ∀ i, types'.contains i ↔ types.contains i ∨ i = x.id ∨ some i = outer)
      fun _ => True := by
  simp only [settle, outcome_bind]
  cases hclassify : e.classify h typed.1 x.span with
  | error f => trivial
  | ok conformance =>
    simp only [outcome_ofExcept, Recording.offer, outcome_bind]
    refine outcome_put_of_accept fun types₁ haccept => ?_
    have hown := ResolvedTypes.contains_accept haccept
    cases outer with
    | none => exact fun i => by simp [hown i, Expr.id]
    | some id =>
      refine outcome_put_of_accept fun types₂ haccept' i => ?_
      simp [ResolvedTypes.contains_accept haccept' i, hown i, Expr.id, or_assoc]

private theorem lists (h : Hierarchy) (x : Expr) : Lists h x := by
  induction x using Expr.childInduction with
  | step x ih =>
    intro outer c e types
    rw [record_eq, outcome_bind]
    have hinside : Outcome (inside c e x (x.children.map (record h))) types
        (fun _ types' => ∀ i, i ≠ x.id →
          (types'.contains i ↔ types.contains i ∨ i ∈ x.children.flatMap Expr.ids))
        fun _ => True := by
      rw [inside, outcome_bind]
      cases hasks : x.asks c e with
      | error f => trivial
      | ok asks =>
        simp only [ofExcept_ok, outcome_pure, outcome_bind]
        apply (lists_all x.id ih (Expr.length_asks hasks) c types).imp
        intro typed types₁ hall
        have hvalue : Outcome (passedType e typed.1 x) types₁ (fun _ types' => types' = types₁)
            fun _ => True := by
          cases x <;> exact rfl
        apply hvalue.imp
        rintro value _ rfl
        cases x.ownType typed.2 value with
        | error f => trivial
        | ok type => exact hall
    apply hinside.imp
    intro typed types₁ hbelow
    apply (lists_settle outer e x typed types₁).imp
    intro _ types₂ hown i
    rw [hown i, Expr.ids_eq, List.mem_cons]
    by_cases hi : i = x.id
    · simp [hi]
    · simp [hi, hbelow i hi, or_assoc]

end Recording

/-- The table of an inferred tree has the nodes of the tree and no others. -/
theorem ResolvedTypes.contains_iff_of_infer {x : Expr} {e : Expectation} {c : TypingContext}
    (hinfer : x.infer h e c = .ok types) (id : NodeId) : types.contains id ↔ id ∈ x.ids := by
  obtain ⟨_, hrun⟩ := Typing.exists_record_of_infer hinfer
  simpa [ResolvedTypes.contains] using
    (Recording.lists h x none c e {}).of_run_ok hrun id

end Lowering
