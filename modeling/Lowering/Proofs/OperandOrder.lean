import Mathlib.Data.List.Infix
import Lowering.Proofs.Effects
import Lowering.Proofs.Events

/-!
# The order of reads and effects

Operands that stay in place are written when the statements of all operands have been. Main
statement: the name of a local, a parameter or an instance is written after the effects that are
evaluated before it and those of operands to the right of the one it is in place for, and after no
others. So an operand does not read what a local was before a later operand assigned it.
-/

namespace Lowering

/-! ## Names in the journal -/

private theorem events_of_suffix {s : Sink} {i : NodeId} {key : NameKey} {name : String}
    {past : List Entry} (hkey : key ≠ .value i) (h : .use i key name :: past <:+ s.journal) :
    ∃ after, s.events = past.reverse.filterMap Entry.event? ++ .use i :: after := by
  obtain ⟨later, hlater⟩ := h
  refine ⟨later.reverse.filterMap Entry.event?, ?_⟩
  simp [Sink.events, ← hlater, List.filterMap_append, Entry.event?, hkey]

private theorem effect_mem_events {past : List Entry} {a : NodeId} :
    .effect a ∈ past.reverse.filterMap Entry.event? ↔ .effect a ∈ past := by
  simp only [List.mem_filterMap, List.mem_reverse]
  constructor
  · rintro ⟨entry, hentry, heq⟩
    cases entry with
    | effect id =>
      obtain rfl := Event.effect.inj (Option.some.inj heq)
      exact hentry
    | use id key name =>
      simp only [Entry.event?] at heq
      split at heq <;> cases heq
    | _ => cases heq
  · exact fun h => ⟨_, h, rfl⟩

namespace Request

variable {c : Compiler} {env : Env} {e : Expr} {r : Request} {a i : NodeId}

private theorem behind_demands (hunshared : e.Unshared) (ha : a ∈ e.effects)
    (hdone : e.Precedes a i ∨ e.Overtakes a i) :
    Behind a i ((r.demands env e).flatMap env.steps) := by
  rcases child_demands env e r with hself | ⟨⟨node, exprs, rfl⟩, hchildren⟩
  · apply Env.behind_steps
    · rw [hself, List.flatMap_singleton]
      exact hunshared
    · intro d hd _
      obtain rfl : d.child = e := List.mem_singleton.mp (hself ▸ mem_child_demands hd)
      exact ha
    · rw [hself]
      exact Expr.doneFirst_cons.mpr (.inl hdone)
  · have hchild (d : Demand) (hd : d ∈ r.demands env (.block node exprs)) :
        d.child ∈ (Expr.block node exprs).children := hchildren ▸ mem_child_demands hd
    obtain ⟨hself, hnodup⟩ := (Expr.unshared_iff _).mp hunshared
    rcases Expr.precedes_or_overtakes_iff.mp hdone with hfirst | ⟨_, rfl⟩ | ⟨_, _, hpair, _⟩
    · apply Env.behind_steps
      · rw [hchildren]
        exact hnodup
      · exact fun d hd => hunshared.mem_effects_child ha (hchild d hd)
      · rw [hchildren]
        exact hfirst
    · apply Behind.of_not_mem
      intro huse
      obtain ⟨d, hd, hstep⟩ := List.mem_flatMap.mp huse
      exact hself (List.mem_flatMap.mpr ⟨d.child, hchild d hd, Env.use_mem_steps hstep⟩)
    · cases hpair

private theorem done_of_demands (he : env.Supports e)
    (hpair : [.effect a, .use i].Sublist ((r.demands env e).flatMap env.steps)) :
    e.Precedes a i ∨ e.Overtakes a i := by
  have hfirst := Env.doneFirst_of_steps (supportsAll_demands he) hpair
  rcases child_demands env e r with hself | ⟨_, hchildren⟩
  · rw [hself] at hfirst
    simpa [Expr.doneFirst_cons, Expr.DoneFirst] using hfirst
  · rw [hchildren] at hfirst
    exact Expr.precedes_or_overtakes_iff.mpr (.inl hfirst)

/-- A tree without sharing that is lowered writes the name of a local, a parameter or an instance
only when all effects are complete that are evaluated before it or that it waits for and, unless a
node needs the value of a void one, when no other effect is. -/
theorem lower_orders_uses {out : Lowered} (hunshared : e.Unshared)
    (hlower : r.lower c e = .ok out) :
    ∃ sink, (r.emission c e).run.run (r.sink c) = (.ok out.types, sink) ∧
      out.source = sink.text ∧
      ∀ a ∈ e.effects, ∀ i key name past, key ≠ .value i →
        .use i key name :: past <:+ sink.journal →
          (e.Precedes a i ∨ e.Overtakes a i → .effect a ∈ past) ∧
          (out.types.GivesOperands e → .effect a ∈ past → e.Precedes a i ∨ e.Overtakes a i) := by
  obtain ⟨sink, hrun, hsource, hevents⟩ := exists_events hunshared hlower
  refine ⟨sink, hrun, hsource, fun a ha i key name past hkey hpast => ?_⟩
  obtain ⟨after, hafter⟩ := events_of_suffix hkey hpast
  rcases hevents with hevents | ⟨hplain, _⟩
  · rw [hevents] at hafter
    constructor
    · intro hdone
      exact effect_mem_events.mp (behind_demands hunshared ha hdone _ _ hafter)
    · intro hgives heffect
      have hsupports := supports_of_infer hunshared (infer_of_lower hlower) hgives
      apply done_of_demands hsupports
      rw [hafter]
      exact (List.singleton_sublist.mpr (effect_mem_events.mpr heffect)).append
        (List.singleton_sublist.mpr List.mem_cons_self)
  · rw [hplain.effects_eq_nil] at ha
    cases ha

/-- A tree without sharing that is lowered writes the names of an operand that stay in place after
the effects of later operands, and, unless a node needs the value of a void one, all other names of
the operand before them. -/
theorem lower_orders_operands {out : Lowered} (hunshared : e.Unshared)
    (hlower : r.lower c e = .ok out) :
    ∃ sink, (r.emission c e).run.run (r.sink c) = (.ok out.types, sink) ∧
      out.source = sink.text ∧
      ∀ part ∈ e.occurrences, ∀ left right, [left, right].Sublist part.operands →
        ∀ i ∈ left.ids, ∀ a ∈ right.effects, ∀ key name past, key ≠ .value i →
          .use i key name :: past <:+ sink.journal →
            TextAt out.source past name ∧ (i ∈ left.inPlace → .effect a ∈ past) ∧
            (out.types.GivesOperands e → .effect a ∈ past → i ∈ left.inPlace) := by
  obtain ⟨sink, hrun, hsource, horders⟩ := lower_orders_uses hunshared hlower
  refine ⟨sink, hrun, hsource, ?_⟩
  intro part hpart left right hpair i hi a ha key name past hkey hpast
  have heffect : a ∈ e.effects := by
    obtain ⟨_, hright⟩ := mem_of_pair_sublist (hpair.trans part.operands_sublist_children)
    exact Expr.effects_subset_of_mem_occurrences hpart
      (Expr.mem_effects.mpr (.inl ⟨right, hright, ha⟩))
  obtain ⟨hafter, hdone⟩ := horders a heffect i key name past hkey hpast
  refine ⟨hsource ▸ sink.textAt hpast, ?_, ?_⟩
  · intro hinPlace
    exact hafter (.inr ⟨part, hpart, left, right, hpair, hinPlace, ha⟩)
  · intro hgives hmem
    exact Expr.mem_inPlace_of_done hunshared hpart hpair hi (Expr.mem_ids_of_mem_effects ha)
      (hdone hgives hmem)

end Request

private def readLocal (id : NodeId) : Expr :=
  .call ⟨id, {}⟩ (.ofLocal "x" 1) none []

private def assignLocal : Expr :=
  .assign ⟨4, {}⟩ (.ofLocal "x" 1) none (.literal ⟨3, {}⟩ (.int 2))

private def reassigned : Expr :=
  .block ⟨6, {}⟩ [assignLocal, readLocal 5]

private def sumOfReassigned : Expr :=
  .call ⟨7, {}⟩ (.ofOperator "operator_plus" "+" (.primitive .int)) (some (readLocal 2))
    [reassigned]

private def declaredSum : Expr :=
  .block ⟨8, {}⟩ [
    .decl ⟨1, {}⟩ "x" (some (.primitive .int)) true (some (.literal ⟨0, {}⟩ (.int 1))),
    sumOfReassigned]

private theorem mem_occurrences_declaredSum : sumOfReassigned ∈ declaredSum.occurrences :=
  Expr.mem_occurrences_of_mem_children (by simp [declaredSum, Expr.children])
    sumOfReassigned.mem_occurrences_self

/-- The left operand is written after the assignment in the right one. -/
theorem Request.lower_orders_sum :
    declaredSum.Unshared ∧ ∃ (out : Lowered) (sink : Sink) (past : List Entry),
      (Request.lambda { result := .int }).lower ⟨.empty, {}⟩ declaredSum = .ok out ∧
      out.source = sink.text ∧ .use 2 (.value 1) "x" :: past <:+ sink.journal ∧
      TextAt out.source past "x" ∧ .effect 4 ∈ past := by
  have hunshared : declaredSum.Unshared := by decide
  have hused : (((Request.lambda { result := .int }).emission ⟨.empty, {}⟩ declaredSum).run.run
      ((Request.lambda { result := .int }).sink ⟨.empty, {}⟩)).2.journal.contains
        (.use 2 (.value 1) "x") := by
    decide +kernel
  have hok : ((Request.lambda { result := .int }).lower ⟨.empty, {}⟩ declaredSum).isOk := by
    decide +kernel
  obtain ⟨out, hlower⟩ := exists_of_isOk hok
  obtain ⟨sink, hrun, hsource, horders⟩ := Request.lower_orders_operands hunshared hlower
  rw [hrun] at hused
  obtain ⟨past, huse⟩ := exists_suffix_of_mem (List.contains_iff_mem.mp hused)
  obtain ⟨htext, hafter, -⟩ := horders sumOfReassigned mem_occurrences_declaredSum (readLocal 2)
    reassigned (.refl _) 2 (by decide) 4 (by decide) _ "x" past (by decide) huse
  exact ⟨hunshared, out, sink, past, hlower, hsource, huse, htext, hafter (by decide)⟩

/-- An operand that reads a local may come after the assignment of a later operand to the local. -/
theorem Request.lower_reads_reassigned :
    ¬ ∀ (c : Compiler) (e : Expr) (r : Request) (types : ResolvedTypes) (sink : Sink), e.Unshared →
      (r.emission c e).run.run (r.sink c) = (.ok types, sink) →
      ∀ part ∈ e.occurrences, ∀ (read assigned : Node) (feature target : Feature)
        (d : NodeId) (right value : Expr),
        feature.kind = .localVar d → target.kind = .localVar d →
        [.call read feature none [], right].Sublist part.operands →
        .assign assigned target none value ∈ right.occurrences →
        ∀ name past, .use read.id (.value d) name :: past <:+ sink.journal →
          .effect assigned.id ∉ past := by
  intro h
  have hunshared : declaredSum.Unshared := by decide
  have hok : (((Request.lambda { result := .int }).emission ⟨.empty, {}⟩ declaredSum).run.run
      ((Request.lambda { result := .int }).sink ⟨.empty, {}⟩)).1.isOk := by
    decide +kernel
  have hlate : ∃ tail ∈ (((Request.lambda { result := .int }).emission ⟨.empty, {}⟩
      declaredSum).run.run ((Request.lambda { result := .int }).sink ⟨.empty, {}⟩)).2.journal.tails,
        tail.head? = some (.use 2 (.value 1) "x") ∧ .effect 4 ∈ tail.tail := by
    decide +kernel
  obtain ⟨types, htypes⟩ := exists_of_isOk hok
  obtain ⟨tail, htail, hhead, hbefore⟩ := hlate
  have hassigned : assignLocal ∈ reassigned.occurrences :=
    Expr.mem_occurrences_of_mem_children List.mem_cons_self assignLocal.mem_occurrences_self
  apply h _ _ _ types _ hunshared (Prod.ext htypes rfl) _ mem_occurrences_declaredSum ⟨2, {}⟩
    ⟨4, {}⟩ _ _ 1 _ _ rfl rfl (.refl _) hassigned "x" tail.tail _ hbefore
  rw [List.cons_head?_tail hhead]
  exact (List.mem_tails _ _).mp htail

end Lowering
