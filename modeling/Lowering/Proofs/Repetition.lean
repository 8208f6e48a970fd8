import Lowering.Proofs.Effects
import Lowering.Proofs.Events

/-!
# Repeated effects

The statement form of a tree completes all its effects. What has no name afterwards is written again
with the value of its parent, and then so are its effects. Main statements: this is the only way for
an effect to be repeated, and apart from it every effect is completed once, in evaluation order; a
tree that needs no value of a void node repeats nothing.
-/

namespace Lowering

/-- The expression form of `e` performs an effect after the statement form did: the node of the
effect has not been bound to a local, which is so for assignments, for void invocations and for
whatever is not needed. -/
inductive Performs (env : Env) : Bool → Expr → Prop
  | self {needed : Bool} {e : Expr} (hhoists : env.hoists needed e = false)
      (heffect : e.isEffect) : Performs env needed e
  | part {needed : Bool} {e : Expr} {d : Demand} (hhoists : env.hoists needed e = false)
      (hd : d ∈ env.demands needed e) (hstored : d.place = .stored)
      (h : Performs env d.needed d.child) : Performs env needed e

/-- The statement form of `e` performs an effect twice: somewhere a value that performs one is
written, by itself or in the text of an invocation, construction or assignment. -/
inductive Repeats (env : Env) : Bool → Expr → Prop
  | written {needed : Bool} {e : Expr} {d : Demand} (hd : d ∈ env.demands needed e)
      (hwritten : d.place = .written) (h : Performs env d.needed d.child) : Repeats env needed e
  | stored {needed : Bool} {e : Expr} {d : Demand} (hd : d ∈ env.demands needed e)
      (hstored : d.place = .stored) (heffect : e.isEffect) (h : Performs env d.needed d.child) :
      Repeats env needed e
  | part {needed : Bool} {e : Expr} {d : Demand} (hd : d ∈ env.demands needed e)
      (h : Repeats env d.needed d.child) : Repeats env needed e

namespace Env

variable {env : Env} {needed : Bool} {e : Expr}

theorem exists_effect_iff :
    (∃ x, .effect x ∈ (env.course e needed).value) ↔ Performs env needed e := by
  constructor
  · rintro ⟨x, hx⟩
    induction e using Expr.childInduction generalizing needed with
    | step e ih =>
      obtain ⟨hhoists, htext⟩ := mem_value.mp hx
      rcases mem_text.mp htext with hown | ⟨d, hd, hstored, hvalue⟩ | hown
      · cases Expr.mem_mentions hown
      · exact .part hhoists hd hstored (ih d.child (mem_children hd) hvalue)
      · exact .self hhoists (Expr.mem_completes.mp hown).1
  · intro h
    induction h with
    | @self needed e hhoists heffect =>
      have hown : .effect e.id ∈ e.completes := Expr.mem_completes.mpr ⟨heffect, rfl⟩
      exact ⟨e.id, mem_value.mpr ⟨hhoists, mem_text.mpr (.inr (.inr hown))⟩⟩
    | @part needed e d hhoists hd hstored _ ih =>
      obtain ⟨x, hx⟩ := ih
      exact ⟨x, mem_value.mpr ⟨hhoists, mem_text.mpr (.inr (.inl ⟨d, hd, hstored, hx⟩))⟩⟩

/-- What has been demanded performs an effect twice. -/
def RepeatsAmong (env : Env) (demands : List Demand) : Prop :=
  ∃ d ∈ demands, Repeats env d.needed d.child ∨
    d.place = .written ∧ Performs env d.needed d.child

/-! ## Effects that are not repeated -/

private theorem effects_value (h : ¬ Performs env needed e) :
    (env.course e needed).value.filterMap Event.effect? = [] := by
  apply List.filterMap_eq_nil_iff.mpr
  intro event hevent
  cases event with
  | use => rfl
  | effect x => exact absurd (exists_effect_iff.mp ⟨x, hevent⟩) h

private theorem effects_steps_of {demands : List Demand} (h : ¬ env.RepeatsAmong demands)
    (hstatement : ∀ d ∈ demands, ¬ Repeats env d.needed d.child →
      (env.course d.child d.needed).statement.filterMap Event.effect? = d.child.effects) :
    (demands.flatMap env.steps).filterMap Event.effect? =
      demands.flatMap fun d => d.child.effects := by
  rw [List.filterMap_flatMap]
  apply List.flatMap_congr
  intro d hd
  have honce : ¬ Repeats env d.needed d.child := fun hrepeats => h ⟨d, hd, .inl hrepeats⟩
  rw [steps, List.filterMap_append, hstatement d hd honce]
  split
  · rename_i hwritten
    have hvalue : ¬ Performs env d.needed d.child := fun hperforms =>
      h ⟨d, hd, .inr ⟨hwritten, hperforms⟩⟩
    rw [effects_value hvalue, List.append_nil]
  · exact List.append_nil _

private theorem effects_text (heffect : e.isEffect) (h : ¬ Repeats env needed e) :
    (env.text needed e).filterMap Event.effect? = [e.id] := by
  have hmentions : e.mentions.filterMap Event.effect? = [] := by
    apply List.filterMap_eq_nil_iff.mpr
    intro event hevent
    rw [Expr.mem_mentions hevent]
    rfl
  have hparts : ((env.demands needed e).flatMap env.parts).filterMap Event.effect? = [] := by
    rw [List.filterMap_flatMap]
    apply List.flatMap_eq_nil_iff.mpr
    intro d hd
    rw [parts]
    split
    · rename_i hstored
      exact effects_value fun hperforms => h (.stored hd hstored heffect hperforms)
    · rfl
  have hcompletes : e.completes = [.effect e.id] := by simp [Expr.completes, heffect]
  simp [text, List.filterMap_append, hmentions, hparts, hcompletes, Event.effect?]

private theorem effects_statement (h : ¬ Repeats env needed e) :
    (env.course e needed).statement.filterMap Event.effect? = e.effects := by
  induction e using Expr.childInduction generalizing needed with
  | step e ih =>
    have hchildren : ((env.demands needed e).flatMap env.steps).filterMap Event.effect? =
        e.children.flatMap Expr.effects := by
      have hamong : ¬ env.RepeatsAmong (env.demands needed e) := by
        rintro ⟨d, hd, hrepeats | ⟨hwritten, hperforms⟩⟩
        · exact h (.part hd hrepeats)
        · exact h (.written hd hwritten hperforms)
      rw [effects_steps_of hamong fun d hd hd' => ih d.child (mem_children hd) hd',
        ← env.child_demands needed e, List.flatMap_map]
    rw [statement_course, List.filterMap_append, hchildren, Expr.effects_eq]
    cases heffect : e.isEffect with
    | true => rw [if_pos rfl, if_pos rfl, effects_text heffect h]
    | false => rfl

/-- Effects that are not repeated are completed once, in evaluation order. -/
theorem effects_steps {demands : List Demand} (h : ¬ env.RepeatsAmong demands) :
    (demands.flatMap env.steps).filterMap Event.effect? =
      demands.flatMap fun d => d.child.effects :=
  effects_steps_of h fun _ _ => effects_statement

theorem Supports.not_performs (he : env.Supports e) (hvoid : env.isVoid e = false) :
    ¬ Performs env true e := by
  intro h
  obtain ⟨x, hx⟩ := exists_effect_iff.mpr h
  obtain ⟨_, _, huse⟩ := mem_value_of_supports he hvoid hx
  cases huse

/-- What a supported tree writes again has no effect, so it repeats none. -/
theorem Supports.not_repeats (he : env.Supports e) : ¬ Repeats env needed e := by
  intro h
  induction h with
  | written hd hwritten h =>
    obtain ⟨hneeded, hvoid⟩ := (he.supportsAll _).written _ hd hwritten
    exact (he.child (mem_children hd)).not_performs hvoid (hneeded ▸ h)
  | stored hd hstored heffect h =>
    obtain ⟨hneeded, hvoid⟩ := he.demand_of_stored heffect hd hstored
    exact (he.child (mem_children hd)).not_performs hvoid (hneeded ▸ h)
  | part hd _ ih => exact ih (he.child (mem_children hd))

theorem SupportsAll.not_repeatsAmong {demands : List Demand} (he : env.SupportsAll demands) :
    ¬ env.RepeatsAmong demands := by
  rintro ⟨d, hd, hrepeats | ⟨hwritten, hperforms⟩⟩
  · exact (he.supports d hd).not_repeats hrepeats
  · obtain ⟨hneeded, hvoid⟩ := he.written d hd hwritten
    exact (he.supports d hd).not_performs hvoid (hneeded ▸ hperforms)

/-! ## Effects that are repeated -/

private theorem steps_sublist {demands : List Demand} {d : Demand} (hd : d ∈ demands) :
    (env.steps d).Sublist (demands.flatMap env.steps) := by
  rw [List.flatMap_def]
  exact List.sublist_flatten_of_mem (List.mem_map_of_mem hd)

private theorem steps_sublist_statement {d : Demand} (hd : d ∈ env.demands needed e) :
    (env.steps d).Sublist (env.course e needed).statement := by
  rw [statement_course]
  exact (steps_sublist hd).trans (List.sublist_append_left _ _)

private theorem exists_twice (h : Performs env needed e) :
    ∃ x, .effect x ∈ (env.course e needed).statement ∧ .effect x ∈ (env.course e needed).value := by
  obtain ⟨x, hx⟩ := exists_effect_iff.mpr h
  exact ⟨x, effect_mem_statement.mpr (mem_effects_of_value hx), hx⟩

private theorem twice_written {d : Demand} (hwritten : d.place = .written)
    (h : Performs env d.needed d.child) : ∃ x, [.effect x, .effect x].Sublist (env.steps d) := by
  obtain ⟨x, hstatement, hvalue⟩ := exists_twice h
  refine ⟨x, ?_⟩
  rw [steps, if_pos hwritten]
  exact (List.singleton_sublist.mpr hstatement).append (List.singleton_sublist.mpr hvalue)

private theorem exists_repeated (h : Repeats env needed e) :
    ∃ x, [.effect x, .effect x].Sublist (env.course e needed).statement := by
  induction h with
  | written hd hwritten h =>
    obtain ⟨x, hx⟩ := twice_written hwritten h
    exact ⟨x, hx.trans (steps_sublist_statement hd)⟩
  | @stored needed e d hd hstored heffect h =>
    obtain ⟨x, hstatement, hvalue⟩ := exists_twice h
    refine ⟨x, ?_⟩
    have hbefore : .effect x ∈ (env.demands needed e).flatMap env.steps :=
      List.mem_flatMap.mpr ⟨d, hd, mem_steps.mpr (.inl hstatement)⟩
    have hafter : .effect x ∈ env.text needed e :=
      mem_text.mpr (.inr (.inl ⟨d, hd, hstored, hvalue⟩))
    rw [statement_course, if_pos heffect]
    exact (List.singleton_sublist.mpr hbefore).append (List.singleton_sublist.mpr hafter)
  | part hd _ ih =>
    obtain ⟨x, hx⟩ := ih
    exact ⟨x, (hx.trans (List.sublist_append_left _ _)).trans (steps_sublist_statement hd)⟩

theorem not_nodup_effects {demands : List Demand} (h : env.RepeatsAmong demands) :
    ¬ ((demands.flatMap env.steps).filterMap Event.effect?).Nodup := by
  obtain ⟨d, hd, hrepeats⟩ := h
  have htwice : ∃ x, [.effect x, .effect x].Sublist (env.steps d) := by
    rcases hrepeats with hrepeats | ⟨hwritten, hperforms⟩
    · obtain ⟨x, hx⟩ := exists_repeated hrepeats
      exact ⟨x, hx.trans (List.sublist_append_left _ _)⟩
    · exact twice_written hwritten hperforms
  obtain ⟨x, hx⟩ := htwice
  intro hnodup
  have hpair : [x, x].Sublist ((demands.flatMap env.steps).filterMap Event.effect?) :=
    (hx.trans (steps_sublist hd)).filterMap Event.effect?
  exact List.not_nodup_pair x (hnodup.sublist hpair)

theorem mem_effects_steps {demands : List Demand} {x : NodeId} :
    x ∈ (demands.flatMap env.steps).filterMap Event.effect? ↔
      ∃ d ∈ demands, x ∈ d.child.effects := by
  simp only [List.mem_filterMap, List.mem_flatMap]
  constructor
  · rintro ⟨event, ⟨d, hd, hevent⟩, hx⟩
    cases event with
    | use => cases hx
    | effect y =>
      obtain rfl := Option.some.inj hx
      rcases mem_steps.mp hevent with hstatement | ⟨_, hvalue⟩
      · exact ⟨d, hd, effect_mem_statement.mp hstatement⟩
      · exact ⟨d, hd, mem_effects_of_value hvalue⟩
  · rintro ⟨d, hd, hx⟩
    exact ⟨.effect x, ⟨d, hd, mem_steps.mpr (.inl (effect_mem_statement.mpr hx))⟩, rfl⟩

end Env

namespace Request

variable {c : Compiler} {e : Expr} {r : Request}

/-- An effect of the tree is completed twice. -/
def Repeats (env : Env) (e : Expr) (r : Request) : Prop :=
  env.RepeatsAmong (r.demands env e)

/-- A tree that needs no value of a void node repeats no effect. -/
theorem not_repeats_of_givesOperands {types : ResolvedTypes} (hunshared : e.Unshared)
    (hinfer : r.infer c e = .ok types) (hgives : types.GivesOperands e) :
    ¬ r.Repeats (c.env types) e :=
  (supportsAll_demands (supports_of_infer hunshared hinfer hgives)).not_repeatsAmong

private theorem effects_demands (env : Env) (e : Expr) (r : Request) :
    (r.demands env e).flatMap (fun d => d.child.effects) = e.effects := by
  have hchild : (r.demands env e).flatMap (fun d => d.child.effects) =
      ((r.demands env e).map (·.child)).flatMap Expr.effects := (List.flatMap_map ..).symm
  rw [hchild]
  rcases child_demands env e r with hself | ⟨⟨node, exprs, rfl⟩, hchildren⟩
  · rw [hself, List.flatMap_singleton]
  · rw [hchildren, Expr.effects_eq]
    simp [Expr.isEffect]

/-- A tree without sharing that is lowered completes its own effects and no others. They are all
different exactly if none is repeated, and then they come in evaluation order. -/
theorem lower_completes_effects {out : Lowered} (hunshared : e.Unshared)
    (hlower : r.lower c e = .ok out) :
    ∃ sink, (r.emission c e).run.run (r.sink c) = (.ok out.types, sink) ∧
      out.source = sink.text ∧ (∀ x, x ∈ sink.effects ↔ x ∈ e.effects) ∧
      (sink.effects.Nodup ↔ ¬ r.Repeats (c.env out.types) e) ∧
      (¬ r.Repeats (c.env out.types) e → sink.effects = e.effects) := by
  obtain ⟨sink, hrun, hsource, hevents⟩ := exists_events hunshared hlower
  have hmem (x : NodeId) : x ∈ ((r.demands (c.env out.types) e).flatMap
      (c.env out.types).steps).filterMap Event.effect? ↔ x ∈ e.effects := by
    rw [Env.mem_effects_steps, ← effects_demands (c.env out.types) e r, List.mem_flatMap]
  have honce (h : ¬ r.Repeats (c.env out.types) e) : ((r.demands (c.env out.types) e).flatMap
      (c.env out.types).steps).filterMap Event.effect? = e.effects :=
    (Env.effects_steps h).trans (effects_demands _ e r)
  refine ⟨sink, hrun, hsource, ?_⟩
  rcases hevents with hevents | ⟨hplain, hnone⟩
  · rw [Sink.effects_eq, hevents]
    refine ⟨hmem, ⟨fun hnodup hrepeats => Env.not_nodup_effects hrepeats hnodup, fun h => ?_⟩,
      honce⟩
    rw [honce h]
    exact hunshared.nodup_effects
  · have hempty : e.effects = [] := hplain.effects_eq_nil
    have hrepeats : ¬ r.Repeats (c.env out.types) e := by
      intro hrepeats
      have hnil := List.eq_nil_iff_forall_not_mem.mpr fun x hx => by
        simpa [hempty] using (hmem x).mp hx
      exact Env.not_nodup_effects hrepeats (hnil ▸ List.nodup_nil)
    rw [hnone, hempty]
    exact ⟨fun x => Iff.rfl, iff_of_true List.nodup_nil hrepeats, fun _ => rfl⟩

end Request

private def save : Feature :=
  { name := "save", kind := .staticMethod, type := some (.primitive .void) }

private def savedStatements : Expr :=
  .block ⟨5, {}⟩ [
    .decl ⟨1, {}⟩ "x" none true (some (.literal ⟨0, {}⟩ (.int 1))),
    .call ⟨2, {}⟩ save none [],
    .assign ⟨4, {}⟩ (.ofLocal "x" 1) none (.literal ⟨3, {}⟩ (.int 2))]

theorem Request.lower_completes_statements :
    savedStatements.Unshared ∧ ∃ (out : Lowered) (sink : Sink),
      (Request.method { result := .void }).lower ⟨.empty, {}⟩ savedStatements = .ok out ∧
      out.source = sink.text ∧ sink.effects = [2, 4] ∧
      ¬ (Request.method { result := .void }).Repeats
        ((⟨.empty, {}⟩ : Compiler).env out.types) savedStatements := by
  have hunshared : savedStatements.Unshared := by decide
  have heffects : (((Request.method { result := .void }).emission ⟨.empty, {}⟩
      savedStatements).run.run ((Request.method { result := .void }).sink ⟨.empty, {}⟩)).2.effects =
        [2, 4] := by
    decide +kernel
  have hok : ((Request.method { result := .void }).lower ⟨.empty, {}⟩ savedStatements).isOk := by
    decide +kernel
  obtain ⟨out, hlower⟩ := exists_of_isOk hok
  obtain ⟨sink, hrun, hsource, _, hnodup, _⟩ := Request.lower_completes_effects hunshared hlower
  rw [hrun] at heffects
  have honce : sink.effects.Nodup := by
    rw [heffects]
    decide
  exact ⟨hunshared, out, sink, hlower, hsource, heffects, hnodup.mp honce⟩

private def savedInitializer : Expr :=
  .decl ⟨1, {}⟩ "x" (some (.primitive .int)) false (some (.call ⟨0, {}⟩ save none []))

/-- A void invocation is completed once as a statement and once as the value of the local. -/
theorem Request.lower_repeats_initializer :
    ¬ ∀ (c : Compiler) (e : Expr) (r : Request) (types : ResolvedTypes) (sink : Sink), e.Unshared →
      (r.emission c e).run.run (r.sink c) = (.ok types, sink) → sink.effects.Nodup := by
  intro h
  have hunshared : savedInitializer.Unshared := by decide
  have heffects : (((Request.method { result := .void }).emission ⟨.empty, {}⟩
      savedInitializer).run.run
        ((Request.method { result := .void }).sink ⟨.empty, {}⟩)).2.effects = [0, 0] := by
    decide +kernel
  have hok : (((Request.method { result := .void }).emission ⟨.empty, {}⟩
      savedInitializer).run.run
        ((Request.method { result := .void }).sink ⟨.empty, {}⟩)).1.isOk := by
    decide +kernel
  obtain ⟨types, htypes⟩ := exists_of_isOk hok
  have hnodup := h _ _ _ types _ hunshared (Prod.ext htypes rfl)
  rw [heffects] at hnodup
  exact absurd hnodup (by decide)

end Lowering
