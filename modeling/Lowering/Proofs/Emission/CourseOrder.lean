import Lowering.Proofs.Emission.CourseEvents
import Lowering.Proofs.Emission.Values
import Lowering.Proofs.Tree.Order

/-!
# The order of events

The statement form of a tree does what comes first in evaluation first, except that what stays in
place waits for all operands. Main statements: a name is written after every effect that precedes
it or that it waits for; and after no others if no node needs the value of a void one.
-/

namespace Lowering

/-! ## Events that come after an effect -/

/-- The name of node `r` is written only when the effect of node `a` is complete. -/
def Behind (a r : NodeId) (events : List Event) : Prop :=
  ∀ before after, events = before ++ .use r :: after → .effect a ∈ before

namespace Behind

variable {a r : NodeId} {events events' : List Event}

theorem of_not_mem (h : .use r ∉ events) : Behind a r events := by
  rintro before after rfl
  simp at h

theorem append (h : Behind a r events) (ha : .effect a ∈ events) :
    Behind a r (events ++ events') := by
  intro before after heq
  rcases List.append_eq_append_iff.mp heq with ⟨middle, rfl, _⟩ | ⟨middle, rfl, hmiddle⟩
  · exact List.mem_append_left _ ha
  · cases middle with
    | nil => simpa using ha
    | cons event middle =>
      obtain ⟨rfl, rfl⟩ := List.cons.inj hmiddle
      exact h before middle rfl

theorem prepend (h : Behind a r events') (hr : .use r ∉ events) :
    Behind a r (events ++ events') := by
  intro before after heq
  rcases List.append_eq_append_iff.mp heq with ⟨middle, rfl, hmiddle⟩ | ⟨middle, rfl, hmiddle⟩
  · exact List.mem_append_right _ (h middle after hmiddle)
  · cases middle with
    | nil => exact absurd (h [] after hmiddle.symm) (by simp)
    | cons event middle =>
      obtain ⟨rfl, _⟩ := List.cons.inj hmiddle
      simp at hr

end Behind

namespace Env

variable {env : Env} {needed : Bool} {e : Expr} {a r : NodeId}

/-! ## What an effect comes before -/

theorem use_mem_steps {d : Demand} (h : .use r ∈ env.steps d) : r ∈ d.child.ids :=
  node_mem_ids ((mem_steps.mp h).imp_right And.right)

private theorem behind_of_children {demands : List Demand}
    (hnodup : ((demands.map (·.child)).flatMap Expr.ids).Nodup)
    (hdone : Expr.DoneFirst (demands.map (·.child)) a r)
    (ha : ∀ d ∈ demands, a ∈ d.child.ids → a ∈ d.child.effects)
    (hchild : ∀ d ∈ demands, a ∈ d.child.effects →
      d.child.Precedes a r ∨ d.child.Overtakes a r →
        Behind a r (env.course d.child d.needed).statement) :
    Behind a r (demands.flatMap env.steps) := by
  induction demands with
  | nil => exact .of_not_mem (by simp)
  | cons d rest ih =>
    rw [List.map_cons, List.flatMap_cons, List.nodup_append'] at hnodup
    obtain ⟨_, hrest, hdisjoint⟩ := hnodup
    have heffect (hmem : a ∈ d.child.ids) : .effect a ∈ (env.course d.child d.needed).statement :=
      effect_mem_statement.mpr (ha d List.mem_cons_self hmem)
    rcases Expr.doneFirst_cons.mp hdone with hown | ⟨hmem, hr⟩ | hlater
    · have hmem : a ∈ d.child.ids := (Expr.mem_ids_of_done hown).1
      have hbehind := hchild d List.mem_cons_self (ha d List.mem_cons_self hmem) hown
      exact (hbehind.append (heffect hmem)).append (mem_steps.mpr (.inl (heffect hmem)))
    · have hnot : .use r ∉ env.steps d := fun hstep =>
        hdisjoint (use_mem_steps hstep) (List.mem_flatMap.mpr hr)
      exact (Behind.of_not_mem hnot).append (mem_steps.mpr (.inl (heffect hmem)))
    · have hnot : .use r ∉ env.steps d := fun hstep =>
        hdisjoint (use_mem_steps hstep) (Expr.mem_ids_of_doneFirst hlater).2
      exact (ih hrest hlater (fun d' hd' => ha d' (List.mem_cons_of_mem _ hd'))
        fun d' hd' => hchild d' (List.mem_cons_of_mem _ hd')).prepend hnot

private theorem place_ne_written {d : Demand} (h : e.isInline ∨ e.isEffect)
    (hd : d ∈ env.demands needed e) : d.place ≠ .written := by
  cases e with
  | block node exprs =>
    rcases exprs with _ | ⟨only, _ | ⟨second, rest⟩⟩
    · cases hd
    · simp_all [demands]
    · simp [Expr.isInline, Expr.isEffect] at h
  | call | construct | assign =>
    simp only [demands, Demand.operand, List.mem_append, List.mem_map] at hd
    grind
  | literal | cast => simp_all [demands]
  | _ => simp [Expr.isInline, Expr.isEffect] at h

private theorem use_not_mem_statement (hunshared : e.Unshared) (hr : r ∈ e.inPlace) :
    .use r ∉ (env.course e needed).statement := by
  induction e using Expr.childInduction generalizing needed with
  | step e ih =>
    obtain ⟨hinline, hr⟩ := Expr.mem_inPlace.mp hr
    obtain ⟨hself, hchildren⟩ := (Expr.unshared_iff e).mp hunshared
    intro huse
    rcases mem_statement.mp huse with ⟨d, hd, hstep⟩ | ⟨heffect, _⟩
    · have hmem : d.child ∈ e.children := mem_children hd
      have hids : r ∈ d.child.ids := use_mem_steps hstep
      rcases hr with rfl | ⟨child, hchild, hr⟩
      · exact hself (List.mem_flatMap.mpr ⟨d.child, hmem, hids⟩)
      · obtain rfl := Expr.eq_of_mem_ids hchildren hmem hchild hids (Expr.mem_ids_of_mem_inPlace hr)
        rcases mem_steps.mp hstep with hstatement | ⟨hwritten, _⟩
        · exact ih d.child hmem (hunshared.child hmem) hr hstatement
        · exact place_ne_written (.inl hinline) hd hwritten
    · exact Bool.noConfusion (heffect.symm.trans (Expr.isEffect_of_isInline hinline))

/-- A name is written after the effects that are done before it. -/
theorem behind_statement (hunshared : e.Unshared) (ha : a ∈ e.effects)
    (hdone : e.Precedes a r ∨ e.Overtakes a r) : Behind a r (env.course e needed).statement := by
  induction e using Expr.childInduction generalizing needed with
  | step e ih =>
    obtain ⟨hself, hchildren⟩ := (Expr.unshared_iff e).mp hunshared
    have hown (child : Expr) (hchild : child ∈ e.children) (hmem : a ∈ child.ids) :
        a ∈ child.effects := hunshared.mem_effects_child ha hchild hmem
    have heffect (child : Expr) (hchild : child ∈ e.children) (hmem : a ∈ child.ids) :
        .effect a ∈ (env.demands needed e).flatMap env.steps := by
      obtain ⟨d, hd, rfl⟩ := env.exists_demand needed hchild
      exact List.mem_flatMap.mpr ⟨d, hd, mem_steps.mpr (.inl (effect_mem_statement.mpr
        (hown d.child hchild hmem)))⟩
    rw [statement_course]
    rcases Expr.precedes_or_overtakes_iff.mp hdone with
      hfirst | ⟨⟨child, hchild, hmem⟩, rfl⟩ | ⟨left, right, hpair, hr, hright⟩
    · obtain ⟨child, hchild, hmem⟩ := List.mem_flatMap.mp (Expr.mem_ids_of_doneFirst hfirst).1
      rw [← env.child_demands needed e] at hchildren hfirst
      apply (behind_of_children hchildren hfirst (fun d hd => hown d.child (mem_children hd))
        fun d hd hd' => ?_).append (heffect child hchild hmem)
      exact ih d.child (mem_children hd) (hunshared.child (mem_children hd)) hd'
    · apply (Behind.of_not_mem fun huse => ?_).append (heffect child hchild hmem)
      obtain ⟨d, hd, hstep⟩ := List.mem_flatMap.mp huse
      exact hself (List.mem_flatMap.mpr ⟨d.child, mem_children hd, use_mem_steps hstep⟩)
    · obtain ⟨hleft, hright'⟩ := mem_of_pair_sublist (hpair.trans e.operands_sublist_children)
      apply (Behind.of_not_mem fun huse => ?_).append
        (heffect right hright' (Expr.mem_ids_of_mem_effects hright))
      obtain ⟨d, hd, hstep⟩ := List.mem_flatMap.mp huse
      obtain rfl := Expr.eq_of_mem_ids hchildren (mem_children hd) hleft (use_mem_steps hstep)
        (Expr.mem_ids_of_mem_inPlace hr)
      rcases mem_steps.mp hstep with hstatement | ⟨hwritten, _⟩
      · exact use_not_mem_statement (hunshared.child hleft) hr hstatement
      · exact place_ne_written (Expr.isInline_or_isEffect_of_pair hpair) hd hwritten

theorem behind_steps {demands : List Demand}
    (hnodup : ((demands.map (·.child)).flatMap Expr.ids).Nodup)
    (ha : ∀ d ∈ demands, a ∈ d.child.ids → a ∈ d.child.effects)
    (hdone : Expr.DoneFirst (demands.map (·.child)) a r) :
    Behind a r (demands.flatMap env.steps) := by
  apply behind_of_children hnodup hdone ha
  intro d hd
  have hunshared : d.child.Unshared :=
    (List.nodup_flatMap.mp hnodup).1 d.child (List.mem_map_of_mem (f := (·.child)) hd)
  exact behind_statement hunshared

/-! ## What comes before a name -/

/-- A value that a supported node writes has been prepared, if its own value has been. -/
theorem Supports.demand {d : Demand} (he : env.Supports e) (hd : d ∈ env.demands needed e)
    (hvalued : e.isInline → needed ∧ env.isVoid e = false) (hplace : d.place ≠ .dropped) :
    d.needed ∧ env.isVoid d.child = false := by
  have hlast (wanted : Bool) (es : List Expr) (h : d ∈ env.lastDemands wanted es) :
      d.needed ∧ env.isVoid d.child = false := by
    rcases env.mem_lastDemands h with ⟨hneeded, _, hvoid⟩ | hdropped
    · exact ⟨hneeded, hvoid⟩
    · exact absurd hdropped hplace
  have hoperand (h : d.child ∈ e.operands) (hneeded : env.isVoid d.child = false → d.needed) :
      d.needed ∧ env.isVoid d.child = false :=
    ⟨hneeded (he.isVoid_operand h), he.isVoid_operand h⟩
  cases e with
  | block node exprs =>
    rcases exprs with _ | ⟨only, _ | ⟨second, rest⟩⟩
    · cases hd
    · obtain rfl := List.mem_singleton.mp hd
      obtain ⟨hneeded, hvoid⟩ := hvalued rfl
      rw [Env.isVoid, he.self] at hvoid
      exact ⟨hneeded, hvoid⟩
    · exact hlast _ _ hd
  | decl node name type writeable init =>
    obtain ⟨init, hinit, rfl⟩ := List.mem_map.mp hd
    exact hoperand hinit fun hvoid => by simp [hvoid]
  | call node feature receiver args =>
    rcases List.mem_append.mp hd with hd | hd
    · obtain ⟨receiver, hreceiver, rfl⟩ := List.mem_map.mp hd
      exact hoperand (List.mem_append_left _ hreceiver) fun _ => rfl
    · obtain ⟨arg, harg, rfl⟩ := List.mem_map.mp hd
      exact hoperand (List.mem_append_right _ harg) fun _ => rfl
  | construct node type params throws args =>
    obtain ⟨arg, harg, rfl⟩ := List.mem_map.mp hd
    exact hoperand harg fun _ => rfl
  | literal => cases hd
  | branch node cond yes no =>
    rcases List.mem_cons.mp hd with rfl | hd
    · exact hoperand List.mem_cons_self fun _ => rfl
    · obtain ⟨child, _, hd⟩ := List.mem_flatMap.mp hd
      exact hlast _ _ hd
  | ret node value =>
    obtain ⟨value, _, rfl⟩ := List.mem_map.mp hd
    cases hvoid : env.isVoid value with
    | true => simp [hvoid] at hplace
    | false => simp [hvoid]
  | raise | cast =>
    obtain rfl := List.mem_singleton.mp hd
    exact hoperand List.mem_cons_self fun _ => rfl
  | assign node target receiver value =>
    rcases List.mem_append.mp hd with hd | hd
    · obtain ⟨receiver, hreceiver, rfl⟩ := List.mem_map.mp hd
      exact hoperand (List.mem_append_left _ hreceiver) fun _ => rfl
    · obtain rfl := List.mem_singleton.mp hd
      exact hoperand (List.mem_append_right _ List.mem_cons_self) fun _ => rfl
  | extension node kind children =>
    obtain ⟨child, _, rfl⟩ := List.mem_map.mp hd
    exact absurd rfl hplace

private theorem isInline_of_hoists (he : env.Supports e) (hvoid : env.isVoid e = false)
    (hhoists : env.hoists true e = false) : e.isInline := by
  have hself := he.self
  cases e with
  | block node exprs =>
    rcases exprs with _ | ⟨only, _ | ⟨second, rest⟩⟩
    · exact Bool.noConfusion (hvoid.symm.trans hself)
    · rfl
    · simp [hoists, hvoid] at hhoists
  | decl | ret | raise | assign => exact Bool.noConfusion (hvoid.symm.trans hself)
  | call node feature receiver args => simpa [hoists, hvoid, Expr.isInline] using hhoists
  | construct => cases hhoists
  | literal | cast => rfl
  | branch => simp [hoists, hvoid] at hhoists
  | extension => exact hself.elim

/-- A value that has been prepared consists of nodes in place. -/
theorem mem_value_of_supports {event : Event} (he : env.Supports e)
    (hvoid : env.isVoid e = false) (h : event ∈ (env.course e true).value) :
    ∃ r ∈ e.inPlace, event = .use r := by
  induction e using Expr.childInduction with
  | step e ih =>
    obtain ⟨hhoists, htext⟩ := mem_value.mp h
    have hinline : e.isInline := isInline_of_hoists he hvoid hhoists
    rcases mem_text.mp htext with hown | ⟨d, hd, hstored, hvalue⟩ | hown
    · exact ⟨e.id, Expr.mem_inPlace.mpr ⟨hinline, .inl rfl⟩, Expr.mem_mentions hown⟩
    · obtain ⟨hneeded, hvoid'⟩ := he.demand hd (fun _ => ⟨rfl, hvoid⟩) (by simp [hstored])
      rw [hneeded] at hvalue
      obtain ⟨r, hr, rfl⟩ := ih d.child (mem_children hd) (he.child (mem_children hd)) hvoid' hvalue
      exact ⟨r, Expr.mem_inPlace.mpr ⟨hinline, .inr ⟨d.child, mem_children hd, hr⟩⟩, rfl⟩
    · have heffect := (Expr.mem_completes.mp hown).1
      exact Bool.noConfusion (heffect.symm.trans (Expr.isEffect_of_isInline hinline))

/-- What is demanded of supported trees has a value wherever one is written at once. -/
structure SupportsAll (env : Env) (demands : List Demand) : Prop where
  supports : ∀ d ∈ demands, env.Supports d.child
  written : ∀ d ∈ demands, d.place = .written → d.needed ∧ env.isVoid d.child = false

theorem Supports.supportsAll (he : env.Supports e) (needed : Bool) :
    env.SupportsAll (env.demands needed e) where
  supports _ hd := he.child (mem_children hd)
  written _ hd hwritten := he.demand hd
    (fun hinline => absurd hwritten (place_ne_written (.inl hinline) hd)) (by simp [hwritten])

theorem Supports.demand_of_stored {d : Demand} (he : env.Supports e) (heffect : e.isEffect)
    (hd : d ∈ env.demands needed e) (hstored : d.place = .stored) :
    d.needed ∧ env.isVoid d.child = false := by
  apply he.demand hd _ (by simp [hstored])
  intro hinline
  exact Bool.noConfusion (heffect.symm.trans (Expr.isEffect_of_isInline hinline))

private theorem mem_value_of_stored {d : Demand} {event : Event} (he : env.Supports e)
    (heffect : e.isEffect) (hd : d ∈ env.demands needed e) (hstored : d.place = .stored)
    (h : event ∈ (env.course d.child d.needed).value) :
    ∃ r ∈ d.child.inPlace, event = .use r := by
  obtain ⟨hneeded, hvoid⟩ := he.demand_of_stored heffect hd hstored
  exact mem_value_of_supports (he.child (mem_children hd)) hvoid (hneeded ▸ h)

private theorem doneFirst_of_children {demands : List Demand} (he : env.SupportsAll demands)
    (hpair : [.effect a, .use r].Sublist (demands.flatMap env.steps))
    (hchild : ∀ d ∈ demands,
      [.effect a, .use r].Sublist (env.course d.child d.needed).statement →
        d.child.Precedes a r ∨ d.child.Overtakes a r) :
    Expr.DoneFirst (demands.map (·.child)) a r := by
  rcases pair_sublist_flatMap.mp hpair with ⟨d, hd, hpair⟩ | ⟨d, d', hpair, ha, hr⟩
  · refine .inl ⟨d.child, List.mem_map_of_mem hd, ?_⟩
    have hvalue {event : Event} (hwritten : d.place = .written)
        (h : event ∈ (env.course d.child d.needed).value) :
        ∃ r ∈ d.child.inPlace, event = .use r := by
      obtain ⟨hneeded, hvoid⟩ := he.written d hd hwritten
      exact mem_value_of_supports (he.supports d hd) hvoid (hneeded ▸ h)
    rw [steps] at hpair
    rcases pair_sublist_append.mp hpair with hpair | ⟨ha, hr⟩ | hpair
    · exact hchild d hd hpair
    · split at hr
      · obtain ⟨r', hr', heq⟩ := hvalue ‹_› hr
        obtain rfl := Event.use.inj heq
        exact Expr.done_of_mem_inPlace hr' (effect_mem_statement.mp ha)
      · cases hr
    · split at hpair
      · obtain ⟨_, _, heq⟩ := hvalue ‹_› (mem_of_pair_sublist hpair).1
        cases heq
      · cases hpair
  · have ha : a ∈ d.child.ids := node_mem_ids ((mem_steps.mp ha).imp_right And.right)
    exact .inr ⟨d.child, d'.child, hpair.map _, ha, use_mem_steps hr⟩

private theorem use_mem_text (he : env.Supports e) (heffect : e.isEffect)
    (h : .use r ∈ env.text needed e) : r = e.id ∨ ∃ child ∈ e.children, r ∈ child.inPlace := by
  rcases mem_text.mp h with hown | ⟨d, hd, hstored, hvalue⟩ | hown
  · exact .inl (Event.use.inj (Expr.mem_mentions hown))
  · obtain ⟨r', hr', heq⟩ := mem_value_of_stored he heffect hd hstored hvalue
    obtain rfl := Event.use.inj heq
    exact .inr ⟨d.child, mem_children hd, hr'⟩
  · cases (Expr.mem_completes.mp hown).2

private theorem not_pair_text (he : env.Supports e) (heffect : e.isEffect) :
    ¬ [.effect a, .use r].Sublist (env.text needed e) := by
  intro hpair
  have hmentions : .effect a ∉ e.mentions := fun h => by cases Expr.mem_mentions h
  have hparts : .effect a ∉ (env.demands needed e).flatMap env.parts := by
    intro h
    obtain ⟨d, hd, hpart⟩ := List.mem_flatMap.mp h
    obtain ⟨hstored, hvalue⟩ := mem_parts.mp hpart
    obtain ⟨_, _, heq⟩ := mem_value_of_stored he heffect hd hstored hvalue
    cases heq
  have hcompletes : .use r ∉ e.completes := fun h => by cases (Expr.mem_completes.mp h).2
  rcases pair_sublist_append.mp hpair with hpair | ⟨_, hr⟩ | hpair
  · rcases List.mem_append.mp (mem_of_pair_sublist hpair).1 with ha | ha
    · exact hmentions ha
    · exact hparts ha
  · exact hcompletes hr
  · exact hcompletes (mem_of_pair_sublist hpair).2

/-- In a supported tree an effect comes before a name only if it is done before it. -/
theorem done_of_statement (he : env.Supports e)
    (hpair : [.effect a, .use r].Sublist (env.course e needed).statement) :
    e.Precedes a r ∨ e.Overtakes a r := by
  induction e using Expr.childInduction generalizing needed with
  | step e ih =>
    rw [statement_course] at hpair
    rcases pair_sublist_append.mp hpair with hpair | ⟨ha, hr⟩ | hpair
    · have hfirst := doneFirst_of_children (he.supportsAll needed) hpair fun d hd =>
        ih d.child (mem_children hd) (he.child (mem_children hd))
      rw [env.child_demands] at hfirst
      exact Expr.precedes_or_overtakes_iff.mpr (.inl hfirst)
    · obtain ⟨d, hd, ha⟩ := List.mem_flatMap.mp ha
      obtain ⟨heffect, hr⟩ : e.isEffect ∧ .use r ∈ env.text needed e := by
        split at hr
        · exact ⟨‹_›, hr⟩
        · cases hr
      have ha : a ∈ d.child.effects := by
        rcases mem_steps.mp ha with ha | ⟨hwritten, _⟩
        · exact effect_mem_statement.mp ha
        · exact absurd hwritten (place_ne_written (.inr heffect) hd)
      rcases use_mem_text he heffect hr with rfl | ⟨child, hchild, hr⟩
      · have hmem : a ∈ d.child.ids := Expr.mem_ids_of_mem_effects ha
        exact Expr.precedes_or_overtakes_iff.mpr
          (.inr (.inl ⟨⟨d.child, mem_children hd, hmem⟩, rfl⟩))
      · apply Expr.done_of_mem_children (.inr heffect) (mem_children hd) hchild ha hr
        rintro rfl
        exact Expr.done_of_mem_inPlace hr ha
    · split at hpair
      · exact absurd hpair (not_pair_text he ‹_›)
      · cases hpair

theorem doneFirst_of_steps {demands : List Demand} (he : env.SupportsAll demands)
    (hpair : [.effect a, .use r].Sublist (demands.flatMap env.steps)) :
    Expr.DoneFirst (demands.map (·.child)) a r :=
  doneFirst_of_children he hpair fun d hd => done_of_statement (he.supports d hd)

end Env

end Lowering
