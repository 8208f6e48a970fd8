import Lowering.Proofs.Emission.Course

/-!
# The events of a course

The events of a tree are those of its nodes. Main statements: no event of another node is among
them, and the effects in the statement form are exactly those of the tree.
-/

namespace Lowering

/-- The node of an event. -/
def Event.node : Event → NodeId
  | .use id | .effect id => id

namespace Env

variable {env : Env} {needed : Bool} {e : Expr} {d : Demand} {event : Event}

theorem mem_steps : event ∈ env.steps d ↔
    event ∈ (env.course d.child d.needed).statement ∨
      d.place = .written ∧ event ∈ (env.course d.child d.needed).value := by
  unfold steps
  split <;> simp_all

theorem mem_parts : event ∈ env.parts d ↔
    d.place = .stored ∧ event ∈ (env.course d.child d.needed).value := by
  unfold parts
  split <;> simp_all

theorem mem_text : event ∈ env.text needed e ↔ event ∈ e.mentions ∨
    (∃ d ∈ env.demands needed e, d.place = .stored ∧
      event ∈ (env.course d.child d.needed).value) ∨ event ∈ e.completes := by
  simp only [text, List.mem_append, List.mem_flatMap, mem_parts, or_assoc]

theorem mem_statement : event ∈ (env.course e needed).statement ↔
    (∃ d ∈ env.demands needed e, event ∈ env.steps d) ∨
      e.isEffect ∧ event ∈ env.text needed e := by
  rw [statement_course, List.mem_append, List.mem_flatMap]
  split <;> simp_all

theorem mem_value : event ∈ (env.course e needed).value ↔
    env.hoists needed e = false ∧ event ∈ env.text needed e := by
  rw [value_course]
  split <;> simp_all

end Env

namespace Expr

theorem mem_mentions {e : Expr} {event : Event} (h : event ∈ e.mentions) : event = .use e.id := by
  unfold mentions at h
  split at h
  · split at h <;> simp_all [id, node]
  · split at h <;> simp_all [id, node]
  · cases h

theorem mem_completes {e : Expr} {event : Event} :
    event ∈ e.completes ↔ e.isEffect ∧ event = .effect e.id := by
  unfold completes
  split <;> simp_all

theorem mem_effects {e : Expr} {x : NodeId} :
    x ∈ e.effects ↔ (∃ child ∈ e.children, x ∈ child.effects) ∨ e.isEffect ∧ x = e.id := by
  rw [effects_eq, List.mem_append, List.mem_flatMap]
  split <;> simp_all

theorem effects_subset_of_mem_occurrences {e part : Expr} (h : part ∈ e.occurrences) :
    part.effects ⊆ e.effects := by
  induction e using childInduction with
  | step e ih =>
    rw [occurrences_eq] at h
    rcases List.mem_cons.mp h with rfl | h
    · exact List.Subset.refl _
    · obtain ⟨child, hchild, hpart⟩ := List.mem_flatMap.mp h
      intro x hx
      exact mem_effects.mpr (.inl ⟨child, hchild, ih child hchild hpart hx⟩)

end Expr

namespace Env

variable {env : Env} {needed : Bool} {e : Expr} {event : Event}

private theorem induction_on_event {motive : Expr → Prop}
    (own : ∀ e, event ∈ e.mentions ∨ event ∈ e.completes → motive e)
    (below : ∀ e, ∀ child ∈ e.children, motive child → motive e)
    (h : event ∈ (env.course e needed).statement ∨ event ∈ (env.course e needed).value) :
    motive e := by
  induction e using Expr.childInduction generalizing needed with
  | step e ih =>
    have hbelow {d : Demand} (hd : d ∈ env.demands needed e)
        (hevent : event ∈ (env.course d.child d.needed).statement ∨
          event ∈ (env.course d.child d.needed).value) : motive e :=
      below e d.child (mem_children hd) (ih d.child (mem_children hd) hevent)
    have htext (hevent : event ∈ env.text needed e) : motive e := by
      rcases mem_text.mp hevent with hown | ⟨d, hd, _, hvalue⟩ | hown
      · exact own e (.inl hown)
      · exact hbelow hd (.inr hvalue)
      · exact own e (.inr hown)
    rcases h with h | h
    · rcases mem_statement.mp h with ⟨d, hd, hstep⟩ | ⟨_, hown⟩
      · exact hbelow hd ((mem_steps.mp hstep).imp_right And.right)
      · exact htext hown
    · exact htext (mem_value.mp h).2

/-- Both forms of a tree do only what its nodes do. -/
theorem node_mem_ids (h : event ∈ (env.course e needed).statement ∨
    event ∈ (env.course e needed).value) : event.node ∈ e.ids := by
  apply induction_on_event _ (fun e child hchild => Expr.mem_ids_of_mem_children hchild) h
  intro e hown
  have hnode : event.node = e.id := by
    rcases hown with hown | hown
    · rw [Expr.mem_mentions hown]
      rfl
    · rw [(Expr.mem_completes.mp hown).2]
      rfl
  exact hnode ▸ e.id_mem_ids

private theorem mem_effects_of_event {x : NodeId} (h : .effect x ∈ (env.course e needed).statement ∨
    .effect x ∈ (env.course e needed).value) : x ∈ e.effects := by
  apply induction_on_event _
    (fun e child hchild hx => Expr.mem_effects.mpr (.inl ⟨child, hchild, hx⟩)) h
  intro e hown
  rcases hown with hown | hown
  · cases Expr.mem_mentions hown
  · obtain ⟨heffect, hx⟩ := Expr.mem_completes.mp hown
    exact Expr.mem_effects.mpr (.inr ⟨heffect, Event.effect.inj hx⟩)

theorem mem_effects_of_value {x : NodeId} (h : .effect x ∈ (env.course e needed).value) :
    x ∈ e.effects :=
  mem_effects_of_event (.inr h)

/-- The statement form completes every effect of the tree, and no others. -/
theorem effect_mem_statement {x : NodeId} :
    .effect x ∈ (env.course e needed).statement ↔ x ∈ e.effects := by
  refine ⟨fun h => mem_effects_of_event (.inl h), fun h => ?_⟩
  induction e using Expr.childInduction generalizing needed with
  | step e ih =>
    rcases Expr.mem_effects.mp h with ⟨child, hchild, hx⟩ | ⟨heffect, hx⟩
    · obtain ⟨d, hd, rfl⟩ := env.exists_demand needed hchild
      exact mem_statement.mpr (.inl ⟨d, hd, mem_steps.mpr (.inl (ih d.child hchild hx))⟩)
    · have hown : .effect x ∈ e.completes := Expr.mem_completes.mpr ⟨heffect, by rw [hx]⟩
      exact mem_statement.mpr (.inr ⟨heffect, mem_text.mpr (.inr (.inr hown))⟩)

end Env

end Lowering
