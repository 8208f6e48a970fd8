import Lowering.Proofs.Typing.Calls
import Lowering.Proofs.Typing.Rules

/-!
# Typing without states

The states of a run of type inference form a chain of live ones, each the only active child of the
one before it, and only the last one works. Main statements: a child state that comes and goes
leaves nothing behind but what was declared in it, and type inference answers what typing with a
table alone answers.
-/

namespace Lowering

namespace Typing

variable {α β γ δ : Type}

/-- From `s`, `act` does what `plain` does on the table alone: it fails with the same failure, or
ends with the same table and in a state and with an answer that `ok` relates to those of `plain`. -/
def Follows (s : TypingStates) (act : Typing α) (plain : Recording β)
    (ok : α → TypingStates → β → Prop) : Prop :=
  match act.run.run s, plain.run.run s.types with
  | (.ok a, s'), (.ok b, types) => s'.types = types ∧ ok a s' b
  | (.error f, _), (.error f', _) => f = f'
  | _, _ => False

section

variable {s : TypingStates} {act : Typing α} {plain : Recording β}
  {ok : α → TypingStates → β → Prop}

theorem Follows.imp {ok' : α → TypingStates → β → Prop} (h : Follows s act plain ok)
    (hok : ∀ a s' b, ok a s' b → ok' a s' b) : Follows s act plain ok' := by
  unfold Follows at h ⊢
  split at h
  · exact ⟨h.1, hok _ _ _ h.2⟩
  · exact h
  · exact h.elim

theorem Follows.bind {next : α → Typing γ} {next' : β → Recording δ}
    {ok' : γ → TypingStates → δ → Prop} (h : Follows s act plain ok)
    (hnext : ∀ a s' b, ok a s' b → Follows s' (next a) (next' b) ok') :
    Follows s (act >>= next) (plain >>= next') ok' := by
  unfold Follows at h
  simp only [Follows, run_bind]
  split at h
  · rename_i a s' b types hact hplain
    obtain ⟨rfl, hok⟩ := h
    simp only [hact, hplain]
    exact hnext a s' b hok
  · rename_i f s' f' types hact hplain
    simpa only [hact, hplain] using h
  · exact h.elim

theorem follows_pure {a : α} {b : β} (h : ok a s b) : Follows s (pure a) (pure b) ok :=
  ⟨rfl, h⟩

theorem follows_throw (f : Failure) : Follows s (throw f : Typing α) (throw f : Recording β) ok :=
  rfl

theorem follows_get {next : TypingStates → Typing γ} {next' : ResolvedTypes → Recording δ}
    {ok : γ → TypingStates → δ → Prop} (h : Follows s (next s) (next' s.types) ok) :
    Follows s (get >>= next) (get >>= next') ok :=
  h

theorem follows_ofExcept (result : Except Failure α) :
    Follows s (ofExcept result) (ofExcept result) fun a s' b => s' = s ∧ b = a := by
  cases result with
  | ok a => exact ⟨rfl, rfl, rfl⟩
  | error f => exact (rfl : f = f)

/-- A step that cannot fail and does not touch the table needs no counterpart. -/
theorem follows_of_outcome {next : α → Typing γ} {plain : Recording β}
    {ok : γ → TypingStates → β → Prop}
    (h : Outcome act s (fun a s' => s'.types = s.types ∧ Follows s' (next a) plain ok)
      fun _ => False) : Follows s (act >>= next) plain ok := by
  obtain ⟨a, s', hrun, htypes, h⟩ := h.exists_run_ok
  unfold Follows at h ⊢
  simpa only [run_bind, hrun, htypes] using h

theorem Follows.answering {g : β → δ} {ok' : α → TypingStates → δ → Prop}
    (h : Follows s act plain ok) (hok : ∀ a s' b, ok a s' b → ok' a s' (g b)) :
    Follows s act (plain >>= fun b => pure (g b)) ok' := by
  rw [← bind_pure act]
  exact h.bind fun a s' b hab => follows_pure (hok a s' b hab)

/-- After `act`, a step that cannot fail and does not touch the table. -/
theorem Follows.andOutcome {next : α → Typing γ} {ok' : γ → TypingStates → β → Prop}
    (h : Follows s act plain ok)
    (hnext : ∀ a s' b, ok a s' b →
      Outcome (next a) s' (fun c s'' => s''.types = s'.types ∧ ok' c s'' b) fun _ => False) :
    Follows s (act >>= next) plain ok' := by
  rw [← bind_pure plain]
  apply h.bind
  intro a s' b hok
  rw [← bind_pure (next a)]
  exact follows_of_outcome ((hnext a s' b hok).imp fun c s'' ⟨htypes, h⟩ => ⟨htypes, rfl, h⟩)

end

/-! ## Operations on a live state -/

section

variable {s : TypingStates} {i : Nat} {state : TypingState}

theorem outcome_find (h : s.states[i]? = some state) (ok : TypingState → TypingStates → Prop)
    (failed : Failure → Prop) : Outcome (find i) s ok failed ↔ ok state s := by
  simp [find, h]

theorem outcome_live (h : s.states[i]? = some state) (hlive : state.discarded = false)
    (ok : TypingState → TypingStates → Prop) (failed : Failure → Prop) :
    Outcome (live i) s ok failed ↔ ok state s := by
  simp [live, outcome_find h, hlive]

theorem outcome_context (h : s.states[i]? = some state) (hlive : state.discarded = false)
    (ok : TypingContext → TypingStates → Prop) (failed : Failure → Prop) :
    Outcome (context i) s ok failed ↔ ok state.context s := by
  change Outcome (live i >>= fun state => pure state.context) s ok failed ↔ _
  simp only [outcome_bind, outcome_live h hlive, outcome_pure]

end

/-- State `i` of `s` is `state`, the last one of the chain of live states. The state above it has
the node `outer` if it takes its value, and `around` can be named there. -/
structure Standing (s : TypingStates) (i : Nat) (state : TypingState) (outer : Option NodeId)
    (around : TypingContext) : Prop where
  here : s.states[i]? = some state
  live : state.discarded = false
  idle : state.activeChild = none
  above : match state.parent with
    | none => outer = none
    | some p => p ≠ i ∧ ∃ parent, s.states[p]? = some parent ∧ parent.discarded = false ∧
      parent.context = around ∧ outer = if state.role = .value then some parent.node.id else none

/-- From `s` to `s'`, children of state `i` came and went; afterwards `i` can name `inner`. -/
structure Passed (s s' : TypingStates) (i : Nat) (state : TypingState) (inner : TypingContext) :
    Prop where
  here : s'.states[i]? = some { state with context := inner }
  kept : ∀ k, k < s.states.size → k ≠ i → s'.states[k]? = s.states[k]?
  grown : s.states.size ≤ s'.states.size
  spent : ∀ k below, s.states.size ≤ k → s'.states[k]? = some below → below.discarded = true

/-- From `s` to `s'`, state `i` did its work; afterwards the state above it can name `after`. -/
structure Worked (s s' : TypingStates) (i : Nat) (state : TypingState) (after : TypingContext) :
    Prop where
  here : ∃ inner, s'.states[i]? = some { state with context := inner }
  above : ∀ p, state.parent = some p →
    s'.states[p]? = s.states[p]?.map fun parent => { parent with context := after }
  kept : ∀ k, k < s.states.size → k ≠ i → state.parent ≠ some k → s'.states[k]? = s.states[k]?
  grown : s.states.size ≤ s'.states.size
  spent : ∀ k below, s.states.size ≤ k → s'.states[k]? = some below → below.discarded = true

section

variable {s s' s'' : TypingStates} {i : Nat} {state : TypingState} {outer : Option NodeId}
  {around inner inner' : TypingContext}

theorem Passed.refl (h : Standing s i state outer around) : Passed s s i state state.context where
  here := h.here
  kept _ _ _ := rfl
  grown := Nat.le_refl _
  spent k below hk hbelow := by
    rw [Array.getElem?_eq_none hk] at hbelow
    cases hbelow

theorem Passed.trans (hs : Standing s i state outer around) (h : Passed s s' i state inner)
    (h' : Passed s' s'' i { state with context := inner } inner') :
    Passed s s'' i state inner' where
  here := h'.here
  kept k hk hne := (h'.kept k (Nat.lt_of_lt_of_le hk h.grown) hne).trans (h.kept k hk hne)
  grown := Nat.le_trans h.grown h'.grown
  spent k below hk hbelow := by
    by_cases hlt : k < s'.states.size
    · have hne : k ≠ i := by
        rintro rfl
        exact absurd hk (Nat.not_le.mpr (Array.getElem?_eq_some_iff.mp hs.here).1)
      exact h.spent k below hk ((h'.kept k hlt hne).symm.trans hbelow)
    · exact h'.spent k below (Nat.le_of_not_lt hlt) hbelow

theorem Passed.standing (h : Standing s i state outer around) (hs : Passed s s' i state inner) :
    Standing s' i { state with context := inner } outer around where
  here := hs.here
  live := h.live
  idle := h.idle
  above := by
    have habove := h.above
    split at habove
    · rename_i hparent
      simpa only [hparent] using habove
    · rename_i p hparent
      obtain ⟨hne, parent, hp, hparents⟩ := habove
      have hlt : p < s.states.size := (Array.getElem?_eq_some_iff.mp hp).1
      simp only [hparent]
      exact ⟨hne, parent, (hs.kept p hlt hne).trans hp, hparents⟩

/-! ## Children -/

private theorem outcome_spawn (h : Standing s i state outer around) (node : Node)
    (role : StateRole) (c : TypingContext) {ok : Nat → TypingStates → Prop}
    {failed : Failure → Prop}
    (hok : ∀ s', s'.types = s.types →
      s'.states = (s.states.push { parent := i, node, role, context := c }).modify i
        (fun state => { state with activeChild := some s.states.size }) → ok s.states.size s') :
    Outcome (spawn i node role c) s ok failed := by
  simp only [spawn, push, modifyState, outcome_bind, outcome_live h.here h.live, h.idle,
    outcome_modifyGet, outcome_modify, outcome_pure]
  exact hok _ rfl rfl

private theorem outcome_discard {child : TypingState} {n : Nat} (hn : s.states[n]? = some child)
    (hlive : child.discarded = false) {p : Nat} (hparent : child.parent = some p)
    {ok : Unit → TypingStates → Prop} {failed : Failure → Prop}
    (hok : ∀ s', s'.types = s.types →
      s'.states = (s.states.modify n fun state => { state with discarded := true }).modify p
        (fun p => if p.activeChild = some n then { p with activeChild := none } else p) →
      ok () s') :
    Outcome (discard n) s ok failed := by
  simp only [discard, modifyState, outcome_bind, outcome_live hn hlive, hparent, outcome_modify]
  exact hok _ rfl rfl

theorem run_closing (i : Nat) (act : Typing HostType) (s : TypingStates) :
    (closing i act).run.run s =
      ((do
        let type ← (act.run.run s).1
        ((discard i).run.run (act.run.run s).2).1
        pure type), ((discard i).run.run (act.run.run s).2).2) :=
  rfl

/-- A failure of the work in a state goes before that of ending the state. -/
theorem follows_closing {i : Nat} {act : Typing HostType} {plain : Recording α}
    {worked ok : HostType → TypingStates → α → Prop} (h : Follows s act plain worked)
    (hdiscard : ∀ a s' b, worked a s' b →
      Outcome (discard i) s' (fun _ s'' => s''.types = s'.types ∧ ok a s'' b) fun _ => False) :
    Follows s (closing i act) plain ok := by
  unfold Follows at h ⊢
  rw [run_closing]
  split at h
  · rename_i a s' b types hact hplain
    obtain ⟨rfl, hworked⟩ := h
    obtain ⟨_, s'', hrun, htypes, hok⟩ := (hdiscard a s' b hworked).exists_run_ok
    simp only [hact, hplain, hrun]
    exact ⟨htypes, hok⟩
  · rename_i f s' f' types hact hplain
    simp only [hact, hplain]
    exact h
  · exact h.elim

private theorem follows_child {plain : Recording (HostType × TypingContext)}
    (h : Standing s i state outer around) (node : Node) (role : StateRole)
    (work : Nat → Typing HostType)
    (hwork : ∀ s' n child,
      Standing s' n child (if role = .value then some state.node.id else none) state.context →
      child.node = node → child.context = state.context →
      Follows s' (work n) plain fun a s'' b => b.1 = a ∧ Worked s' s'' n child b.2) :
    Follows s (do
        let child ← spawn i node role state.context
        closing child (work child)) plain
      fun a s' b => b.1 = a ∧ Passed s s' i state b.2 := by
  have hi : i < s.states.size := (Array.getElem?_eq_some_iff.mp h.here).1
  have hne : i ≠ s.states.size := Nat.ne_of_lt hi
  refine follows_of_outcome (outcome_spawn h node role _ fun s₁ htypes hstates => ⟨htypes, ?_⟩)
  let child : TypingState := { parent := i, node, role, context := state.context }
  have hparent : s₁.states[i]? = some { state with activeChild := some s.states.size } := by
    rw [hstates, Array.getElem?_modify, if_pos rfl, Array.getElem?_push, if_neg hne, h.here]
    rfl
  have hchild : Standing s₁ s.states.size child
      (if role = .value then some state.node.id else none) state.context := by
    refine ⟨?_, rfl, rfl, hne, _, hparent, h.live, rfl, rfl⟩
    rw [hstates, Array.getElem?_modify, if_neg hne, Array.getElem?_push, if_pos rfl]
  have hsize : s₁.states.size = s.states.size + 1 := by simp [hstates]
  apply follows_closing (hwork s₁ _ child hchild rfl rfl)
  intro a s₂ b hpost
  obtain ⟨hb, hworked⟩ := hpost
  obtain ⟨inner, hhere⟩ := hworked.here
  refine outcome_discard hhere rfl rfl fun s₃ htypes₃ hstates₃ => ⟨htypes₃, hb, ?_⟩
  have habove := hworked.above i rfl
  rw [hparent] at habove
  refine ⟨?_, fun k hk hki => ?_, ?_, fun k below hk hbelow => ?_⟩
  · rw [hstates₃, Array.getElem?_modify, if_pos rfl, Array.getElem?_modify, if_neg (Ne.symm hne),
      habove]
    simp [h.idle]
  · have hkn : k ≠ s.states.size := Nat.ne_of_lt hk
    rw [hstates₃, Array.getElem?_modify, if_neg (Ne.symm hki), Array.getElem?_modify,
      if_neg (Ne.symm hkn), hworked.kept k (by omega) hkn (by simpa [child] using Ne.symm hki),
      hstates, Array.getElem?_modify, if_neg (Ne.symm hki), Array.getElem?_push, if_neg hkn]
  · have hgrown := hworked.grown
    simp only [hstates₃, Array.size_modify]
    omega
  · rw [hstates₃, Array.getElem?_modify, if_neg (by omega), Array.getElem?_modify] at hbelow
    by_cases hkn : s.states.size = k
    · rw [if_pos hkn] at hbelow
      obtain ⟨_, _, rfl⟩ := Option.map_eq_some_iff.mp hbelow
      rfl
    · rw [if_neg hkn] at hbelow
      exact hworked.spent k below (by omega) hbelow

theorem follows_asOperand {plain : Recording (HostType × TypingContext)}
    (h : Standing s i state outer around) (node : Node) (work : Nat → Typing HostType)
    (hwork : ∀ s' n child, Standing s' n child none state.context → child.node = node →
      child.context = state.context →
      Follows s' (work n) plain fun a s'' b => b.1 = a ∧ Worked s' s'' n child b.2) :
    Follows s (asOperand i node work) plain fun a s' b => b.1 = a ∧ Passed s s' i state b.2 :=
  follows_of_outcome ((outcome_context h.here h.live _ _).mpr
    ⟨rfl, follows_child h node .operand work hwork⟩)

theorem follows_asValue {plain : Recording (HostType × TypingContext)}
    (h : Standing s i state outer around) (node : Node) (work : Nat → Typing HostType)
    (hwork : ∀ s' n child, Standing s' n child (some state.node.id) state.context →
      child.node = node → child.context = state.context →
      Follows s' (work n) plain fun a s'' b => b.1 = a ∧ Worked s' s'' n child b.2) :
    Follows s (asValue i node work) plain fun a s' b => b.1 = a ∧ Passed s s' i state b.2 := by
  simp only [asValue, value, bind_assoc]
  exact follows_of_outcome ((outcome_live h.here h.live _ _).mpr
    ⟨rfl, follows_child h node .value work hwork⟩)

/-! ## The work of a state -/

theorem Passed.worked (h : Standing s i state outer around) (hs : Passed s s' i state inner) :
    Worked s s' i state around where
  here := ⟨inner, hs.here⟩
  above p hp := by
    have habove := h.above
    simp only [hp] at habove
    obtain ⟨hne, parent, hparent, _, rfl, _⟩ := habove
    rw [hs.kept p (Array.getElem?_eq_some_iff.mp hparent).1 hne, hparent]
    rfl
  kept k hk hne _ := hs.kept k hk hne
  grown := hs.grown
  spent := hs.spent

private theorem Worked.standing {after : TypingContext} (h : Standing s i state outer around)
    (hs : Worked s s' i state after) :
    ∃ inner, Standing s' i { state with context := inner } outer after := by
  obtain ⟨inner, hhere⟩ := hs.here
  refine ⟨inner, hhere, h.live, h.idle, ?_⟩
  have habove := h.above
  split at habove
  · rename_i hparent
    simpa only [hparent] using habove
  · rename_i p hparent
    obtain ⟨hne, parent, hp, hlive, _, houter⟩ := habove
    have hp' := hs.above p hparent
    rw [hp] at hp'
    simp only [hparent]
    exact ⟨hne, _, hp', hlive, rfl, houter⟩

theorem outcome_declareLocal (h : Standing s i state outer around)
    (hs : Passed s s' i state inner) (declaration : NodeId) (type : HostType) :
    Outcome (declareLocal i declaration type) s' (fun _ s'' => s''.types = s'.types ∧
      Worked s s'' i state (around.withLocal declaration type)) fun _ => False := by
  have hs' := hs.standing h
  have habove := h.above
  have habove' := hs'.above
  simp only [declareLocal, modifyState, outcome_bind, outcome_live hs'.here h.live]
  split at habove
  · rename_i hparent
    simp only [hparent, Option.getD_none, outcome_live hs'.here h.live, outcome_modify]
    refine ⟨trivial, ⟨inner.withLocal declaration type, ?_⟩, fun p hp => by simp [hparent] at hp,
      fun k hk hne _ => ?_, ?_, fun k below hk hbelow => ?_⟩
    · rw [Array.getElem?_modify, if_pos rfl, hs.here]
      rfl
    · rw [Array.getElem?_modify, if_neg (Ne.symm hne)]
      exact hs.kept k hk hne
    · simpa using hs.grown
    · have hi : i < s.states.size := (Array.getElem?_eq_some_iff.mp h.here).1
      rw [Array.getElem?_modify, if_neg (by omega)] at hbelow
      exact hs.spent k below hk hbelow
  · rename_i p hparent
    simp only [hparent] at habove'
    obtain ⟨hne, parent, hp, _, hcontext, _⟩ := habove
    obtain ⟨_, parent', hp', hlive', _, _⟩ := habove'
    have hlt : p < s.states.size := (Array.getElem?_eq_some_iff.mp hp).1
    have hsame : parent' = parent := Option.some.inj (hp'.symm.trans ((hs.kept p hlt hne).trans hp))
    subst hsame
    simp only [hparent, Option.getD_some, outcome_live hp' hlive', outcome_modify]
    refine ⟨trivial, ⟨inner, ?_⟩, fun q hq => ?_, fun k hk hki hkp => ?_, ?_,
      fun k below hk hbelow => ?_⟩
    · rw [Array.getElem?_modify, if_neg hne]
      exact hs.here
    · obtain rfl : p = q := Option.some.inj (hparent.symm.trans hq)
      rw [Array.getElem?_modify, if_pos rfl, hp', hp, ← hcontext]
      rfl
    · rw [Array.getElem?_modify, if_neg (by rintro rfl; exact hkp hparent)]
      exact hs.kept k hk hki
    · simpa using hs.grown
    · rw [Array.getElem?_modify, if_neg (by omega)] at hbelow
      exact hs.spent k below hk hbelow

private theorem follows_put (h : Hierarchy) (id : NodeId) (span : Span) (offer : Resolution) :
    Follows s (record h id span offer) (Recording.put h id span offer)
      fun _ s' _ => s'.states = s.states := by
  have hplain : (Recording.put h id span offer).run.run s.types =
      (ofExcept (s.types.accept h id span offer) >>= set : Recording Unit).run.run s.types :=
    rfl
  unfold Follows
  rw [hplain, run_record]
  cases s.types.accept h id span offer with
  | ok types => exact ⟨rfl, rfl⟩
  | error f => exact rfl

private theorem Worked.congr {after : TypingContext} (h : Worked s s' i state after)
    (hstates : s''.states = s'.states) : Worked s s'' i state after := by
  obtain ⟨here, above, kept, grown, spent⟩ := h
  rw [← hstates] at grown
  exact ⟨hstates ▸ here, hstates ▸ above, hstates ▸ kept, grown, hstates ▸ spent⟩

private theorem follows_accept (h : Standing s i state outer around) (hierarchy : Hierarchy)
    (e : Expectation) (type : HostType) (conformance : Conformance) (isReturn : Bool) :
    Follows s (accept hierarchy i e type conformance isReturn)
      (Recording.offer hierarchy outer state.node ⟨e, refine e type, conformance, isReturn⟩)
      fun a s' _ => a = refine e type ∧ s'.states = s.states := by
  have habove := h.above
  let offer : Resolution := ⟨e, refine e type, conformance, isReturn⟩
  have hput : Follows s (do
        record hierarchy state.node.id state.node.span offer
        pure (refine e type))
      (do
        Recording.put hierarchy state.node.id state.node.span offer
        pure ())
      fun a s' _ => a = refine e type ∧ s'.states = s.states :=
    (follows_put hierarchy _ _ _).bind fun _ s₁ _ hs₁ => follows_pure ⟨rfl, hs₁⟩
  unfold accept
  refine follows_of_outcome ((outcome_live h.here h.live _ _).mpr ⟨rfl, ?_⟩)
  simp only [Recording.offer]
  split at habove
  · rename_i hparent
    subst habove
    cases state.role <;> simpa only [hparent] using hput
  · rename_i p hparent
    obtain ⟨_, parent, hp, hlive, _, rfl⟩ := habove
    cases hrole : state.role with
    | value =>
      simp only [hparent, if_pos]
      refine follows_of_outcome ((outcome_live hp hlive _ _).mpr ⟨rfl, ?_⟩)
      apply (follows_put hierarchy _ _ _).bind
      intro _ s₁ _ hs₁
      rw [← bind_pure (Recording.put hierarchy parent.node.id _ _)]
      exact (follows_put hierarchy _ _ _).bind fun _ s₂ _ hs₂ => follows_pure ⟨rfl, hs₂.trans hs₁⟩
    | root | operand => simpa only [reduceCtorEq, if_false] using hput

theorem follows_settle (hierarchy : Hierarchy) (e : Expectation) (x : Expr)
    (h : Standing s i state outer around) (hnode : state.node = x.node) {work : Typing HostType}
    {plain : Recording (HostType × TypingContext)}
    (hwork : Follows s work plain fun a s' b => b.1 = a ∧ Worked s s' i state b.2) :
    Follows s (settle hierarchy i e x.span work) (plain >>= Recording.settle hierarchy outer e x)
      fun a s' b => b.1 = a ∧ Worked s s' i state b.2 := by
  apply hwork.bind
  intro type s₁ b hpost
  obtain ⟨hb, hworked⟩ := hpost
  subst hb
  obtain ⟨inner, hstanding⟩ := hworked.standing h
  apply (follows_ofExcept _).bind
  intro _ s₂ conformance hpost
  obtain ⟨hs₂, hconformance⟩ := hpost
  subst hs₂ hconformance
  have haccept := follows_accept hstanding hierarchy e b.1 conformance e.isReturn
  simp only [hnode] at haccept
  exact haccept.answering fun a s₃ _ ha => ⟨ha.1.symm, hworked.congr ha.2⟩

end

end Typing

end Lowering
