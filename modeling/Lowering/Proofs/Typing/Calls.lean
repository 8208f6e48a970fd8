import Lowering.Proofs.Outcome
import Lowering.Typing.States

/-!
# Calls on typing states

The operations on typing states may be called in any order, and some of the calls fail. Main
statements: an equation for what each operation answers and leaves; what any call makes of the
states, seen by who is whose child, who is live and who is the active child of whom; a call about a
state that is not live is refused and changes nothing.
-/

namespace Lowering

/-- A call of an operation on typing states. -/
inductive StateCall where
  | root (node : Node) (context : TypingContext)
  | value (parent : Nat) (node : Node)
  | operand (parent : Nat) (node : Node) (context : TypingContext)
  | discard (i : Nat)
  | role (i : Nat)
  | parent (i : Nat)
  | context (i : Nat)
  | declareLocal (i declaration : Nat) (type : HostType)
  | accept (i : Nat) (e : Expectation) (type : HostType) (conformance : Conformance)
    (isReturn : Bool)

namespace StateCall

/-- Make the call, without regard to what it answers. -/
def run (h : Hierarchy) : StateCall → Typing Unit
  | root node c => Functor.discard (Typing.root node c)
  | value p node => Functor.discard (Typing.value p node)
  | operand p node c => Functor.discard (Typing.operand p node c)
  | discard i => Typing.discard i
  | role i => Functor.discard (Typing.role i)
  | parent i => Functor.discard (Typing.parent i)
  | context i => Functor.discard (Typing.context i)
  | declareLocal i declaration type => Typing.declareLocal i declaration type
  | accept i e type conformance isReturn =>
    Functor.discard (Typing.accept h i e type conformance isReturn)

/-- The state that must be live for the call. -/
def subject? : StateCall → Option Nat
  | root .. | role _ | parent _ => none
  | value i _ | operand i .. | discard i | context i | declareLocal i .. | accept i .. => some i

/-- The states and the table after the call, whether or not it failed. -/
def after (h : Hierarchy) (s : TypingStates) (call : StateCall) : TypingStates :=
  ((call.run h).run.run s).2

end StateCall

/-- What calls make of no states and an empty table. -/
def TypingStates.reached (h : Hierarchy) (calls : List StateCall) : TypingStates :=
  calls.foldl (StateCall.after h) {}

/-- State `i`, if it is live. -/
def TypingStates.live? (s : TypingStates) (i : Nat) : Except Failure TypingState :=
  match s.states[i]? with
  | none => .error (.internal (.unknownState i))
  | some state => if state.discarded then .error (.internal (.discardedState i)) else .ok state

theorem TypingStates.live?_eq_ok_iff {s : TypingStates} {i : Nat} {state : TypingState} :
    s.live? i = .ok state ↔ s.states[i]? = some state ∧ state.discarded = false := by
  unfold live?
  cases hi : s.states[i]? with
  | none => simp
  | some found =>
    cases hdiscarded : found.discarded
    · simp only [hdiscarded, Bool.false_eq_true, if_false, Except.ok.injEq, Option.some.injEq]
      exact ⟨fun h => ⟨h, h ▸ hdiscarded⟩, fun h => h.1⟩
    · simp only [hdiscarded, if_true, reduceCtorEq, Option.some.injEq, false_iff, not_and]
      rintro rfl
      simp [hdiscarded]

/-! ## What each operation does -/

namespace Typing

variable {α : Type}

theorem run_find (i : Nat) (s : TypingStates) : (find i).run.run s =
    match s.states[i]? with
    | some state => (.ok state, s)
    | none => (.error (.internal (.unknownState i)), s) := by
  rw [find, run_bind, run_get]
  dsimp only
  cases s.states[i]? <;> rfl

theorem run_live (i : Nat) (s : TypingStates) : (live i).run.run s = (s.live? i, s) := by
  rw [live, run_bind, run_find, TypingStates.live?]
  cases s.states[i]? with
  | none => rfl
  | some state => cases hdiscarded : state.discarded <;> simp [hdiscarded] <;> rfl

theorem run_silently (act : Typing α) (s : TypingStates) :
    (Functor.discard act).run.run s = ((act.run.run s).1.map fun _ => (), (act.run.run s).2) := by
  change (act >>= fun _ => pure ()).run.run s = _
  rw [run_bind]
  cases act.run.run s with
  | mk result s' => cases result <;> rfl

theorem run_spawn (p : Nat) (node : Node) (role : StateRole) (c : TypingContext)
    (s : TypingStates) : (spawn p node role c).run.run s =
      match s.live? p with
      | .error f => (.error f, s)
      | .ok parent => match parent.activeChild with
        | some child => (.error (.internal (.busyState p child)), s)
        | none => (.ok s.states.size,
          ⟨(s.states.push { parent := p, node, role, context := c }).modify p
            fun state => { state with activeChild := some s.states.size }, s.types⟩) := by
  rw [spawn, run_bind, run_live]
  cases s.live? p with
  | error f => rfl
  | ok parent => cases hactive : parent.activeChild <;> simp only [hactive] <;> rfl

theorem run_value (p : Nat) (node : Node) (s : TypingStates) : (value p node).run.run s =
    match s.live? p with
    | .error f => (.error f, s)
    | .ok parent => (spawn p node .value parent.context).run.run s := by
  rw [value, run_bind, run_live]
  cases s.live? p <;> rfl

theorem run_root (node : Node) (c : TypingContext) (s : TypingStates) :
    (root node c).run.run s =
      if s.states.isEmpty then
        (.ok s.states.size,
          ⟨s.states.push { parent := none, node, role := .root, context := c }, s.types⟩)
      else (.error (.internal .rootExists), s) := by
  rw [root, run_bind, run_get]
  dsimp only
  cases s.states.isEmpty <;> rfl

theorem run_discard (i : Nat) (s : TypingStates) : (discard i).run.run s =
    match s.live? i with
    | .error f => (.error f, s)
    | .ok state =>
      let ended := s.states.modify i fun state => { state with discarded := true }
      (.ok (), ⟨match state.parent with
        | none => ended
        | some p => ended.modify p fun p =>
          if p.activeChild = some i then { p with activeChild := none } else p, s.types⟩) := by
  rw [discard, run_bind, run_live]
  cases s.live? i with
  | error f => rfl
  | ok state => cases hparent : state.parent <;> simp only [hparent] <;> rfl

theorem run_declareLocal (i declaration : Nat) (type : HostType) (s : TypingStates) :
    (declareLocal i declaration type).run.run s =
      match s.live? i with
      | .error f => (.error f, s)
      | .ok state => match s.live? (state.parent.getD i) with
        | .error f => (.error f, s)
        | .ok _ => (.ok (), ⟨s.states.modify (state.parent.getD i) fun state =>
            { state with context := state.context.withLocal declaration type }, s.types⟩) := by
  rw [declareLocal, run_bind, run_live]
  cases s.live? i with
  | error f => rfl
  | ok state =>
    dsimp only
    rw [run_bind, run_live]
    cases s.live? (state.parent.getD i) <;> rfl

/-- Recording an offer replaces the table, or fails and changes nothing. -/
theorem run_record (h : Hierarchy) (id : NodeId) (span : Span) (offer : Resolution)
    (s : TypingStates) : (record h id span offer).run.run s =
      match s.types.accept h id span offer with
      | .error f => (.error f, s)
      | .ok types => (.ok (), ⟨s.states, types⟩) := by
  rw [record, run_bind, run_get]
  dsimp only
  cases s.types.accept h id span offer <;> rfl

theorem run_accept (h : Hierarchy) (i : Nat) (e : Expectation) (type : HostType)
    (conformance : Conformance) (isReturn : Bool) (s : TypingStates) :
    (accept h i e type conformance isReturn).run.run s =
      match s.live? i with
      | .error f => (.error f, s)
      | .ok state =>
        let offer : Resolution := ⟨e, refine e type, conformance, isReturn⟩
        match state.role, state.parent with
        | .value, some p => match s.live? p with
          | .error f => (.error f, s)
          | .ok parent => match s.types.accept h state.node.id state.node.span offer with
            | .error f => (.error f, s)
            | .ok types => match types.accept h parent.node.id state.node.span offer with
              | .error f => (.error f, ⟨s.states, types⟩)
              | .ok types' => (.ok offer.actual, ⟨s.states, types'⟩)
        | _, _ => match s.types.accept h state.node.id state.node.span offer with
          | .error f => (.error f, s)
          | .ok types => (.ok offer.actual, ⟨s.states, types⟩) := by
  have hone (node : Node) (offer : Resolution) :
      (do record h node.id node.span offer; pure offer.actual : Typing HostType).run.run s =
        match s.types.accept h node.id node.span offer with
        | .error f => (.error f, s)
        | .ok types => (.ok offer.actual, ⟨s.states, types⟩) := by
    rw [run_bind, run_record]
    cases s.types.accept h node.id node.span offer <;> rfl
  rw [accept, run_bind, run_live]
  cases s.live? i with
  | error f => rfl
  | ok state =>
    dsimp only
    cases state.role with
    | root => exact hone state.node _
    | operand => exact hone state.node _
    | value =>
      cases state.parent with
      | none => exact hone state.node _
      | some p =>
        dsimp only
        rw [run_bind, run_live]
        cases s.live? p with
        | error f => rfl
        | ok parent =>
          dsimp only
          rw [run_bind, run_record]
          cases s.types.accept h state.node.id state.node.span _ with
          | error f => rfl
          | ok types =>
            dsimp only
            rw [run_bind, run_record]
            cases types.accept h parent.node.id state.node.span _ <;> rfl

theorem states_run_accept (h : Hierarchy) (i : Nat) (e : Expectation) (type : HostType)
    (conformance : Conformance) (isReturn : Bool) (s : TypingStates) :
    ((accept h i e type conformance isReturn).run.run s).2.states = s.states := by
  rw [run_accept]
  cases s.live? i with
  | error f => rfl
  | ok state =>
    dsimp only
    repeat' split
    all_goals rfl

end Typing

/-! ## Parents and children -/

section Family

variable (states : Array TypingState)

def HasState (i : Nat) (P : TypingState → Prop) : Prop :=
  ∃ state, states[i]? = some state ∧ P state

/-- State `c` was started below state `p`. -/
def IsChild (p c : Nat) : Prop :=
  HasState states c fun child => child.parent = some p

def IsLive (i : Nat) : Prop :=
  HasState states i fun state => state.discarded = false

def IsDiscarded (i : Nat) : Prop :=
  HasState states i fun state => state.discarded = true

/-- State `p` names state `c` as the child of it that is active. -/
def IsActiveChild (p c : Nat) : Prop :=
  HasState states p fun parent => parent.activeChild = some c

end Family

section

variable {states : Array TypingState} {i k : Nat} {state : TypingState}
  {P Q : TypingState → Prop}

theorem HasState.lt_size (hstate : HasState states i P) : i < states.size := by
  obtain ⟨state, hi, -⟩ := hstate
  exact (Array.getElem?_eq_some_iff.mp hi).1

theorem HasState.and (hP : HasState states i P) (hQ : HasState states i Q) :
    HasState states i fun state => P state ∧ Q state := by
  obtain ⟨state, hi, hP⟩ := hP
  obtain ⟨state', hi', hQ⟩ := hQ
  obtain rfl : state = state' := Option.some.inj (hi.symm.trans hi')
  exact ⟨state, hi, hP, hQ⟩

theorem hasState_push : HasState (states.push state) k P ↔
    k = states.size ∧ P state ∨ HasState states k P := by
  simp only [HasState, Array.getElem?_push]
  by_cases hk : k = states.size <;> simp [hk]

theorem hasState_modify {f : TypingState → TypingState} : HasState (states.modify i f) k P ↔
    HasState states k fun state => P (if i = k then f state else state) := by
  simp only [HasState, Array.getElem?_modify]
  by_cases hk : i = k <;> cases states[k]? <;> simp [hk]

theorem isDiscarded_iff : IsDiscarded states i ↔ i < states.size ∧ ¬ IsLive states i := by
  simp only [IsDiscarded, IsLive, HasState]
  by_cases hi : i < states.size <;> simp [hi]

end

/-- The same states stand in the same places. -/
structure SamePlaces (before after : Array TypingState) : Prop where
  size_eq : after.size = before.size
  hasState_iff : ∀ k (P : Option Nat → StateRole → Prop),
    HasState after k (fun state => P state.parent state.role) ↔
      HasState before k fun state => P state.parent state.role

theorem SamePlaces.modify (states : Array TypingState) {i : Nat} {f : TypingState → TypingState}
    (hparent : ∀ state, (f state).parent = state.parent)
    (hrole : ∀ state, (f state).role = state.role) :
    SamePlaces states (states.modify i f) := by
  refine ⟨Array.size_modify, fun k P => ?_⟩
  simp only [hasState_modify, apply_ite TypingState.parent, apply_ite TypingState.role, hparent,
    hrole, ite_self]

theorem SamePlaces.isChild_iff {before after : Array TypingState}
    (hplaces : SamePlaces before after) (p c : Nat) : IsChild after p c ↔ IsChild before p c :=
  hplaces.hasState_iff c fun parent _ => parent = some p

theorem SamePlaces.trans {first second third : Array TypingState} (hfirst : SamePlaces first second)
    (hsecond : SamePlaces second third) : SamePlaces first third :=
  ⟨hsecond.size_eq.trans hfirst.size_eq,
    fun k P => (hsecond.hasState_iff k P).trans (hfirst.hasState_iff k P)⟩

/-- State `i` comes to its end, and its parent names it no more. -/
structure Ends (i : Nat) (before after : Array TypingState) : Prop where
  places : SamePlaces before after
  isLive_iff : ∀ k, IsLive after k ↔ IsLive before k ∧ k ≠ i
  isActiveChild_iff : ∀ p c, IsActiveChild after p c ↔
    IsActiveChild before p c ∧ ¬ (c = i ∧ IsChild before p i)

/-- What a call makes of the states. -/
inductive StateChange (call : StateCall) (before after : Array TypingState) : Prop
  | same (hplaces : SamePlaces before after) (hlive : ∀ i, IsLive after i ↔ IsLive before i)
    (hactive : ∀ p c, IsActiveChild after p c ↔ IsActiveChild before p c)
  | root (node : Node) (c : TypingContext) (hbefore : before = #[])
    (hafter : after = #[{ parent := none, node, role := .root, context := c }])
  | spawn (p : Nat) (role : StateRole) (hp : IsLive before p)
    (hidle : ∀ c, ¬ IsActiveChild before p c) (hrole : role ≠ .root)
    (hsize : after.size = before.size + 1)
    (hplaces : ∀ k (P : Option Nat → StateRole → Prop),
      HasState after k (fun state => P state.parent state.role) ↔
        k = before.size ∧ P (some p) role ∨
          HasState before k fun state => P state.parent state.role)
    (hlive : ∀ i, IsLive after i ↔ i = before.size ∨ IsLive before i)
    (hactive : ∀ q c, IsActiveChild after q c ↔
      q = p ∧ c = before.size ∨ IsActiveChild before q c)
  | discard (i : Nat) (hcall : call = .discard i) (hi : IsLive before i)
    (hends : Ends i before after)

section

variable {call : StateCall} {states : Array TypingState}

private theorem StateChange.refl (call : StateCall) (states : Array TypingState) :
    StateChange call states states :=
  .same ⟨rfl, fun _ _ => .rfl⟩ (fun _ => .rfl) fun _ _ => .rfl

private theorem StateChange.declare (owner : Nat) (f : TypingState → TypingContext) :
    StateChange call states
      (states.modify owner fun state => { state with context := f state }) := by
  refine .same (.modify states (fun _ => rfl) fun _ => rfl) (fun k => ?_) fun p c => ?_
  · simp only [IsLive, hasState_modify, apply_ite, ite_self]
  · simp only [IsActiveChild, hasState_modify, apply_ite, ite_self]

private theorem StateChange.start {p : Nat} (hp : IsLive states p)
    (hidle : ∀ c, ¬ IsActiveChild states p c) {role : StateRole} (hrole : role ≠ .root)
    (node : Node) (c : TypingContext) :
    StateChange call states ((states.push { parent := some p, node, role, context := c }).modify p
      fun state => { state with activeChild := some states.size }) := by
  have hlt := hp.lt_size
  refine .spawn p role hp hidle hrole ?_ (fun k P => ?_) (fun i => ?_) fun q c => ?_
  · rw [Array.size_modify, Array.size_push]
  · simp only [hasState_modify, apply_ite TypingState.parent, apply_ite TypingState.role, ite_self,
      hasState_push]
  · simp only [IsLive, hasState_modify, apply_ite, ite_self, hasState_push, and_true]
  · rw [IsActiveChild, hasState_modify, hasState_push]
    by_cases hq : p = q
    · subst hq
      obtain ⟨parent, hparent, -⟩ := hp
      have hidle : ¬ IsActiveChild states p c := hidle c
      simp [HasState, hparent, hidle, Nat.ne_of_lt hlt, eq_comm]
    · simp [hq, Ne.symm hq, IsActiveChild]

private theorem Ends.of_parent {i : Nat} {state : TypingState} (hi : states[i]? = some state) :
    Ends i states (match state.parent with
      | none => states.modify i fun state => { state with discarded := true }
      | some p => (states.modify i fun state => { state with discarded := true }).modify p fun p =>
        if p.activeChild = some i then { p with activeChild := none } else p) := by
  have hplaces := SamePlaces.modify states (i := i)
    (f := fun state => { state with discarded := true }) (fun _ => rfl) fun _ => rfl
  have hended (k : Nat) :
      IsLive (states.modify i fun state => { state with discarded := true }) k ↔
        IsLive states k ∧ k ≠ i := by
    rw [IsLive, hasState_modify]
    by_cases hk : i = k
    · simp [hk, HasState]
    · simp [hk, Ne.symm hk, IsLive]
  have hactive (p c : Nat) :
      IsActiveChild (states.modify i fun state => { state with discarded := true }) p c ↔
        IsActiveChild states p c := by
    simp only [IsActiveChild, hasState_modify, apply_ite, ite_self]
  have hisChild (p : Nat) : IsChild states p i ↔ state.parent = some p := by
    simp [IsChild, HasState, hi]
  cases hparent : state.parent with
  | none => exact ⟨hplaces, hended, fun p c => by simp [hactive, hisChild, hparent]⟩
  | some p =>
    refine ⟨hplaces.trans (.modify _ (fun _ => ?_) fun _ => ?_), fun k => ?_, fun q c => ?_⟩
    · split <;> rfl
    · split <;> rfl
    · rw [← hended, IsLive, hasState_modify]
      simp only [apply_ite, ite_self, IsLive]
    · rw [← hactive, IsActiveChild, hasState_modify]
      simp only [apply_ite, hisChild, hparent, IsActiveChild]
      grind [HasState]

end

namespace StateCall

variable {h : Hierarchy} {s : TypingStates}

/-- A live state is ended by discarding it. -/
theorem ends_discard {i : Nat} (hi : IsLive s.states i) :
    Ends i s.states ((discard i).after h s).states := by
  obtain ⟨state, hi, hlive⟩ := hi
  rw [after, run, Typing.run_discard, TypingStates.live?_eq_ok_iff.mpr ⟨hi, hlive⟩]
  exact .of_parent hi

private theorem change_spawn (call : StateCall) (p : Nat) (node : Node) {role : StateRole}
    (hrole : role ≠ .root) (c : TypingContext) :
    StateChange call s.states ((Typing.spawn p node role c).run.run s).2.states := by
  rw [Typing.run_spawn]
  cases hlive : s.live? p with
  | error f => exact .refl _ _
  | ok parent =>
    cases hidle : parent.activeChild with
    | some child => simp only [hidle]; exact .refl _ _
    | none =>
      simp only [hidle]
      obtain ⟨hp, hdiscarded⟩ := TypingStates.live?_eq_ok_iff.mp hlive
      refine .start ⟨parent, hp, hdiscarded⟩ (fun child hchild => ?_) hrole node c
      have hnone : HasState s.states p fun parent => parent.activeChild = none :=
        ⟨parent, hp, hidle⟩
      obtain ⟨_, -, hidle, hactive⟩ := hnone.and hchild
      cases hidle.symm.trans hactive

/-- The states after any call, seen by their places and by which of them are live and active. -/
theorem change (h : Hierarchy) (s : TypingStates) (call : StateCall) :
    StateChange call s.states (call.after h s).states := by
  cases call with
  | root node c =>
    rw [after, run, Typing.run_silently, Typing.run_root]
    split
    · rename_i hempty
      refine .root node c (Array.isEmpty_iff.mp hempty) ?_
      rw [Array.isEmpty_iff.mp hempty]
      rfl
    · exact .refl _ _
  | value p node =>
    rw [after, run, Typing.run_silently, Typing.run_value]
    cases s.live? p with
    | error f => exact .refl _ _
    | ok parent => exact change_spawn _ p node (by decide) parent.context
  | operand p node c =>
    rw [after, run, Typing.run_silently]
    exact change_spawn _ p node (by decide) c
  | discard i =>
    cases hlive : s.live? i with
    | error f =>
      rw [after, run, Typing.run_discard, hlive]
      exact .refl _ _
    | ok state =>
      have hi : IsLive s.states i := ⟨state, TypingStates.live?_eq_ok_iff.mp hlive⟩
      exact .discard i rfl hi (ends_discard hi)
  | role i =>
    rw [after, run, Typing.run_silently, Typing.role, run_bind, Typing.run_find]
    cases s.states[i]? <;> exact .refl _ _
  | parent i =>
    rw [after, run, Typing.run_silently, Typing.parent, run_bind, Typing.run_find]
    cases s.states[i]? <;> exact .refl _ _
  | context i =>
    rw [after, run, Typing.run_silently, Typing.context, run_bind, Typing.run_live]
    cases s.live? i <;> exact .refl _ _
  | declareLocal i declaration type =>
    rw [after, run, Typing.run_declareLocal]
    cases s.live? i with
    | error f => exact .refl _ _
    | ok state =>
      dsimp only
      cases s.live? (state.parent.getD i) with
      | error f => exact .refl _ _
      | ok owner => exact .declare _ fun state => state.context.withLocal declaration type
  | accept i e type conformance isReturn =>
    rw [after, run, Typing.run_silently, Typing.states_run_accept]
    exact .refl _ _

end StateCall

/-! ## Discarded states -/

theorem StateChange.isDiscarded {call : StateCall} {before after : Array TypingState}
    (hchange : StateChange call before after) {i : Nat} (hi : IsDiscarded before i) :
    IsDiscarded after i := by
  obtain ⟨hlt, hnot⟩ := isDiscarded_iff.mp hi
  rw [isDiscarded_iff]
  cases hchange with
  | same hplaces hlive => exact ⟨hplaces.size_eq ▸ hlt, fun hi => hnot ((hlive i).mp hi)⟩
  | root _ _ hbefore => simp [hbefore] at hlt
  | spawn p role hp hidle hrole hsize hplaces hlive =>
    refine ⟨by omega, ?_⟩
    rw [hlive, not_or]
    exact ⟨by omega, hnot⟩
  | discard k hcall hk hends =>
    refine ⟨hends.places.size_eq ▸ hlt, ?_⟩
    rw [hends.isLive_iff]
    exact fun hlive => hnot hlive.1

namespace StateCall

variable {h : Hierarchy} {s : TypingStates} {i : Nat} {call : StateCall} {f : Failure}

/-- A call is refused, and changes nothing, if the state it is about is not live. -/
theorem run_of_live?_eq_error (hsubject : call.subject? = some i) (hdead : s.live? i = .error f) :
    (call.run h).run.run s = (.error f, s) := by
  cases call with
  | root | role | parent => cases hsubject
  | value p node =>
    obtain rfl : p = i := Option.some.inj hsubject
    simp only [run, Typing.run_silently, Typing.run_value, hdead, Except.map]
  | operand p node c =>
    obtain rfl : p = i := Option.some.inj hsubject
    simp only [run, Typing.run_silently, Typing.operand, Typing.run_spawn, hdead, Except.map]
  | discard k =>
    obtain rfl : k = i := Option.some.inj hsubject
    simp only [run, Typing.run_discard, hdead]
  | context k =>
    obtain rfl : k = i := Option.some.inj hsubject
    simp only [run, Typing.run_silently, Typing.context, run_bind, Typing.run_live, hdead,
      Except.map]
  | declareLocal k declaration type =>
    obtain rfl : k = i := Option.some.inj hsubject
    simp only [run, Typing.run_declareLocal, hdead]
  | accept k e type conformance isReturn =>
    obtain rfl : k = i := Option.some.inj hsubject
    simp only [run, Typing.run_silently, Typing.run_accept, hdead, Except.map]

theorem run_of_isDiscarded (hsubject : call.subject? = some i) (hi : IsDiscarded s.states i) :
    (call.run h).run.run s = (.error (.internal (.discardedState i)), s) := by
  obtain ⟨state, hi, hdiscarded⟩ := hi
  exact run_of_live?_eq_error hsubject (by simp [TypingStates.live?, hi, hdiscarded])

end StateCall

end Lowering
