import Lowering.Failure

/-!
# Outcomes

Typing and emission are both computations on a state that may fail. The outcome of one is described
by what holds of its answer and final state if it succeeds, and of its failure if it does not. Main
statements: the outcome of each way of putting computations together, from those of its parts.
-/

namespace Lowering

variable {σ α β : Type}

/-- Run on `s`, `act` either succeeds with an answer and a state that satisfy `ok`, or fails with a
failure that satisfies `failed`. -/
def Outcome (act : ExceptT Failure (StateM σ) α) (s : σ) (ok : α → σ → Prop)
    (failed : Failure → Prop) : Prop :=
  match act.run.run s with
  | (.ok a, s') => ok a s'
  | (.error f, _) => failed f

namespace Outcome

variable {act : ExceptT Failure (StateM σ) α} {s : σ} {ok : α → σ → Prop}
  {failed : Failure → Prop}

theorem mono {ok' : α → σ → Prop} {failed' : Failure → Prop} (h : Outcome act s ok failed)
    (hok : ∀ a s', ok a s' → ok' a s') (hfailed : ∀ f, failed f → failed' f) :
    Outcome act s ok' failed' := by
  unfold Outcome at h ⊢
  split at h
  · exact hok _ _ h
  · exact hfailed _ h

theorem imp {ok' : α → σ → Prop} (h : Outcome act s ok failed)
    (hok : ∀ a s', ok a s' → ok' a s') : Outcome act s ok' failed :=
  h.mono hok fun _ => id

theorem and {ok' : α → σ → Prop} {failed' : Failure → Prop} (h : Outcome act s ok failed)
    (h' : Outcome act s ok' failed') :
    Outcome act s (fun a s' => ok a s' ∧ ok' a s') fun f => failed f ∧ failed' f := by
  unfold Outcome at *
  split at h <;> simp_all

protected theorem trivial (act : ExceptT Failure (StateM σ) α) (s : σ) :
    Outcome act s (fun _ _ => True) fun _ => True := by
  unfold Outcome
  split <;> trivial

theorem of_run_ok {a : α} {s' : σ} (h : Outcome act s ok failed)
    (hrun : act.run.run s = (.ok a, s')) : ok a s' := by
  simpa [Outcome, hrun] using h

theorem of_run_error {f : Failure} {s' : σ} (h : Outcome act s ok failed)
    (hrun : act.run.run s = (.error f, s')) : failed f := by
  simpa [Outcome, hrun] using h

theorem exists_run_ok (h : Outcome act s ok fun _ => False) :
    ∃ a s', act.run.run s = (.ok a, s') ∧ ok a s' := by
  unfold Outcome at h
  split at h
  · exact ⟨_, _, ‹_›, h⟩
  · exact h.elim

/-- Two reasons to fail that exclude each other leave none. -/
theorem exists_run_of_and {ok' : α → σ → Prop} {failed' : Failure → Prop}
    (h : Outcome act s ok failed) (h' : Outcome act s ok' failed')
    (hfailed : ∀ f, failed f → ¬ failed' f) :
    ∃ a s', act.run.run s = (.ok a, s') ∧ ok a s' ∧ ok' a s' := by
  have hboth := h.and h'
  exact (hboth.mono (fun _ _ h => h) fun f hf => hfailed f hf.1 hf.2).exists_run_ok

end Outcome

@[simp] theorem outcome_pure (a : α) (s : σ) (ok : α → σ → Prop) (failed : Failure → Prop) :
    Outcome (pure a) s ok failed ↔ ok a s :=
  Iff.rfl

@[simp] theorem outcome_throw (f : Failure) (s : σ) (ok : α → σ → Prop)
    (failed : Failure → Prop) : Outcome (throw f) s ok failed ↔ failed f :=
  Iff.rfl

@[simp] theorem outcome_get (s : σ) (ok : σ → σ → Prop) (failed : Failure → Prop) :
    Outcome get s ok failed ↔ ok s s :=
  Iff.rfl

@[simp] theorem outcome_modify (g : σ → σ) (s : σ) (ok : PUnit → σ → Prop)
    (failed : Failure → Prop) : Outcome (modify g) s ok failed ↔ ok ⟨⟩ (g s) :=
  Iff.rfl

@[simp] theorem outcome_modifyGet (g : σ → α × σ) (s : σ) (ok : α → σ → Prop)
    (failed : Failure → Prop) : Outcome (modifyGet g) s ok failed ↔ ok (g s).1 (g s).2 :=
  Iff.rfl

theorem run_get (s : σ) : (get : ExceptT Failure (StateM σ) σ).run.run s = (.ok s, s) := rfl

theorem run_modify (g : σ → σ) (s : σ) :
    (modify g : ExceptT Failure (StateM σ) PUnit).run.run s = (.ok ⟨⟩, g s) :=
  rfl

theorem run_bind (act : ExceptT Failure (StateM σ) α) (next : α → ExceptT Failure (StateM σ) β)
    (s : σ) : (act >>= next).run.run s =
      match act.run.run s with
      | (.ok a, s') => (next a).run.run s'
      | (.error f, s') => (.error f, s') := by
  simp only [ExceptT.run_bind, StateT.run_bind]
  cases act.run.run s with
  | mk result s' => cases result <;> rfl

theorem exists_run_of_bind_ok {act : ExceptT Failure (StateM σ) α}
    {next : α → ExceptT Failure (StateM σ) β} {b : β} {s u : σ}
    (h : (act >>= next).run.run s = (.ok b, u)) :
    ∃ a t, act.run.run s = (.ok a, t) ∧ (next a).run.run t = (.ok b, u) := by
  rw [run_bind] at h
  split at h
  · exact ⟨_, _, ‹_›, h⟩
  · cases h

@[simp] theorem outcome_bind (act : ExceptT Failure (StateM σ) α)
    (next : α → ExceptT Failure (StateM σ) β) (s : σ) (ok : β → σ → Prop)
    (failed : Failure → Prop) :
    Outcome (act >>= next) s ok failed ↔
      Outcome act s (fun a s' => Outcome (next a) s' ok failed) failed := by
  simp only [Outcome, run_bind]
  cases act.run.run s with
  | mk result s' => cases result <;> rfl

@[simp] theorem ofExcept_ok (a : α) :
    (ofExcept (.ok a : Except Failure α) : ExceptT Failure (StateM σ) α) = pure a :=
  rfl

@[simp] theorem ofExcept_error (f : Failure) :
    (ofExcept (.error f : Except Failure α) : ExceptT Failure (StateM σ) α) = throw f :=
  rfl

@[simp] theorem outcome_ofExcept (result : Except Failure α) (s : σ) (ok : α → σ → Prop)
    (failed : Failure → Prop) :
    Outcome (ofExcept result) s ok failed ↔
      match result with
      | .ok a => ok a s
      | .error f => failed f := by
  cases result <;> rfl

theorem exists_of_isOk {ε : Type} {x : Except ε α} (h : x.isOk) : ∃ a, x = .ok a := by
  cases x with
  | error => cases h
  | ok a => exact ⟨a, rfl⟩

theorem eq_error_of_match {x : Except Failure α} {f : Failure}
    (h : (match x with
      | .ok _ => none
      | .error f => some f) = some f) : x = .error f := by
  cases x with
  | ok => cases h
  | error f' => exact congrArg _ (Option.some.inj h)

theorem exists_of_toOption_map {ε : Type} {x : Except ε α} {f : α → β} {b : β}
    (h : x.toOption.map f = some b) : ∃ a, x = .ok a ∧ f a = b := by
  cases x with
  | error => cases h
  | ok a => exact ⟨a, rfl, Option.some.inj h⟩

end Lowering
