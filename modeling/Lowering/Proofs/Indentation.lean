import Lowering.Proofs.Running
import Lowering.Proofs.Sink.Journal

/-!
# Indentation after lowering

A brace that opens indents what follows, and the brace that closes it takes the indentation back.
Unlike scopes, braces stay open where something between them fails. Main statement: after a request
the sink is indented by one level more for each brace that the request left open, and only a request
that fails after its tree was typed leaves braces open.
-/

namespace Lowering

namespace Sink

/-- Between `s` and `t` the braces at the positions `opened` were left open, inner ones first, and
each of them raised the indentation by one level. -/
structure LeavesOpen (opened : List Nat) (s t : Sink) : Prop where
  braces : bracesAfter t.journal = opened ++ bracesAfter s.journal
  level : t.level = s.level + opened.length
  unit : t.unit = s.unit

namespace LeavesOpen

variable {opened later : List Nat} {s t u : Sink}

theorem refl (s : Sink) : LeavesOpen [] s s :=
  ⟨rfl, rfl, rfl⟩

theorem trans (h : LeavesOpen opened s t) (h' : LeavesOpen later t u) :
    LeavesOpen (later ++ opened) s u where
  braces := by rw [h'.braces, h.braces, List.append_assoc]
  level := by rw [h'.level, h.level, List.length_append]; omega
  unit := h'.unit.trans h.unit

/-- One more entry that is no brace. -/
theorem snoc {e : Entry} (h : LeavesOpen opened s t) (he : e.isBraceless)
    (hjournal : u.journal = e :: t.journal) (hlevel : u.level = t.level) (hunit : u.unit = t.unit) :
    LeavesOpen opened s u where
  braces := by rw [hjournal, bracesAfter_cons he, h.braces]
  level := hlevel.trans h.level
  unit := hunit.trans h.unit

theorem openScope (s : Sink) : LeavesOpen [] s s.openScope :=
  (refl s).snoc (e := .enterScope) rfl rfl rfl rfl

theorem closeScope (h : LeavesOpen opened s t) : LeavesOpen opened s t.closeScope := by
  cases henclosing : t.enclosing with
  | nil => simpa [Sink.closeScope, henclosing] using h
  | cons scope enclosing =>
    apply h.snoc (e := .leaveScope) rfl <;> simp [Sink.closeScope, henclosing, Sink.write]

/-- An opening brace is the outermost one left open after it. -/
theorem opening (s : Sink) (brace : Brace) :
    LeavesOpen [s.journal.length] s (s.write (.opening brace)).indent :=
  ⟨rfl, rfl, rfl⟩

/-- The closing brace takes back what the opening one did. -/
theorem closing {brace : Brace} (h : LeavesOpen [] (s.write (.opening brace)).indent t) :
    LeavesOpen [] s (t.dedent.newLine.write (.closing brace)) where
  braces := congrArg List.tail h.braces
  level := congrArg (· - 1) h.level
  unit := h.unit

end LeavesOpen

end Sink

/-- What succeeds closes its braces, and what fails leaves some of them open. -/
theorem Emit.law_leavesOpen :
    SinkLaw (Sink.LeavesOpen []) fun s t => ∃ opened, Sink.LeavesOpen opened s t where
  refl := .refl
  trans := .trans
  stop s := ⟨[], .refl s⟩
  thenStop h := fun ⟨opened, h'⟩ => ⟨opened ++ [], h.trans h'⟩
  write s _ he _ := (Sink.LeavesOpen.refl s).snoc he rfl rfl rfl
  bind s key name _ := (Sink.LeavesOpen.refl s).snoc (e := .bind key name) rfl rfl rfl rfl
  bindFreshKey s name :=
    (Sink.LeavesOpen.refl s).snoc (e := .bind s.freshKey.1 name) rfl rfl rfl rfl
  setObject _ _ _ := ⟨rfl, rfl, rfl⟩
  region _ _ h := ⟨h.braces, h.level, h.unit⟩
  scope h := ((Sink.LeavesOpen.openScope _).trans h).closeScope
  scopeStop := fun ⟨opened, h⟩ => ⟨opened ++ [], ((Sink.LeavesOpen.openScope _).trans h).closeScope⟩
  enclose := .closing
  encloseStop := fun ⟨opened, h⟩ => ⟨opened ++ _, (Sink.LeavesOpen.opening _ _).trans h⟩

namespace Request

/-- After a request the indentation is raised by one level for each brace that was left open; none
is where the request succeeds, and none where typing fails. -/
theorem run_levels (c : Compiler) (e : Expr) (r : Request) (s : Sink) :
    ∃ opened, Sink.LeavesOpen opened s ((r.emission c e).run.run s).2 ∧
      (((r.emission c e).run.run s).1.isOk → opened = []) ∧
      ((e.infer c.hierarchy r.expectation (r.contextIn s)).isOk = false → opened = []) := by
  cases hinfer : e.infer c.hierarchy r.expectation (r.contextIn s) with
  | error f =>
    rw [r.run_emission_of_error hinfer]
    exact ⟨[], .refl s, fun _ => rfl, fun _ => rfl⟩
  | ok types =>
    have hleaves := Emit.law_leavesOpen.emission c e r s
    rw [Emit.Obeys] at hleaves
    cases hrun : (r.emission c e).run.run s with
    | mk result t =>
      rw [hrun] at hleaves
      cases result with
      | ok types => exact ⟨[], hleaves, fun _ => rfl, fun _ => rfl⟩
      | error f =>
        obtain ⟨opened, hleaves⟩ := hleaves
        exact ⟨opened, hleaves, fun hok => Bool.noConfusion hok, fun h => Bool.noConfusion h⟩

private def misapplied : Expr :=
  .block ⟨3, {}⟩ [.literal ⟨0, {}⟩ (.int 1), .ret ⟨2, {}⟩ (some
    (.call ⟨1, {}⟩ (.ofOperator "sum" "+" (.primitive .int)) (some (.literal ⟨0, {}⟩ (.int 1)))
      [.literal ⟨0, {}⟩ (.int 1), .literal ⟨0, {}⟩ (.int 1)]))]

/-- What fails in the braces of a block leaves them open, and the sink stays indented. -/
theorem run_raises_level :
    ¬ ∀ (c : Compiler) (e : Expr) (r : Request) (s : Sink),
      ((r.emission c e).run.run s).2.level = s.level := by
  intro hlevel
  have hraised : (((Request.method { result := .int }).emission ⟨.empty, {}⟩ misapplied).run.run
      {}).2.level = 1 := by
    decide +kernel
  have hsame := hlevel ⟨.empty, {}⟩ misapplied (.method { result := .int }) {}
  rw [hraised] at hsame
  cases hsame

end Request

end Lowering
