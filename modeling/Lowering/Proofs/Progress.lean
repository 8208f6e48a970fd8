import Lowering.Proofs.Effects
import Lowering.Proofs.Locals

/-!
# Lowering succeeds

What type inference accepts can be lowered, except where a void node is asked for a value, where the
host has no such operator or assignment, and where a branch of an `if` is a declaration. Main
statement: every other tree without sharing is lowered, and a value that was prepared can be written
for as long as its scope is open.
-/

namespace Lowering

namespace Expr

/-- The first branch of an `if` with two branches is a declaration. -/
def declaresInBranch : Expr → Bool
  | .branch _ _ (.decl ..) (some _) => true
  | _ => false

theorem keepsBranchesApart_of_declaresInBranch {e : Expr}
    (h : ∀ part ∈ e.occurrences, part.declaresInBranch = false) : e.KeepsBranchesApart := by
  intro part hpart
  have hpart := h part hpart
  unfold declaresInBranch at hpart
  unfold isApart
  split at hpart <;> simp_all

end Expr

namespace Emit

variable {env : Env} {s t : Sink}

theorem exists_run_expression {e : Expr} (hregular : e.Regular) (hresolves : t.Resolves e)
    (hsettled : e.Settled t) : ∃ t', (expression env e).run.run t = (.ok (), t') := by
  have hknown : Writes t False [] (·.isUnresolved = false) (expression env e) :=
    writes_of_resolves hresolves
  have hready : Writes t True [] (fun f => f.isUnresolved ∨ ¬ e.Regular) (expression env e) :=
    writes_of_settled (tolerates_self e) hsettled
  obtain ⟨_, t', hrun, _⟩ :=
    (hknown t rfl).exists_run_of_and (hready t rfl) fun f hf => by simp [hf, hregular]
  exact ⟨t', hrun⟩

end Emit

namespace Request

variable {c : Compiler} {e : Expr} {r : Request} {types : ResolvedTypes}

/-- Lowering succeeds on what type inference accepts, if no void node is asked for a value, the host
has all operators and assignments, and no local is declared by a branch that another one follows.
Where the statement form of a node that is not void succeeded with the locals around the node having
names, its expression form succeeds from then on in the same scope. -/
theorem lower_succeeds (hunshared : e.Unshared) (hinfer : r.infer c e = .ok types)
    (hgives : types.GivesOperands e) (hregular : e.Regular)
    (hbranches : ∀ part ∈ e.occurrences, part.declaresInBranch = false) :
    (∃ out, r.lower c e = .ok out ∧ out.types = types) ∧
    ∀ part ∈ e.occurrences, (types.typeOf part).isVoid = false →
      ∀ scope, Expr.Scoped scope part → ∀ s s' t : Sink, s.Visible scope →
        (Emit.statement (c.env types) true part).run.run s = (.ok (), s') → s'.Extends t →
        ∃ t', (Emit.expression (c.env types) part).run.run t = (.ok (), t') := by
  have hsupports := supports_of_infer hunshared hinfer hgives
  refine ⟨?_, fun part hpart hvoid scope hscoped s s' t hs hrun ht => ?_⟩
  · have hscoped := scoped_of_infer hinfer (Expr.keepsBranchesApart_of_declaresInBranch hbranches)
    have hfound := outcome_emission hinfer (carries_of_scoped hscoped)
    have hready :=
      outcome_emission hinfer (carries_of_supports hsupports (Emit.tolerates_self e))
    obtain ⟨answer, sink, hrun, _, hanswer, _⟩ :=
      hfound.exists_run_of_and hready fun f hf => by simp [hf, hregular]
    exact ⟨_, lower_eq_ok hrun, hanswer⟩
  · have hregularPart : part.Regular := fun below hbelow =>
      hregular below (Expr.occurrences_subset hpart hbelow)
    have hshows := Emit.statement_shows (c.env types) part scope hscoped
    obtain ⟨_, _, hknows⟩ := (hshows s hs true).of_run_ok hrun
    have hreadies :=
      Emit.statement_readies part (hsupports.part hpart) (Emit.tolerates_self part)
    obtain ⟨_, _, hready⟩ := (hreadies s true).of_run_ok hrun
    exact Emit.exists_run_expression hregularPart (hknows.resolves.extends ht)
      ((hready rfl hvoid).extends ht)

end Request

private def assignedOrAdded : Expr :=
  .block ⟨9, {}⟩ [
    .decl ⟨1, {}⟩ "x" none true (some (.literal ⟨0, {}⟩ (.int 1))),
    .branch ⟨8, {}⟩ (.literal ⟨2, {}⟩ (.boolean true))
      (.assign ⟨4, {}⟩ (.ofLocal "x" 1) none (.literal ⟨3, {}⟩ (.int 2)))
      (some (.call ⟨7, {}⟩ (.ofOperator "plus" "+" (.primitive .int)) none
        [.call ⟨5, {}⟩ (.ofLocal "x" 1) none [], .literal ⟨6, {}⟩ (.int 1)]))]

theorem Request.lower_succeeds_on_branches :
    assignedOrAdded.Unshared ∧ assignedOrAdded.Regular ∧
      (∀ part ∈ assignedOrAdded.occurrences, part.declaresInBranch = false) ∧
      ∃ (types : ResolvedTypes) (out : Lowered),
        (Request.method { result := .int }).infer ⟨.empty, {}⟩ assignedOrAdded = .ok types ∧
        types.GivesOperands assignedOrAdded ∧
        (Request.method { result := .int }).lower ⟨.empty, {}⟩ assignedOrAdded = .ok out := by
  have hunshared : assignedOrAdded.Unshared := by decide
  have hregular : assignedOrAdded.Regular := by decide +kernel
  have hbranches : ∀ part ∈ assignedOrAdded.occurrences, part.declaresInBranch = false := by
    decide +kernel
  have hgives : ((Request.method { result := .int }).infer ⟨.empty, {}⟩
      assignedOrAdded).toOption.any (·.GivesOperands assignedOrAdded) := by decide +kernel
  cases hinfer : (Request.method { result := .int }).infer ⟨.empty, {}⟩ assignedOrAdded with
  | error f => simp [hinfer, Except.toOption] at hgives
  | ok types =>
    have hgives : types.GivesOperands assignedOrAdded := by
      simpa [hinfer, Except.toOption] using hgives
    obtain ⟨⟨out, hlower, _⟩, _⟩ :=
      Request.lower_succeeds hunshared hinfer hgives hregular hbranches
    exact ⟨hunshared, hregular, hbranches, types, out, rfl, hgives, hlower⟩

end Lowering
