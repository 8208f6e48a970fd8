import Lowering.Proofs.Emission.Visibility
import Lowering.Proofs.Request
import Lowering.Proofs.Typing.Scoping

/-!
# Locals are found

Type inference and lowering agree on which locals can be named where. Main statement: a tree that
type inference accepts never fails to be lowered for want of a local, unless one branch of an `if`
declares a local that the other branch refers to.
-/

namespace Lowering

theorem carries_of_scoped {env : Env} {e : Expr} (he : Expr.Scoped [] e) :
    Emit.Carries env e False (·.isUnresolved = false) where
  statement t needed := (Emit.statement_shows env e [] he).prepares (by simp [Sink.Visible])
  block exprs hexprs t expected returns := by
    cases e with
    | block node exprs' =>
      obtain rfl : exprs' = exprs := Option.some.inj hexprs
      have hfollowing : Emit.Following env exprs' t := ⟨[], by simp [Sink.Visible],
        fun entry hentry => Emit.statement_shows env entry.2 entry.1 (he.children entry hentry)⟩
      exact (Emit.adds_returningLast (Emit.Following env) expected returns exprs'
        (fun e _ rest u hu needed => ⟨(hu.step needed).1, (hu.step needed).2.imp fun _ _ h => h.2⟩)
        hfollowing).effects_eq False.elim
    | _ => cases hexprs
  inPlace hplain t := by
    have hresolves : t.Resolves e := fun d hread => by cases hplain.mem_scope he hread
    exact (Emit.writes_of_resolves hresolves).mono (fun h => h.elim) fun _ h => h

theorem Request.scoped_of_infer {c : Compiler} {e : Expr} {r : Request} {types : ResolvedTypes}
    (hinfer : r.infer c e = .ok types) (hapart : e.KeepsBranchesApart) : Expr.Scoped [] e := by
  have h := Expr.scoped_of_infer hinfer hapart
  rwa [TypingContext.names, r.locals_context] at h

/-- Lowering finds every local of a tree that type inference accepts and that keeps branches apart;
without sharing, these are all the trees whose locals type inference sees as lowering does. -/
theorem Request.lower_finds_locals {c : Compiler} {e : Expr} {r : Request} {types : ResolvedTypes}
    (hinfer : r.infer c e = .ok types) :
    (e.KeepsBranchesApart →
      Expr.Scoped [] e ∧ ∀ f, r.lower c e = .error f → f.isUnresolved = false) ∧
    (e.Unshared → (Expr.Scoped [] e ↔ e.KeepsBranchesApart)) := by
  have hscoped : e.KeepsBranchesApart → Expr.Scoped [] e := scoped_of_infer hinfer
  refine ⟨fun hapart => ⟨hscoped hapart, fun f hf => ?_⟩, fun hunshared => ⟨fun h => ?_, hscoped⟩⟩
  · exact lower_eq_error (outcome_emission hinfer (carries_of_scoped (hscoped hapart))) hf
  · exact h.keepsBranchesApart hunshared (by simp)

private def assignedInBranch : Expr :=
  .block ⟨5, {}⟩ [
    .decl ⟨1, {}⟩ "x" none true (some (.literal ⟨0, {}⟩ (.int 1))),
    .branch ⟨4, {}⟩ (.literal ⟨2, {}⟩ (.boolean true))
      (.assign ⟨6, {}⟩ (.ofLocal "x" 1) none (.literal ⟨3, {}⟩ (.int 2)))
      (some (.call ⟨7, {}⟩ (.ofLocal "x" 1) none []))]

theorem Request.lower_finds_assigned_local :
    ∃ types, (Request.method { result := .int }).infer ⟨.empty, {}⟩ assignedInBranch = .ok types ∧
      assignedInBranch.KeepsBranchesApart ∧ assignedInBranch.Unshared ∧
      Expr.Scoped [] assignedInBranch ∧
      ∀ f, (Request.method { result := .int }).lower ⟨.empty, {}⟩ assignedInBranch = .error f →
        f.isUnresolved = false := by
  have hsome : ((Request.method { result := .int }).infer ⟨.empty, {}⟩
      assignedInBranch).toOption.isSome := by decide +kernel
  have hapart : assignedInBranch.KeepsBranchesApart := by decide +kernel
  have hunshared : assignedInBranch.Unshared := by decide +kernel
  cases hinfer : (Request.method { result := .int }).infer ⟨.empty, {}⟩ assignedInBranch with
  | error f => simp [hinfer, Except.toOption] at hsome
  | ok types =>
    exact ⟨types, rfl, hapart, hunshared, (Request.lower_finds_locals hinfer).1 hapart⟩

private def readInOtherBranch : Expr :=
  .branch ⟨4, {}⟩ (.literal ⟨0, {}⟩ (.boolean true))
    (.decl ⟨2, {}⟩ "x" none false (some (.literal ⟨1, {}⟩ (.int 1))))
    (some (.call ⟨3, {}⟩ (.ofLocal "x" 2) none []))

/-- Type inference lets the second branch of an `if` see the local that the first branch is. -/
theorem Request.lower_misses_local_of_branch :
    ¬ ∀ (c : Compiler) (e : Expr) (r : Request) (types : ResolvedTypes),
      r.infer c e = .ok types → ∀ f, r.lower c e = .error f → f.isUnresolved = false := by
  intro h
  have hsome : ((Request.method { result := .int }).infer ⟨.empty, {}⟩
      readInOtherBranch).toOption.isSome := by decide +kernel
  have hlower : (match (Request.method { result := .int }).lower ⟨.empty, {}⟩
      readInOtherBranch with
    | .ok _ => false
    | .error f => f.isUnresolved) = true := by decide +kernel
  cases hinfer : (Request.method { result := .int }).infer ⟨.empty, {}⟩ readInOtherBranch with
  | error f => simp [hinfer, Except.toOption] at hsome
  | ok types =>
    split at hlower
    · cases hlower
    · rename_i f hfails
      exact Bool.false_ne_true ((h _ _ _ types hinfer f hfails).symm.trans hlower)

end Lowering
