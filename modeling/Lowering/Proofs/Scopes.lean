import Lowering.Proofs.Emission.Lasting
import Lowering.Proofs.Running

/-!
# Scopes after lowering

A request opens a scope of its own and closes it again, and so does every pair of braces in it, also
where something fails between them. Main statement: after a request, whether it succeeded or failed,
the sink has the scopes that it had before, with text and regions added to those it had; and where
the tree is not typed, the sink is unchanged.
-/

namespace Lowering

namespace Sink

/-- In `t` everything is found and reserved that is in `s`, and nothing else; the text and the
regions of `s` come first in `t`. -/
structure Resumes (s t : Sink) : Prop where
  depth : t.depth = s.depth
  names : ∀ key, t.name? key = s.name? key
  objects : ∀ key, t.object? key = s.object? key
  reserved : t.reserved = s.reserved
  text : ∃ added, t.text = s.text ++ added
  regions : s.regions <+: t.regions

theorem Retains.resumes {s t : Sink} (h : s.Retains t) (hscopes : t.scopes = s.scopes) :
    s.Resumes t where
  depth := congrArg List.length hscopes
  names key := by rw [name?, name?, hscopes]
  objects key := by rw [object?, object?, hscopes]
  reserved := by rw [Sink.reserved, Sink.reserved, hscopes]
  text := h.text
  regions := h.regions

end Sink

namespace Request

/-- Whether a request succeeds or fails, the scopes of the sink are as before and its text and
regions only grow; where typing fails, nothing changes at all. -/
theorem run_resumes (c : Compiler) (e : Expr) (r : Request) (s : Sink) :
    s.Resumes ((r.emission c e).run.run s).2 ∧
      ∀ f, e.infer c.hierarchy r.expectation (r.contextIn s) = .error f →
        (r.emission c e).run.run s = (.error f, s) := by
  refine ⟨?_, fun f => r.run_emission_of_error⟩
  cases hinfer : e.infer c.hierarchy r.expectation (r.contextIn s) with
  | error f =>
    rw [r.run_emission_of_error hinfer]
    exact (Sink.Retains.refl s).resumes rfl
  | ok types =>
    have hcontinues : s.openScope.Continues ((r.contents (c.env types) e).run.run s.openScope).2 :=
      (Emit.law_continues.contents (c.env types) e r s.openScope).run
    rw [r.run_emission_of_ok hinfer]
    cases hrun : (r.contents (c.env types) e).run.run s.openScope with
    | mk result t =>
      rw [hrun] at hcontinues
      have hresumes : s.Resumes t.closeScope :=
        hcontinues.closeScope.toRetains.resumes hcontinues.scopes_closeScope
      cases result <;> exact hresumes

private def inUse : Sink :=
  ((({} : Sink).append "x = ").openScope.setObject "this" .string).bind (.value 7) "a"

/-- Foreign syntax is not typed, so a sink in use is left as it is. -/
theorem run_resumes_unsupported :
    (Request.emission {} (.extension ⟨0, {}⟩ "Foreign" []) (.expression none none none)).run.run
      inUse = (.error (.unsupported "Foreign" {}), inUse) :=
  (run_resumes {} (.extension ⟨0, {}⟩ "Foreign" []) (.expression none none none) inUse).2 _ rfl

end Request

end Lowering
