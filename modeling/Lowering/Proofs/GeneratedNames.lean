import Lowering.Proofs.Framing

/-!
# Generated names

Every local that lowering makes up has a name of its own, and is declared before it is used. Main
statement: wherever a name is written for the value of a node, the local of that very node has been
declared in braces that are still open, and no other visible binding has that name.
-/

namespace Lowering

namespace Request

variable {c : Compiler} {e : Expr} {r : Request}

/-- The name that is written for the value of node `d`, as a value or as the target of an
assignment, is the innermost one that is bound to `d` and not bound to anything else that is
visible. In the text before it stands its declaration, a type and the name, in a pair of braces that
encloses both. -/
theorem lower_declares_locals {out : Lowered} (hlower : r.lower c e = .ok out) :
    ∃ sink, (r.emission c e).run.run (r.sink c) = (.ok out.types, sink) ∧
      out.source = sink.text ∧
      ∀ id d name past, .use id (.value d) name :: past <:+ sink.journal →
        TextAt out.source past name ∧ BracesWritten past ∧
        (∃ type before, .declaration (.value d) type name :: before <:+ past ∧
          TextAt (writtenBy past) before (type ++ " " ++ name) ∧
          bracesAfter before <:+ bracesAfter past) ∧
        ∃ inner outer, bindingsAfter past = inner ++ (.value d, name) :: outer ∧
          (∀ b ∈ inner, b.1 ≠ .value d) ∧ name ∉ (inner ++ outer).map (·.2) := by
  obtain ⟨sink, hrun, hsource⟩ := exists_run_of_lower hlower
  refine ⟨sink, hrun, hsource, fun id d name past hwritten => ?_⟩
  obtain ⟨t, u, hstarts, hyields, hcloses, hok⟩ := exists_growth (infer_of_lower hlower)
  rw [hrun] at hcloses hok
  have hcompletes := hok rfl
  obtain ⟨hstart, huse⟩ :=
    between_of_not_quiet hstarts.toPrepared hyields.grows.suffix hcloses rfl hwritten
  have hkeys : ∀ b ∈ bindingsAfter t.journal, b.1.isGenerated = false := by
    rw [← hstarts.faithful.bindings_eq]
    exact hstarts.keys
  have hdeclares : DeclaresAll t.journal := fun d name hmem =>
    Bool.noConfusion (hkeys (.value d, name) hmem)
  obtain ⟨type, before, hdeclaration, hbraces⟩ :=
    hcompletes.settles.uses hdeclares id d name past hstart huse
  have htext : TextAt out.source past name := hsource ▸ sink.textAt hwritten
  refine ⟨htext, bracesWritten past,
    ⟨type, before, hdeclaration, textAt_of_suffix hdeclaration, hbraces⟩, ?_⟩
  have hpast : past <:+ u.journal := (List.suffix_cons _ _).trans huse
  rcases hyields.grows.uses id (.value d) name past hstart huse with hname | ⟨_, hvalue⟩
  · obtain ⟨inner, outer, heq, hinner⟩ := List.lookup_eq_some_iff.mp hname
    refine ⟨inner, outer, heq, fun b hb => ?_, ?_⟩
    · simpa using Ne.symm (bne_iff_ne.mp (hinner b hb))
    · exact (hyields.grows.supplies past hstart hpast).not_mem_of_generated hkeys heq rfl
  · exact absurd rfl (hvalue d)

end Request

private def assignedInBlock : Expr :=
  .block ⟨6, {}⟩ [
    .decl ⟨1, {}⟩ "x" none true (some (.literal ⟨0, {}⟩ (.int 1))),
    .block ⟨5, {}⟩ [
      .assign ⟨3, {}⟩ (.ofLocal "x" 1) none (.literal ⟨2, {}⟩ (.int 2)),
      .call ⟨4, {}⟩ (.ofLocal "x" 1) none []]]

/-- A local that is declared before a block and assigned in it. -/
theorem Request.lower_declares_assigned_local :
    let r : Request := .method { result := .int }
    let source := "\nint _blockexpression = (int) 0;\n\x7b\n  int x = 1;" ++
      "\n  int _blockexpression_1 = (int) 0;\n  \x7b\n    x = 2;\n    _blockexpression_1 = x;" ++
      "\n  \x7d\n  _blockexpression = _blockexpression_1;\n\x7d\nreturn _blockexpression;"
    ∃ (out : Lowered) (sink : Sink) (past : List Entry),
      r.lower ⟨.empty, {}⟩ assignedInBlock = .ok out ∧ out.source = source ∧
      source = sink.text ∧ .use 3 (.value 1) "x" :: past <:+ sink.journal ∧ TextAt source past "x" ∧
      ∃ type before, .declaration (.value 1) type "x" :: before <:+ past ∧
        TextAt (writtenBy past) before (type ++ " " ++ "x") ∧
        bracesAfter before <:+ bracesAfter past := by
  intro r source
  have hused : ((r.emission ⟨.empty, {}⟩ assignedInBlock).run.run
      (r.sink ⟨.empty, {}⟩)).2.journal.contains (.use 3 (.value 1) "x") := by
    decide +kernel
  have hlowers : (r.lower ⟨.empty, {}⟩ assignedInBlock).toOption.map (·.source) = some source := by
    decide +kernel
  obtain ⟨out, hlower, hsource⟩ := exists_of_toOption_map hlowers
  obtain ⟨sink, hrun, htext, huses⟩ := Request.lower_declares_locals hlower
  rw [hrun] at hused
  obtain ⟨past, huse⟩ := exists_suffix_of_mem (List.contains_iff_mem.mp hused)
  obtain ⟨hname, -, ⟨type, before, hdeclaration, hdeclared, hbraces⟩, -⟩ := huses 3 1 "x" past huse
  rw [hsource] at htext hname
  exact ⟨out, sink, past, hlower, hsource, htext, huse, hname, type, before, hdeclaration,
    hdeclared, hbraces⟩

end Lowering
