import Lowering.Proofs.Emission.Proposals
import Lowering.Proofs.Framing

/-!
# Fields

A field without a receiver is written by its own name, which lowering does not reserve, and made up
names are kept apart only from names that are bound. Main statement: a made up name that is visible
at a field of the same name stands for the value of a node of the tree that needs a local, and is
the first one that was free for the proposal of that node.
-/

namespace Lowering

theorem exists_nameCandidate_eq_freshName (taken : List String) (proposed : String) :
    ∃ n, freshName taken proposed = nameCandidate proposed n :=
  ⟨_, rfl⟩

namespace Request

variable {c : Compiler} {e : Expr} {r : Request}

/-- Of the generated names that are visible where a field is written, only one that was made for the
proposal of a node can be that of the field; and no name is, if no node that needs a local has the
name of the field among the candidates for its proposal. -/
theorem lower_spares_fields {result : Except Failure ResolvedTypes} {sink : Sink}
    (hrun : (r.emission c e).run.run (r.sink c) = (result, sink)) {id : NodeId} {f : String}
    {past : List Entry} (hfield : .field id f :: past <:+ sink.journal) :
    TextAt sink.text past f ∧
    (∀ key, key.isGenerated → (key, f) ∈ bindingsAfter past →
      ∃ x ∈ e.occurrences, ∃ before, .bind key f :: before <:+ past ∧
        ProposesAt before x key f) ∧
    ((∀ x ∈ e.occurrences, x.needsLocal → ∀ n, f ≠ nameCandidate (identifier x.proposedName) n) →
      ∀ key, key.isGenerated → (key, f) ∉ bindingsAfter past) := by
  have hproposed : ∀ key, key.isGenerated → (key, f) ∈ bindingsAfter past →
      ∃ x ∈ e.occurrences, ∃ before, .bind key f :: before <:+ past ∧
        ProposesAt before x key f := by
    intro key hkey hvisible
    cases hinfer : r.infer c e with
    | error failure =>
      rw [run_emission_of_infer_error hinfer, Prod.mk.injEq] at hrun
      rw [← hrun.2, journal_sink] at hfield
      cases List.suffix_nil.mp hfield
    | ok types =>
      obtain ⟨t, u, hstarts, hcloses, hnames, _⟩ :=
        exists_obeying (Emit.law_proposals (· ∈ e.occurrences)) hinfer fun _ hpart => hpart
      rw [hrun] at hcloses
      have hnames : Sink.NamesOnly (· ∈ e.occurrences) t u :=
        hnames.elim (· hstarts.faithful) (· hstarts.faithful)
      obtain ⟨hstart, hfield⟩ :=
        between_of_not_quiet hstarts.toPrepared hnames.grows.suffix hcloses rfl hfield
      have hnew : (key, f) ∉ bindingsAfter t.journal := by
        rw [← hstarts.faithful.bindings_eq]
        exact fun hmem => Bool.false_ne_true ((hstarts.keys _ hmem).symm.trans hkey)
      obtain ⟨before, hbefore, hbind⟩ := exists_bind_of_mem_bindingsAfter hstart hvisible hnew
      have hpast : .bind key f :: before <:+ u.journal :=
        hbind.trans ((List.suffix_cons _ _).trans hfield)
      obtain ⟨x, hx, hproposes⟩ := hnames.proposes key f before hbefore hpast
      exact ⟨x, hx, before, hbind, hproposes⟩
  refine ⟨sink.textAt hfield, hproposed, fun hfree key hkey hvisible => ?_⟩
  obtain ⟨x, hx, before, _, hproposes⟩ := hproposed key hkey hvisible
  obtain ⟨n, hn⟩ := exists_nameCandidate_eq_freshName ((bindingsAfter before).map (·.2))
    (identifier x.proposedName)
  exact hfree x hx hproposes.needed n (hproposes.name_eq.trans hn)

end Request

private def getNameMinus (field : String) : Expr :=
  .call ⟨2, {}⟩ (.ofOperator "operator_minus" "-" (.primitive .int))
    (some (.call ⟨0, {}⟩ { name := "getName", kind := .method, type := some (.primitive .int) }
      none []))
    [.call ⟨1, {}⟩ { name := field, kind := .field, type := some (.primitive .int) } none []]

private def getNameRun (field : String) : Except Failure ResolvedTypes × Sink :=
  ((Request.method { result := .int }).emission ⟨.empty, {}⟩ (getNameMinus field)).run.run
    ((Request.method { result := .int }).sink ⟨.empty, {}⟩)

private theorem run_eq_getNameRun (field : String) :
    ((Request.method { result := .int }).emission ⟨.empty, {}⟩ (getNameMinus field)).run.run
      ((Request.method { result := .int }).sink ⟨.empty, {}⟩) =
        ((getNameRun field).1, (getNameRun field).2) :=
  (Prod.eta _).symm

private theorem field_getNameRun (field : String) (h : field ∈ ["_name", "name"]) :
    .field 1 field :: (getNameRun field).2.journal.drop 4 <:+ (getNameRun field).2.journal := by
  have hdrop : ∀ field ∈ ["_name", "name"], (getNameRun field).2.journal.drop 3 =
      .field 1 field :: (getNameRun field).2.journal.drop 4 := by
    decide +kernel
  rw [← hdrop field h]
  exact List.drop_suffix 3 _

private theorem visible_getNameRun :
    (.value 0, "_name") ∈ bindingsAfter ((getNameRun "_name").2.journal.drop 4) := by
  decide +kernel

/-- The local for the value of the call has the name of the one field, but not that of the other. -/
theorem Request.lower_spares_unproposed :
    (∃ past, .field 1 "_name" :: past <:+ (getNameRun "_name").2.journal ∧
      TextAt (getNameRun "_name").2.text past "_name" ∧
      ∃ x ∈ (getNameMinus "_name").occurrences, ∃ before,
        .bind (.value 0) "_name" :: before <:+ past ∧
          ProposesAt before x (.value 0) "_name") ∧
    ∃ past, .field 1 "name" :: past <:+ (getNameRun "name").2.journal ∧
      ∀ key, key.isGenerated → (key, "name") ∉ bindingsAfter past := by
  have hcaptured := field_getNameRun "_name" (by simp)
  have hspared := field_getNameRun "name" (by simp)
  have hproposed : ∀ x ∈ (getNameMinus "name").occurrences, x.needsLocal →
      identifier x.proposedName = "_name" := by
    decide +kernel
  refine ⟨⟨_, hcaptured, ?_⟩, _, hspared, ?_⟩
  · obtain ⟨htext, hmade, -⟩ :=
      Request.lower_spares_fields (run_eq_getNameRun "_name") hcaptured
    exact ⟨htext, hmade (.value 0) rfl visible_getNameRun⟩
  · obtain ⟨-, -, hfree⟩ := Request.lower_spares_fields (run_eq_getNameRun "name") hspared
    refine hfree fun x hx hneeds n heq => ?_
    rw [hproposed x hx hneeds] at heq
    have hlength : 5 ≤ (nameCandidate "_name" n).length := by
      cases n with
      | zero => decide
      | succ n =>
        simp only [nameCandidate, String.length_append]
        have hproposal : "_name".length = 5 := by decide
        omega
    rw [← heq] at hlength
    exact absurd hlength (by decide)

/-- The local for the value of a call can be visible at a field of the same name. -/
theorem Request.lower_captures_field :
    ¬ ∀ (c : Compiler) (e : Expr) (sig : Signature) (out : Lowered),
      (Request.method sig).lower c e = .ok out →
      ∀ id f past, .field id f :: past <:+
          (((Request.method sig).emission c e).run.run ((Request.method sig).sink c)).2.journal →
        ∀ key, key.isGenerated → (key, f) ∉ bindingsAfter past := by
  intro h
  have hok : ((Request.method { result := .int }).lower ⟨.empty, {}⟩
      (getNameMinus "_name")).isOk := by
    decide +kernel
  obtain ⟨out, hlower⟩ := exists_of_isOk hok
  exact h _ _ _ out hlower 1 "_name" _ (field_getNameRun "_name" (by simp)) (.value 0) rfl
    visible_getNameRun

end Lowering
