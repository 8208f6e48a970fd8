import Lowering.Proofs.Framing

/-!
# Parameters

A parameter is written as the identifier made from its name, which nothing else has as long as the
identifiers of all parameters differ. Main statement: they do unless one parameter is a reserved
word and another one is that word with an underscore, and then all visible names are different at
every moment.
-/

namespace Lowering

/-! ## Identifiers -/

private theorem isReserved_append {word : String} (h : isReserved word) :
    isReserved (word ++ "_") = false := by
  have hwords : ∀ word ∈ reservedWords, isReserved (word ++ "_") = false := by decide +kernel
  exact hwords word (List.contains_iff_mem.mp h)

theorem isReserved_identifier (name : String) : isReserved (identifier name) = false := by
  unfold identifier
  split
  · rename_i h
    exact isReserved_append h
  · rename_i h
    simpa using h

/-- Only a reserved word and the same word with an underscore share an identifier. -/
theorem identifier_eq_iff {p q : String} (hne : p ≠ q) :
    identifier p = identifier q ↔ isReserved p ∧ q = p ++ "_" ∨ isReserved q ∧ p = q ++ "_" := by
  have hself {word : String} (h : isReserved word) :
      identifier word = word ++ "_" ∧ identifier (word ++ "_") = word ++ "_" := by
    simp [identifier, h, isReserved_append h]
  constructor
  · intro h
    cases hp : isReserved p <;> cases hq : isReserved q <;> simp_all [identifier]
  · rintro (⟨hp, rfl⟩ | ⟨hq, rfl⟩)
    · rw [(hself hp).1, (hself hp).2]
    · rw [(hself hq).1, (hself hq).2]

namespace Signature

variable {sig : Signature}

/-- The names of the parameters. -/
def names (sig : Signature) : List String :=
  sig.params.map (·.1)

/-- No parameter has the name that another one is written with. -/
def KeepsApart (sig : Signature) : Prop :=
  ∀ p ∈ sig.names, isReserved p → p ++ "_" ∉ sig.names

instance (sig : Signature) : Decidable sig.KeepsApart :=
  inferInstanceAs (Decidable (∀ p ∈ sig.names, isReserved p = true → p ++ "_" ∉ sig.names))

theorem keepsApart_iff : sig.KeepsApart ↔
    ∀ p ∈ sig.names, ∀ q ∈ sig.names, identifier p = identifier q → p = q := by
  constructor
  · intro h p hp q hq heq
    by_contra hne
    rcases (identifier_eq_iff hne).mp heq with ⟨hreserved, rfl⟩ | ⟨hreserved, rfl⟩
    · exact h p hp hreserved hq
    · exact h q hq hreserved hp
  · intro h p hp hreserved hmem
    have hne : p ≠ p ++ "_" := fun heq =>
      Bool.false_ne_true ((isReserved_append hreserved).symm.trans (heq ▸ hreserved))
    exact hne (h p hp _ hmem ((identifier_eq_iff hne).mpr (.inl ⟨hreserved, rfl⟩)))

theorem lookup_bindings {p : String} (hp : p ∈ sig.names) :
    sig.bindings.lookup (.parameter p) = some (identifier p) := by
  obtain ⟨param, hparam, rfl⟩ := List.mem_map.mp hp
  have hmem : (NameKey.parameter param.1, identifier param.1) ∈ sig.bindings := by
    simp only [bindings, List.mem_append, List.mem_map, List.mem_reverse]
    exact .inl (.inl ⟨param, hparam, rfl⟩)
  cases hlookup : sig.bindings.lookup (.parameter param.1) with
  | none => exact absurd rfl (bne_iff_ne.mp (List.lookup_eq_none_iff.mp hlookup _ hmem))
  | some name =>
    obtain ⟨before, after, heq, _⟩ := List.lookup_eq_some_iff.mp hlookup
    have hname : (NameKey.parameter param.1, name) ∈ sig.bindings :=
      heq ▸ List.mem_append_right _ List.mem_cons_self
    simp only [bindings, List.mem_append, List.mem_map, Option.mem_toList, Option.map_eq_some_iff,
      Prod.mk.injEq, NameKey.parameter.injEq, reduceCtorEq, false_and, and_false, exists_false,
      or_false] at hname
    obtain ⟨other, _, hother, rfl⟩ := hname
    rw [hother]

theorem map_bindings (sig : Signature) : sig.bindings.map (·.2) =
    sig.names.reverse.map identifier ++ ((sig.superType.map fun _ => "super").toList ++
      (sig.thisType.map fun _ => "this").toList) := by
  obtain ⟨result, params, throws, thisType, superType⟩ := sig
  cases thisType <;> cases superType <;> simp [bindings, names, Function.comp_def]

/-- The identifiers of parameters differ from each other if the parameters are kept apart, and they
always differ from the words for instances. -/
theorem nodup_bindings (hnames : sig.names.Nodup) :
    (sig.bindings.map (·.2)).Nodup ↔ sig.KeepsApart := by
  have hwords : ((sig.superType.map fun _ => "super").toList ++
      (sig.thisType.map fun _ => "this").toList).Nodup := by
    cases sig.superType <;> cases sig.thisType <;> simp
  have hreserved : ∀ word ∈ (sig.superType.map fun _ => "super").toList ++
      (sig.thisType.map fun _ => "this").toList, isReserved word := by
    have hsuper : isReserved "super" := by decide +kernel
    have hthis : isReserved "this" := by decide +kernel
    cases sig.superType <;> cases sig.thisType <;> simp [hsuper, hthis]
  have hapart : ∀ name ∈ sig.names.reverse.map identifier,
      ∀ word ∈ (sig.superType.map fun _ => "super").toList ++
        (sig.thisType.map fun _ => "this").toList, name ≠ word := by
    rintro _ hname word hword rfl
    obtain ⟨param, _, rfl⟩ := List.mem_map.mp hname
    exact Bool.false_ne_true ((isReserved_identifier param).symm.trans (hreserved _ hword))
  rw [map_bindings, List.nodup_append, keepsApart_iff,
    List.nodup_map_iff_inj_on (List.nodup_reverse.mpr hnames)]
  simp only [List.mem_reverse]
  exact ⟨fun h => h.1, fun h => ⟨h, hwords, hapart⟩⟩

end Signature

namespace Request

variable {c : Compiler} {e : Expr} {r : Request} {sig : Signature}

private theorem nodup_moments (hr : r.signature? = some sig) (hnames : sig.names.Nodup)
    (hapart : sig.KeepsApart) :
    ∀ past, past <:+ ((r.emission c e).run.run (r.sink c)).2.journal →
      ((bindingsAfter past).map (·.2)).Nodup := by
  cases hinfer : r.infer c e with
  | error f =>
    rw [run_emission_of_infer_error hinfer, journal_sink]
    intro past hpast
    rw [List.suffix_nil.mp hpast]
    exact List.nodup_nil
  | ok types =>
    obtain ⟨t, u, hstarts, hyields, hcloses, _⟩ := exists_growth hinfer
    have hbindings : (t.bindings.map (·.2)).Nodup := by
      rw [hstarts.bindings sig hr]
      exact (Signature.nodup_bindings hnames).mpr hapart
    refine (hcloses.nodup_moments hyields.faithful ?_).2
    intro past hpast
    rcases List.suffix_or_suffix_of_suffix hpast hyields.grows.suffix with hle | hle
    · exact hbindings.sublist ((hstarts.moments past hle).sublist.map _)
    · refine (hyields.grows.supplies past hle hpast).nodup ?_
      rwa [← hstarts.faithful.bindings_eq]

/-- Reads and assignments of a parameter are written with its identifier. As long as parameters are
kept apart, no two visible names are the same at any moment, whether or not lowering succeeds; and
as soon as the tree is typed, only then. -/
theorem lower_keeps_parameters (hr : r.signature? = some sig) (hnames : sig.names.Nodup)
    {result : Except Failure ResolvedTypes} {sink : Sink}
    (hrun : (r.emission c e).run.run (r.sink c) = (result, sink)) :
    (∀ id p name past, p ∈ sig.names → .use id (.parameter p) name :: past <:+ sink.journal →
      name = identifier p ∧ TextAt sink.text past (identifier p)) ∧
    (sig.KeepsApart → ∀ past, past <:+ sink.journal → ((bindingsAfter past).map (·.2)).Nodup) ∧
    (∀ types, r.infer c e = .ok types →
      (∀ past, past <:+ sink.journal → ((bindingsAfter past).map (·.2)).Nodup) →
      sig.KeepsApart) := by
  obtain rfl : ((r.emission c e).run.run (r.sink c)).2 = sink := congrArg Prod.snd hrun
  refine ⟨fun id p name past hp hwritten => ?_, nodup_moments hr hnames,
    fun types hinfer hnodup => ?_⟩
  · have htext : TextAt ((r.emission c e).run.run (r.sink c)).2.text past name :=
      Sink.textAt hwritten
    suffices hname : name = identifier p from ⟨hname, hname ▸ htext⟩
    cases hinfer : r.infer c e with
    | error f =>
      rw [run_emission_of_infer_error hinfer, journal_sink] at hwritten
      cases List.suffix_nil.mp hwritten
    | ok types =>
      obtain ⟨t, u, hstarts, hyields, hcloses, _⟩ := exists_growth hinfer
      obtain ⟨hstart, huse⟩ :=
        between_of_not_quiet hstarts.toPrepared hyields.grows.suffix hcloses rfl hwritten
      have hlookup : (bindingsAfter past).lookup (.parameter p) = some (identifier p) := by
        have hpast : past <:+ u.journal := (List.suffix_cons _ _).trans huse
        rw [(hyields.grows.supplies past hstart hpast).lookup_eq rfl,
          ← hstarts.faithful.bindings_eq, hstarts.bindings sig hr, Signature.lookup_bindings hp]
      rcases hyields.grows.uses id (.parameter p) name past hstart huse with hname | ⟨hnone, _⟩
      · exact Option.some.inj (hname.symm.trans hlookup)
      · simp [hlookup] at hnone
  · obtain ⟨t, u, hstarts, hyields, hcloses, _⟩ := exists_growth hinfer
    obtain ⟨tail, htail, _⟩ := hcloses.exists_journal
    have hstart : t.journal <:+ ((r.emission c e).run.run (r.sink c)).2.journal :=
      hyields.grows.suffix.trans ⟨tail, htail.symm⟩
    have hbindings := hnodup t.journal hstart
    rw [← hstarts.faithful.bindings_eq, hstarts.bindings sig hr] at hbindings
    exact (Signature.nodup_bindings hnames).mp hbindings

end Request

private def difference (left right : String) : Expr :=
  .call ⟨2, {}⟩ (.ofOperator "operator_minus" "-" (.primitive .int))
    (some (.call ⟨0, {}⟩ (.ofParameter left (.primitive .int)) none []))
    [.call ⟨1, {}⟩ (.ofParameter right (.primitive .int)) none []]

private def ofTwo (left right : String) : Signature :=
  { result := .int, params := [(left, .int), (right, .int)] }

/-- A parameter that is a reserved word, next to one that is not. -/
theorem Request.lower_keeps_reserved_parameter :
    let r : Request := .method (ofTwo "class" "x")
    let sink := ((r.emission ⟨.empty, {}⟩ (difference "class" "x")).run.run
      (r.sink ⟨.empty, {}⟩)).2
    (ofTwo "class" "x").names.Nodup ∧ (ofTwo "class" "x").KeepsApart ∧
      ∃ past name, .use 0 (.parameter "class") name :: past <:+ sink.journal ∧
        name = identifier "class" ∧ TextAt sink.text past (identifier "class") ∧
        ((bindingsAfter past).map (·.2)).Nodup := by
  intro r sink
  have hnames : (ofTwo "class" "x").names.Nodup := by decide
  have hapart : (ofTwo "class" "x").KeepsApart := by decide +kernel
  have hused : sink.journal.contains (.use 0 (.parameter "class") "class_") := by
    decide +kernel
  obtain ⟨past, huse⟩ := exists_suffix_of_mem (List.contains_iff_mem.mp hused)
  have hrun : (r.emission ⟨.empty, {}⟩ (difference "class" "x")).run.run (r.sink ⟨.empty, {}⟩) =
      (_, sink) := (Prod.eta _).symm
  obtain ⟨hwritten, hdistinct, -⟩ := Request.lower_keeps_parameters rfl hnames hrun
  obtain ⟨hname, htext⟩ := hwritten 0 "class" _ past (by decide) huse
  exact ⟨hnames, hapart, past, "class_", huse, hname, htext,
    hdistinct hapart past ((List.suffix_cons _ _).trans huse)⟩

/-- A reserved word and the same word with an underscore are bound to the same identifier. -/
theorem Request.lower_merges_parameters :
    ¬ ∀ (c : Compiler) (e : Expr) (sig : Signature), sig.names.Nodup →
      ∀ past, past <:+ (((Request.method sig).emission c e).run.run
          ((Request.method sig).sink c)).2.journal →
        ∀ p q name, (.parameter p, name) ∈ bindingsAfter past →
          (.parameter q, name) ∈ bindingsAfter past → p = q := by
  intro h
  have hnames : (ofTwo "class" "class_").names.Nodup := by decide
  have hbound : ∀ p ∈ ["class", "class_"], (.parameter p, "class_") ∈
      bindingsAfter ((((Request.method (ofTwo "class" "class_")).emission ⟨.empty, {}⟩
        (difference "class" "class_")).run.run
          ((Request.method (ofTwo "class" "class_")).sink ⟨.empty, {}⟩)).2.journal.drop 1) := by
    decide +kernel
  have hsame : "class" = "class_" := h _ _ _ hnames _ (List.drop_suffix 1 _) "class" "class_"
    "class_" (hbound _ (by simp)) (hbound _ (by simp))
  exact absurd hsame (by decide)

end Lowering
