import Lowering.Proofs.Sink.Calls
import Lowering.Proofs.Sink.FreshName
import Lowering.Proofs.Sink.Journal

/-!
# Declared names

A name is reserved from the call that declares it until the scope of that call closes, whether or
not its key is bound again. Main statement: after any calls a made up name is the first candidate
that no open scope has declared, and a scope that closes leaves names, objects and reserved names as
they were when it was opened.
-/

namespace Lowering

/-! ## The depth of a binding -/

private def BoundAt (scopes : List Scope) (d : Nat) (b : NameKey × String) : Prop :=
  ∃ scope outer, scope :: outer <:+ scopes ∧ outer.length + 1 = d ∧ b ∈ scope.names

section

variable {scope : Scope} {outer scopes : List Scope} {d : Nat} {b : NameKey × String}

private theorem not_boundAt_nil : ¬ BoundAt [] d b := by
  rintro ⟨scope, outer, hsuffix, -⟩
  cases List.suffix_nil.mp hsuffix

private theorem boundAt_cons : BoundAt (scope :: outer) d b ↔
    outer.length + 1 = d ∧ b ∈ scope.names ∨ BoundAt outer d b := by
  constructor
  · rintro ⟨scope', outer', hsuffix, hd, hb⟩
    rcases List.suffix_cons_iff.mp hsuffix with heq | hsuffix
    · obtain ⟨rfl, rfl⟩ := List.cons.inj heq
      exact .inl ⟨hd, hb⟩
    · exact .inr ⟨scope', outer', hsuffix, hd, hb⟩
  · rintro (⟨hd, hb⟩ | ⟨scope', outer', hsuffix, hd, hb⟩)
    · exact ⟨scope, outer, List.suffix_rfl, hd, hb⟩
    · exact ⟨scope', outer', hsuffix.trans (List.suffix_cons _ _), hd, hb⟩

private theorem BoundAt.le_length (h : BoundAt scopes d b) : d ≤ scopes.length := by
  obtain ⟨scope, outer, hsuffix, rfl, -⟩ := h
  exact hsuffix.length_le

private theorem mem_bindings_iff_boundAt (s : Sink) (b : NameKey × String) :
    b ∈ s.bindings ↔ ∃ d, BoundAt s.scopes d b := by
  rw [Sink.bindings]
  induction s.scopes with
  | nil => simpa using fun d => not_boundAt_nil
  | cons scope outer ih =>
    simp only [List.flatMap_cons, List.mem_append, ih, boundAt_cons, exists_or, exists_eq_left']

end

private theorem ScopeChange.boundAt_iff {call : SinkCall} {s t : Sink} {d : Nat}
    {b : NameKey × String} (h : ScopeChange call s t) : BoundAt t.scopes d b ↔
      call.binding? s = some b ∧ s.depth = d ∨ BoundAt s.scopes d b ∧ d ≤ t.depth := by
  have hs : BoundAt s.scopes d b ↔
      s.depth = d ∧ b ∈ s.scope.names ∨ BoundAt s.enclosing d b := boundAt_cons
  have ht : BoundAt t.scopes d b ↔
      t.depth = d ∧ b ∈ t.scope.names ∨ BoundAt t.enclosing d b := boundAt_cons
  cases h with
  | kept henclosing hnames =>
    have hdepth : t.depth = s.depth := congrArg (List.length · + 1) henclosing
    have hle : BoundAt s.scopes d b → d ≤ s.depth := BoundAt.le_length
    rw [ht, hdepth, hnames, henclosing, and_iff_left_of_imp hle, hs, List.mem_append,
      Option.mem_toList]
    tauto
  | opened hbinding hnames henclosing =>
    have hdepth : t.depth = s.depth + 1 := congrArg (List.length · + 1) henclosing
    have hle : BoundAt s.scopes d b → d ≤ s.depth + 1 :=
      fun h => Nat.le_succ_of_le h.le_length
    rw [ht, hdepth, hnames, henclosing, hbinding, and_iff_left_of_imp hle]
    simp
  | closed hbinding hscopes =>
    have hdepth : t.depth = s.enclosing.length := congrArg List.length hscopes
    rw [hscopes, hdepth, hbinding, hs]
    constructor
    · exact fun h => .inr ⟨.inr h, h.le_length⟩
    · rintro (⟨h, -⟩ | ⟨⟨hd, -⟩ | h, hle⟩)
      · cases h
      · exact absurd (hd ▸ hle) (Nat.not_succ_le_self _)
      · exact h

/-! ## Declarations whose scope is open -/

/-- One of the calls has declared the name, and the scope in which it did is still open. -/
def Declared (unit : String) (calls : List SinkCall) (name : String) : Prop :=
  ∃ before call, before ++ [call] <+: calls ∧ StaysOpen unit before calls ∧
    call.declared? (Sink.reached unit before) = some name

variable {unit : String} {calls before inside : List SinkCall} {name : String}

private theorem boundAt_reached_iff {d : Nat} {b : NameKey × String} :
    BoundAt (Sink.reached unit calls).scopes d b ↔
      ∃ before call, before ++ [call] <+: calls ∧ StaysOpen unit before calls ∧
        call.binding? (Sink.reached unit before) = some b ∧
        (Sink.reached unit before).depth = d := by
  induction calls using List.reverseRecOn with
  | nil =>
    refine iff_of_false ?_ ?_
    · simpa [Sink.reached, Sink.scopes, boundAt_cons] using not_boundAt_nil
    · rintro ⟨before, call, hprefix, -⟩
      simp at hprefix
  | append_singleton calls last ih =>
    have hchange := last.change (Sink.reached unit calls)
    rw [Sink.reached_append]
    constructor
    · intro hbound
      have hle : d ≤ (last.after (Sink.reached unit calls)).depth := hbound.le_length
      rcases hchange.boundAt_iff.mp hbound with ⟨hb, rfl⟩ | ⟨hold, -⟩
      · have hopen := (StaysOpen.append_iff List.prefix_rfl).mpr ⟨.self unit calls, hle⟩
        exact ⟨calls, last, List.prefix_rfl, hopen, hb, rfl⟩
      · obtain ⟨before, call, hprefix, hopen, hb, rfl⟩ := ih.mp hold
        have hbefore := (List.prefix_append before [call]).trans hprefix
        exact ⟨before, call, hprefix.trans (List.prefix_append _ _),
          (StaysOpen.append_iff hbefore).mpr ⟨hopen, hle⟩, hb, rfl⟩
    · rintro ⟨before, call, hprefix, hopen, hb, rfl⟩
      rw [hchange.boundAt_iff]
      rcases List.prefix_concat_iff.mp hprefix with heq | hprefix
      · obtain ⟨rfl, rfl⟩ := List.append_singleton_inj.mp heq
        exact .inl ⟨hb, rfl⟩
      · have hbefore := (List.prefix_append before [call]).trans hprefix
        obtain ⟨hopen, hle⟩ := (StaysOpen.append_iff hbefore).mp hopen
        exact .inr ⟨ih.mpr ⟨before, call, hprefix, hopen, hb, rfl⟩, hle⟩

/-- The bindings are those that calls have made in scopes that are open. -/
theorem mem_bindings_reached_iff {b : NameKey × String} :
    b ∈ (Sink.reached unit calls).bindings ↔
      ∃ before call, before ++ [call] <+: calls ∧ StaysOpen unit before calls ∧
        call.binding? (Sink.reached unit before) = some b := by
  rw [mem_bindings_iff_boundAt]
  constructor
  · rintro ⟨d, hd⟩
    obtain ⟨before, call, hprefix, hopen, hb, -⟩ := boundAt_reached_iff.mp hd
    exact ⟨before, call, hprefix, hopen, hb⟩
  · rintro ⟨before, call, hprefix, hopen, hb⟩
    exact ⟨_, boundAt_reached_iff.mpr ⟨before, call, hprefix, hopen, hb, rfl⟩⟩

/-- The reserved names are those that open scopes have declared. -/
theorem mem_reserved_reached_iff :
    name ∈ (Sink.reached unit calls).reserved ↔ Declared unit calls name := by
  rw [Sink.reserved_eq, List.mem_map]
  constructor
  · rintro ⟨⟨key, name⟩, hb, rfl⟩
    obtain ⟨before, call, hprefix, hopen, hb⟩ := mem_bindings_reached_iff.mp hb
    exact ⟨before, call, hprefix, hopen, SinkCall.exists_binding?_name.mp ⟨key, hb⟩⟩
  · rintro ⟨before, call, hprefix, hopen, hname⟩
    obtain ⟨key, hb⟩ := SinkCall.exists_binding?_name.mpr hname
    exact ⟨(key, name), mem_bindings_reached_iff.mpr ⟨before, call, hprefix, hopen, hb⟩, rfl⟩

theorem Sink.mem_reserved_of_name? {s : Sink} {key : NameKey} (h : s.name? key = some name) :
    name ∈ s.reserved := by
  rw [Sink.name?_eq] at h
  obtain ⟨newer, older, hbindings, -⟩ := List.lookup_eq_some_iff.mp h
  rw [Sink.reserved_eq, hbindings]
  exact List.mem_map_of_mem (List.mem_append_right _ List.mem_cons_self)

/-- When the scope that was opened last before `inside` closes again, the scopes are as before. -/
theorem scopes_closeScope_reached
    (hopen : StaysOpen unit (calls ++ [.openScope]) (calls ++ .openScope :: inside))
    (hdepth : (Sink.reached unit (calls ++ .openScope :: inside)).depth =
      (Sink.reached unit calls).depth + 1) :
    (Sink.reached unit (calls ++ .openScope :: inside)).closeScope.scopes =
      (Sink.reached unit calls).scopes := by
  have hprefix : calls ++ [.openScope] <+: calls ++ .openScope :: inside :=
    (List.prefix_append_right_inj calls).mpr (List.prefix_append [.openScope] inside)
  have hsuffix := hopen.enclosing_suffix hprefix
  rw [Sink.reached_append] at hsuffix
  have henclosing : (Sink.reached unit calls).scopes =
      (Sink.reached unit (calls ++ .openScope :: inside)).enclosing :=
    hsuffix.eq_of_length (Nat.succ.inj hdepth.symm)
  rw [Sink.scopes_closeScope_of_ne_nil (henclosing ▸ List.cons_ne_nil _ _), henclosing]

/-- After any calls a scope is open, and reserved is what open scopes have declared. A made up name
is the first candidate that is not; so no key has it, and no open scope was given it before. Calls
between the opening of a scope and its closing change neither what is found nor what is reserved
after it. -/
theorem calls_keep_names (unit : String) (calls : List SinkCall) :
    let s := Sink.reached unit calls
    1 ≤ s.depth ∧
    (∀ name, name ∈ s.reserved ↔ Declared unit calls name) ∧
    (∀ key proposed, ∃ n, (s.bindFresh key proposed).1 = nameCandidate proposed n ∧
      ¬ Declared unit calls (nameCandidate proposed n) ∧
      (∀ k < n, Declared unit calls (nameCandidate proposed k)) ∧
      (s.bindFresh key proposed).2.name? key = some (nameCandidate proposed n) ∧
      (∀ other, s.name? other ≠ some (nameCandidate proposed n)) ∧
      ∀ before earlier proposed', before ++ [.declareFresh earlier proposed'] <+: calls →
        StaysOpen unit before calls →
        ((Sink.reached unit before).bindFresh earlier proposed').1 ≠ nameCandidate proposed n) ∧
    ∀ inside, StaysOpen unit (calls ++ [.openScope]) (calls ++ .openScope :: inside) →
      (Sink.reached unit (calls ++ .openScope :: inside)).depth = s.depth + 1 →
      let t := Sink.reached unit (calls ++ .openScope :: inside ++ [.closeScope])
      (∀ key, t.name? key = s.name? key) ∧ (∀ key, t.object? key = s.object? key) ∧
        t.reserved = s.reserved := by
  intro s
  refine ⟨Nat.succ_pos _, fun name => mem_reserved_reached_iff, fun key proposed => ?_,
    fun inside hopen hdepth => ?_⟩
  · obtain ⟨n, hname, hfree, hbefore⟩ := exists_freshName_eq s.reserved proposed
    have hnot : ¬ Declared unit calls (nameCandidate proposed n) :=
      fun h => hfree (mem_reserved_reached_iff.mpr h)
    refine ⟨n, hname, hnot, fun k hk => mem_reserved_reached_iff.mp (hbefore k hk), ?_, ?_, ?_⟩
    · rw [← hname]
      exact s.name?_bind_self key _
    · exact fun other hother => hfree (Sink.mem_reserved_of_name? hother)
    · intro before earlier proposed' hprefix hopen heq
      exact hnot ⟨before, _, hprefix, hopen, congrArg some heq⟩
  · intro t
    have hscopes : t.scopes = s.scopes := by
      simp only [t, Sink.reached_append]
      exact scopes_closeScope_reached hopen hdepth
    refine ⟨fun key => ?_, fun key => ?_, ?_⟩
    · rw [Sink.name?, Sink.name?, hscopes]
    · rw [Sink.object?, Sink.object?, hscopes]
    · rw [Sink.reserved, Sink.reserved, hscopes]

/-- A name that is bound again in an inner scope is found again when that scope closes. -/
theorem calls_keep_names_shadowed :
    let key : NameKey := .parameter "a"
    let calls : List SinkCall := [.declare key "a"]
    let inside : List SinkCall := [.declareFresh key "a"]
    StaysOpen "  " (calls ++ [.openScope]) (calls ++ .openScope :: inside) ∧
      (Sink.reached "  " (calls ++ .openScope :: inside)).depth =
        (Sink.reached "  " calls).depth + 1 ∧
      (Sink.reached "  " (calls ++ .openScope :: inside)).name? key = some "a_1" ∧
      (Sink.reached "  " (calls ++ .openScope :: inside ++ [.closeScope])).name? key =
        some "a" := by
  intro key calls inside
  have hopen : StaysOpen "  " (calls ++ [.openScope]) (calls ++ .openScope :: inside) :=
    (StaysOpen.append_iff List.prefix_rfl).mpr ⟨.self _ _, Nat.le_refl _⟩
  have hdepth : (Sink.reached "  " (calls ++ .openScope :: inside)).depth =
      (Sink.reached "  " calls).depth + 1 := rfl
  obtain ⟨hnames, -, -⟩ := (calls_keep_names "  " calls).2.2.2 inside hopen hdepth
  exact ⟨hopen, hdepth, by decide +kernel, (hnames key).trans (by decide +kernel)⟩

end Lowering
