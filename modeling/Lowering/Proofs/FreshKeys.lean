import Lowering.Proofs.Emission.Lasting
import Lowering.Proofs.Running
import Lowering.Proofs.Sink.Declared
import Lowering.Proofs.Sink.Growth

/-!
# Fresh keys

A sink makes keys with ascending numbers, and the clause of a `try` binds its name to a key made for
it. The number says nothing about what others bind, who may choose such keys themselves. Main
statement: no key is made twice, and after any calls the next key is bound exactly if a call has
declared it in a scope that is still open, so before it is made; only then does a clause hide a
binding, and so it is in every lowering.
-/

namespace Lowering

/-! ## Keys after any calls -/

namespace SinkCall

/-- The call makes a key. -/
def makesKey : SinkCall → Bool
  | freshKey => true
  | _ => false

theorem nextSynthetic_after (call : SinkCall) (s : Sink) :
    (call.after s).nextSynthetic = s.nextSynthetic + if call.makesKey then 1 else 0 := by
  cases call with
  | closeScope =>
    cases henclosing : s.enclosing <;>
      simp [after, Sink.closeScope, henclosing, Sink.write, makesKey]
  | _ => rfl

theorem faithful_after {s : Sink} (h : s.Faithful) (call : SinkCall) : (call.after s).Faithful := by
  cases call with
  | append | newLine => exact h.write rfl
  | openScope => exact h.openScope
  | closeScope => exact h.closeScope
  | declare | declareFresh => exact h.bind _ _
  | _ => exact h

end SinkCall

/-- One of the calls has made the key. -/
def KeyMade (unit : String) (calls : List SinkCall) (key : NameKey) : Prop :=
  ∃ before, before ++ [.freshKey] <+: calls ∧ (Sink.reached unit before).freshKey.1 = key

/-- One of the calls has declared a name for the key, and the scope in which it did is still
open. -/
def KeyDeclared (unit : String) (calls : List SinkCall) (key : NameKey) : Prop :=
  ∃ before call, before ++ [call] <+: calls ∧ StaysOpen unit before calls ∧ call.key? = some key

section

variable {unit : String} {calls : List SinkCall} {key : NameKey} {number : Nat}

theorem faithful_reached (unit : String) (calls : List SinkCall) :
    (Sink.reached unit calls).Faithful := by
  induction calls using List.reverseRecOn with
  | nil => rfl
  | append_singleton calls call ih =>
    rw [Sink.reached_append]
    exact call.faithful_after ih

theorem nextSynthetic_reached (unit : String) (calls : List SinkCall) :
    (Sink.reached unit calls).nextSynthetic = calls.countP SinkCall.makesKey := by
  induction calls using List.reverseRecOn with
  | nil => rfl
  | append_singleton calls call ih =>
    rw [Sink.reached_append, call.nextSynthetic_after, ih, List.countP_append,
      List.countP_singleton]

/-- Keys are made in the order of their numbers. -/
theorem KeyMade.lt (h : KeyMade unit calls (.synthetic number)) :
    number < (Sink.reached unit calls).nextSynthetic := by
  obtain ⟨before, hprefix, hkey⟩ := h
  have hnumber : before.countP SinkCall.makesKey = number := by
    rw [← nextSynthetic_reached unit]
    exact NameKey.synthetic.inj hkey
  have hle := hprefix.sublist.countP_le (p := SinkCall.makesKey)
  rw [List.countP_append, hnumber] at hle
  rw [nextSynthetic_reached]
  exact hle

theorem name?_reached_ne_none_iff :
    (Sink.reached unit calls).name? key ≠ none ↔ KeyDeclared unit calls key := by
  rw [Sink.name?_eq, ← Option.isSome_iff_ne_none, List.lookup_isSome_iff]
  constructor
  · rintro ⟨⟨bound, name⟩, hb, hkey⟩
    obtain rfl : key = bound := beq_iff_eq.mp hkey
    obtain ⟨before, call, hprefix, hopen, hb⟩ := mem_bindings_reached_iff.mp hb
    exact ⟨before, call, hprefix, hopen, SinkCall.exists_binding?_key.mp ⟨name, hb⟩⟩
  · rintro ⟨before, call, hprefix, hopen, hkey⟩
    obtain ⟨name, hb⟩ := SinkCall.exists_binding?_key.mpr hkey
    exact ⟨(key, name), mem_bindings_reached_iff.mpr ⟨before, call, hprefix, hopen, hb⟩,
      beq_self_eq_true key⟩

end

/-! ## Clauses -/

/-- Whatever has a name in `s` has that name in `t`. -/
def Sink.Keeps (s t : Sink) : Prop :=
  ∀ key name, s.name? key = some name → t.name? key = some name

/-- Binding a name that is free hides a binding only if the key was bound. -/
theorem Sink.keeps_bind_iff {s t : Sink} {key : NameKey} {name : String}
    (hfree : name ∉ s.reserved) (hscopes : t.scopes = (s.bind key name).scopes) :
    s.Keeps t ↔ s.name? key = none := by
  have hname (other : NameKey) : t.name? other = (s.bind key name).name? other := by
    rw [name?, hscopes, name?]
  constructor
  · intro h
    by_contra hbound
    obtain ⟨old, hold⟩ := Option.ne_none_iff_exists'.mp hbound
    have hnew := h key old hold
    rw [hname, s.name?_bind_self] at hnew
    exact hfree (Option.some.inj hnew ▸ mem_reserved_of_name? hold)
  · intro hunbound other old hold
    have hne : other ≠ key := by
      rintro rfl
      rw [hunbound] at hold
      cases hold
    rw [hname, s.name?_bind_of_ne hne, hold]

/-- A clause binds the next key to a free name, and writes text. -/
theorem Emit.scopes_rethrow (env : Env) (s : Sink) :
    ((rethrow env).run.run s).2.scopes =
      (s.bind s.freshKey.1 (freshName s.reserved env.settings.catchVariable)).scopes := by
  have hclause : Outcome (rethrow env) s (fun _ t => t.scopes = (s.freshKey.2.bind s.freshKey.1
      (freshName s.freshKey.2.reserved env.settings.catchVariable)).scopes) fun _ => False := by
    unfold rethrow
    cases env.hierarchy.declaredType? env.settings.rethrowHelper <;> simp
  obtain ⟨_, t, hrun, hscopes⟩ := hclause.exists_run_ok
  rw [hrun]
  exact hscopes

/-! ## Keys in a lowering -/

namespace Sink

/-- From `s` to `t`, synthetic keys were bound only once they were made, and what such a key was
bound to before is what it was bound to in `s`. -/
structure Numbers (s t : Sink) : Prop extends s.Continues t where
  faithful : t.Faithful
  next : s.nextSynthetic ≤ t.nextSynthetic
  unmade : ∀ number, t.nextSynthetic ≤ number →
    t.name? (.synthetic number) = s.name? (.synthetic number)
  binds : ∀ number name past, s.journal <:+ past →
    .bind (.synthetic number) name :: past <:+ t.journal →
    s.nextSynthetic ≤ number ∧
      (bindingsAfter past).lookup (.synthetic number) = s.name? (.synthetic number)

namespace Numbers

variable {s t u : Sink}

theorem refl (h : s.Faithful) : s.Numbers s where
  toContinues := .refl s
  faithful := h
  next := Nat.le_refl _
  unmade _ _ := rfl
  binds _ _ _ hstart hpast := absurd hpast (not_cons_suffix hstart)

theorem trans (h : s.Numbers t) (h' : t.Numbers u) : s.Numbers u where
  toContinues := h.toContinues.trans h'.toContinues
  faithful := h'.faithful
  next := Nat.le_trans h.next h'.next
  unmade number hnumber :=
    (h'.unmade number hnumber).trans (h.unmade number (Nat.le_trans h'.next hnumber))
  binds number name past hstart hpast := by
    rcases suffix_or_suffix_of_cons h'.journal hpast with hle | hle
    · exact h.binds number name past hstart hle
    · obtain ⟨hnumber, hlookup⟩ := h'.binds number name past hle hpast
      exact ⟨Nat.le_trans h.next hnumber, hlookup.trans (h.unmade number hnumber)⟩

/-- One more entry, which binds no synthetic key that is not made with it. -/
theorem snoc {e : Entry} (hs : s.Faithful) (hcontinues : s.Continues t) (ht : t.Faithful)
    (hjournal : t.journal = e :: s.journal) (hnext : s.nextSynthetic ≤ t.nextSynthetic)
    (hunmade : ∀ number, t.nextSynthetic ≤ number →
      t.name? (.synthetic number) = s.name? (.synthetic number))
    (he : ∀ number name, e = .bind (.synthetic number) name → s.nextSynthetic ≤ number) :
    s.Numbers t where
  toContinues := hcontinues
  faithful := ht
  next := hnext
  unmade := hunmade
  binds number name past hstart hpast := by
    rw [hjournal] at hpast
    rcases List.suffix_cons_iff.mp hpast with heq | hpast
    · obtain ⟨rfl, rfl⟩ := List.cons.inj heq
      exact ⟨he number name rfl, by rw [name?_eq, hs.bindings_eq]⟩
    · exact absurd hpast (not_cons_suffix hstart)

theorem write (hs : s.Faithful) {e : Entry} (he : e.isScopeless) : s.Numbers (s.write e) := by
  refine snoc hs ⟨(Retains.refl s).snoc rfl rfl, rfl⟩ (hs.write he) rfl (Nat.le_refl _)
    (fun _ _ => rfl) ?_
  rintro number name rfl
  cases he

theorem bind (hs : s.Faithful) {key : NameKey} (hkey : ∀ number, key ≠ .synthetic number)
    (name : String) : s.Numbers (s.bind key name) := by
  refine snoc hs ⟨(Retains.refl s).snoc rfl rfl, rfl⟩ (hs.bind key name) rfl (Nat.le_refl _)
    (fun number _ => s.name?_bind_of_ne (hkey number).symm name) fun number name' he => ?_
  exact absurd (Entry.bind.inj he).1 (hkey number)

theorem bindFreshKey (hs : s.Faithful) (name : String) :
    s.Numbers (s.freshKey.2.bind s.freshKey.1 name) := by
  have hkey : s.freshKey.2.Faithful := hs
  refine snoc hs ⟨(Retains.refl s).snoc rfl rfl, rfl⟩ (hkey.bind _ name) rfl (Nat.le_succ _)
    (fun number hnumber => ?_) fun number name' he => ?_
  · have hne : NameKey.synthetic number ≠ s.freshKey.1 := by
      rintro heq
      exact Nat.ne_of_gt hnumber (NameKey.synthetic.inj heq)
    exact s.freshKey.2.name?_bind_of_ne hne name
  · exact Nat.le_of_eq (NameKey.synthetic.inj (Entry.bind.inj he).1)

theorem closing (h : s.Numbers t) (brace : Brace) :
    s.Numbers (t.dedent.newLine.write (.closing brace)) := by
  have hdedent : s.Numbers t.dedent :=
    ⟨⟨⟨h.journal, h.finished⟩, h.enclosing⟩, h.faithful, h.next, h.unmade, h.binds⟩
  have hline : t.dedent.Numbers t.dedent.newLine := write (s := t.dedent) hdedent.faithful rfl
  exact (hdedent.trans hline).trans (write hline.faithful rfl)

theorem opening (hs : s.Faithful) {brace : Brace}
    (h : (s.write (.opening brace)).Faithful → (s.write (.opening brace)).indent.Numbers t) :
    s.Numbers t := by
  have hopen : s.Numbers (s.write (.opening brace)) := write hs rfl
  have ht := h hopen.faithful
  exact hopen.trans ⟨⟨⟨ht.journal, ht.finished⟩, ht.enclosing⟩, ht.faithful, ht.next, ht.unmade,
    ht.binds⟩

/-- What happens in a scope of its own, once it is closed. -/
theorem closeScope (h : s.openScope.Numbers t) : s.Numbers t.closeScope := by
  have hscopes : t.closeScope.scopes = s.scopes := h.toContinues.scopes_closeScope
  obtain ⟨hjournal, hnext⟩ : t.closeScope.journal = .leaveScope :: t.journal ∧
      t.closeScope.nextSynthetic = t.nextSynthetic := by
    have henclosing : t.enclosing = s.scope :: s.enclosing := h.enclosing
    simp [Sink.closeScope, henclosing, Sink.write]
  refine ⟨h.toContinues.closeScope, h.faithful.closeScope, hnext ▸ h.next, fun number _ => ?_,
    fun number name past hstart hpast => ?_⟩
  · rw [name?, hscopes, name?]
  · rw [hjournal] at hpast
    rcases List.suffix_cons_iff.mp hpast with heq | hpast
    · cases heq
    · rcases suffix_or_suffix_of_cons h.journal hpast with hle | hle
      · rcases List.suffix_cons_iff.mp hle with heq | hle
        · cases heq
        · exact absurd hle (not_cons_suffix hstart)
      · exact h.binds number name past hle hpast

end Numbers

end Sink

/-- Lowering binds no synthetic keys but those that it makes. -/
theorem Emit.law_numbers :
    SinkLaw (fun s t => s.Faithful → s.Numbers t) (fun s t => s.Faithful → s.Numbers t) where
  refl _ := .refl
  trans h h' hs := (h hs).trans (h' (h hs).faithful)
  stop _ := .refl
  thenStop h h' hs := (h hs).trans (h' (h hs).faithful)
  write _ _ _ he hs := .write hs he
  bind _ _ name hkey hs := .bind hs hkey name
  bindFreshKey _ name hs := .bindFreshKey hs name
  setObject _ _ _ hs := ⟨⟨⟨List.suffix_rfl, List.suffix_rfl⟩, rfl⟩, hs, Nat.le_refl _,
    fun _ _ => rfl, (Sink.Numbers.refl hs).binds⟩
  region _ _ h hs := ⟨⟨⟨(h hs).journal, (h hs).finished.trans (List.suffix_cons _ _)⟩,
    (h hs).enclosing⟩, (h hs).faithful, (h hs).next, (h hs).unmade, (h hs).binds⟩
  scope h hs := (h hs.openScope).closeScope
  scopeStop h hs := (h hs.openScope).closeScope
  enclose h hs := (Sink.Numbers.opening hs h).closing _
  encloseStop h hs := .opening hs h

/-! ## Keys that are bound before they are made -/

/-- Every synthetic key that a call declares was made by a call before it. -/
def DeclaresMade (unit : String) (calls : List SinkCall) : Prop :=
  ∀ before call number, before ++ [call] <+: calls → call.key? = some (.synthetic number) →
    KeyMade unit before (.synthetic number)

theorem DeclaresMade.not_declared {unit : String} {calls : List SinkCall}
    (h : DeclaresMade unit calls) :
    ¬ KeyDeclared unit calls (Sink.reached unit calls).freshKey.1 := by
  rintro ⟨before, call, hprefix, -, hkey⟩
  have hlt := (h before call _ hprefix hkey).lt
  have hle := ((List.prefix_append before [call]).trans hprefix).sublist.countP_le
    (p := SinkCall.makesKey)
  rw [← nextSynthetic_reached unit, ← nextSynthetic_reached unit] at hle
  exact Nat.not_lt_of_le hle hlt

/-- After any calls the number of the next key is that of the keys made before, so it is none of
them. It is bound if and only if a call has declared it, by itself, in a scope that is still open;
then a clause for it hides that binding, and otherwise it hides none. If calls declare only keys
that were made for them, it is not bound. A lowering on that sink binds only keys that no call has
made, and those that were bound at that moment are those that a call has declared. -/
theorem calls_number_keys (unit : String) (calls : List SinkCall) :
    let s := Sink.reached unit calls
    let key := s.freshKey.1
    key = .synthetic (calls.countP SinkCall.makesKey) ∧ ¬ KeyMade unit calls key ∧
    (s.name? key ≠ none ↔ KeyDeclared unit calls key) ∧
    (∀ env, s.Keeps ((Emit.rethrow env).run.run s).2 ↔ ¬ KeyDeclared unit calls key) ∧
    (DeclaresMade unit calls → s.name? key = none) ∧
    ∀ c e (r : Request) number name past, s.journal <:+ past →
      .bind (.synthetic number) name :: past <:+ ((r.emission c e).run.run s).2.journal →
      ¬ KeyMade unit calls (.synthetic number) ∧
        ((bindingsAfter past).lookup (.synthetic number) ≠ none ↔
          KeyDeclared unit calls (.synthetic number)) := by
  intro s key
  have hbound : s.name? key ≠ none ↔ KeyDeclared unit calls key := name?_reached_ne_none_iff
  refine ⟨congrArg NameKey.synthetic (nextSynthetic_reached unit calls),
    fun hmade => Nat.lt_irrefl _ hmade.lt, hbound, fun env => ?_, fun hmade => ?_, ?_⟩
  · have hkeeps := Sink.keeps_bind_iff (freshName_not_mem s.reserved env.settings.catchVariable)
      (Emit.scopes_rethrow env s)
    exact hkeeps.trans (not_not.symm.trans (not_congr hbound))
  · exact not_not.mp (mt hbound.mp hmade.not_declared)
  · intro c e r number name past hstart hpast
    have hnumbers : s.Numbers ((r.emission c e).run.run s).2 :=
      (Emit.law_numbers.emission c e r s).run (faithful_reached unit calls)
    obtain ⟨hnumber, hlookup⟩ := hnumbers.binds number name past hstart hpast
    refine ⟨fun hmade => Nat.not_lt_of_le hnumber hmade.lt, ?_⟩
    rw [hlookup]
    exact name?_reached_ne_none_iff

private def keyUsed : List SinkCall :=
  [.freshKey, .declareFresh (.synthetic 0) "_e", .openScope]

private theorem declaresMade_keyUsed : DeclaresMade "  " keyUsed := by
  intro before call number hprefix hkey
  match before with
  | [] =>
    obtain rfl : call = .freshKey := (List.cons_prefix_cons.mp hprefix).1
    cases hkey
  | [_] =>
    have hrest := List.cons_prefix_cons.mp hprefix
    obtain rfl : call = .declareFresh (.synthetic 0) "_e" := (List.cons_prefix_cons.mp hrest.2).1
    obtain rfl := hrest.1
    exact ⟨[], List.prefix_rfl, Option.some.inj hkey⟩
  | [_, _] =>
    have hrest := (List.cons_prefix_cons.mp (List.cons_prefix_cons.mp hprefix).2).2
    obtain rfl : call = .openScope := (List.cons_prefix_cons.mp hrest).1
    cases hkey
  | _ :: _ :: _ :: before =>
    have hlength := hprefix.length_le
    simp only [keyUsed, List.length_append, List.length_cons, List.length_nil] at hlength
    omega

private def readFile : Expr :=
  .call ⟨0, {}⟩
    { name := "read", kind := .method, type := some (.primitive .void),
      throws := [.cls "java.io.IOException" []] } none []

private def readRun : Sink :=
  (((Request.method { result := .void }).emission {} readFile).run.run
    (Sink.reached "  " keyUsed)).2

theorem clause_binds_unbound_key :
    let past := readRun.journal.drop 12
    (Sink.reached "  " keyUsed).freshKey.1 = .synthetic 1 ∧
      (Sink.reached "  " keyUsed).name? (.synthetic 1) = none ∧
      readRun.journal.drop 11 = .bind (.synthetic 1) "_e_1" :: past ∧
      ¬ KeyMade "  " keyUsed (.synthetic 1) ∧
      ((bindingsAfter past).lookup (.synthetic 1) ≠ none ↔
        KeyDeclared "  " keyUsed (.synthetic 1)) := by
  intro past
  obtain ⟨hkey, -, -, -, hunbound, hlowering⟩ := calls_number_keys "  " keyUsed
  obtain ⟨hstart, hbind⟩ : (Sink.reached "  " keyUsed).journal <:+ past ∧
      readRun.journal.drop 11 = .bind (.synthetic 1) "_e_1" :: past := by decide +kernel
  have hpast : .bind (.synthetic 1) "_e_1" :: past <:+ readRun.journal :=
    hbind ▸ List.drop_suffix 11 _
  exact ⟨hkey, hunbound declaresMade_keyUsed, hbind,
    hlowering {} readFile (.method { result := .void }) 1 "_e_1" past hstart hpast⟩

/-- A caller chose the key that the sink makes for a clause. -/
theorem clause_hides_chosen_key :
    let s := Sink.reached "  " [.declare (.synthetic 0) "kept", .openScope]
    let t := ((Emit.rethrow (Compiler.env {} {})).run.run s).2
    s.freshKey.1 = .synthetic 0 ∧ s.name? (.synthetic 0) = some "kept" ∧
      t.name? (.synthetic 0) = some "_e" ∧ ¬ s.Keeps t := by
  intro s t
  have hold : s.name? (.synthetic 0) = some "kept" := by decide +kernel
  have hnew : t.name? (.synthetic 0) = some "_e" := by decide +kernel
  refine ⟨by decide +kernel, hold, hnew, fun hkeeps => ?_⟩
  have hkept := hkeeps _ _ hold
  rw [hnew] at hkept
  exact absurd hkept (by decide)

end Lowering
