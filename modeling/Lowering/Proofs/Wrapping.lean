import Lowering.Proofs.Emission.Entries
import Lowering.Proofs.Framing
import Lowering.Proofs.Indentation
import Lowering.Proofs.Thrown

/-!
# Bodies in a `try`

The body of a function stands in a `try` where the host would not let the function throw what its
tree throws. Main statement: a function has one `try`, with everything that is written for its tree
in it, if and only if a node of the tree throws what must not escape, and otherwise none; so a tree
needs it as soon as a part does, and a function that declares more needs it less often.
-/

namespace Lowering

namespace Emit

variable {env : Env} {s t u : Sink}

/-! ## The clause -/

/-- The end of a `try`, and the clause that throws an exception again. -/
def clauseText (name handler : String) : String :=
  "\n\x7d catch (Exception " ++ name ++ ") \x7b" ++ handler ++ "\n\x7d"

private def unindented (unit : String) : Entry :=
  .text ("\n" ++ String.join (List.replicate 0 unit))

private theorem clauseText_eq (name handler : String) :
    clauseText name handler = "\n" ++ "\x7d" ++ " catch (" ++ "Exception" ++ " " ++ name ++
      (") " ++ "\x7b") ++ handler ++ ("\n" ++ "\x7d") := by
  have hopen : "\n\x7d catch (Exception " =
      "\n" ++ "\x7d" ++ " catch (" ++ "Exception" ++ " " := rfl
  have hbrace : ") \x7b" = ") " ++ "\x7b" := rfl
  have hclose : "\n\x7d" = "\n" ++ "\x7d" := rfl
  unfold clauseText
  rw [hopen, hbrace, hclose]

private def clauseEntries (unit name : String) (key : NameKey) (handled : List Entry) :
    List Entry :=
  [.closing .handler, unindented unit] ++ handled ++
    [.opening .handler, .text ") ", .declaration key "Exception" name, .text " catch (",
      .closing .guarded, unindented unit, .bind key name]

private theorem writtenBy_clauseEntries (unit name : String) (key : NameKey)
    (handled : List Entry) :
    writtenBy (clauseEntries unit name key handled) = clauseText name (writtenBy handled) := by
  -- the literals stay apart: joined ones would be compared letter by letter
  have htext := clauseText_eq name (writtenBy handled)
  simp only [String.append_assoc, -String.reduceAppend] at htext
  simp only [clauseEntries, writtenBy_append, writtenBy_cons, writtenBy_nil, Entry.written,
    unindented, List.replicate_zero, String.join_nil, String.append_empty, String.empty_append,
    String.append_assoc, -String.reduceAppend]
  exact htext.symm

private theorem not_mem_clauseEntries (unit name : String) (key : NameKey) {handled : List Entry}
    (hnone : .opening .guarded ∉ handled) :
    .opening .guarded ∉ clauseEntries unit name key handled := by
  simp [clauseEntries, unindented, hnone]

/-- After the contents of a `try` that is not indented itself comes its clause. -/
theorem exists_run_rethrow (env : Env) (hlevel : s.level = 1) :
    ∃ name handler added t, (rethrow env).run.run s = (.ok (), t) ∧
      t.journal = added ++ s.journal ∧ writtenBy added = clauseText name handler ∧
      .opening .guarded ∉ added := by
  obtain ⟨unit, level, scope, enclosing, journal, finished, next⟩ := s
  obtain rfl : level = 1 := hlevel
  let start : Sink := ⟨unit, 1, scope, enclosing, journal, finished, next⟩
  have hkey : (modifyGet (·.freshKey) : Emit NameKey).run.run start =
      (.ok (.synthetic next), start.freshKey.2) := rfl
  obtain ⟨name, hname⟩ : ∃ name,
      (bindFresh (.synthetic next) env.settings.catchVariable).run.run start.freshKey.2 =
        (.ok name, start.freshKey.2.bind (.synthetic next) name) := ⟨_, rfl⟩
  have hclause : ∃ handled t, (rethrow env).run.run start = (.ok (), t) ∧
      t.journal = clauseEntries unit name (.synthetic next) handled ++ journal ∧
      .opening .guarded ∉ handled := by
    cases hhelper : env.hierarchy.declaredType? env.settings.rethrowHelper with
    | some helper =>
      simp only [rethrow, hhelper, run_bind, hkey, hname, run_write, run_append, run_newLine,
        run_openBrace, run_closeBrace]
      exact ⟨[_, _], _, rfl, rfl, by simp⟩
    | none =>
      simp only [rethrow, hhelper, run_bind, hkey, hname, run_write, run_append, run_openBrace,
        run_closeBrace]
      exact ⟨[_], _, rfl, rfl, by simp⟩
  obtain ⟨handled, t, hrun, hjournal, hnone⟩ := hclause
  exact ⟨name, _, _, t, hrun, hjournal, writtenBy_clauseEntries unit name _ handled,
    not_mem_clauseEntries unit name _ hnone⟩

private theorem writtenBy_openTry (unit : String) :
    writtenBy [.opening .guarded, .text "try ", unindented unit] = "\ntry \x7b" := by
  simp [writtenBy_cons, unindented, Entry.written]

/-- What is guarded stands between the opening of a `try` and its clause. -/
theorem exists_run_of_guarding_ok {act : Emit Unit}
    (hact : ∀ t u, act.run.run t = (.ok (), u) → u.level = t.level) (hlevel : s.level = 0)
    (h : (guarding env true act).run.run s = (.ok (), u)) :
    ∃ t v before after name handler, act.run.run t = (.ok (), v) ∧
      t.journal = .opening .guarded :: before ++ s.journal ∧ u.journal = after ++ v.journal ∧
      writtenBy (.opening .guarded :: before) = "\ntry \x7b" ∧
      writtenBy after = clauseText name handler ∧
      .opening .guarded ∉ before ∧ .opening .guarded ∉ after := by
  have h : (openTry >>= fun _ => act >>= fun _ => rethrow env).run.run s = (.ok (), u) := h
  obtain ⟨_, t, hopen, hinner⟩ := exists_run_of_bind_ok h
  obtain ⟨_, v, hrun, hrethrow⟩ := exists_run_of_bind_ok hinner
  cases hopen
  have hinside : v.level = 1 := (hact _ _ hrun).trans (congrArg (· + 1) hlevel)
  obtain ⟨name, handler, after, t, hclause, hjournal, htext, hnone⟩ :=
    exists_run_rethrow env hinside
  obtain rfl : u = t := congrArg Prod.snd (hrethrow.symm.trans hclause)
  refine ⟨_, v, [.text "try ", unindented s.unit], after, name, handler, hrun, ?_, hjournal,
    writtenBy_openTry s.unit, htext, by simp [unindented], hnone⟩
  simp [Sink.indent, Sink.write, Sink.newLine, Sink.append, unindented, hlevel]

end Emit

theorem Compiler.needsRethrow_iff (c : Compiler) {types : ResolvedTypes} {e : Expr}
    {declared : List HostType} :
    (c.env types).needsRethrow e declared ↔ c.hierarchy.LetsEscape types declared e :=
  Env.needsRethrow_iff

namespace Request

variable {c : Compiler} {e : Expr} {r : Request} {sig : Signature} {out : Lowered}

/-- The core of the tree runs between the texts `before` and `after`, which with what it writes are
the whole output, and the output has this many `try`. -/
def Encloses (c : Compiler) (e : Expr) (r : Request) (out : Lowered) (before after : String)
    (tries : Nat) : Prop :=
  ∃ core t u s body, r.Core (c.env out.types) e core ∧ core.run.run t = (.ok (), u) ∧
    (r.emission c e).run.run (r.sink c) = (.ok out.types, s) ∧
    t.journal <:+ u.journal ∧ u.journal <:+ s.journal ∧
    t.text = before ∧ u.text = before ++ body ∧ s.text = before ++ body ++ after ∧
    out.source = s.text ∧ s.journal.count (.opening .guarded) = tries

/-- All that is written for the tree stands in the one `try` of the output. -/
def Wraps (c : Compiler) (e : Expr) (r : Request) (out : Lowered) : Prop :=
  ∃ name handler, r.Encloses c e out "\ntry \x7b" (Emit.clauseText name handler) 1

/-- A core opens no `try`, and takes back its indentation. -/
theorem Core.keeps {env : Env} {core : Emit Unit} (hcore : r.Core env e core) {t u : Sink}
    (hrun : core.run.run t = (.ok (), u)) :
    u.level = t.level ∧ ∃ added, u.journal = added ++ t.journal ∧ .opening .guarded ∉ added := by
  have hlogs : Emit.Law (fun _ _ => True) (Sink.Logs (· ≠ .opening .guarded))
      (Sink.Logs (· ≠ .opening .guarded)) := by
    refine Emit.law_logs (fun entry hcommon heq => ?_) nofun nofun
    rw [heq] at hcommon
    cases hcommon
  have hlevel := (hcore.obeys Emit.law_leavesOpen.toLaw (fun _ _ => trivial) t).of_run_ok hrun
  obtain ⟨added, hadded, hnone⟩ :=
    (hcore.obeys hlogs (fun _ _ => trivial) t).of_run_ok hrun
  exact ⟨hlevel.level, added, hadded, fun hmem => hnone _ hmem rfl⟩

private theorem exists_contents_eq (hr : r.signature? = some sig) (env : Env) (e : Expr) :
    ∃ core rest, r.Core env e core ∧
      r.contents env e = (do Emit.declareSignature sig; rest) ∧
      (rest = Emit.guarding env (env.needsRethrow e sig.throws) core ∨
        rest = Emit.traced e.id true (Emit.guarding env (env.needsRethrow e sig.throws) core)) := by
  cases r with
  | method sig' =>
    obtain rfl : sig' = sig := Option.some.inj hr
    exact ⟨_, _, .method sig', rfl, .inr rfl⟩
  | lambda sig' =>
    obtain rfl : sig' = sig := Option.some.inj hr
    cases hexprs : e.exprs? with
    | none =>
      refine ⟨_, _, .lambda sig' hexprs, ?_, .inr rfl⟩
      rw [contents, hexprs]
      rfl
    | some exprs =>
      refine ⟨_, _, .block sig' hexprs, ?_, .inl rfl⟩
      rw [contents, hexprs, blockContents_eq hexprs]
      rfl
  | expression => cases hr

private theorem writtenBy_bindings (bindings : List (NameKey × String)) :
    writtenBy (bindings.map (fun b => .bind b.1 b.2) ++ [.enterScope]) = "" := by
  induction bindings with
  | nil => rfl
  | cons b bindings ih =>
    rw [List.map_cons, List.cons_append, writtenBy_cons, ih]
    rfl

private theorem exists_run_declareSignature (c : Compiler) (hr : r.signature? = some sig) :
    ∃ start, (Emit.declareSignature sig).run.run (r.sink c).openScope = (.ok (), start) ∧
      start.level = 0 ∧ writtenBy start.journal = "" ∧ .opening .guarded ∉ start.journal := by
  obtain ⟨_, start, hrun, hintroduces⟩ := Emit.introduces_signature sig (r.sink c).openScope
  have hlevel : start.level = 0 := by
    rw [hintroduces.level]
    cases r with
    | expression => cases hr
    | _ => rfl
  have hjournal : start.journal = sig.bindings.map (fun b => .bind b.1 b.2) ++ [.enterScope] := by
    rw [hintroduces.journal, ← journal_sink c r]
    rfl
  refine ⟨start, hrun, hlevel, ?_, ?_⟩
  · rw [hjournal]
    exact writtenBy_bindings sig.bindings
  · rw [hjournal]
    simp

private theorem exists_run_guarding (hr : r.signature? = some sig)
    (hlower : r.lower c e = .ok out) :
    ∃ core start stop s, r.Core (c.env out.types) e core ∧
      (Emit.guarding (c.env out.types) ((c.env out.types).needsRethrow e sig.throws)
        core).run.run start = (.ok (), stop) ∧
      (r.emission c e).run.run (r.sink c) = (.ok out.types, s) ∧ out.source = s.text ∧
      start.level = 0 ∧ writtenBy start.journal = "" ∧ .opening .guarded ∉ start.journal ∧
      s.journal = [.leaveScope] ++ stop.journal := by
  obtain ⟨s, hemission, hsource⟩ := exists_run_of_lower hlower
  obtain ⟨-, stop, hrun, rfl⟩ := r.exists_contents_of_run hemission
  have hclosed : stop.closeScope.journal = [.leaveScope] ++ stop.journal := by
    have hcontinues := (Emit.law_continues.contents (c.env out.types) e r _).of_run_ok hrun
    simp [Sink.closeScope, hcontinues.enclosing, Sink.openScope, Sink.write]
  obtain ⟨core, rest, hcore, hcontents, hrest⟩ := exists_contents_eq hr (c.env out.types) e
  rw [hcontents] at hrun
  obtain ⟨_, start, hdeclare, hguards⟩ := exists_run_of_bind_ok hrun
  obtain ⟨start', hdeclare', hlevel, hempty, hnone⟩ := exists_run_declareSignature c hr
  obtain rfl : start = start' := congrArg Prod.snd (hdeclare.symm.trans hdeclare')
  rcases hrest with rfl | rfl
  · exact ⟨core, start, stop, _, hcore, hguards, hemission, hsource, hlevel, hempty, hnone, hclosed⟩
  · obtain ⟨inner, hinner, rfl⟩ := Emit.exists_run_of_traced_ok hguards
    exact ⟨core, start, inner, _, hcore, hinner, hemission, hsource, hlevel, hempty, hnone, hclosed⟩

private theorem encloses_of_run {core : Emit Unit} {t u s : Sink} {after : List Entry}
    (hcore : r.Core (c.env out.types) e core) (hrun : core.run.run t = (.ok (), u))
    (hemission : (r.emission c e).run.run (r.sink c) = (.ok out.types, s))
    (hsource : out.source = s.text) (hafter : s.journal = after ++ u.journal) :
    r.Encloses c e out (writtenBy t.journal) (writtenBy after)
      ((after ++ t.journal).count (.opening .guarded)) := by
  obtain ⟨-, added, hadded, hquiet⟩ := hcore.keeps hrun
  have hwritten : u.text = writtenBy t.journal ++ writtenBy added := Sink.text_of_journal hadded
  refine ⟨core, t, u, s, writtenBy added, hcore, hrun, hemission,
    hadded ▸ List.suffix_append _ _, hafter ▸ List.suffix_append _ _, rfl, hwritten, ?_, hsource,
    ?_⟩
  · rw [Sink.text_of_journal hafter, hwritten]
  · simp [hafter, hadded, List.count_append, List.count_eq_zero.mpr hquiet]

/-- A function writes its core in the one `try` of the output, or nothing else at all. -/
theorem encloses_of_lower (hr : r.signature? = some sig) (hlower : r.lower c e = .ok out) :
    if (c.env out.types).needsRethrow e sig.throws then r.Wraps c e out
    else r.Encloses c e out "" "" 0 := by
  obtain ⟨core, start, stop, s, hcore, hrun, hemission, hsource, hlevel, hempty, hquiet, hstop⟩ :=
    exists_run_guarding hr hlower
  have hbindings : start.journal.count (.opening .guarded) = 0 := List.count_eq_zero.mpr hquiet
  split
  · rename_i hguarded
    rw [hguarded] at hrun
    obtain ⟨t, u, before, after, name, handler, hrun, hbefore, hafter, htext, hclause, hnone,
      hnone'⟩ := Emit.exists_run_of_guarding_ok (fun _ _ h => (hcore.keeps h).1) hlevel hrun
    have hend : s.journal = [.leaveScope] ++ after ++ u.journal := by
      rw [hstop, hafter, List.append_assoc]
    have hencloses := encloses_of_run hcore hrun hemission hsource hend
    have hopened : writtenBy t.journal = "\ntry \x7b" := by
      rw [hbefore, writtenBy_append, hempty, htext, String.empty_append]
    have hclosed : writtenBy ([.leaveScope] ++ after) = Emit.clauseText name handler := by
      rw [writtenBy_append, hclause]
      exact String.append_empty
    have hone :
        List.count (Entry.opening .guarded) ([.leaveScope] ++ after ++ t.journal) = 1 := by
      simp [hbefore, List.count_append, List.count_eq_zero.mpr hnone,
        List.count_eq_zero.mpr hnone', hbindings]
    rw [hopened, hclosed, hone] at hencloses
    exact ⟨name, handler, hencloses⟩
  · rename_i hguarded
    rw [Bool.not_eq_true] at hguarded
    rw [hguarded, Emit.guarding_false_eq] at hrun
    have hencloses := encloses_of_run hcore hrun hemission hsource hstop
    have hzero : List.count (Entry.opening .guarded) ([.leaveScope] ++ start.journal) = 0 := by
      simp [hbindings]
    rwa [hempty, hzero] at hencloses

private theorem wraps_iff (hr : r.signature? = some sig) (hlower : r.lower c e = .ok out) :
    r.Wraps c e out ↔ c.hierarchy.LetsEscape out.types sig.throws e := by
  have hencloses := encloses_of_lower hr hlower
  rw [← c.needsRethrow_iff]
  constructor
  · rintro ⟨name, handler, core, t, u, s, body, -, -, hrun, -, -, -, -, -, -, hone⟩
    by_contra hguarded
    rw [if_neg hguarded] at hencloses
    obtain ⟨-, -, -, s', -, -, -, hrun', -, -, -, -, -, -, hnone⟩ := hencloses
    obtain rfl : s = s' := congrArg Prod.snd (hrun.symm.trans hrun')
    omega
  · intro hguarded
    rwa [if_pos hguarded] at hencloses

/-- The same function, except that it declares `more`. -/
def declaring (more : List HostType) : Request → Request
  | .method sig => .method { sig with throws := more }
  | .lambda sig => .lambda { sig with throws := more }
  | .expression expected thisType superType => .expression expected thisType superType

/-- All that is written for the tree of a function stands in one `try` if and only if some node of
the tree throws what the function must not throw, and otherwise there is no `try`. So it does as
soon as a part of the tree lets something escape, and where it does although the function declares
more, it does where the function declares less. -/
theorem lower_wraps (hr : r.signature? = some sig) (hlower : r.lower c e = .ok out) :
    (r.Wraps c e out ↔ c.hierarchy.LetsEscape out.types sig.throws e) ∧
    (¬ c.hierarchy.LetsEscape out.types sig.throws e → r.Encloses c e out "" "" 0) ∧
    (∀ part ∈ e.occurrences, c.hierarchy.LetsEscape out.types sig.throws part → r.Wraps c e out) ∧
    ∀ more, sig.throws ⊆ more → ∀ out', (r.declaring more).lower c e = .ok out' →
      (r.declaring more).Wraps c e out' → r.Wraps c e out := by
  have hiff : r.Wraps c e out ↔ c.hierarchy.LetsEscape out.types sig.throws e :=
    wraps_iff hr hlower
  refine ⟨hiff, fun hnone => ?_, fun part hpart hescapes => hiff.mpr (.mono hpart hescapes),
    fun more hmore out' hlower' hwraps => ?_⟩
  · have hencloses := encloses_of_lower hr hlower
    rwa [if_neg (mt c.needsRethrow_iff.mp hnone)] at hencloses
  · have hr' : (r.declaring more).signature? = some { sig with throws := more } := by
      cases r with
      | expression => cases hr
      | _ =>
        obtain rfl := Option.some.inj hr
        rfl
    have hsame : (r.declaring more).infer c e = r.infer c e := by
      cases r <;> rfl
    have htypes : out'.types = out.types :=
      Except.ok.inj ((infer_of_lower hlower').symm.trans (hsame.trans (infer_of_lower hlower)))
    have hescapes := (wraps_iff hr' hlower').mp hwraps
    rw [htypes] at hescapes
    exact hiff.mpr (hescapes.anti hmore)

private def readPlusOne : Expr :=
  .call ⟨2, {}⟩ (.ofOperator "operator_plus" "+" (.primitive .int))
    (some (.call ⟨0, {}⟩
      { name := "read", kind := .method, type := some (.primitive .int),
        throws := [.cls "java.io.IOException" []] } none []))
    [.literal ⟨1, {}⟩ (.int 1)]

/-- What the call throws is caught in a method that does not declare it, and only there. -/
theorem lower_wraps_read :
    let sig : Signature := { result := .int }
    let declaring : Signature := { sig with throws := [.named "java.io.IOException"] }
    ((method sig).signature? = some sig ∧ ∃ out, (method sig).lower {} readPlusOne = .ok out ∧
      (method sig).Wraps {} readPlusOne out ∧
      out.source = "\ntry \x7b\n  int _read = read();\n  return (_read + 1);" ++
        Emit.clauseText "_e" "\n  throw exprlower.lib.Exceptions.sneakyThrow(_e);") ∧
    (method declaring).signature? = some declaring ∧
      ∃ out, (method declaring).lower {} readPlusOne = .ok out ∧
        (method declaring).Encloses {} readPlusOne out "" "" 0 ∧
        out.source = "\nint _read = read();\nreturn (_read + 1);" := by
  intro sig declaring
  have hcaught : ((method sig).lower {} readPlusOne).toOption.map (fun out =>
      (out.source, (Compiler.env {} out.types).needsRethrow readPlusOne sig.throws)) =
      some ("\ntry \x7b\n  int _read = read();\n  return (_read + 1);" ++
        Emit.clauseText "_e" "\n  throw exprlower.lib.Exceptions.sneakyThrow(_e);", true) := by
    decide +kernel
  have hdeclared : ((method declaring).lower {} readPlusOne).toOption.map (fun out =>
      (out.source, (Compiler.env {} out.types).needsRethrow readPlusOne declaring.throws)) =
      some ("\nint _read = read();\nreturn (_read + 1);", false) := by
    decide +kernel
  obtain ⟨out, hlower, hout⟩ := exists_of_toOption_map hcaught
  obtain ⟨out', hlower', hout'⟩ := exists_of_toOption_map hdeclared
  simp only [Prod.mk.injEq] at hout hout'
  refine ⟨⟨rfl, out, hlower, ?_, hout.1⟩, rfl, out', hlower', ?_, hout'.1⟩
  · have hescapes := (Compiler.needsRethrow_iff {}).mp hout.2
    exact (lower_wraps rfl hlower).1.mpr hescapes
  · refine (lower_wraps rfl hlower').2.1 fun hescapes => ?_
    have hguarded : (Compiler.env {} out'.types).needsRethrow readPlusOne declaring.throws :=
      (Compiler.needsRethrow_iff {}).mpr hescapes
    exact Bool.false_ne_true (hout'.2.symm.trans hguarded)

end Request

end Lowering
