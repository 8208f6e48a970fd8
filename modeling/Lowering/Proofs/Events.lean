import Lowering.Proofs.Emission.CourseOrder
import Lowering.Proofs.Emission.StatementCourse
import Lowering.Proofs.Framing

/-!
# The events of a request

What is written around a tree does nothing, so that the journal tells what the tree does. Main
statement: a tree without sharing that is lowered does what its course says, for a body or the
expressions of a lambda; only trees without effects are written in place.
-/

namespace Lowering

namespace Emit

variable {env : Env} {s : Sink} {e : Expr}

private theorem runs_bodyText (hunshared : e.Unshared) (hs : s.Lacks e.ids)
    (expected : Option HostType) :
    Runs s e.ids ((env.lastDemands (!expected.any (·.isVoid)) [e]).flatMap env.steps)
      (fun _ => True) (bodyText env e expected) := by
  have hfollows := statement_follows env e hunshared
  rw [bodyText, Bool.and_right_comm]
  apply hfollows.runs_last hs
  · intro hreturned t hstands
    have hvalue : env.isVoid e = false := by simp_all
    have hreturns : (!expected.any (·.isVoid) && !e.exitsEarly) = true := by simp_all
    rw [if_pos hreturns, hvalue]
    exact emits_newLine.before ((emits_write _).before
      ((expression_emits hstands).after (emits_append _)))
  · intro hdropped t
    cases hreturns : !expected.any (·.isVoid) && !e.exitsEarly with
    | false => exact emits_pure
    | true =>
      have hvoid : env.isVoid e := by
        rw [Bool.and_right_comm, hreturns] at hdropped
        simpa using hdropped
      rw [hvoid]
      exact emits_newLine.before ((emits_write _).before
        ((emits_append _).before (emits_append _)))

private theorem runs_returningLast {exprs : List Expr} (h : Siblings env exprs)
    (hs : s.Lacks (exprs.flatMap Expr.ids)) (expected : Option HostType) (returns : Bool) :
    Runs s (exprs.flatMap Expr.ids) ((env.lastDemands returns exprs).flatMap env.steps)
      (fun _ => True) (returningLast env expected returns exprs) := by
  apply h.runs_sequence hs returns rfl
  · intro t e hfollows ht
    apply hfollows.runs_last ht
    · intro hreturned u hstands
      rw [if_pos hreturned]
      exact emits_newLine.before ((emits_write _).before ((emits_append _).before
        (((expression_emits hstands).converted _ _).after (emits_append _))))
    · intro hdropped u
      rw [hdropped]
      exact emits_pure
  · exact fun _ _ _ => rfl

end Emit

namespace Request

/-- What is demanded of the tree: its value if one is expected, or of a lambda that is a block the
value of the last expression. -/
def demands (env : Env) (e : Expr) : Request → List Demand
  | .method sig => env.lastDemands (!sig.result.isVoid) [e]
  | .lambda sig => env.lastDemands (!sig.result.isVoid) (e.exprs?.getD [e])
  | .expression expected _ _ => env.lastDemands (!expected.any (·.isVoid)) [e]

/-- What is demanded are the expressions of a block or the tree as a whole. -/
theorem child_demands (env : Env) (e : Expr) (r : Request) :
    (r.demands env e).map (·.child) = [e] ∨
      (∃ node exprs, e = .block node exprs) ∧ (r.demands env e).map (·.child) = e.children := by
  cases r with
  | method => exact .inl (env.child_lastDemands _ _)
  | expression => exact .inl (env.child_lastDemands _ _)
  | lambda =>
    cases e with
    | block node exprs => exact .inr ⟨⟨node, exprs, rfl⟩, env.child_lastDemands _ _⟩
    | _ => exact .inl (env.child_lastDemands _ _)

variable {c : Compiler} {env : Env} {e : Expr} {r : Request} {types : ResolvedTypes}

theorem mem_child_demands {d : Demand} (hd : d ∈ r.demands env e) :
    d.child ∈ (r.demands env e).map (·.child) :=
  List.mem_map_of_mem (f := (·.child)) hd

theorem supportsAll_demands (he : env.Supports e) : env.SupportsAll (r.demands env e) where
  supports d hd := by
    rcases child_demands env e r with hself | ⟨_, hchildren⟩
    · obtain rfl : d.child = e := List.mem_singleton.mp (hself ▸ mem_child_demands hd)
      exact he
    · exact he.child (hchildren ▸ mem_child_demands hd)
  written d hd hwritten := by
    have hlast (wanted : Bool) (es : List Expr) (h : d ∈ env.lastDemands wanted es) :
        d.needed ∧ env.isVoid d.child = false := by
      rcases env.mem_lastDemands h with ⟨hneeded, _, hvoid⟩ | hdropped
      · exact ⟨hneeded, hvoid⟩
      · cases hwritten.symm.trans hdropped
    cases r <;> exact hlast _ _ hd

private theorem Core.does {core : Emit Unit} (h : r.Core env e core)
    (hunshared : e.Unshared) {s : Sink} (hs : s.Lacks e.ids) :
    Outcome core s (fun _ t => t.events = s.events ++ (r.demands env e).flatMap env.steps ∨
      e.Plain ∧ t.effects = s.effects) fun _ => True := by
  cases h with
  | method sig => exact (Emit.runs_bodyText hunshared hs _).outcome.imp fun _ _ => .inl
  | lambda sig hexprs =>
    rw [demands, hexprs]
    exact (Emit.runs_bodyText hunshared hs _).outcome.imp fun _ _ => .inl
  | literal => exact (Emit.runs_bodyText hunshared hs _).outcome.imp fun _ _ => .inl
  | @block sig exprs hexprs =>
    have hchildren : e.children = exprs := by
      cases e with
      | block node exprs' => exact Option.some.inj hexprs
      | _ => cases hexprs
    have hsiblings : Emit.Siblings env exprs := by
      rw [← hchildren]
      exact ⟨fun child hchild => Emit.statement_follows env child (hunshared.child hchild),
        ((Expr.unshared_iff e).mp hunshared).2⟩
    have hlacks : s.Lacks (exprs.flatMap Expr.ids) :=
      hs.subset (by simp [Expr.ids_eq e, hchildren])
    rw [demands, hexprs]
    exact (Emit.runs_returningLast hsiblings hlacks _ _).outcome.imp fun _ _ => .inl
  | inPlace _ _ _ hplain =>
    have hwrites := Emit.expression_writes env s e s rfl
    exact hwrites.mono (fun _ t hdone => .inr ⟨hplain, by simpa using hdone.2 (hplain.settled s)⟩)
      fun _ _ => trivial

private theorem filterMap_event?_eq_nil {es : List Entry} (h : ∀ e ∈ es, e.isQuiet) :
    es.filterMap Entry.event? = [] := by
  apply List.filterMap_eq_nil_iff.mpr
  intro e he
  have hquiet := h e he
  cases e <;> simp_all [Entry.isQuiet, Entry.event?]

private theorem events_of_prepared {s : Sink} (h : s.Prepared) : s.events = [] :=
  filterMap_event?_eq_nil fun e he => h.quiet e (List.mem_reverse.mp he)

private theorem events_of_closes {s t : Sink} (h : s.Closes t) : t.events = s.events := by
  obtain ⟨tail, htail, hquiet⟩ := h.exists_journal
  have hnone := filterMap_event?_eq_nil fun e he => hquiet e (List.mem_reverse.mp he)
  simp [Sink.events, htail, hnone]

/-- A tree without sharing does what is demanded of it, unless it is written in place and has no
effect. -/
theorem exists_events {out : Lowered} (hunshared : e.Unshared) (hlower : r.lower c e = .ok out) :
    ∃ sink, (r.emission c e).run.run (r.sink c) = (.ok out.types, sink) ∧
      out.source = sink.text ∧
      (sink.events = (r.demands (c.env out.types) e).flatMap (c.env out.types).steps ∨
        e.Plain ∧ sink.effects = []) := by
  obtain ⟨sink, hrun, hsource⟩ := exists_run_of_lower hlower
  refine ⟨sink, hrun, hsource, ?_⟩
  obtain ⟨core, hcore, s, hstarts, hcloses, hok⟩ := exists_core (infer_of_lower hlower)
  rw [hrun] at hcloses hok
  have hs : s.Lacks e.ids := fun i _ => hstarts.not_binds rfl
  have hdoes := hcore.does hunshared hs
  have hstart : s.events = [] := events_of_prepared hstarts.toPrepared
  have hevents : sink.events = (core.run.run s).2.events := events_of_closes hcloses
  cases hcorerun : core.run.run s with
  | mk result t =>
    rw [hcorerun] at hok hevents
    cases result with
    | error f => simp [Except.isOk, Except.toBool] at hok
    | ok a =>
      have hdone := hdoes.of_run_ok hcorerun
      simpa [hevents, hstart, Sink.effects_eq] using hdone

end Request

end Lowering
