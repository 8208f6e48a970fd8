import Mathlib.Data.List.Induction
import Lowering.Sink.Basic

/-!
# Calls on a sink

The operations on a sink may be called in any order, and a scope may be closed when none is open
but the outermost. Main statements: what any call makes of the scopes, and what calls leave of the
scopes around one that stays open.
-/

namespace Lowering

/-- A call of an operation on a sink. What is done in a scope of its own, or recorded as the text of
a node, stands between the calls that start and end this. -/
inductive SinkCall where
  | append (text : String)
  | newLine
  | indent
  | dedent
  | openScope
  | closeScope
  | declare (key : NameKey) (name : String)
  | declareFresh (key : NameKey) (proposed : String)
  | freshKey
  | setObject (key : String) (type : HostType)
  | finishRegion (id : NodeId) (offset : Nat) (debug : Bool)

namespace SinkCall

/-- The sink after the call. -/
def after (s : Sink) : SinkCall → Sink
  | append text => s.append text
  | newLine => s.newLine
  | indent => s.indent
  | dedent => s.dedent
  | openScope => s.openScope
  | closeScope => s.closeScope
  | declare key name => s.bind key name
  | declareFresh key proposed => (s.bindFresh key proposed).2
  | freshKey => s.freshKey.2
  | setObject key type => s.setObject key type
  | finishRegion id offset debug => s.finishRegion id offset debug

/-- The name that the call declares in the innermost scope. -/
def declared? (s : Sink) : SinkCall → Option String
  | declare _ name => some name
  | declareFresh key proposed => some (s.bindFresh key proposed).1
  | _ => none

/-- The key that the call binds. -/
def key? : SinkCall → Option NameKey
  | declare key _ | declareFresh key _ => some key
  | _ => none

/-- The binding that the call adds to the innermost scope. -/
def binding? (s : Sink) : SinkCall → Option (NameKey × String)
  | declare key name => some (key, name)
  | declareFresh key proposed => some (key, (s.bindFresh key proposed).1)
  | _ => none

theorem exists_binding?_key {call : SinkCall} {s : Sink} {key : NameKey} :
    (∃ name, call.binding? s = some (key, name)) ↔ call.key? = some key := by
  cases call <;> simp [binding?, key?]

theorem exists_binding?_name {call : SinkCall} {s : Sink} {name : String} :
    (∃ key, call.binding? s = some (key, name)) ↔ call.declared? s = some name := by
  cases call <;> simp [binding?, declared?]

end SinkCall

namespace Sink

/-- What calls make of a new sink. -/
def reached (unit : String) (calls : List SinkCall) : Sink :=
  calls.foldl SinkCall.after { unit }

@[simp] theorem reached_append (unit : String) (calls : List SinkCall) (call : SinkCall) :
    reached unit (calls ++ [call]) = call.after (reached unit calls) := by
  simp [reached]

end Sink

/-! ## What a call makes of the scopes -/

/-- The scopes of `t` are those of `s` after the call. -/
inductive ScopeChange (call : SinkCall) (s t : Sink) : Prop
  | kept (henclosing : t.enclosing = s.enclosing)
      (hnames : t.scope.names = (call.binding? s).toList ++ s.scope.names)
  | opened (hbinding : call.binding? s = none) (hnames : t.scope.names = [])
      (henclosing : t.enclosing = s.scopes)
  | closed (hbinding : call.binding? s = none) (hscopes : t.scopes = s.enclosing)

theorem SinkCall.change (call : SinkCall) (s : Sink) : ScopeChange call s (call.after s) := by
  cases call with
  | openScope => exact .opened rfl rfl rfl
  | closeScope =>
    by_cases houtermost : s.enclosing = []
    · refine .kept ?_ ?_ <;> simp [after, Sink.closeScope, houtermost, binding?]
    · exact .closed rfl (Sink.scopes_closeScope_of_ne_nil houtermost)
  | _ => exact .kept rfl rfl

namespace ScopeChange

variable {call : SinkCall} {s t : Sink}

/-- Scopes that are still enclosed by a scope were so before. -/
theorem enclosing_suffix (h : ScopeChange call s t) {outer : List Scope}
    (houter : outer <:+ s.enclosing) (hdepth : outer.length < t.depth) : outer <:+ t.enclosing := by
  cases h with
  | kept henclosing => exact henclosing ▸ houter
  | opened _ _ henclosing => exact henclosing ▸ houter.trans (List.suffix_cons _ _)
  | closed _ hscopes =>
    rcases List.suffix_cons_iff.mp (hscopes ▸ houter) with rfl | houter
    · exact absurd hdepth (Nat.lt_irrefl _)
    · exact houter

end ScopeChange

/-! ## Scopes that stay open -/

/-- The scope that is innermost after `before` has been open ever since. -/
def StaysOpen (unit : String) (before calls : List SinkCall) : Prop :=
  ∀ m, before <+: m → m <+: calls → (Sink.reached unit before).depth ≤ (Sink.reached unit m).depth

namespace StaysOpen

variable {unit : String} {before calls : List SinkCall} {call : SinkCall}

theorem self (unit : String) (calls : List SinkCall) : StaysOpen unit calls calls := by
  intro m hm hcalls
  obtain rfl := hm.eq_of_length_le hcalls.length_le
  exact Nat.le_refl _

theorem append_iff (hbefore : before <+: calls) :
    StaysOpen unit before (calls ++ [call]) ↔ StaysOpen unit before calls ∧
      (Sink.reached unit before).depth ≤ (call.after (Sink.reached unit calls)).depth := by
  constructor
  · intro h
    refine ⟨fun m hm hcalls => h m hm (hcalls.trans (List.prefix_append _ _)), ?_⟩
    rw [← Sink.reached_append]
    exact h _ (hbefore.trans (List.prefix_append _ _)) (List.prefix_refl _)
  · rintro ⟨h, hlast⟩ m hm hcalls
    rcases List.prefix_concat_iff.mp hcalls with rfl | hcalls
    · rwa [Sink.reached_append]
    · exact h m hm hcalls

/-- The scopes around a scope that stays open are the same all the time. -/
theorem enclosing_suffix (h : StaysOpen unit before calls) (hbefore : before <+: calls) :
    (Sink.reached unit before).enclosing <:+ (Sink.reached unit calls).enclosing := by
  induction calls using List.reverseRecOn with
  | nil =>
    obtain rfl := List.prefix_nil.mp hbefore
    exact List.suffix_rfl
  | append_singleton calls call ih =>
    rcases List.prefix_concat_iff.mp hbefore with rfl | hbefore
    · exact List.suffix_rfl
    · obtain ⟨hopen, hdepth⟩ := (append_iff hbefore).mp h
      rw [Sink.reached_append]
      exact (call.change _).enclosing_suffix (ih hopen hbefore) hdepth

end StaysOpen

end Lowering
