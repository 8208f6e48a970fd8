import Lowering.Emission.Forms
import Lowering.Proofs.Sink.Events

/-!
# The expression form follows the course

A value stands if it has been bound to a local where lowering hoists it, and if the values in its
text stand otherwise. Main statement: where a value stands, its expression form does what the course
of the tree says.
-/

namespace Lowering

/-- The value of `e` can be written: it has a name where `e` is hoisted, and otherwise has none, but
the values in its text stand. -/
inductive Stands (env : Env) (s : Sink) : Bool → Expr → Prop
  | named {needed : Bool} {e : Expr} (hhoists : env.hoists needed e)
      (hname : s.Binds (.value e.id)) : Stands env s needed e
  | unnamed {needed : Bool} {e : Expr} (hhoists : env.hoists needed e = false)
      (hname : ¬ s.Binds (.value e.id))
      (hparts : ∀ d ∈ env.demands needed e, d.place = .stored → Stands env s d.needed d.child) :
      Stands env s needed e

/-- Names for other values leave a value as it stands. -/
theorem Stands.gains {env : Env} {s t : Sink} {ids : List NodeId} {needed : Bool} {e : Expr}
    (h : Stands env s needed e) (ht : s.Gains ids t) (hids : e.ids.Disjoint ids) :
    Stands env t needed e := by
  induction h with
  | named hhoists hname => exact .named hhoists (ht.binds _ hname)
  | @unnamed needed e hhoists hname _ ih =>
    refine .unnamed hhoists (fun hbinds => ?_) fun d hd hstored => ih d hd hstored fun i hi => ?_
    · exact (ht.fresh _ hbinds).elim hname (hids e.id_mem_ids)
    · exact hids (Expr.mem_ids_of_mem_children (Env.mem_children hd) hi)

namespace Emit

variable {env : Env} {s : Sink} {events : List Event} {act : Emit Unit}

/-- In the scopes of `s`, `act` binds no name, and if it succeeds it does `events`. -/
def Emits (s : Sink) (events : List Event) (act : Emit Unit) : Prop :=
  ∀ t : Sink, t.scopes = s.scopes → Outcome act t
    (fun _ u => u.scopes = s.scopes ∧ u.events = t.events ++ events) fun _ => True

/-! ## Pieces of text -/

theorem Emits.andThen {events' : List Event} {next : Unit → Emit Unit} (h : Emits s events act)
    (hnext : Emits s events' (next ())) : Emits s (events ++ events') (act >>= next) := by
  intro t ht
  rw [outcome_bind]
  apply (h t ht).imp
  intro _ u hfirst
  obtain ⟨hscopes, hevents⟩ := hfirst
  apply (hnext u hscopes).imp
  intro _ v hsecond
  obtain ⟨hscopes', hevents'⟩ := hsecond
  exact ⟨hscopes', by rw [hevents', hevents, List.append_assoc]⟩

/-- Text without events in front of something else. -/
theorem Emits.before {next : Unit → Emit Unit} (h : Emits s [] act)
    (hnext : Emits s events (next ())) : Emits s events (act >>= next) :=
  h.andThen hnext

/-- Text without events behind something else. -/
theorem Emits.after {next : Unit → Emit Unit} (h : Emits s events act)
    (hnext : Emits s [] (next ())) : Emits s events (act >>= next) := by
  simpa using h.andThen hnext

theorem emits_pure : Emits s [] (pure ()) :=
  fun t ht => by simpa using ht

theorem emits_append (text : String) : Emits s [] (append text) :=
  fun t ht => by simpa using ht

theorem emits_newLine : Emits s [] newLine :=
  fun t ht => by simpa using ht

theorem emits_write (e : Entry) : Emits s e.event?.toList (write e) :=
  fun t ht => by simpa using ht

theorem emits_openBrace (brace : Brace) : Emits s [] (openBrace brace) :=
  fun t ht => by simpa [Entry.event?] using ht

theorem emits_closeBrace (brace : Brace) : Emits s [] (closeBrace brace) :=
  fun t ht => by simpa [Entry.event?] using ht

theorem emits_throw (f : Failure) : Emits s events (throw f) :=
  fun _ _ => trivial

theorem emits_throw_bind (f : Failure) (next : Unit → Emit Unit) :
    Emits s events (throw f >>= next) :=
  fun _ _ => trivial

theorem Emits.traced (id : NodeId) (debug : Bool) (h : Emits s events act) :
    Emits s events (traced id debug act) := fun t ht => by
  rw [outcome_traced]
  exact (h t ht).imp fun _ u hu => by simpa using hu

theorem Emits.converted (e : Expr) (target : Option HostType) (h : Emits s events act) :
    Emits s events (converted env e target act) := by
  apply h.after
  split
  · split
    · exact emits_append _
    · exact emits_pure
  · exact emits_pure

theorem emits_name {node : Node} (h : s.Binds (.value node.id)) : Emits s [] (nameOr node act) := by
  intro t ht
  obtain ⟨name, hname⟩ := Option.isSome_iff_exists.mp h
  simp [nameOr, outcome_bind, Sink.name?_congr ht, hname, ht, Entry.event?]

theorem Emits.nameOr {node : Node} (hname : ¬ s.Binds (.value node.id)) (h : Emits s events act) :
    Emits s events (nameOr node act) := by
  intro t ht
  have hnone : s.name? (.value node.id) = none := by simpa [Sink.Binds] using hname
  simp only [Emit.nameOr, outcome_bind, outcome_get, Sink.name?_congr ht, hnone]
  exact h.traced node.id true t ht

theorem emits_useLocal {id : NodeId} (hname : ¬ s.Binds (.value id)) (declaration : NodeId)
    (name : String) (span : Span) : Emits s [.use id] (useLocal id declaration name span) := by
  intro t ht
  simp only [useLocal, outcome_bind, outcome_get, Sink.name?_congr ht]
  cases hs : s.name? (.value declaration) with
  | none => trivial
  | some text =>
    have hne : declaration ≠ id := by
      rintro rfl
      exact hname (by simp [Sink.Binds, hs])
    simp [ht, Entry.event?, hne]

theorem emits_useOr (id : NodeId) {key : NameKey} (hkey : ∀ i, key ≠ .value i) (fallback : String) :
    Emits s [.use id] (useOr id key fallback) := by
  intro t ht
  simp [ht, Entry.event?, hkey id]

theorem emits_arguments (params : List HostType) {args : List Expr}
    (h : ∀ arg ∈ args, Emits s (env.course arg true).value (expression env arg)) :
    Emits s (args.flatMap fun arg => (env.course arg true).value) (arguments env params args) := by
  induction args generalizing params with
  | nil => exact emits_pure
  | cons first rest ih =>
    have hfirst : Emits s (env.course first true).value
        (converted env first params.head? (expression env first)) :=
      (h first List.mem_cons_self).converted first params.head?
    cases rest with
    | nil =>
      rw [List.flatMap_singleton]
      exact hfirst
    | cons second rest =>
      exact hfirst.andThen ((emits_append _).before
        (ih params.tail fun arg harg => h arg (List.mem_cons_of_mem _ harg)))

theorem emits_useField (id : NodeId) (name : String) {receiver : Option Expr}
    (h : ∀ r ∈ receiver, Emits s (env.course r true).value (expression env r)) :
    Emits s (receiver.toList.flatMap fun r => (env.course r true).value)
      (useField id name (receiverText env receiver)) := by
  cases receiver with
  | none => exact emits_write (.field id name)
  | some r =>
    rw [Option.toList, List.flatMap_singleton]
    exact (h r rfl).after (emits_append _)

/-! ## Texts of nodes -/

/-- The values in the text of `e` are written as the course says. -/
def WritesParts (env : Env) (s : Sink) (needed : Bool) (e : Expr) : Prop :=
  ∀ d ∈ env.demands needed e, d.place = .stored →
    Emits s (env.course d.child d.needed).value (expression env d.child)

variable {needed : Bool} {node : Node}

private theorem emits_operand {e operand : Expr} {stored : Bool} (hstored : stored)
    (h : WritesParts env s needed e) (hdemand : .operand stored operand ∈ env.demands needed e) :
    Emits s (env.course operand true).value (expression env operand) :=
  h _ hdemand (by simp [Demand.operand, hstored])

section

variable {feature : Feature} {receiver : Option Expr} {args : List Expr}

private theorem emits_receiver (h : WritesParts env s needed (.call node feature receiver args))
    (hwrites : feature.writesReceiver) :
    ∀ r ∈ receiver, Emits s (env.course r true).value (expression env r) := fun _ hr =>
  emits_operand hwrites h (List.mem_append_left _ (List.mem_map_of_mem (Option.mem_toList.mpr hr)))

private theorem emits_argument (h : WritesParts env s needed (.call node feature receiver args))
    (hwrites : feature.writesArguments) :
    ∀ arg ∈ args, Emits s (env.course arg true).value (expression env arg) := fun _ harg =>
  emits_operand hwrites h (List.mem_append_right _ (List.mem_map_of_mem harg))

theorem text_call (needed : Bool) : env.text needed (.call node feature receiver args) =
    (if feature.isNamed then [.use node.id] else []) ++
      ((if feature.writesReceiver then
          receiver.toList.flatMap fun r => (env.course r true).value else []) ++
        if feature.writesArguments then args.flatMap fun a => (env.course a true).value else []) ++
      if feature.isInvocation then [.effect node.id] else [] := by
  simp only [Env.text, Env.demands, List.flatMap_append, Env.parts_operands]
  rfl

private theorem writesReceiver_of_invocation (hinvokes : feature.isInvocation)
    (howner : ∀ owner, feature.kind = .staticMethod → feature.owner = some owner → False) :
    feature.writesReceiver := by
  cases hkind : feature.kind with
  | method => simp [Feature.writesReceiver, hkind]
  | staticMethod =>
    have hnone : feature.owner = none := Option.eq_none_iff_forall_not_mem.mpr (howner · hkind)
    simp [Feature.writesReceiver, hkind, hnone]
  | _ => simp [Feature.isInvocation, hkind] at hinvokes

theorem emits_invocation (hinvokes : feature.isInvocation)
    (h : WritesParts env s needed (.call node feature receiver args)) :
    Emits s (env.text needed (.call node feature receiver args))
      (invocation node.id feature (receiverText env receiver)
        (arguments env feature.paramTypes args)) := by
  have hwrites : feature.isNamed = false ∧ feature.writesArguments := by
    unfold Feature.isInvocation at hinvokes
    split at hinvokes <;> simp_all [Feature.isNamed, Feature.writesArguments]
  have hcall : Emits s ((args.flatMap fun a => (env.course a true).value) ++ [.effect node.id]) (do
      append (feature.name ++ "(")
      arguments env feature.paramTypes args
      append ")"
      write (.effect node.id)) :=
    (emits_append _).before ((emits_arguments _ (emits_argument h hwrites.2)).andThen
      ((emits_append _).before (emits_write (.effect node.id))))
  have htext : env.text needed (.call node feature receiver args) =
      (if feature.writesReceiver then receiver.toList.flatMap fun r => (env.course r true).value
        else []) ++ ((args.flatMap fun a => (env.course a true).value) ++ [.effect node.id]) := by
    simp [text_call, hwrites, hinvokes]
  unfold invocation
  split
  · rename_i hkind howner
    have hdropped : feature.writesReceiver = false := by
      simp [Feature.writesReceiver, hkind, howner]
    rw [htext, hdropped]
    exact (emits_append _).before hcall
  · rename_i act hreceiver howner
    cases receiver with
    | none => simp [receiverText] at hreceiver
    | some r =>
      obtain rfl : expression env r = act := by simpa [receiverText] using hreceiver
      have hstored : feature.writesReceiver := writesReceiver_of_invocation hinvokes howner
      have hvalue : Emits s (env.course r true).value (expression env r) :=
        emits_receiver h hstored r rfl
      rw [htext, hstored]
      simp only [if_true, Option.toList, List.flatMap_singleton]
      exact hvalue.andThen ((emits_append _).before hcall)
  · rename_i hreceiver _
    cases receiver with
    | none =>
      rw [htext]
      simpa using hcall
    | some r => simp [receiverText] at hreceiver

private theorem emits_operator {symbol : String} (hkind : feature.kind = .operator symbol)
    (hname : ¬ s.Binds (.value node.id))
    (h : WritesParts env s needed (.call node feature receiver args)) :
    Emits s (env.text needed (.call node feature receiver args))
      (expression env (.call node feature receiver args)) := by
  have htext : env.text needed (.call node feature receiver args) =
      (receiver.toList ++ args).flatMap fun e => (env.course e true).value := by
    simp [text_call, Feature.isNamed, Feature.writesReceiver, Feature.writesArguments,
      Feature.isInvocation, hkind]
  have hoperand (e : Expr) (he : e ∈ receiver.toList ++ args) :
      Emits s (env.course e true).value (expression env e) := by
    rcases List.mem_append.mp he with hmem | hmem
    · exact emits_receiver h (by simp [Feature.writesReceiver, hkind]) e (Option.mem_toList.mp hmem)
    · exact emits_argument h (by simp [Feature.writesArguments, hkind]) e hmem
  have hone (operand : Expr) (he : operand ∈ receiver.toList ++ args) :
      Emits s (env.course operand true).value (do
        append symbol
        converted env operand feature.paramTypes.head? (expression env operand)
        append ")") :=
    (emits_append _).before (((hoperand operand he).converted operand _).after (emits_append _))
  have htwo (left right : Expr) (hleft : left ∈ receiver.toList ++ args)
      (hright : right ∈ receiver.toList ++ args) :
      Emits s ((env.course left true).value ++ (env.course right true).value) (do
        expression env left
        append (" " ++ symbol ++ " ")
        converted env right feature.paramTypes.head? (expression env right)
        append ")") :=
    (hoperand left hleft).andThen ((emits_append _).before
      (((hoperand right hright).converted right _).after (emits_append _)))
  rw [expression, htext]
  apply Emits.nameOr hname
  simp only [hkind]
  apply (emits_append _).before
  split
  · simpa using hone _ (by simp)
  · simpa using hone _ (by simp)
  · simpa using htwo _ _ (by simp) (by simp)
  · simpa using htwo _ _ (by simp) (by simp)
  · exact (emits_throw _).after (emits_append _)

private theorem text_named (hnamed : feature.isNamed) :
    env.text needed (.call node feature receiver args) = [.use node.id] := by
  rw [text_call]
  unfold Feature.isNamed at hnamed
  split at hnamed <;>
    simp_all [Feature.isNamed, Feature.writesReceiver, Feature.writesArguments,
      Feature.isInvocation]

theorem emits_call (hname : ¬ s.Binds (.value node.id))
    (h : WritesParts env s needed (.call node feature receiver args)) :
    Emits s (env.text needed (.call node feature receiver args))
      (expression env (.call node feature receiver args)) := by
  cases hkind : feature.kind with
  | operator symbol => exact emits_operator hkind hname h
  | method | staticMethod =>
    have hinvokes : feature.isInvocation := by simp [Feature.isInvocation, hkind]
    rw [expression]
    apply Emits.nameOr hname
    simp only [hkind]
    exact emits_invocation hinvokes h
  | field =>
    have htext : env.text needed (.call node feature receiver args) =
        receiver.toList.flatMap fun r => (env.course r true).value := by
      simp [text_call, Feature.isNamed, Feature.writesReceiver, Feature.writesArguments,
        Feature.isInvocation, hkind]
    rw [expression, htext]
    apply Emits.nameOr hname
    simp only [hkind]
    exact emits_useField _ _ (emits_receiver h (by simp [Feature.writesReceiver, hkind]))
  | localVar declaration =>
    rw [expression, text_named (by simp [Feature.isNamed, hkind])]
    apply Emits.nameOr hname
    simp only [hkind]
    exact emits_useLocal hname _ _ _
  | parameter | this | super =>
    rw [expression, text_named (by simp [Feature.isNamed, hkind])]
    apply Emits.nameOr hname
    simp only [hkind]
    exact emits_useOr _ (by simp) _

end

theorem emits_construction {type : WrittenType} {params throws : List WrittenType}
    {args : List Expr} (h : WritesParts env s needed (.construct node type params throws args)) :
    Emits s (env.text needed (.construct node type params throws args))
      (construction node.id type (arguments env (WrittenType.resolveAll params) args)) := by
  have htext : env.text needed (.construct node type params throws args) =
      (args.flatMap fun a => (env.course a true).value) ++ [.effect node.id] := by
    simp only [Env.text, Env.demands, Env.parts_operands]
    rfl
  have hargument (arg : Expr) (harg : arg ∈ args) :
      Emits s (env.course arg true).value (expression env arg) :=
    emits_operand rfl h (List.mem_map_of_mem harg)
  rw [htext]
  exact (emits_append _).before ((emits_arguments _ hargument).andThen
    ((emits_append _).before (emits_write (.effect node.id))))

theorem emits_assignment {target : Feature} {receiver : Option Expr} {value : Expr}
    (hname : ¬ s.Binds (.value node.id))
    (h : WritesParts env s needed (.assign node target receiver value)) :
    Emits s (env.text needed (.assign node target receiver value))
      (assignment env node.id target (receiverText env receiver) value (expression env value)) := by
  have htext : env.text needed (.assign node target receiver value) =
      (if target.isNamed then [.use node.id] else []) ++
        ((if target.writesReceiver then
            receiver.toList.flatMap fun r => (env.course r true).value else []) ++
          ((env.course value true).value ++ [.effect node.id])) := by
    simp only [Env.text, Env.demands, List.flatMap_append, Env.parts_operands]
    simp [Expr.mentions, Expr.completes, Expr.isEffect, Env.parts, Demand.operand, Expr.id,
      Expr.node]
  have hvalue : Emits s (env.course value true).value (expression env value) :=
    emits_operand rfl h (List.mem_append_right _ List.mem_cons_self)
  have hassign : Emits s ((env.course value true).value ++ [.effect node.id]) (do
      append " = "
      converted env value (env.types.expected? value.id) (expression env value)
      write (.effect node.id)) :=
    (emits_append _).before ((hvalue.converted value _).andThen (emits_write (.effect node.id)))
  rw [htext]
  cases hkind : target.kind with
  | localVar declaration =>
    simp only [assignment, hkind, Feature.isNamed, Feature.writesReceiver, if_true,
      Bool.false_eq_true, if_false, List.nil_append]
    exact (emits_useLocal hname _ _ _).andThen hassign
  | parameter =>
    simp only [assignment, hkind, Feature.isNamed, Feature.writesReceiver, if_true,
      Bool.false_eq_true, if_false, List.nil_append]
    exact (emits_useOr _ (by simp) _).andThen hassign
  | field =>
    have hreceiver : ∀ r ∈ receiver, Emits s (env.course r true).value (expression env r) :=
      fun _ hr => emits_operand (by simp [Feature.writesReceiver, hkind]) h
        (List.mem_append_left _ (List.mem_map_of_mem (Option.mem_toList.mpr hr)))
    simp only [assignment, hkind, Feature.isNamed, Feature.writesReceiver, if_true,
      Bool.false_eq_true, if_false, List.nil_append]
    exact (emits_useField _ _ hreceiver).andThen hassign
  | _ =>
    simp only [assignment, hkind]
    exact emits_throw_bind _ _

/-! ## The expression form -/

private theorem exists_nameOr (env : Env) (e : Expr) :
    ∃ act, expression env e = nameOr e.node act := by
  cases e with
  | block node exprs => rcases exprs with _ | ⟨only, _ | ⟨second, rest⟩⟩ <;> exact ⟨_, rfl⟩
  | call node feature receiver args =>
    rw [expression]
    exact ⟨_, rfl⟩
  | _ => exact ⟨_, rfl⟩

/-- Where a value stands, the expression form does what the course of the tree says. -/
theorem expression_emits {needed : Bool} {e : Expr} (h : Stands env s needed e) :
    Emits s (env.course e needed).value (expression env e) := by
  induction h with
  | @named needed e hhoists hname =>
    obtain ⟨act, hact⟩ := exists_nameOr env e
    rw [Env.value_course, hhoists, hact]
    exact emits_name hname
  | @unnamed needed e hhoists hname _ ih =>
    have hparts : WritesParts env s needed e := ih
    rw [Env.value_course, hhoists]
    simp only [Bool.false_eq_true, if_false]
    cases e with
    | call node feature receiver args => exact emits_call hname hparts
    | construct node type params throws args =>
      exact (emits_construction hparts).nameOr hname
    | assign node target receiver value => exact (emits_assignment hname hparts).nameOr hname
    | literal node value => exact (emits_append _).nameOr hname
    | cast node type value =>
      have hvalue : Emits s (env.course value true).value (expression env value) :=
        hparts _ List.mem_cons_self rfl
      have htext : env.text needed (.cast node type value) = (env.course value true).value := by
        simp [Env.text, Env.demands, Env.parts, Expr.mentions, Expr.completes, Expr.isEffect]
      rw [htext]
      exact ((emits_append _).before (hvalue.after (emits_append _))).nameOr hname
    | block node exprs =>
      rcases exprs with _ | ⟨only, _ | ⟨second, rest⟩⟩
      · exact (emits_throw _).nameOr hname
      · have hvalue : Emits s (env.course only needed).value (expression env only) :=
          hparts _ List.mem_cons_self rfl
        have htext : env.text needed (.block node [only]) = (env.course only needed).value := by
          simp [Env.text, Env.demands, Env.parts, Expr.mentions, Expr.completes, Expr.isEffect]
        rw [htext]
        exact hvalue.nameOr hname
      · exact (emits_throw _).nameOr hname
    | decl | branch | ret | raise | extension => exact (emits_throw _).nameOr hname

end Emit

end Lowering
