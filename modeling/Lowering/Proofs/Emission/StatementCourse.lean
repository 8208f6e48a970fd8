import Lowering.Proofs.Emission.StatementLaws
import Lowering.Proofs.Emission.ValueCourse

/-!
# The statement form follows the course

The statement form of a tree without sharing binds values of its own nodes only. Main statement: if
none of them had a name before, it does what the course of the tree says, and the value stands
afterwards.
-/

namespace Lowering.Emit

variable {env : Env} {s : Sink} {ids : List NodeId} {events : List Event} {post : Sink → Prop}
  {act : Emit Unit}

/-- If `act` succeeds from `s`, it does `events`, gives names only to values of `ids`, and leaves
what `post` says. -/
def Runs (s : Sink) (ids : List NodeId) (events : List Event) (post : Sink → Prop)
    (act : Emit Unit) : Prop :=
  Outcome act s (fun _ t => s.Gains ids t ∧ t.events = s.events ++ events ∧ post t) fun _ => True

theorem Runs.imp {post' : Sink → Prop} (h : Runs s ids events post act)
    (hpost : ∀ t, s.Gains ids t → post t → post' t) : Runs s ids events post' act :=
  Outcome.imp h fun _ t hdone => ⟨hdone.1, hdone.2.1, hpost t hdone.1 hdone.2.2⟩

theorem Runs.mono {ids' : List NodeId} (h : Runs s ids events post act) (hids : ids ⊆ ids') :
    Runs s ids' events post act :=
  Outcome.imp h fun _ _ hdone => ⟨hdone.1.mono hids, hdone.2⟩

theorem Runs.outcome (h : Runs s ids events post act) :
    Outcome act s (fun _ t => t.events = s.events ++ events) fun _ => True :=
  Outcome.imp h fun _ _ hdone => hdone.2.1

theorem Runs.congr {events' : List Event} (h : Runs s ids events post act)
    (hevents : events = events') : Runs s ids events' post act :=
  hevents ▸ h

theorem Runs.andThen {ids' : List NodeId} {events' : List Event} {post' : Sink → Prop}
    {next : Unit → Emit Unit} (h : Runs s ids events post act)
    (hnext : ∀ t, s.Gains ids t → post t → Runs t ids' events' post' (next ())) :
    Runs s (ids ++ ids') (events ++ events') post' (act >>= next) := by
  rw [Runs, outcome_bind]
  apply Outcome.imp h
  intro _ t hfirst
  obtain ⟨ht, hevents, hpost⟩ := hfirst
  apply Outcome.imp (hnext t ht hpost)
  intro _ u hsecond
  obtain ⟨hu, hevents', hpost'⟩ := hsecond
  exact ⟨ht.trans hu, by rw [hevents', hevents, List.append_assoc], hpost'⟩

/-- Text without names or events in front of something else. -/
theorem Runs.before {next : Unit → Emit Unit} (h : Emits s [] act)
    (hnext : ∀ t : Sink, t.scopes = s.scopes → Runs t ids events post (next ())) :
    Runs s ids events post (act >>= next) := by
  rw [Runs, outcome_bind]
  apply (h s rfl).imp
  intro _ t hfirst
  obtain ⟨hscopes, hevents⟩ := hfirst
  apply Outcome.imp (hnext t hscopes)
  intro _ u hsecond
  obtain ⟨hu, hevents', hpost⟩ := hsecond
  have ht : s.Gains [] t := .of_scopes hscopes
  exact ⟨ht.trans hu, by rw [hevents', hevents, List.append_nil], hpost⟩

/-- Text without names or events behind something else. -/
theorem Runs.after {post' : Sink → Prop} {next : Unit → Emit Unit} (h : Runs s ids events post act)
    (hnext : ∀ t, s.Gains ids t → post t → Runs t [] [] post' (next ())) :
    Runs s ids events post' (act >>= next) := by
  simpa using h.andThen hnext

theorem Emits.runs (h : Emits s events act) :
    Runs s [] events (fun t => t.scopes = s.scopes) act :=
  (h s rfl).imp fun _ _ hdone => ⟨.of_scopes hdone.1, hdone.2, hdone.1⟩

theorem Runs.traced (id : NodeId) (debug : Bool) (h : Runs s ids events post act)
    (hpost : ∀ t u : Sink, u.scopes = t.scopes → post t → post u) :
    Runs s ids events post (traced id debug act) := by
  rw [Runs, outcome_traced]
  apply Outcome.imp h
  intro _ t hdone
  obtain ⟨ht, hevents, hdone⟩ := hdone
  have hregion : t.Gains [] (t.finishRegion id s.size debug) := .of_scopes rfl
  exact ⟨(ht.trans hregion).mono (by simp), by simpa using hevents, hpost t _ rfl hdone⟩

/-! ## Locals -/

private theorem runs_bindFresh {id : NodeId} (proposed : String) (text : String → Emit Unit)
    (htext : ∀ name, Emits (s.bind (.value id) name) events (text name)) :
    Runs s [id] events (·.Binds (.value id)) (bindFresh (.value id) proposed >>= text) := by
  rw [Runs, outcome_bind, outcome_bindFresh]
  apply (htext _ _ rfl).imp
  intro _ t hdone
  obtain ⟨hscopes, hevents⟩ := hdone
  have hgains : s.Gains ([id] ++ []) t := (s.gains_bind id _).trans (.of_scopes hscopes)
  have hbinds : t.Binds (.value id) := (Sink.binds_congr hscopes _).mpr (s.binds_bind_self _ _)
  exact ⟨hgains, by rw [hevents, Sink.events_bind], hbinds⟩

theorem runs_declareLocal {e : Expr} {init : Emit Unit}
    (hinit : ∀ t, s.Gains [e.id] t → Emits t events init) :
    Runs s [e.id] events (·.Binds (.value e.id)) (do let _ ← declareLocal env e init) := by
  simp only [declareLocal, bind_assoc, pure_bind]
  apply runs_bindFresh
  intro name
  have hvalue : Emits (s.bind (.value e.id) name) events init := hinit _ (s.gains_bind e.id name)
  exact emits_newLine.before ((emits_write _).before ((emits_append _).before
    (hvalue.after ((emits_append _).before emits_pure))))

theorem runs_reserve (wanted : Bool) (e : Expr) :
    Runs s (if wanted then [e.id] else []) [] (fun t => wanted → t.Binds (.value e.id))
      (reserve env wanted e) := by
  cases wanted with
  | false => exact emits_pure.runs.imp fun _ _ _ h => by cases h
  | true => exact (runs_declareLocal fun _ _ => emits_append _).imp fun _ _ h _ => h

theorem runs_effectText {needed : Bool} {e : Expr}
    (hact : ∀ t, s.Gains (if needed then [e.id] else []) t → Emits t events act) :
    Runs s (if needed then [e.id] else []) events (fun t => needed → t.Binds (.value e.id))
      (effectText env needed e act) := by
  cases needed with
  | false =>
    have htext : Emits s events (effectText env false e act) :=
      emits_newLine.before ((hact s (.of_scopes rfl)).after (emits_append _))
    exact htext.runs.imp fun _ _ _ h => by cases h
  | true => exact (runs_declareLocal hact).imp fun _ _ h _ => h

theorem runs_declarationText {node : Node} {init : Option Expr} (name : String) (writeable : Bool)
    (type : HostType)
    (hinit : ∀ e ∈ init, ∀ t, s.Gains [node.id] t →
      Emits t (env.course e (!env.isVoid e)).value (expression env e)) :
    Runs s [node.id] (init.toList.flatMap fun e => (env.course e (!env.isVoid e)).value)
      (·.Binds (.value node.id)) (declarationText env node name writeable type init) := by
  have hbind (t : Sink) (ht : t.scopes = s.scopes) :
      Runs t [node.id] (init.toList.flatMap fun e => (env.course e (!env.isVoid e)).value)
        (·.Binds (.value node.id))
        (bindFresh (.value node.id) (identifier name) >>= declarator env node type init) := by
    apply runs_bindFresh
    intro text
    have hgains : s.Gains [node.id] (t.bind (.value node.id) text) :=
      ((.of_scopes ht : s.Gains [] t).trans (t.gains_bind node.id text)).mono (by simp)
    cases init with
    | none => exact (emits_write _).before (emits_append _)
    | some e =>
      rw [Option.toList, List.flatMap_singleton]
      have hvalue := hinit e rfl _ hgains
      exact (emits_write _).before ((emits_append _).before
        ((hvalue.converted e _).after (emits_append _)))
  apply Runs.before emits_newLine
  intro t ht
  cases writeable with
  | true => exact hbind t ht
  | false => exact Runs.before (emits_append _) fun u hu => hbind u (hu.trans ht)

theorem emits_assignResult (owner e : Expr) (hact : Emits s events act) :
    Emits s events (assignResult env owner e act) := by
  intro t ht
  simp only [assignResult, outcome_bind, outcome_get, Sink.name?_congr ht]
  cases hs : s.name? (.value owner.id) with
  | none => trivial
  | some name =>
    have hname : Emits s [] (write (.use owner.id (.value owner.id) name)) := by
      simpa [Entry.event?] using emits_write (s := s) (.use owner.id (.value owner.id) name)
    have htext : Emits s events (do
        newLine
        write (.use owner.id (.value owner.id) name)
        append " = "
        converted env e (some (env.types.typeOf owner)) act
        append ";") :=
      emits_newLine.before (hname.before ((emits_append _).before
        ((hact.converted e _).after (emits_append _))))
    exact htext t ht

/-! ## Expressions that follow each other -/

/-- What happens in a scope of its own binds nothing outside. -/
theorem runs_inScope (h : Runs s.openScope ids events post act) :
    Runs s [] events (fun t => t.scopes = s.scopes) (inScope act) := by
  rw [Runs, outcome_inScope]
  apply Outcome.imp h
  intro _ t hdone
  obtain ⟨ht, hevents, _⟩ := hdone
  have hscopes : t.closeScope.scopes = s.scopes := Sink.scopes_closeScope_of_extends ht.toExtends
  exact ⟨.of_scopes hscopes, by simp [hevents], hscopes⟩

/-- The statement form of `e` does what the course says wherever no value of `e` has a name, and
leaves the value standing. -/
def Follows (env : Env) (e : Expr) : Prop :=
  ∀ (s : Sink) (needed : Bool), s.Lacks e.ids →
    Runs s e.ids (env.course e needed).statement (Stands env · needed e) (statement env needed e)

/-- The last one of several expressions, whose value is written if it is `wanted` and there is
one. -/
theorem Follows.runs_last {e : Expr} (h : Follows env e) (hs : s.Lacks e.ids) (wanted : Bool)
    {next : Unit → Emit Unit}
    (hwritten : wanted && !env.isVoid e && !e.exitsEarly → ∀ t, Stands env t true e →
      Emits t (env.course e true).value (next ()))
    (hdropped : (wanted && !env.isVoid e && !e.exitsEarly) = false → ∀ t, Emits t [] (next ())) :
    Runs s e.ids ((env.lastDemands wanted [e]).flatMap env.steps) (fun _ => True)
      (statement env (wanted && !env.isVoid e && !e.exitsEarly) e >>= next) := by
  rw [Env.lastDemands]
  cases hassigned : wanted && !env.isVoid e && !e.exitsEarly with
  | true =>
    have hall : Runs s (e.ids ++ []) ((env.course e true).statement ++ (env.course e true).value)
        (fun _ => True) (statement env true e >>= next) :=
      (h s true hs).andThen fun t _ hstands =>
        (hwritten hassigned t hstands).runs.imp fun _ _ _ => trivial
    exact (hall.mono (by simp)).congr (by simp [Env.steps])
  | false =>
    have hall : Runs s e.ids (env.course e false).statement (fun _ => True)
        (statement env false e >>= next) :=
      (h s false hs).after fun t _ _ => (hdropped hassigned t).runs.imp fun _ _ _ => trivial
    exact hall.congr (by simp [Env.steps])

theorem runs_finishWith {e : Expr} (h : Follows env e) (hs : s.Lacks e.ids) (owner : Expr)
    (wanted : Bool) :
    Runs s e.ids ((env.lastDemands wanted [e]).flatMap env.steps) (fun _ => True)
      (finishWith env owner e wanted (fun needed => statement env needed e)
        (expression env e)) := by
  apply h.runs_last hs wanted
  · intro hassigned t hstands
    rw [if_pos hassigned]
    exact emits_assignResult owner e (expression_emits hstands)
  · intro hdropped t
    rw [hdropped]
    exact emits_pure

/-- Siblings of a tree without sharing that all follow their courses. -/
structure Siblings (env : Env) (es : List Expr) : Prop where
  follows : ∀ e ∈ es, Follows env e
  nodup : (es.flatMap Expr.ids).Nodup

section

variable {first : Expr} {rest : List Expr}

theorem Siblings.tail (h : Siblings env (first :: rest)) : Siblings env rest where
  follows e he := h.follows e (List.mem_cons_of_mem _ he)
  nodup := by
    have hnodup := h.nodup
    rw [List.flatMap_cons] at hnodup
    exact (List.nodup_append.mp hnodup).2.1

theorem Siblings.disjoint (h : Siblings env (first :: rest)) :
    first.ids.Disjoint (rest.flatMap Expr.ids) := by
  have hnodup := h.nodup
  rw [List.flatMap_cons] at hnodup
  exact List.disjoint_of_nodup_append hnodup

theorem Siblings.lacks_tail (h : Siblings env (first :: rest)) {t : Sink}
    (hs : s.Lacks ((first :: rest).flatMap Expr.ids)) (ht : s.Gains first.ids t) :
    t.Lacks (rest.flatMap Expr.ids) :=
  (hs.subset (by simp)).gains ht (List.disjoint_symm h.disjoint)

theorem Siblings.runs_first (h : Siblings env (first :: rest))
    (hs : s.Lacks ((first :: rest).flatMap Expr.ids)) (needed : Bool) :
    Runs s first.ids (env.course first needed).statement (Stands env · needed first)
      (statement env needed first) :=
  h.follows first List.mem_cons_self s needed (hs.subset (by simp))

end

/-- Expressions that follow each other, if all but the last one are statements. -/
theorem Siblings.runs_sequence {exprs : List Expr} (h : Siblings env exprs)
    (hs : s.Lacks (exprs.flatMap Expr.ids)) (wanted : Bool) {body : List Expr → Emit Unit}
    (hnil : body [] = pure ())
    (hlast : ∀ (t : Sink) (e : Expr), Follows env e → t.Lacks e.ids →
      Runs t e.ids ((env.lastDemands wanted [e]).flatMap env.steps) (fun _ => True) (body [e]))
    (hcons : ∀ first second rest, body (first :: second :: rest) = do
      statement env false first
      body (second :: rest)) :
    Runs s (exprs.flatMap Expr.ids) ((env.lastDemands wanted exprs).flatMap env.steps)
      (fun _ => True) (body exprs) := by
  induction exprs generalizing s with
  | nil =>
    rw [hnil]
    exact emits_pure.runs.imp fun _ _ _ => trivial
  | cons first rest ih =>
    cases rest with
    | nil =>
      have hfirst := hlast s first (h.follows first List.mem_cons_self) (hs.subset (by simp))
      exact hfirst.mono (by simp)
    | cons second rest =>
      have hall : Runs s (first.ids ++ (second :: rest).flatMap Expr.ids)
          ((env.course first false).statement ++
            (env.lastDemands wanted (second :: rest)).flatMap env.steps) (fun _ => True) (do
              statement env false first
              body (second :: rest)) :=
        (h.runs_first hs false).andThen fun t ht _ => ih h.tail (h.lacks_tail hs ht)
      rw [hcons]
      exact (hall.mono (by simp)).congr (by simp [Env.lastDemands, Env.steps])

theorem runs_blockBody {exprs : List Expr} (h : Siblings env exprs)
    (hs : s.Lacks (exprs.flatMap Expr.ids)) (block : Expr) (wanted : Bool) :
    Runs s (exprs.flatMap Expr.ids) ((env.lastDemands wanted exprs).flatMap env.steps)
      (fun _ => True) (blockBody env block wanted exprs) := by
  apply h.runs_sequence hs wanted rfl
  · exact fun t e hfollows ht => runs_finishWith hfollows ht block wanted
  · exact fun _ _ _ => rfl

private theorem runs_braces (brace : Brace)
    (h : ∀ t : Sink, t.scopes = s.scopes → Runs t.openScope ids events post act) :
    Runs s [] events (fun t => t.scopes = s.scopes) (do
      openBrace brace
      inScope act
      closeBrace brace) := by
  apply Runs.before (emits_openBrace brace)
  intro t ht
  apply (runs_inScope (h t ht)).after
  intro u _ hu
  exact (emits_closeBrace brace).runs.imp fun v _ hv => hv.trans (hu.trans ht)

theorem runs_bracedBody {exprs : List Expr} (h : Siblings env exprs)
    (hs : s.Lacks (exprs.flatMap Expr.ids)) (block : Expr) (wanted : Bool) :
    Runs s [] ((env.lastDemands wanted exprs).flatMap env.steps) (fun t => t.scopes = s.scopes)
      (bracedBody env block wanted exprs) := by
  apply Runs.before emits_newLine
  intro t ht
  have hbraces := runs_braces .block fun u (hu : u.scopes = t.scopes) =>
    runs_blockBody h (hs.of_scopes (hu.trans ht)).openScope block wanted
  exact hbraces.imp fun u _ hu => hu.trans ht

theorem runs_bracedBranch {e : Expr} (h : Follows env e) (hs : s.Lacks e.ids) (owner : Expr)
    (wanted : Bool) :
    Runs s [] ((env.lastDemands wanted [e]).flatMap env.steps) (fun t => t.scopes = s.scopes)
      (bracedBranch env owner e wanted) :=
  runs_braces .branch fun _ ht => runs_finishWith h (hs.of_scopes ht).openScope owner wanted

theorem runs_branchText {owner cond yes : Expr} {no : Option Expr} {wanted : Bool}
    {condEvents : List Event} (hcond : Emits s condEvents (expression env cond))
    (h : ∀ e ∈ yes :: no.toList, Follows env e ∧ s.Lacks e.ids) :
    Runs s [] (condEvents ++
        (yes :: no.toList).flatMap fun e => (env.lastDemands wanted [e]).flatMap env.steps)
      (fun t => t.scopes = s.scopes) (branchText env owner cond yes no wanted) := by
  have hhead : Emits s condEvents (conditionText env cond) :=
    emits_newLine.before ((emits_append _).before ((hcond.converted cond _).after
      (emits_append _)))
  have hbraced (e : Expr) (he : e ∈ yes :: no.toList) (t : Sink) (ht : t.scopes = s.scopes) :
      Runs t [] ((env.lastDemands wanted [e]).flatMap env.steps) (fun u => u.scopes = s.scopes)
        (bracedBranch env owner e wanted) :=
    (runs_bracedBranch (h e he).1 ((h e he).2.of_scopes ht) owner wanted).imp
      fun u _ hu => hu.trans ht
  apply hhead.runs.andThen
  intro t _ ht
  rw [List.flatMap_cons]
  apply (hbraced yes List.mem_cons_self t ht).andThen
  intro u _ hu
  cases no with
  | none => exact emits_pure.runs.imp fun v _ hv => hv.trans hu
  | some no =>
    rw [Option.toList, List.flatMap_singleton]
    exact Runs.before (emits_append _) fun v hv => hbraced no (by simp) v (hv.trans hu)

theorem runs_statements {es : List Expr} (h : Siblings env es)
    (hs : s.Lacks (es.flatMap Expr.ids)) :
    Runs s (es.flatMap Expr.ids) (es.flatMap fun e => (env.course e true).statement)
      (fun t => ∀ e ∈ es, Stands env t true e) (statements env es) := by
  induction es generalizing s with
  | nil => exact emits_pure.runs.imp fun _ _ _ => by simp
  | cons first rest ih =>
    apply (h.runs_first hs true).andThen
    intro t ht hfirst
    apply (ih h.tail (h.lacks_tail hs ht)).imp
    intro u hu hrest e he
    rcases List.mem_cons.mp he with rfl | he
    · exact hfirst.gains hu h.disjoint
    · exact hrest e he

/-! ## Nodes -/

variable {needed : Bool} {e : Expr}

private theorem lacks_children (hs : s.Lacks e.ids) : s.Lacks (e.children.flatMap Expr.ids) :=
  hs.subset (by simp [Expr.ids_eq e])

private theorem ids_subset : e.children.flatMap Expr.ids ++ [e.id] ⊆ e.ids := by
  rw [Expr.ids_eq e]
  simp

private theorem Runs.node (h : Runs s (e.children.flatMap Expr.ids ++ [e.id]) events
      (Stands env · needed e) act)
    (hevents : events = (env.course e needed).statement) :
    Runs s e.ids (env.course e needed).statement (Stands env · needed e)
      (Emit.traced e.id true act) := by
  have htraced := (h.mono ids_subset).traced e.id true fun t u hu hstands =>
    hstands.gains (.of_scopes hu : t.Gains [] u) (List.disjoint_nil_right _)
  exact htraced.congr hevents

private theorem not_binds_id {t : Sink} (hs : s.Lacks e.ids)
    (ht : s.Gains (e.children.flatMap Expr.ids) t) (hunshared : e.Unshared) :
    ¬ t.Binds (.value e.id) := by
  intro hbinds
  rcases ht.fresh _ hbinds with hbefore | hmem
  · exact hs _ e.id_mem_ids hbefore
  · exact ((Expr.unshared_iff e).mp hunshared).1 hmem

private theorem steps_operandsOf (h : ∀ d ∈ env.demands needed e, d.needed ∧ d.place ≠ .written) :
    (env.demands needed e).flatMap env.steps =
      e.children.flatMap fun e => (env.course e true).statement := by
  rw [← env.child_demands needed e, List.flatMap_map]
  apply List.flatMap_congr
  intro d hd
  obtain ⟨hneeded, hplace⟩ := h d hd
  simp [Env.steps, hneeded, hplace]

private theorem stands_operands {t u : Sink} {ids : List NodeId} (hunshared : e.Unshared)
    (hoperands : ∀ d ∈ env.demands needed e, d.needed ∧ d.place ≠ .written)
    (h : ∀ child ∈ e.children, Stands env t true child) (hu : t.Gains ids u)
    (hids : ids ⊆ [e.id]) :
    ∀ d ∈ env.demands needed e, d.place = .stored → Stands env u d.needed d.child := by
  intro d hd _
  have hchild := Env.mem_children hd
  have hstands : Stands env t d.needed d.child := (hoperands d hd).1 ▸ h d.child hchild
  apply hstands.gains hu
  intro i hi hmem
  obtain rfl : i = e.id := List.mem_singleton.mp (hids hmem)
  exact ((Expr.unshared_iff e).mp hunshared).1 (List.mem_flatMap.mpr ⟨d.child, hchild, hi⟩)

private theorem runs_effect (hunshared : e.Unshared) (h : Siblings env e.children)
    (hs : s.Lacks e.ids) (heffect : e.isEffect)
    (hoperands : ∀ d ∈ env.demands needed e, d.needed ∧ d.place ≠ .written)
    (hact : ∀ t, WritesParts env t needed e →
      (env.hoists needed e = false → ¬ t.Binds (.value e.id)) → Emits t (env.text needed e) act) :
    Runs s e.ids (env.course e needed).statement (Stands env · needed e) (traced e.id true (do
      statements env e.children
      effectText env (env.hoists needed e) e act)) := by
  have hids : (if env.hoists needed e then [e.id] else []) ⊆ [e.id] := by split <;> simp
  have hbody : Runs s (e.children.flatMap Expr.ids ++ if env.hoists needed e then [e.id] else [])
      ((e.children.flatMap fun e => (env.course e true).statement) ++ env.text needed e)
      (Stands env · needed e) (do
        statements env e.children
        effectText env (env.hoists needed e) e act) := by
    apply (runs_statements h (lacks_children hs)).andThen
    intro t ht hchildren
    have hparts (u : Sink) (hu : t.Gains (if env.hoists needed e then [e.id] else []) u) :=
      stands_operands hunshared hoperands hchildren hu hids
    have hunnamed (hhoists : env.hoists needed e = false) (u : Sink)
        (hu : t.Gains (if env.hoists needed e then [e.id] else []) u) :
        ¬ u.Binds (.value e.id) := by
      rw [hhoists] at hu
      exact not_binds_id hs ((ht.trans hu).mono (by simp)) hunshared
    have htext (u : Sink) (hu : t.Gains (if env.hoists needed e then [e.id] else []) u) :
        Emits u (env.text needed e) act :=
      hact u (fun d hd hstored => expression_emits (hparts u hu d hd hstored))
        fun hhoists => hunnamed hhoists u hu
    apply (runs_effectText htext).imp
    intro u hu hbinds
    cases hhoists : env.hoists needed e with
    | true => exact .named hhoists (hbinds hhoists)
    | false => exact .unnamed hhoists (hunnamed hhoists u hu) (hparts u hu)
  apply (hbody.mono (List.append_subset.mpr
    ⟨List.subset_append_left _ _, List.Subset.trans hids (List.subset_append_right _ _)⟩)).node
  rw [Env.statement_course, steps_operandsOf hoperands, heffect, if_pos rfl]

private theorem operand_of_mem {stored : Bool} {es : List Expr} {d : Demand}
    (h : d ∈ es.map (.operand stored)) : d.needed ∧ d.place ≠ .written := by
  obtain ⟨operand, _, rfl⟩ := List.mem_map.mp h
  cases stored <;> exact ⟨rfl, by simp [Demand.operand]⟩

private theorem operands_call {node : Node} {feature : Feature} {receiver : Option Expr}
    {args : List Expr} : ∀ d ∈ env.demands needed (.call node feature receiver args),
      d.needed ∧ d.place ≠ .written := fun _ hd =>
  (List.mem_append.mp hd).elim operand_of_mem operand_of_mem

private theorem runs_inline (needed : Bool) (hunshared : e.Unshared) (h : Siblings env e.children)
    (hs : s.Lacks e.ids) (heffect : e.isEffect = false) (hhoists : env.hoists needed e = false)
    (hoperands : ∀ d ∈ env.demands needed e, d.needed ∧ d.place ≠ .written) :
    Runs s e.ids (env.course e needed).statement (Stands env · needed e)
      (traced e.id true (statements env e.children)) := by
  have hbody : Runs s (e.children.flatMap Expr.ids)
      (e.children.flatMap fun e => (env.course e true).statement) (Stands env · needed e)
      (statements env e.children) := by
    apply (runs_statements h (lacks_children hs)).imp
    intro t ht hchildren
    have hself : t.Gains [] t := .of_scopes rfl
    exact .unnamed hhoists (not_binds_id hs ht hunshared)
      (stands_operands hunshared hoperands hchildren hself (by simp))
  apply (hbody.mono (List.subset_append_left _ _)).node
  rw [Env.statement_course, steps_operandsOf hoperands, heffect]
  simp

private theorem runs_call {node : Node} {feature : Feature} {receiver : Option Expr}
    {args : List Expr} (hunshared : (Expr.call node feature receiver args).Unshared)
    (h : Siblings env (Expr.call node feature receiver args).children) :
    Follows env (.call node feature receiver args) := by
  intro s needed hs
  rw [statement_call]
  cases hinvokes : feature.isInvocation with
  | true =>
    have hhoists : env.hoists needed (.call node feature receiver args) =
        (needed && !env.isVoid (.call node feature receiver args)) := by
      simp [Env.hoists, hinvokes]
    simp only [if_true, ← hhoists]
    exact runs_effect hunshared h hs hinvokes operands_call fun t hparts _ =>
      emits_invocation hinvokes hparts
  | false =>
    simp only [Bool.false_eq_true, if_false, bind_pure_unit]
    exact runs_inline needed hunshared h hs hinvokes (by simp [Env.hoists, hinvokes]) operands_call

private theorem runs_cast {node : Node} {type : WrittenType} {value : Expr}
    (hunshared : (Expr.cast node type value).Unshared)
    (h : Siblings env (Expr.cast node type value).children) :
    Follows env (.cast node type value) := by
  intro s needed hs
  have hone : statements env (Expr.cast node type value).children = statement env true value := by
    simp [Expr.children, statements]
  have hinline := runs_inline needed hunshared h hs rfl rfl (by simp [Env.demands])
  rw [hone] at hinline
  exact hinline

private theorem runs_construct {node : Node} {type : WrittenType}
    {params throws : List WrittenType} {args : List Expr}
    (hunshared : (Expr.construct node type params throws args).Unshared)
    (h : Siblings env (Expr.construct node type params throws args).children) :
    Follows env (.construct node type params throws args) := by
  intro s needed hs
  rw [statement_construct]
  exact runs_effect hunshared h hs rfl (fun _ hd => operand_of_mem hd) fun t hparts _ =>
    emits_construction hparts

private theorem runs_assign {node : Node} {target : Feature} {receiver : Option Expr}
    {value : Expr} (hunshared : (Expr.assign node target receiver value).Unshared)
    (h : Siblings env (Expr.assign node target receiver value).children) :
    Follows env (.assign node target receiver value) := by
  intro s needed hs
  rw [statement_assign]
  have hoperands : ∀ d ∈ env.demands needed (.assign node target receiver value),
      d.needed ∧ d.place ≠ .written := fun d hd => by
    rcases List.mem_append.mp hd with hmem | hmem
    · exact operand_of_mem hmem
    · have hvalue : d ∈ [value].map (.operand true) := hmem
      exact operand_of_mem hvalue
  exact runs_effect hunshared h hs rfl hoperands fun t hparts hname =>
    emits_assignment (hname rfl) hparts

private theorem stands_bare {t : Sink}
    (hname : env.hoists needed e = false → ¬ t.Binds (.value e.id))
    (hbinds : env.hoists needed e → t.Binds (.value e.id))
    (hparts : ∀ d ∈ env.demands needed e, d.place ≠ .stored) : Stands env t needed e := by
  cases hhoists : env.hoists needed e with
  | true => exact .named hhoists (hbinds hhoists)
  | false =>
    exact .unnamed hhoists (hname hhoists) fun d hd hstored => absurd hstored (hparts d hd)

private theorem runs_literal {node : Node} {value : Literal} :
    Follows env (.literal node value) := by
  intro s needed hs
  have hbody : Runs s [] [] (Stands env · needed (.literal node value)) (pure ()) :=
    emits_pure.runs.imp fun t _ ht =>
      stands_bare (fun _ => (hs.of_scopes ht) _ (Expr.id_mem_ids _)) nofun (by simp [Env.demands])
  exact (hbody.mono (List.nil_subset _)).node rfl

private theorem runs_emptyBlock {node : Node} : Follows env (.block node []) := by
  intro s needed hs
  have hbody : Runs s [] [] (Stands env · needed (.block node [])) (pure ()) :=
    emits_pure.runs.imp fun t _ ht =>
      stands_bare (fun _ => (hs.of_scopes ht) _ (Expr.id_mem_ids _)) nofun
        (by simp [Env.demands, Env.lastDemands])
  exact (hbody.mono (List.nil_subset _)).node rfl

private theorem runs_singleton {node : Node} {only : Expr}
    (hunshared : (Expr.block node [only]).Unshared) (h : Follows env only) :
    Follows env (.block node [only]) := by
  intro s needed hs
  have hids : (Expr.block node [only]).children.flatMap Expr.ids = only.ids := by
    simp [Expr.children]
  have hbody : Runs s only.ids (env.course only needed).statement
      (Stands env · needed (.block node [only])) (statement env needed only) := by
    apply (h s needed (hs.subset (by simp [Expr.ids_eq, Expr.children]))).imp
    intro t ht hstands
    rw [← hids] at ht
    refine .unnamed rfl (not_binds_id hs ht hunshared) fun d hd _ => ?_
    obtain rfl := List.mem_singleton.mp hd
    exact hstands
  apply (hbody.mono (by simp [hids])).node
  rw [env.statement_course (.block node [only])]
  simp [Env.demands, Env.steps, Expr.isEffect]

private theorem disjoint_id (hunshared : e.Unshared) :
    (e.children.flatMap Expr.ids).Disjoint [e.id] := by
  intro i hi hmem
  obtain rfl : i = e.id := List.mem_singleton.mp hmem
  exact ((Expr.unshared_iff e).mp hunshared).1 hi

private theorem runs_decl {node : Node} {name : String} {type : Option WrittenType}
    {writeable : Bool} {init : Option Expr}
    (hunshared : (Expr.decl node name type writeable init).Unshared)
    (h : ∀ child ∈ init, Follows env child) :
    Follows env (.decl node name type writeable init) := by
  intro s needed hs
  rw [statement_decl]
  have hstands (t : Sink) (hbinds : t.Binds (.value node.id)) :
      Stands env t needed (.decl node name type writeable init) := .named rfl hbinds
  cases init with
  | none =>
    have hbody : Runs s [node.id] [] (Stands env · needed (.decl node name type writeable none))
        (declarationText env node name writeable (declaredType env type none) none) :=
      (runs_declarationText name writeable _ (by simp)).imp fun t _ ht => hstands t ht
    exact (hbody.mono (List.subset_append_right _ _)).node rfl
  | some init =>
    have hchild : init ∈ (Expr.decl node name type writeable (some init)).children :=
      List.mem_cons_self
    have hbody : Runs s (init.ids ++ [node.id]) ((env.course init (!env.isVoid init)).statement ++
        (env.course init (!env.isVoid init)).value)
        (Stands env · needed (.decl node name type writeable (some init))) (do
          statement env (!env.isVoid init) init
          declarationText env node name writeable (declaredType env type (some init))
            (some init)) := by
      apply (h init rfl s _ (hs.subset fun i hi => Expr.mem_ids_of_mem_children hchild hi)).andThen
      intro t ht hinit
      have hdisjoint : ([init].flatMap Expr.ids).Disjoint [node.id] := disjoint_id hunshared
      rw [List.flatMap_singleton] at hdisjoint
      apply ((runs_declarationText name writeable _ fun e he u hu => ?_).imp
        fun u _ hu => hstands u hu).congr (by simp)
      obtain rfl := Option.mem_some_iff.mp he
      exact expression_emits (hinit.gains hu hdisjoint)
    apply (hbody.mono (by simp [Expr.children, Expr.id, Expr.node])).node
    rw [env.statement_course (.decl node name type writeable (some init))]
    simp [Env.demands, Env.steps, Expr.isEffect]

private theorem runs_written {value : Expr} {next : Unit → Emit Unit} (needed needed' : Bool)
    (place : Place) (hunshared : e.Unshared) (hchildren : e.children = [value])
    (h : Follows env value) (hs : s.Lacks e.ids) (heffect : e.isEffect = false)
    (hhoists : env.hoists needed e = false)
    (hdemands : env.demands needed e = [⟨value, needed', place⟩]) (hplace : place ≠ .stored)
    (hnext : ∀ t, Stands env t needed' value →
      Emits t (if place = .written then (env.course value needed').value else []) (next ())) :
    Runs s e.ids (env.course e needed).statement (Stands env · needed e)
      (traced e.id true (statement env needed' value >>= next)) := by
  have hids : e.children.flatMap Expr.ids = value.ids := by simp [hchildren]
  have hbody : Runs s (value.ids ++ []) ((env.course value needed').statement ++
      if place = .written then (env.course value needed').value else [])
      (Stands env · needed e) (statement env needed' value >>= next) := by
    apply (h s needed' (hs.subset (by simp [Expr.ids_eq e, hids]))).andThen
    intro t ht hstands
    apply (hnext t hstands).runs.imp
    intro u hu _
    have hgains : s.Gains (e.children.flatMap Expr.ids) u := (ht.trans hu).mono (by simp [hids])
    exact stands_bare (fun _ => not_binds_id hs hgains hunshared) (by simp [hhoists])
      (by simpa [hdemands] using hplace)
  apply (hbody.mono (by simp [hids])).node
  rw [env.statement_course e]
  simp [hdemands, Env.steps, heffect]

private theorem runs_ret {node : Node} {value : Option Expr}
    (hunshared : (Expr.ret node value).Unshared) (h : ∀ child ∈ value, Follows env child) :
    Follows env (.ret node value) := by
  intro s needed hs
  cases value with
  | none =>
    have hbody : Runs s [] [] (Stands env · needed (.ret node none)) (do
        newLine
        append "return;") :=
      (emits_newLine.before (emits_append _)).runs.imp fun t _ ht =>
        stands_bare (fun _ => (hs.of_scopes ht) _ (Expr.id_mem_ids _)) nofun (by simp [Env.demands])
    exact (hbody.mono (List.nil_subset _)).node rfl
  | some value =>
    rw [statement]
    cases hvoid : env.isVoid value with
    | true =>
      simp only [if_true]
      exact runs_written needed false .dropped hunshared rfl (h value rfl) hs rfl rfl
        (by simp [Env.demands, hvoid]) (by simp) fun t _ => emits_newLine.before (emits_append _)
    | false =>
      simp only [Bool.false_eq_true, if_false]
      exact runs_written needed true .written hunshared rfl (h value rfl) hs rfl rfl
        (by simp [Env.demands, hvoid]) (by simp) fun t hstands => emits_newLine.before
          ((emits_append _).before (((expression_emits hstands).converted _ _).after
            (emits_append _)))

private theorem runs_raise {node : Node} {value : Expr}
    (hunshared : (Expr.raise node value).Unshared) (h : Follows env value) :
    Follows env (.raise node value) := by
  intro s needed hs
  exact runs_written needed true .written hunshared rfl h hs rfl rfl rfl (by simp) fun t hstands =>
    emits_newLine.before ((emits_append _).before ((expression_emits hstands).after
      (emits_append _)))

private theorem not_stored_of_mem {wanted : Bool} {es : List Expr} {d : Demand}
    (h : d ∈ env.lastDemands wanted es) : d.place ≠ .stored := by
  rcases env.mem_lastDemands h with ⟨_, hplace, _⟩ | hplace <;> simp [hplace]

private theorem runs_reserved {next : Unit → Emit Unit} (hname : ¬ s.Binds (.value e.id))
    (hparts : ∀ d ∈ env.demands needed e, d.place ≠ .stored)
    (h : ∀ t, s.Gains [e.id] t → Runs t [] events (fun u => u.scopes = t.scopes) (next ())) :
    Runs s [e.id] events (Stands env · needed e)
      (reserve env (env.hoists needed e) e >>= next) := by
  have hids : (if env.hoists needed e then [e.id] else []) ⊆ [e.id] := by split <;> simp
  have hall : Runs s ((if env.hoists needed e then [e.id] else []) ++ []) ([] ++ events)
      (Stands env · needed e) (reserve env (env.hoists needed e) e >>= next) := by
    apply (runs_reserve (env.hoists needed e) e).andThen
    intro t ht hbinds
    apply (h t (ht.mono hids)).imp
    intro u _ hu
    apply stands_bare _ (fun hhoists => (Sink.binds_congr hu _).mpr (hbinds hhoists)) hparts
    intro hhoists hbound
    rw [hhoists] at ht
    exact (ht.fresh _ ((Sink.binds_congr hu _).mp hbound)).elim hname (by simp)
  exact hall.mono (by simpa using hids)

private theorem runs_block {node : Node} {first second : Expr} {rest : List Expr}
    (hunshared : (Expr.block node (first :: second :: rest)).Unshared)
    (h : Siblings env (first :: second :: rest)) :
    Follows env (.block node (first :: second :: rest)) := by
  intro s needed hs
  have hbraced (t : Sink) (ht : s.Gains [node.id] t) :
      Runs t [] ((env.demands needed (.block node (first :: second :: rest))).flatMap env.steps)
        (fun u => u.scopes = t.scopes) (bracedBody env (.block node (first :: second :: rest))
          (env.hoists needed (.block node (first :: second :: rest))) (first :: second :: rest)) :=
    runs_bracedBody h ((lacks_children hs).gains ht (disjoint_id hunshared)) _ _
  have hbody : Runs s [node.id]
      ((env.demands needed (.block node (first :: second :: rest))).flatMap env.steps)
      (Stands env · needed (.block node (first :: second :: rest))) (do
        reserve env (env.hoists needed (.block node (first :: second :: rest)))
          (.block node (first :: second :: rest))
        bracedBody env (.block node (first :: second :: rest))
          (env.hoists needed (.block node (first :: second :: rest))) (first :: second :: rest)) :=
    runs_reserved (hs _ (Expr.id_mem_ids _)) (fun _ hd => not_stored_of_mem hd) hbraced
  rw [statement_block]
  apply (hbody.mono (List.subset_append_right _ _)).node
  rw [env.statement_course (.block node (first :: second :: rest))]
  simp [Expr.isEffect]

private theorem runs_branch {node : Node} {cond yes : Expr} {no : Option Expr}
    (hunshared : (Expr.branch node cond yes no).Unshared)
    (h : Siblings env (Expr.branch node cond yes no).children) :
    Follows env (.branch node cond yes no) := by
  intro s needed hs
  have hown : (cond.ids ++ (yes :: no.toList).flatMap Expr.ids).Disjoint [node.id] :=
    disjoint_id hunshared
  have hbranches (t u : Sink) (ht : s.Gains cond.ids t) (hu : t.Gains [node.id] u) :
      u.Lacks ((yes :: no.toList).flatMap Expr.ids) :=
    (h.lacks_tail (lacks_children hs) ht).gains hu
      ((List.disjoint_append_left.mp hown).2)
  have htext (t u : Sink) (ht : s.Gains cond.ids t) (hcond : Stands env t true cond)
      (hu : t.Gains [node.id] u) :
      Runs u [] ((env.course cond true).value ++ (yes :: no.toList).flatMap fun e =>
          (env.lastDemands (env.hoists needed (.branch node cond yes no)) [e]).flatMap env.steps)
        (fun v => v.scopes = u.scopes) (branchText env (.branch node cond yes no) cond yes no
          (env.hoists needed (.branch node cond yes no))) :=
    runs_branchText (expression_emits (hcond.gains hu (List.disjoint_append_left.mp hown).1))
      fun e he => ⟨h.follows e (List.mem_cons_of_mem _ he), (hbranches t u ht hu).subset
        fun i hi => List.mem_flatMap.mpr ⟨e, he, hi⟩⟩
  have hparts : ∀ d ∈ env.demands needed (.branch node cond yes no), d.place ≠ .stored := by
    intro d hd
    rcases List.mem_cons.mp hd with rfl | hd
    · simp
    · obtain ⟨e, _, hd⟩ := List.mem_flatMap.mp hd
      exact not_stored_of_mem hd
  have hbody : Runs s (cond.ids ++ [node.id])
      ((env.course cond true).statement ++ ((env.course cond true).value ++
        (yes :: no.toList).flatMap fun e =>
          (env.lastDemands (env.hoists needed (.branch node cond yes no)) [e]).flatMap env.steps))
      (Stands env · needed (.branch node cond yes no)) (do
        statement env true cond
        reserve env (env.hoists needed (.branch node cond yes no)) (.branch node cond yes no)
        branchText env (.branch node cond yes no) cond yes no
          (env.hoists needed (.branch node cond yes no))) := by
    apply (h.runs_first (lacks_children hs) true).andThen
    intro t ht hcond
    have hname : ¬ t.Binds (.value node.id) :=
      not_binds_id hs (ht.mono (List.subset_append_left _ _)) hunshared
    exact runs_reserved hname hparts fun u hu => htext t u ht hcond hu
  rw [statement_branch]
  apply (hbody.mono (by simp [Expr.children, Expr.id, Expr.node])).node
  rw [env.statement_course (.branch node cond yes no)]
  simp [Env.demands, Env.steps, Env.hoists, Expr.isEffect, List.flatMap_assoc]

/-- The statement form of a tree without sharing follows the course of the tree. -/
theorem statement_follows (env : Env) (e : Expr) (hunshared : e.Unshared) : Follows env e := by
  induction e using Expr.childInduction with
  | step e ih =>
    have hchild (child : Expr) (hchild : child ∈ e.children) : Follows env child :=
      ih child hchild (hunshared.child hchild)
    have hsiblings : Siblings env e.children := ⟨hchild, ((Expr.unshared_iff e).mp hunshared).2⟩
    cases e with
    | literal node value => exact runs_literal
    | block node exprs =>
      rcases exprs with _ | ⟨first, _ | ⟨second, rest⟩⟩
      · exact runs_emptyBlock
      · exact runs_singleton hunshared (hchild first List.mem_cons_self)
      · exact runs_block hunshared hsiblings
    | decl node name type writeable init =>
      exact runs_decl hunshared fun child h => hchild child (Option.mem_toList.mpr h)
    | call node feature receiver args => exact runs_call hunshared hsiblings
    | construct node type params throws args => exact runs_construct hunshared hsiblings
    | branch node cond yes no => exact runs_branch hunshared hsiblings
    | ret node value =>
      exact runs_ret hunshared fun child h => hchild child (Option.mem_toList.mpr h)
    | raise node value => exact runs_raise hunshared (hchild value List.mem_cons_self)
    | cast node type value => exact runs_cast hunshared hsiblings
    | assign node target receiver value => exact runs_assign hunshared hsiblings
    | extension node kind children => exact fun _ _ _ => trivial

end Lowering.Emit
