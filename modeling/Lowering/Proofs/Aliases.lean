import Lowering.Proofs.Emission.Steadiness
import Lowering.Proofs.Running
import Lowering.Proofs.Typing.Instances

/-!
# Instances inside function literals

Inside a function literal the words `this` and `super` would stand for the literal itself, so a
literal names the enclosing instance by its class. Main statement: whenever a single expression is
written as a literal, every read of the enclosing instance or of its supertype is written by such a
name, unless both have the same erased type, where all reads get the name of the supertype.
-/

namespace Lowering

namespace Sink

variable {s : Sink} {type superType : HostType}

/-- The type that the sink has for the enclosing instance or for its supertype. -/
def instance? (s : Sink) : FeatureKind → Option HostType
  | .this => s.object? "this"
  | .super => s.object? "super"
  | _ => none

/-- The name of the instance inside a function literal. -/
inductive Aliases (s : Sink) : FeatureKind → String → Prop
  | this {type : HostType} (hthis : s.object? "this" = some type)
      (hsuper : ∀ superType, s.object? "super" = some superType →
        superType.qualifiedName ≠ type.qualifiedName) : Aliases s .this (type.simpleName ++ ".this")
  /-- Of two instances with one erased type, the later alias hides the earlier one. -/
  | hidden {type superType : HostType} (hthis : s.object? "this" = some type)
      (hsuper : s.object? "super" = some superType)
      (hsame : superType.qualifiedName = type.qualifiedName) :
      Aliases s .this (type.simpleName ++ ".super")
  | super {type superType : HostType} (hthis : s.object? "this" = some type)
      (hsuper : s.object? "super" = some superType) :
      Aliases s .super (type.simpleName ++ ".super")

/-- The sink in which a function literal has given instances other names. -/
def aliased (s : Sink) : Sink :=
  match s.object? "this" with
  | none => s
  | some type =>
    let t := s.bind (.instanceOf type.hash) (type.simpleName ++ ".this")
    match s.object? "super" with
    | none => t
    | some superType => t.bind (.instanceOf superType.hash) (type.simpleName ++ ".super")

theorem aliased_of_none (hthis : s.object? "this" = none) : s.aliased = s := by
  rw [aliased, hthis]

theorem name?_aliased_value (s : Sink) (id : NodeId) :
    s.aliased.name? (.value id) = s.name? (.value id) := by
  unfold aliased
  split
  · rfl
  · dsimp only
    split <;> simp [name?_bind_of_ne]

theorem object?_openScope (s : Sink) (key : String) : s.openScope.object? key = s.object? key :=
  rfl

theorem name?_openScope (s : Sink) (key : NameKey) : s.openScope.name? key = s.name? key :=
  rfl

/-- In a scope of its own a literal makes the same names visible. -/
theorem name?_aliased_openScope (s : Sink) (key : NameKey) :
    s.openScope.aliased.name? key = s.aliased.name? key := by
  have hbind {t u : Sink} (htu : ∀ key, t.name? key = u.name? key) (bound : NameKey)
      (name : String) (key : NameKey) :
      (t.bind bound name).name? key = (u.bind bound name).name? key := by
    by_cases hkey : key = bound
    · rw [hkey, name?_bind_self, name?_bind_self]
    · rw [name?_bind_of_ne t hkey, name?_bind_of_ne u hkey, htu]
  simp only [aliased, object?_openScope]
  split
  · exact s.name?_openScope key
  · split
    · exact hbind s.name?_openScope _ _ key
    · exact hbind (hbind s.name?_openScope _ _) _ _ key

/-- Both kinds of instance are looked up by their types, and `super` is bound last. -/
theorem name?_aliased_super (hthis : s.object? "this" = some type)
    (hsuper : s.object? "super" = some superType) :
    s.aliased.name? (.instanceOf superType.hash) = some (type.simpleName ++ ".super") := by
  simp [aliased, hthis, hsuper]

theorem name?_aliased_this (hthis : s.object? "this" = some type)
    (hsuper : ∀ superType, s.object? "super" = some superType → superType.hash ≠ type.hash) :
    s.aliased.name? (.instanceOf type.hash) = some (type.simpleName ++ ".this") := by
  cases hsuperType : s.object? "super" with
  | none => simp [aliased, hthis, hsuperType]
  | some superType =>
    have hne : NameKey.instanceOf type.hash ≠ .instanceOf superType.hash := by
      simpa using (hsuper superType hsuperType).symm
    simp [aliased, hthis, hsuperType, name?_bind_of_ne _ hne]

/-- A literal gives every instance a name, as long as hashes tell the two types apart. -/
theorem exists_alias {kind : FeatureKind}
    (hhash : ∀ type superType, s.object? "this" = some type → s.object? "super" = some superType →
      superType.hash = type.hash → superType.qualifiedName = type.qualifiedName)
    (hthis : (s.object? "this").isSome) (hkind : s.instance? kind = some type) :
    ∃ name, s.aliased.name? (.instanceOf type.hash) = some name ∧ s.Aliases kind name := by
  obtain ⟨thisType, hthis⟩ := Option.isSome_iff_exists.mp hthis
  cases kind with
  | super => exact ⟨_, name?_aliased_super hthis hkind, .super hthis hkind⟩
  | this =>
    obtain rfl : type = thisType := Option.some.inj (hkind.symm.trans hthis)
    by_cases hsame : ∃ superType, s.object? "super" = some superType ∧
        superType.qualifiedName = type.qualifiedName
    · obtain ⟨superType, hsuper, hsame⟩ := hsame
      have hequal : type.hash = superType.hash := congrArg TypeHash.ofName hsame.symm
      rw [hequal]
      exact ⟨_, name?_aliased_super hthis hsuper, .hidden hthis hsuper hsame⟩
    · have hother (superType : HostType) (hsuper : s.object? "super" = some superType) :
          superType.qualifiedName ≠ type.qualifiedName :=
        fun heq => hsame ⟨superType, hsuper, heq⟩
      have hne (superType : HostType) (hsuper : s.object? "super" = some superType) :
          superType.hash ≠ type.hash :=
        fun heq => hother superType hsuper (hhash type superType hthis hsuper heq)
      exact ⟨_, name?_aliased_this hthis hne, .this hthis hother⟩
  | _ => cases hkind

end Sink

namespace Emit

variable {env : Env} {e : Expr} {s t : Sink}

theorem run_aliasInstances (s : Sink) : aliasInstances.run.run s = (.ok (), s.aliased) := by
  have hobject (key : NameKey) (name : String) :
      (s.bind key name).object? "super" = s.object? "super" := rfl
  simp only [aliasInstances, run_bind, run_get, Sink.aliased]
  cases hthis : s.object? "this" with
  | none => rfl
  | some type =>
    simp only [run_bind, run_get, run_modify, hobject]
    cases s.object? "super" <;> rfl

theorem opens_aliased (s : Sink) : s.Opens s.aliased := by
  obtain ⟨_, t, hrun, hopens⟩ := opens_aliasInstances s
  obtain rfl : t = s.aliased := congrArg Prod.snd (hrun.symm.trans (run_aliasInstances s))
  exact hopens

/-- What a function literal writes for node `i` are names of kept keys, and these are the names that
the literal gave or left to them before its text. -/
theorem logs_functionLiteral {i : NodeId} {kept : NameKey → Prop} {expected : Option HostType}
    {guarded : Bool} (hown : ∀ x ∈ e.occurrences, x.needsLocal → ¬ kept (.value x.id))
    (hkeys : e.LooksUp env.types fun id key => id = i → kept key)
    (hrun : (functionLiteral env e expected guarded).run.run s = (.ok (), t)) :
    s.Logs (fun entry => ∀ key name, entry = .use i key name →
      kept key ∧ s.aliased.Names key name) t := by
  let allowed (entry : Entry) : Prop := ∀ key name, entry = .use i key name →
    kept key ∧ s.aliased.Names key name
  have hquiet (entry : Entry) (hentry : entry.isQuiet) : allowed entry := by
    rintro key name rfl
    cases hentry
  obtain ⟨callable, result, hliteral⟩ := exists_functionLiteral_eq env e expected guarded
  rw [hliteral] at hrun
  obtain ⟨_, a, haliases, htext⟩ := exists_run_of_bind_ok hrun
  obtain rfl : a = s.aliased := congrArg Prod.snd (haliases.symm.trans (run_aliasInstances s))
  have hframes : Frames s.aliased.Enters (bodyText env e expected)
      (literalText env e expected guarded callable result) s.aliased :=
    frames_literalText e expected guarded callable result fun _ hu => hu
  obtain ⟨u, henters, hcloses, hok⟩ := hframes
  rw [htext] at hcloses hok
  have hsteady := (law_steady i kept).bodyText env hown hkeys expected u
  cases hbody : (bodyText env e expected).run.run u with
  | mk result v =>
    rw [hbody] at hcloses hok
    cases result with
    | error f => exact Bool.noConfusion (hok rfl)
    | ok _ =>
      have hbefore : s.Logs (·.isQuiet) u := ((opens_aliased s).trans henters.opens).exists_journal
      have hafter : v.Logs (·.isQuiet) t := hcloses.exists_journal
      have huses : u.Logs allowed v := by
        refine (hsteady.of_run_ok hbody).uses.mono fun entry hentry key name heq => ?_
        obtain ⟨hkey, hname⟩ := hentry key name heq
        rw [Sink.Names, Sink.name?_congr henters.scopes] at hname
        exact ⟨hkey, hname⟩
      exact ((hbefore.mono hquiet).trans huses).trans (hafter.mono hquiet)

/-- A single value that is no function literal opens no literal. -/
theorem exists_run_functionLiteral {expected : Option HostType}
    (hrun : (inlineValue env e expected).run.run s = (.ok (), t)) :
    s.Logs (· ≠ .opening .literal) t ∨
      ∃ guarded u, (functionLiteral env e expected guarded).run.run s.openScope = (.ok (), u) ∧
        t.journal = u.closeScope.journal := by
  obtain ⟨u, hinner, rfl⟩ := exists_run_of_traced_ok hrun
  have hinner : (if !e.exitsEarly && !env.needsRethrow e [] && s.canInline e then expression env e
      else Emit.inScope (functionLiteral env e expected (env.needsRethrow e []))).run.run s =
      (.ok (), u) := hinner
  split at hinner
  · left
    have hlogs : FormLaw (fun _ _ => True) (Sink.Logs (· ≠ .opening .literal))
        (Sink.Logs (· ≠ .opening .literal)) := by
      refine formLaw_logs (fun entry hcommon heq => ?_) nofun
      rw [heq] at hcommon
      cases hcommon
    have hwritten : s.Logs (· ≠ .opening .literal) u :=
      (hlogs.expression env (e.looksUp_any _) s).of_run_ok hinner
    exact hwritten
  · right
    rw [run_inScope] at hinner
    let literal := functionLiteral env e expected (env.needsRethrow e [])
    cases hliteral : literal.run.run s.openScope with
    | mk result v =>
      rw [hliteral] at hinner
      obtain ⟨rfl, rfl⟩ := Prod.mk.inj hinner
      exact ⟨_, v, hliteral, rfl⟩

end Emit

namespace Compiler

variable {c : Compiler} {e part : Expr} {expected : Option HostType} {types : ResolvedTypes}
  {s t : Sink} {added : List Entry} {kind : FeatureKind} {type : HostType}

private theorem instance?_contextIn (expected : Option HostType) (s : Sink) (kind : FeatureKind) :
    ((Request.expression expected none none).contextIn s).instance? kind = s.instance? kind := by
  cases kind <;> rfl

private theorem reads_instance (hkind : part.featureKind? = some kind)
    (hinstance : s.instance? kind = some type) :
    part.needsLocal = false ∧ ∀ types : ResolvedTypes,
      part.keys types = [.value part.id, .instanceOf (types.typeOf part).hash] := by
  cases part with
  | call node feature receiver args =>
    obtain rfl := Option.some.inj hkind
    cases hfeature : feature.kind with
    | this | super =>
      simp [Expr.keys, Expr.needsLocal, Feature.key?, Feature.isInvocation, hfeature]
    | _ =>
      rw [hfeature] at hinstance
      cases hinstance
  | _ => cases hkind

private def ReadBy (part : Expr) (type : HostType) (key : NameKey) : Prop :=
  key = .value part.id ∨ key = .instanceOf type.hash

private theorem readBy_of_instance (he : e.Identified)
    (hrun : (c.expression e expected).run.run s = (.ok types, t)) (hpart : part ∈ e.occurrences)
    (hkind : part.featureKind? = some kind) (hinstance : s.instance? kind = some type)
    (htype : type.isAny = false) :
    (∀ x ∈ e.occurrences, x.needsLocal → ¬ ReadBy part type (.value x.id)) ∧
      e.LooksUp types fun id key => id = part.id → ReadBy part type key := by
  obtain ⟨hshown, hreads⟩ := reads_instance hkind hinstance
  constructor
  · rintro x hx hneeds (hvalue | hvalue)
    · obtain rfl : x = part := he x hx part hpart (NameKey.value.inj hvalue)
      exact Bool.false_ne_true (hshown.symm.trans hneeds)
    · cases hvalue
  · intro x hx key hkey hid
    obtain rfl : x = part := he x hx part hpart hid
    obtain ⟨hinfer, -⟩ := (Request.expression expected none none).exists_contents_of_run hrun
    have hcontext := (instance?_contextIn expected s kind).trans hinstance
    have htyped := ResolvedTypes.typeOf_instance_of_infer he hinfer hcontext htype hx hkind
    rw [hreads, htyped] at hkey
    simpa [ReadBy] using hkey

private theorem names_of_literal {i : NodeId} {kept : NameKey → Prop}
    (hrun : (c.expression e expected).run.run s = (.ok types, t))
    (hadded : t.journal = added ++ s.journal) (hliteral : .opening .literal ∈ added)
    (hown : ∀ x ∈ e.occurrences, x.needsLocal → ¬ kept (.value x.id))
    (hkeys : e.LooksUp (c.env types).types fun id key => id = i → kept key) {key : NameKey}
    {name : String} (huse : .use i key name ∈ added) : kept key ∧ s.aliased.Names key name := by
  obtain ⟨-, u, hcontents, rfl⟩ :=
    (Request.expression expected none none).exists_contents_of_run hrun
  rcases Emit.exists_run_functionLiteral hcontents with hlogs | ⟨guarded, v, hrun, hjournal⟩
  · have hopened : s.Logs (· ≠ .opening .literal) s.openScope :=
      (Sink.Logs.refl s).snoc rfl nofun
    have hwritten := (hopened.trans hlogs).closeScope nofun
    exact absurd rfl (hwritten.allowed_of_mem hadded _ hliteral)
  · let allowed (entry : Entry) : Prop := ∀ key name, entry = .use i key name →
      kept key ∧ s.openScope.openScope.aliased.Names key name
    have hopened : s.Logs allowed s.openScope.openScope :=
      ((Sink.Logs.refl s).snoc (u := s.openScope) rfl nofun).snoc rfl nofun
    have hinside : s.Logs allowed v := hopened.trans (Emit.logs_functionLiteral hown hkeys hrun)
    have hafter : s.Logs allowed u := by
      unfold Sink.Logs
      rw [hjournal]
      exact hinside.closeScope nofun
    have hname := (hafter.closeScope nofun).allowed_of_mem hadded _ huse key name rfl
    rwa [Sink.Names, Sink.name?_aliased_openScope, Sink.name?_aliased_openScope] at hname

/-- In a function literal, each read of the enclosing instance or of its supertype that has no name
of its own is written by the name that literals have for it, which stands in the text. Only where no
enclosing instance is known nothing is renamed. -/
theorem expression_aliases (he : e.Identified)
    (hrun : (c.expression e expected).run.run s = (.ok types, t))
    (hadded : t.journal = added ++ s.journal) (hliteral : .opening .literal ∈ added)
    (hhash : ∀ type superType, s.object? "this" = some type → s.object? "super" = some superType →
      superType.hash = type.hash → superType.qualifiedName = type.qualifiedName)
    (hpart : part ∈ e.occurrences) (hkind : part.featureKind? = some kind)
    (hinstance : s.instance? kind = some type) (htype : type.isAny = false)
    (hunnamed : s.name? (.value part.id) = none) {key : NameKey} {name : String}
    {past : List Entry} (huse : .use part.id key name :: past <:+ added) :
    TextAt t.text (past ++ s.journal) name ∧
      ((s.object? "this").isSome → s.Aliases kind name) ∧
      (s.object? "this" = none →
        ∀ bound, s.name? (.instanceOf type.hash) = some bound → name = bound) := by
  have hnames : s.aliased.Names (.instanceOf type.hash) name := by
    obtain ⟨hown, hkeys⟩ := readBy_of_instance he hrun hpart hkind hinstance htype
    obtain ⟨rfl | rfl, hname⟩ := names_of_literal hrun hadded hliteral hown hkeys
      (huse.subset List.mem_cons_self)
    · rw [Sink.Names, Sink.name?_aliased_value, hunnamed] at hname
      rcases hname with hname | ⟨-, hname⟩
      · cases hname
      · exact absurd rfl (hname part.id)
    · exact hname
  have hjournal : .use part.id key name :: (past ++ s.journal) <:+ t.journal := by
    obtain ⟨later, rfl⟩ := huse
    exact ⟨later, by rw [hadded, List.append_assoc, List.cons_append]⟩
  refine ⟨t.textAt hjournal, fun hthis => ?_, fun hnone bound hbound => ?_⟩
  · obtain ⟨given, hgiven, haliases⟩ := Sink.exists_alias hhash hthis hinstance
    rcases hnames with hname | ⟨hname, -⟩
    · obtain rfl : name = given := Option.some.inj (hname.symm.trans hgiven)
      exact haliases
    · rw [hgiven] at hname
      cases hname
  · rw [Sink.Names, Sink.aliased_of_none hnone, hbound] at hnames
    rcases hnames with hname | ⟨hname, -⟩
    · exact (Option.some.inj hname).symm
    · cases hname

private def inside (thisType superType : Option HostType) : Sink :=
  { scope := { objects := (thisType.map (("this", ·))).toList ++
      (superType.map (("super", ·))).toList } }

private def equals (receiver argument : Feature) (param : String) : Expr :=
  .call ⟨2, {}⟩
    { name := "equals", kind := .method, type := some (.primitive .boolean),
      params := [.cls param []] }
    (some (.call ⟨0, {}⟩ receiver none [])) [.call ⟨1, {}⟩ argument none []]

private def namesWritten (s : Sink) (e : Expr) (i : NodeId) : Option (List String) :=
  match (expression {} e none).run.run s with
  | (.ok _, t) =>
    if .opening .literal ∈ t.journal then
      some (t.journal.filterMap fun
        | .use id _ name => if id = i then some name else none
        | _ => none)
    else none
  | (.error _, _) => none

private theorem exists_run_of_namesWritten {i : NodeId} {names : List String}
    (hnames : namesWritten s e i = some names) :
    ∃ types t, (expression {} e none).run.run s = (.ok types, t) ∧ .opening .literal ∈ t.journal ∧
      ∀ name ∈ names, ∃ key past, .use i key name :: past <:+ t.journal := by
  unfold namesWritten at hnames
  split at hnames
  · rename_i types t hrun
    split at hnames
    · rename_i hliteral
      refine ⟨types, t, hrun, hliteral, fun name hname => ?_⟩
      rw [← Option.some.inj hnames] at hname
      obtain ⟨entry, hentry, hwritten⟩ := List.mem_filterMap.mp hname
      cases entry with
      | use id key name' =>
        by_cases hid : id = i
        · obtain rfl : name' = name := by simpa [hid] using hwritten
          exact ⟨key, exists_suffix_of_mem (hid ▸ hentry)⟩
        · simp [hid] at hwritten
      | _ => cases hwritten
    · cases hnames
  · cases hnames

/-- A nested class and its supertype are told apart in a literal that reads both. -/
theorem expression_aliases_both :
    let s := inside (some (.named "a.Outer$Person")) (some (.named "a.Base"))
    ∃ types t, (expression {} (equals .super .this HostType.objectName) none).run.run s =
        (.ok types, t) ∧ .opening .literal ∈ t.journal ∧
      (∃ key past, .use 0 key "Person.super" :: past <:+ t.journal ∧
        TextAt t.text past "Person.super" ∧ s.Aliases .super "Person.super") ∧
      ∃ key past, .use 1 key "Person.this" :: past <:+ t.journal ∧
        TextAt t.text past "Person.this" ∧ s.Aliases .this "Person.this" := by
  intro s
  have hunshared : (equals .super .this HostType.objectName).Unshared := by decide +kernel
  have hsuper : namesWritten s (equals .super .this HostType.objectName) 0 =
      some ["Person.super"] := by
    decide +kernel
  have hthis : namesWritten s (equals .super .this HostType.objectName) 1 =
      some ["Person.this"] := by
    decide +kernel
  have hhash : TypeHash.ofName "a.Base" ≠ .ofName "a.Outer$Person" := by decide +kernel
  obtain ⟨types, t, hrun, hliteral, hnames⟩ := exists_run_of_namesWritten hsuper
  obtain ⟨_, t', hrun', _, hnames'⟩ := exists_run_of_namesWritten hthis
  obtain rfl : t = t' := congrArg Prod.snd (hrun.symm.trans hrun')
  obtain ⟨key, past, huse⟩ := hnames _ List.mem_cons_self
  obtain ⟨key', past', huse'⟩ := hnames' _ List.mem_cons_self
  have hadded : t.journal = t.journal ++ s.journal := (List.append_nil _).symm
  have happart : ∀ type superType, s.object? "this" = some type →
      s.object? "super" = some superType → superType.hash = type.hash →
        superType.qualifiedName = type.qualifiedName := by
    rintro type superType htype hsuperType hequal
    obtain rfl := Option.some.inj htype
    obtain rfl := Option.some.inj hsuperType
    exact absurd hequal hhash
  have hreceiver : Expr.call ⟨0, {}⟩ .super none [] ∈
      (equals .super .this HostType.objectName).occurrences :=
    Expr.mem_occurrences_of_mem_children List.mem_cons_self (Expr.mem_occurrences_self _)
  have hargument : Expr.call ⟨1, {}⟩ .this none [] ∈
      (equals .super .this HostType.objectName).occurrences :=
    Expr.mem_occurrences_of_mem_children (List.mem_cons_of_mem _ List.mem_cons_self)
      (Expr.mem_occurrences_self _)
  obtain ⟨htext, hsuperName, -⟩ := expression_aliases hunshared.identified hrun hadded hliteral
    happart hreceiver rfl rfl rfl rfl huse
  obtain ⟨htext', hthisName, -⟩ := expression_aliases hunshared.identified hrun hadded hliteral
    happart hargument rfl rfl rfl rfl huse'
  have hempty (past : List Entry) : past ++ s.journal = past := List.append_nil past
  rw [hempty] at htext htext'
  exact ⟨types, t, hrun, hliteral, ⟨key, past, huse, htext, hsuperName rfl⟩,
    key', past', huse', htext', hthisName rfl⟩

/-- An instance with the erased type of its supertype is not written as an instance of its class.
Without an enclosing instance, with a placeholder for its type, or with a name for the read already
in the sink, reads are written as they would be outside a literal. -/
theorem expression_hides_instance :
    (¬ ∀ (c : Compiler) (e part : Expr) (expected : Option HostType) (s t : Sink)
      (types : ResolvedTypes) (added : List Entry) (type : HostType) (key : NameKey)
      (name : String), e.Identified → (c.expression e expected).run.run s = (.ok types, t) →
      t.journal = added ++ s.journal → .opening .literal ∈ added →
      (∀ superType, s.object? "super" = some superType → superType.hash = type.hash →
        superType.qualifiedName = type.qualifiedName) →
      part ∈ e.occurrences → part.featureKind? = some .this → s.object? "this" = some type →
      .use part.id key name ∈ added → name = type.simpleName ++ ".this") ∧
    namesWritten (inside none (some (.named "a.Base")))
      (equals .super .super HostType.objectName) 1 = some ["super"] ∧
    namesWritten (inside (some .any) none) (equals .this .this "java.lang.String") 1 =
      some ["this"] ∧
    namesWritten ((inside (some (.named "a.Person")) none).bind (.value 1) "self")
      (equals .this .this HostType.objectName) 1 = some ["self"] := by
  refine ⟨fun hall => ?_, by decide +kernel, by decide +kernel, by decide +kernel⟩
  let s := inside (some (.named "a.Person")) (some (.named "a.Person"))
  have hunshared : (equals .super .this HostType.objectName).Unshared := by decide +kernel
  have hwritten : namesWritten s (equals .super .this HostType.objectName) 1 =
      some ["Person.super"] := by
    decide +kernel
  obtain ⟨types, t, hrun, hliteral, hnames⟩ := exists_run_of_namesWritten hwritten
  obtain ⟨key, past, huse⟩ := hnames _ List.mem_cons_self
  have hargument : Expr.call ⟨1, {}⟩ .this none [] ∈
      (equals .super .this HostType.objectName).occurrences :=
    Expr.mem_occurrences_of_mem_children (List.mem_cons_of_mem _ List.mem_cons_self)
      (Expr.mem_occurrences_self _)
  have hsame (superType : HostType) (hsuper : s.object? "super" = some superType)
      (_ : superType.hash = (HostType.named "a.Person").hash) :
      superType.qualifiedName = (HostType.named "a.Person").qualifiedName := by
    obtain rfl := Option.some.inj hsuper
    rfl
  have hname := hall {} _ _ none s t types t.journal _ key _ hunshared.identified hrun
    (List.append_nil _).symm hliteral hsame hargument rfl rfl (huse.subset List.mem_cons_self)
  revert hname
  decide +kernel

end Compiler

end Lowering
