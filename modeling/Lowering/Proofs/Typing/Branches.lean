import Lowering.Proofs.Hierarchy.Balance
import Lowering.Proofs.Tree.Scoping
import Lowering.Proofs.Typing.Coherence
import Lowering.Proofs.Typing.Soundness

/-!
# The type of an `if`

An `if` has the blend of the types of its branches, which does not depend on what is asked of it;
only afterwards is that type classified. Main statements: an `if` fits exactly where the blend does,
and its type is the same in either order of the branches exactly where their types are balanced.
-/

namespace Lowering

variable {h : Hierarchy} {c : TypingContext} {e : Expectation} {types : ResolvedTypes}

/-! ## Expectations that any blend meets -/

/-- What `e` asks for is met by the blend of two types that it accepts, whatever else there is. -/
inductive Expectation.Covers (h : Hierarchy) (e : Expectation) (a b : HostType) : Prop
  /-- Nothing definite is asked for. -/
  | vague (hvague : ∀ expected, e.type = some expected → expected.isAny || expected.isParam)
  /-- Both types are the same as what is asked for. -/
  | exact (hexact : e.conformance = .exact)
  /-- One of the types tells nothing. -/
  | blank (hblank : a.isBlank || b.isBlank)
  /-- One of the types is below the other. -/
  | comparable (hcomparable : h.isSubtype a b || h.isSubtype b a)
  /-- No value has to be unboxed. -/
  | primitive {t : Primitive} (htype : e.type = some (.primitive t))
      (ha : a.primitive?.isSome) (hb : b.primitive?.isSome)
  | object {args : List HostType} (htype : e.type = some (.cls HostType.objectName args))
  /-- All classes above both types, but the root, are below what is asked for. -/
  | nearest {name : String} {args : List HostType} (htype : e.type = some (.cls name args))
      (hnumeric : Hierarchy.numericJoin? a b = none)
      (habove : ∀ m as n bs, a.boxed = .cls m as → b.boxed = .cls n bs → ∀ s ∈ h.ancestors m,
        h.isSubclass n s → s ≠ HostType.objectName → h.isSubclass s name)

namespace Expectation

variable {a b expected : HostType}

private theorem isConvertible_of_accepts (ha : e.Accepts h a) (hexact : e.conformance ≠ .exact)
    (hchecks : e.Checks a expected) : h.isConvertible a expected := by
  rcases ha expected hchecks with ⟨h, _⟩ | ⟨_, hsub | ⟨_, hconvertible⟩⟩
  · exact absurd h hexact
  · exact Hierarchy.isConvertible_of_isSubtype hsub
  · exact hconvertible

private theorem conversion_of_primitive (ha : e.Accepts h a) (hexact : e.conformance ≠ .exact)
    (hchecks : e.Checks a expected) (hexpected : expected.primitive? = none)
    (hprimitive : a.primitive? ≠ none) : e.conformance = .conversion := by
  rcases ha expected hchecks with ⟨h, _⟩ | ⟨_, hsub | ⟨hconversion, _⟩⟩
  · exact absurd h hexact
  · exact absurd (Hierarchy.primitive?_of_isSubtype hexpected hchecks.isAny hsub) hprimitive
  · exact hconversion

private theorem isSubtype_boxed {name : String} {args : List HostType}
    (hconvertible : h.isConvertible a (.cls name args)) :
    h.isSubtype a.boxed (.cls name args) := by
  cases a with
  | primitive p =>
    have hboxes : p ≠ .void ∧ h.isSubtype (.named p.wrapper) (.cls name args) := by
      simpa [Hierarchy.isConvertible, HostType.primitive?, Hierarchy.isSubtype, HostType.isAny]
        using hconvertible
    exact hboxes.2
  | _ =>
    rwa [Hierarchy.isConvertible_of_primitive?_eq_none rfl rfl] at hconvertible

private theorem isSubtype_of_primitive {t : Primitive} (ha : a.primitive?.isSome)
    (hconvertible : h.isConvertible a (.primitive t)) : h.isSubtype a (.primitive t) := by
  cases a with
  | primitive p => simpa [Hierarchy.isConvertible, HostType.primitive?] using hconvertible
  | _ => cases ha

private theorem isConvertible_object (ha : a.isBlank = false) (args : List HostType) :
    h.isConvertible a (.cls HostType.objectName args) := by
  cases a with
  | primitive p =>
    have hp : p ≠ .void := by
      rintro rfl
      cases ha
    have hbox : h.isSubtype (.named p.wrapper) (.cls HostType.objectName args) :=
      Hierarchy.isSubtype_object rfl args
    simp [Hierarchy.isConvertible, HostType.primitive?, hp, hbox]
  | _ => exact Hierarchy.isConvertible_of_isSubtype (Hierarchy.isSubtype_object rfl args)

private theorem isSubtype_join_nearest {name : String} {args : List HostType}
    (ha : a.isBlank = false) (hb : b.isBlank = false) (hgreater : h.greater? a b = none)
    (hnumeric : Hierarchy.numericJoin? a b = none) (haboxed : h.isSubtype a.boxed (.cls name args))
    (hbboxed : h.isSubtype b.boxed (.cls name args))
    (habove : ∀ m as n bs, a.boxed = .cls m as → b.boxed = .cls n bs → ∀ s ∈ h.ancestors m,
      h.isSubclass n s → s ≠ HostType.objectName → h.isSubclass s name) :
    h.isSubtype (h.join a b) (.cls name args) := by
  rw [Hierarchy.join_of_none ha hb hgreater hnumeric]
  cases hboxes : h.greater? a.boxed b.boxed with
  | some t =>
    rcases Hierarchy.greater?_eq_some hboxes with ⟨rfl, _⟩ | ⟨rfl, _⟩
    · exact hbboxed
    · exact haboxed
  | none =>
    by_cases hroot : name = HostType.objectName
    · exact hroot ▸ Hierarchy.isSubtype_object (Hierarchy.primitive?_classJoin h _ _) args
    obtain ⟨m, as, ham⟩ := Hierarchy.exists_cls_of_isSubtype haboxed hroot
      (isAny_boxed (HostType.isAny_of_isBlank ha))
    obtain ⟨n, bs, hbn⟩ := Hierarchy.exists_cls_of_isSubtype hbboxed hroot
      (isAny_boxed (HostType.isAny_of_isBlank hb))
    rw [ham] at haboxed
    rw [hbn] at hbboxed
    rw [ham, hbn]
    exact Hierarchy.isSubtype_classJoin haboxed hbboxed (habove m as n bs ham hbn)

private theorem Covers.conforms_join (hcovers : e.Covers h a b) (ha : e.Accepts h a)
    (hb : e.Accepts h b) (hachecks : e.Checks a expected) (hbchecks : e.Checks b expected)
    (hexact : e.conformance ≠ .exact) (hgreater : h.greater? a b = none)
    (hblank : (h.join a b).isBlank = false) :
    h.isSubtype (h.join a b) expected ∨
      e.conformance = .conversion ∧ h.isConvertible (h.join a b) expected := by
  have haconvertible := isConvertible_of_accepts ha hexact hachecks
  have hbconvertible := isConvertible_of_accepts hb hexact hbchecks
  cases hcovers with
  | vague hvague =>
    have hvague := hvague expected hachecks.type
    simp [hachecks.isAny, hachecks.isParam] at hvague
  | exact hexact' => exact absurd hexact' hexact
  | blank hblank => simp [hachecks.actual, hbchecks.actual] at hblank
  | comparable hcomparable =>
    obtain ⟨hab, hba⟩ := Hierarchy.greater?_eq_none.mp hgreater
    simp [hab, hba] at hcomparable
  | primitive htype haprimitive hbprimitive =>
    obtain rfl := Option.some.inj (htype.symm.trans hachecks.type)
    exact .inl (Hierarchy.isSubtype_join_primitive hachecks.actual hbchecks.actual
      (isSubtype_of_primitive haprimitive haconvertible)
      (isSubtype_of_primitive hbprimitive hbconvertible))
  | object htype =>
    obtain rfl := Option.some.inj (htype.symm.trans hachecks.type)
    by_cases hreferences : a.primitive? = none ∧ b.primitive? = none
    · exact .inl (Hierarchy.isSubtype_object
        (Hierarchy.primitive?_join hreferences.1 hreferences.2) _)
    · have hconversion : e.conformance = .conversion := by
        rcases not_and_or.mp hreferences with hprimitive | hprimitive
        · exact conversion_of_primitive ha hexact hachecks rfl hprimitive
        · exact conversion_of_primitive hb hexact hbchecks rfl hprimitive
      exact .inr ⟨hconversion, isConvertible_object hblank _⟩
  | nearest htype hnumeric habove =>
    obtain rfl := Option.some.inj (htype.symm.trans hachecks.type)
    exact .inl (isSubtype_join_nearest hachecks.actual hbchecks.actual hgreater hnumeric
      (isSubtype_boxed haconvertible) (isSubtype_boxed hbconvertible) habove)

/-- The blend of two types that an expectation accepts is accepted too, if it covers them. -/
theorem Covers.accepts (hcovers : e.Covers h a b) (ha : e.Accepts h a) (hb : e.Accepts h b) :
    e.Accepts h (h.blend a b) := by
  by_cases heq : a = b
  · rw [Hierarchy.blend, if_pos (.inl heq)]
    exact ha
  cases hbBlank : b.isBlank with
  | true => exact (Hierarchy.blend_of_blank_right hbBlank).symm ▸ ha
  | false =>
  cases haBlank : a.isBlank with
  | true => exact (Hierarchy.blend_of_blank_left haBlank hbBlank).symm ▸ hb
  | false =>
  rw [Hierarchy.blend_of_ne heq haBlank hbBlank]
  intro expected hchecks
  have hachecks : e.Checks a expected := { hchecks with actual := haBlank }
  have hbchecks : e.Checks b expected := { hchecks with actual := hbBlank }
  have hexact : e.conformance ≠ .exact := fun hexact => by
    have haexpected := (ha expected hachecks).resolve_right fun h => h.1 hexact
    have hbexpected := (hb expected hbchecks).resolve_right fun h => h.1 hexact
    exact heq (haexpected.2.trans hbexpected.2.symm)
  cases hgreater : h.greater? a b with
  | some t =>
    rw [Hierarchy.join_of_greater? hgreater]
    rcases Hierarchy.greater?_eq_some hgreater with ⟨rfl, _⟩ | ⟨rfl, _⟩
    · exact hb expected hbchecks
    · exact ha expected hachecks
  | none =>
    exact .inr ⟨hexact,
      hcovers.conforms_join ha hb hachecks hbchecks hexact hgreater hchecks.actual⟩

end Expectation

/-! ## Judging an `if` -/

namespace Expr

variable {x cond yes no : Expr} {node : Node} {verdict : Verdict}

/-- What can be named after a node, given the types of its children. -/
def scopeAfter (x : Expr) (types : ResolvedTypes) (c : TypingContext) : TypingContext :=
  x.following c (x.children.map types.typeOf)

private theorem map_typeOf_of_forall₂ {xs : List Expr} {verdicts : List Verdict}
    (hxs : List.Forall₂ (fun x verdict => ∃ c e, x.judge h c e = .ok verdict) xs verdicts)
    (hrecords : ∀ verdict ∈ verdicts, ∀ j ∈ verdict.judgements, types.Records j) :
    xs.map types.typeOf = verdicts.map (·.type) := by
  induction hxs with
  | nil => rfl
  | cons hx _ ih =>
    obtain ⟨_, _, hjudge⟩ := hx
    obtain ⟨hfirst, hrest⟩ := List.forall_mem_cons.mp hrecords
    rw [List.map_cons, List.map_cons, typeOf_of_judge hjudge hfirst, ih hrest]

private theorem scopeAfter_of_judge (hx : x.judge h c e = .ok verdict)
    (hrecords : ∀ j ∈ verdict.judgements, types.Records j) :
    x.scopeAfter types c = verdict.after := by
  obtain ⟨asks, verdicts, inner, type, _, hasks, hall, _, _, rfl⟩ := judge_eq_ok hx
  refine congrArg (x.following c) (map_typeOf_of_forall₂ (h := h) ?_ fun below hbelow j hj =>
    hrecords j (List.mem_append_left _ (List.mem_flatMap.mpr ⟨below, hbelow, hj⟩)))
  exact (Judge.forall₂_of_all (length_asks hasks) hall).imp
    fun _ _ ⟨c, ask, _, hverdict⟩ => ⟨c, ask.expectation, hverdict⟩

private theorem after_of_judge (hx : x.judge h c e = .ok verdict) (hdeclared : x.declared = []) :
    verdict.after = c := by
  obtain ⟨_, _, _, _, _, _, _, _, _, rfl⟩ := judge_eq_ok hx
  cases x with
  | decl => cases hdeclared
  | _ => rfl

theorem judge_branch (node : Node) (cond yes no : Expr) (c : TypingContext) (e : Expectation) :
    (Expr.branch node cond yes (some no)).judge h c e = (do
      let first ← cond.judge h c (.convertible .boolean)
      let second ← yes.judge h first.after e
      let third ← no.judge h second.after e
      Judge.conclude h e (.branch node cond yes (some no)) (h.blend second.type third.type) c
        [first, second, third]) := by
  have hok {α β : Type} (a : α) (next : α → Except Failure β) : (Except.ok a >>= next) = next a :=
    rfl
  rw [judge_eq]
  simp only [Judge.byRules, asks, children, Option.toList_some, List.map_cons, List.map_nil, hok,
    List.zip_cons_cons, List.zip_nil_right, Judge.all, bind_assoc]
  rfl

private theorem judge_branch_of_ok {first second third : Verdict}
    (hcond : cond.judge h c (.convertible .boolean) = .ok first)
    (hyes : yes.judge h first.after e = .ok second) (hno : no.judge h first.after e = .ok third)
    (hdeclared : yes.declared = []) :
    (Expr.branch node cond yes (some no)).judge h c e =
      Judge.conclude h e (.branch node cond yes (some no)) (h.blend second.type third.type) c
        [first, second, third] := by
  rw [judge_branch, hcond]
  change (yes.judge h first.after e >>= _) = _
  rw [hyes]
  change (no.judge h second.after e >>= _) = _
  rw [after_of_judge hyes hdeclared, hno]
  rfl

section

variable {type : HostType} {verdicts : List Verdict} (hx : x.Unshared)
  (hjudge : x.judge h c e = Judge.conclude h e x type c verdicts)
include hx hjudge

private theorem exists_infer_iff (hrefined : Typing.refine e type = type) (t : HostType) :
    (∃ types, x.infer h e c = .ok types ∧ types.typeOf x = t) ↔
      t = type ∧ ∃ conformance, e.classify h type x.span = .ok conformance := by
  have hagrees := infer_agrees hx h c e
  cases hclassify : e.classify h type x.span with
  | error f =>
    rw [Judge.conclude, hclassify] at hjudge
    rw [hjudge] at hagrees
    simp only [bind, Except.bind] at hagrees
    simp [hagrees]
  | ok conformance =>
    rw [Judge.conclude, hclassify] at hjudge
    rw [hjudge] at hagrees
    obtain ⟨types, hinfer, hrecords, _⟩ := hagrees
    have htype : types.typeOf x = type := (typeOf_of_judge hjudge hrecords).trans hrefined
    constructor
    · rintro ⟨types', hinfer', rfl⟩
      obtain rfl := Except.ok.inj (hinfer.symm.trans hinfer')
      exact ⟨htype, conformance, rfl⟩
    · rintro ⟨rfl, _⟩
      exact ⟨types, hinfer, htype⟩

private theorem infer_eq_error {f : Failure} (hclassify : e.classify h type x.span = .error f) :
    x.infer h e c = .error f := by
  have hagrees := infer_agrees hx h c e
  rw [hjudge, Judge.conclude, hclassify] at hagrees
  exact hagrees

end

/-- An `if` whose parts are inferred by themselves is inferred exactly where the blend of the types
of its branches is accepted, and then this is its type. Of all expectations that accept the
branches, those that cover their types accept the blend. -/
theorem infer_branch (hx : (Expr.branch node cond yes (some no)).Unshared)
    (hdeclared : yes.declared = []) {condTypes yesTypes noTypes : ResolvedTypes}
    (hcond : cond.infer h (.convertible .boolean) c = .ok condTypes)
    (hyes : yes.infer h e (cond.scopeAfter condTypes c) = .ok yesTypes)
    (hno : no.infer h e (cond.scopeAfter condTypes c) = .ok noTypes) :
    let blend := h.blend (yesTypes.typeOf yes) (noTypes.typeOf no)
    (∀ conformance, e.classify h blend node.span = .ok conformance →
      ∃ types, (Expr.branch node cond yes (some no)).infer h e c = .ok types ∧
        types.typeOf (.branch node cond yes (some no)) = blend) ∧
    (∀ f, e.classify h blend node.span = .error f →
      (Expr.branch node cond yes (some no)).infer h e c = .error f) ∧
    (e.Covers h (yesTypes.typeOf yes) (noTypes.typeOf no) →
      ∃ types, (Expr.branch node cond yes (some no)).infer h e c = .ok types ∧
        types.typeOf (.branch node cond yes (some no)) = blend) := by
  obtain ⟨first, hfirst, hfirstRecords⟩ :=
    exists_judge_of_infer (hx.child List.mem_cons_self) hcond
  rw [scopeAfter_of_judge hfirst hfirstRecords] at hyes hno
  obtain ⟨second, hsecond, hsecondRecords⟩ :=
    exists_judge_of_infer (hx.child (List.mem_cons_of_mem _ List.mem_cons_self)) hyes
  obtain ⟨third, hthird, hthirdRecords⟩ := exists_judge_of_infer
    (hx.child (List.mem_cons_of_mem _ (List.mem_cons_of_mem _ List.mem_cons_self))) hno
  rw [typeOf_of_judge hsecond hsecondRecords, typeOf_of_judge hthird hthirdRecords]
  intro blend
  have hrefined : Typing.refine e blend = blend :=
    refine_blend h (refine_of_judge hsecond) (refine_of_judge hthird)
  have hjudge : (Expr.branch node cond yes (some no)).judge h c e =
      Judge.conclude h e (.branch node cond yes (some no)) blend c [first, second, third] :=
    judge_branch_of_ok hfirst hsecond hthird hdeclared
  have hok (conformance : Conformance)
      (hclassify : e.classify h blend node.span = .ok conformance) :=
    (exists_infer_iff hx hjudge hrefined blend).mpr ⟨rfl, conformance, hclassify⟩
  refine ⟨hok, fun f hclassify => infer_eq_error hx hjudge hclassify, fun hcovers => ?_⟩
  have haccepts : e.Accepts h blend :=
    hcovers.accepts (accepts_of_judge hsecond) (accepts_of_judge hthird)
  obtain ⟨conformance, hclassifies⟩ := haccepts.exists_classifies
  exact hok conformance (Expectation.classify_eq_ok.mpr hclassifies)

private def choice (yes no : Expr) : Expr :=
  .branch ⟨3, {}⟩ (.literal ⟨0, {}⟩ (.boolean true)) yes (some no)

private def ofParam (id : NodeId) (type : WrittenType) : Expr :=
  .call ⟨id, {}⟩ (.ofParameter "p" type) none []

/-- Two numbers of which neither widens to the other. -/
theorem infer_branch_numbers :
    ∃ types, (choice (ofParam 1 (.primitive .byte)) (ofParam 2 (.primitive .char))).infer .empty
        (.convertible (.primitive .long)) {} = .ok types ∧
      types.typeOf (choice (ofParam 1 (.primitive .byte)) (ofParam 2 (.primitive .char))) =
        .int := by
  have hunshared : (choice (ofParam 1 (.primitive .byte))
      (ofParam 2 (.primitive .char))).Unshared := by decide
  have hcond : ((Expr.literal ⟨0, {}⟩ (.boolean true)).infer .empty (.convertible .boolean)
      {}).isOk := by decide +kernel
  have hyes : ((ofParam 1 (.primitive .byte)).infer .empty (.convertible (.primitive .long))
      {}).toOption.map (·.typeOf (ofParam 1 (.primitive .byte))) = some (.primitive .byte) := by
    decide +kernel
  have hno : ((ofParam 2 (.primitive .char)).infer .empty (.convertible (.primitive .long))
      {}).toOption.map (·.typeOf (ofParam 2 (.primitive .char))) = some (.primitive .char) := by
    decide +kernel
  obtain ⟨condTypes, hcond⟩ := exists_of_isOk hcond
  obtain ⟨yesTypes, hyes, hyesType⟩ := exists_of_toOption_map hyes
  obtain ⟨noTypes, hno, hnoType⟩ := exists_of_toOption_map hno
  have hbranch := (infer_branch hunshared rfl hcond hyes hno).2.2
  rw [hyesType, hnoType] at hbranch
  exact hbranch (.primitive rfl rfl rfl)

/-- A number and a box, both of which convert to a number, have a join that does not. -/
theorem infer_branch_mismatch :
    ¬ ∀ (h : Hierarchy) (c : TypingContext) (e : Expectation) (node : Node) (cond yes no : Expr)
      (condTypes yesTypes noTypes : ResolvedTypes),
      (Expr.branch node cond yes (some no)).Unshared → yes.declared = [] → no.declared = [] →
      cond.infer h (.convertible .boolean) c = .ok condTypes →
      yes.infer h e (cond.scopeAfter condTypes c) = .ok yesTypes →
      no.infer h e (cond.scopeAfter condTypes c) = .ok noTypes →
      ∃ types, (Expr.branch node cond yes (some no)).infer h e c = .ok types := by
  intro hfits
  have hcond : ((Expr.literal ⟨0, {}⟩ (.boolean true)).infer .empty (.convertible .boolean)
      {}).isOk := by decide +kernel
  have hyes : ((Expr.literal ⟨1, {}⟩ (.int 1)).infer .empty (.convertible (.primitive .long))
      {}).isOk := by decide +kernel
  have hno : ((ofParam 2 (.cls "java.lang.Long" [])).infer .empty (.convertible (.primitive .long))
      {}).isOk := by decide +kernel
  obtain ⟨condTypes, hcond⟩ := exists_of_isOk hcond
  obtain ⟨yesTypes, hyes⟩ := exists_of_isOk hyes
  obtain ⟨noTypes, hno⟩ := exists_of_isOk hno
  obtain ⟨types, hinfer⟩ := hfits .empty {} (.convertible (.primitive .long)) ⟨3, {}⟩ _ _ _
    condTypes yesTypes noTypes (by decide) rfl rfl hcond hyes hno
  have hfails : ((choice (.literal ⟨1, {}⟩ (.int 1)) (ofParam 2 (.cls "java.lang.Long" []))).infer
      .empty (.convertible (.primitive .long)) {}).isOk = false := by decide +kernel
  exact Bool.noConfusion (hfails.symm.trans (congrArg Except.isOk hinfer))

/-! ## Branches in the other order -/

private theorem Unshared.swap (hx : (Expr.branch node cond yes (some no)).Unshared) :
    (Expr.branch node cond no (some yes)).Unshared := by
  have hperm : (Expr.branch node cond no (some yes)).ids.Perm
      (Expr.branch node cond yes (some no)).ids := by
    simp only [ids_eq (.branch _ _ _ _), children, Option.toList_some, List.flatMap_cons,
      List.flatMap_nil, List.append_nil]
    exact ((List.perm_append_comm).append_left cond.ids).cons node.id
  exact hperm.nodup_iff.mpr hx

/-- An `if` that is inferred is inferred with the same type when its branches are swapped, if the
types of the branches are balanced, and only then. -/
theorem infer_swapped (hx : (Expr.branch node cond yes (some no)).Unshared)
    (hyes : yes.declared = []) (hno : no.declared = [])
    (hinfer : (Expr.branch node cond yes (some no)).infer h e c = .ok types) :
    h.Balanced (types.typeOf yes) (types.typeOf no) ↔
      ∃ swapped, (Expr.branch node cond no (some yes)).infer h e c = .ok swapped ∧
        swapped.typeOf (.branch node cond no (some yes)) =
          types.typeOf (.branch node cond yes (some no)) := by
  obtain ⟨verdict, hjudge, hrecords⟩ := exists_judge_of_infer hx hinfer
  have hbranch := hjudge
  rw [judge_branch] at hbranch
  simp only [bind_eq_ok] at hbranch
  obtain ⟨first, hfirst, second, hsecond, third, hthird, hconclude⟩ := hbranch
  have hafter : second.after = first.after := after_of_judge hsecond hyes
  have hconclude' := hconclude
  simp only [Judge.conclude, bind_eq_ok, Except.ok.injEq] at hconclude'
  obtain ⟨conformance, hclassify, rfl⟩ := hconclude'
  have hyesType : types.typeOf yes = second.type :=
    typeOf_of_judge hsecond fun j hj => hrecords j (by simp [hj])
  have hnoType : types.typeOf no = third.type :=
    typeOf_of_judge hthird fun j hj => hrecords j (by simp [hj])
  have hrefined := refine_blend h (refine_of_judge hsecond) (refine_of_judge hthird)
  have hrefined' := refine_blend h (refine_of_judge hthird) (refine_of_judge hsecond)
  have htype : types.typeOf (.branch node cond yes (some no)) = h.blend second.type third.type :=
    (typeOf_of_judge hjudge hrecords).trans hrefined
  have hswapped : (Expr.branch node cond no (some yes)).judge h c e = _ :=
    judge_branch_of_ok hfirst (hafter ▸ hthird) hsecond hno
  rw [exists_infer_iff hx.swap hswapped hrefined', hyesType, hnoType, htype,
    ← Hierarchy.blend_comm_iff]
  exact ⟨fun heq => ⟨heq, conformance, heq ▸ hclassify⟩, And.left⟩

/-- A number and a string. -/
theorem infer_swapped_boxed :
    ∃ types swapped,
      (choice (.literal ⟨1, {}⟩ (.int 1)) (.literal ⟨2, {}⟩ (.string "a"))).infer .empty .free {} =
        .ok types ∧
      (choice (.literal ⟨2, {}⟩ (.string "a")) (.literal ⟨1, {}⟩ (.int 1))).infer .empty .free {} =
        .ok swapped ∧
      swapped.typeOf (choice (.literal ⟨2, {}⟩ (.string "a")) (.literal ⟨1, {}⟩ (.int 1))) =
        types.typeOf (choice (.literal ⟨1, {}⟩ (.int 1)) (.literal ⟨2, {}⟩ (.string "a"))) := by
  have htypes : ((choice (.literal ⟨1, {}⟩ (.int 1)) (.literal ⟨2, {}⟩ (.string "a"))).infer
      .empty .free {}).toOption.map (fun types => (types.typeOf (.literal ⟨1, {}⟩ (.int 1)),
        types.typeOf (.literal ⟨2, {}⟩ (.string "a")))) = some (.int, .string) := by
    decide +kernel
  obtain ⟨types, hinfer, htypes⟩ := exists_of_toOption_map htypes
  obtain ⟨hint, hstring⟩ := Prod.mk.inj htypes
  have hbalanced : Hierarchy.empty.Balanced .int .string :=
    .nearest rfl rfl (by decide +kernel) (by decide +kernel) (by decide +kernel)
  have hswapped := (infer_swapped (by decide) rfl rfl hinfer).mp (by rwa [hint, hstring])
  obtain ⟨swapped, hinfer', htype⟩ := hswapped
  exact ⟨types, swapped, hinfer, hinfer', htype⟩

/-- A branch without a value and one with a value of which nothing is known. -/
theorem infer_swapped_blank :
    ¬ ∀ (h : Hierarchy) (c : TypingContext) (e : Expectation) (node : Node) (cond yes no : Expr),
      (Expr.branch node cond yes (some no)).Unshared → yes.declared = [] → no.declared = [] →
      match (Expr.branch node cond yes (some no)).infer h e c,
        (Expr.branch node cond no (some yes)).infer h e c with
      | .ok types, .ok swapped => types.typeOf (.branch node cond yes (some no)) =
          swapped.typeOf (.branch node cond no (some yes))
      | .error _, .error _ => True
      | _, _ => False := by
  intro hsame
  have htypes : ((choice (.block ⟨1, {}⟩ []) (.literal ⟨2, {}⟩ .null)).infer .empty .free
      {}).toOption.map (·.typeOf (choice (.block ⟨1, {}⟩ []) (.literal ⟨2, {}⟩ .null))) =
        some .void := by
    decide +kernel
  have htypes' : ((choice (.literal ⟨2, {}⟩ .null) (.block ⟨1, {}⟩ [])).infer .empty .free
      {}).toOption.map (·.typeOf (choice (.literal ⟨2, {}⟩ .null) (.block ⟨1, {}⟩ []))) =
        some .any := by
    decide +kernel
  obtain ⟨types, hinfer, htype⟩ := exists_of_toOption_map htypes
  obtain ⟨swapped, hinfer', htype'⟩ := exists_of_toOption_map htypes'
  have hsame := hsame .empty {} .free ⟨3, {}⟩ (.literal ⟨0, {}⟩ (.boolean true))
    (.block ⟨1, {}⟩ []) (.literal ⟨2, {}⟩ .null) (by decide) rfl rfl
  unfold choice at hinfer hinfer' htype htype'
  simp only [hinfer, hinfer', htype, htype'] at hsame
  cases hsame

end Expr

end Lowering
