import Lowering.Proofs.Framing
import Lowering.Proofs.Typing.Mentions
import Lowering.Proofs.Typing.Soundness

/-!
# Returned values

A function hands its result type down to every value that is returned in it. Main statement: in the
lowered body of a method or lambda, every returned value was checked against the result type,
wherever it stands; whatever type was found for it there is void or converts to the result type.
-/

namespace Lowering

variable {h : Hierarchy} {types types' : ResolvedTypes}

namespace Recording

private theorem mentions_put (id : NodeId) (span : Span) (offer : Resolution) :
    Outcome (put h id span offer) types
      (fun _ types' => types.Within types' ∧ types'.Mentions id offer.expectation)
      fun _ => True :=
  outcome_put_of_accept fun _ => ResolvedTypes.mentions_accept

private theorem allows_within (h : Hierarchy) (start : ResolvedTypes) :
    Allows h start.Within fun _ => True where
  rules _ := trivial
  put _ id span _ htypes := (mentions_put id span _).imp fun _ _ hput => htypes.trans hput.1

private theorem mentions_settle (outer : Option NodeId) (e : Expectation) (x : Expr)
    (typed : HostType × TypingContext) :
    Outcome (settle h outer e x typed) types
      (fun b types' => b.2 = typed.2 ∧ types.Within types' ∧ types'.Mentions x.id e)
      fun _ => True := by
  simp only [settle, outcome_bind]
  cases hclassify : e.classify h typed.1 x.span with
  | error f => trivial
  | ok conformance =>
    simp only [outcome_ofExcept, Recording.offer, outcome_bind]
    apply (mentions_put _ _ _).imp
    rintro _ types₁ ⟨hwithin, hmentions⟩
    cases outer with
    | none => exact ⟨rfl, hwithin, hmentions⟩
    | some id =>
      apply (mentions_put _ _ _).imp
      rintro _ types₂ ⟨hwithin', _⟩
      exact ⟨rfl, hwithin.trans hwithin', hwithin' _ _ hmentions⟩

/-- A type was recorded for every value that is returned in `x`, under what is expected of returned
values in context `c`. -/
def Demanded (c : TypingContext) (x : Expr) (types : ResolvedTypes) : Prop :=
  ∀ node value, .ret node (some value) ∈ x.occurrences →
    types.Mentions value.id (c.returns.getD .free)

private theorem Demanded.within {c : TypingContext} {x : Expr} (hx : Demanded c x types)
    (hwithin : types.Within types') : Demanded c x types' :=
  fun node value hret => hwithin _ _ (hx node value hret)

private def Leaves (h : Hierarchy) (x : Expr) : Prop :=
  ∀ outer c e types, Outcome (record h x outer c e) types
    (fun b types' => b.2.returns = c.returns ∧ types'.Mentions x.id e ∧ Demanded c x types')
    fun _ => True

private theorem leaves_all (id : NodeId) (xs : List Expr) (hxs : ∀ x ∈ xs, Leaves h x)
    (asks : List Ask) (hlength : asks.length = xs.length) (c : TypingContext)
    (types : ResolvedTypes) :
    Outcome (all id c (asks.zip (xs.map (record h)))) types
      (fun b types' => b.2.returns = c.returns ∧ (∀ x ∈ xs, Demanded c x types') ∧
        ∀ entry ∈ asks.zip xs, types'.Mentions entry.2.id entry.1.expectation)
      fun _ => True := by
  induction xs generalizing asks c types with
  | nil => simp [all]
  | cons x xs ih =>
    obtain ⟨ask, asks, rfl⟩ := List.exists_cons_of_length_eq_add_one hlength
    obtain ⟨hx, hrest⟩ := List.forall_mem_cons.mp hxs
    simp only [List.map_cons, List.zip_cons_cons, all, outcome_bind]
    apply (hx _ c ask.expectation types).imp
    rintro ⟨type, c'⟩ types₁ ⟨hreturns, hmentions, hdemanded⟩
    have hbelow : ∀ recorder ∈ xs.map (record h), ∀ outer c e,
        Keeps types₁.Within (fun _ => True) (recorder outer c e) := by
      intro recorder hrecorder
      obtain ⟨child, _, rfl⟩ := List.mem_map.mp hrecorder
      exact keeps_record (allows_within h types₁) child
    have hkept := keeps_all id hbelow asks c' types₁ fun _ _ hmentions => hmentions
    apply ((ih hrest asks (Nat.succ.inj hlength) c' types₁).and hkept).mono _ fun _ _ => trivial
    rintro ⟨childTypes, inner⟩ types₂ ⟨⟨hreturns', hdemanded', hentries⟩, hwithin⟩
    refine ⟨hreturns'.trans hreturns, List.forall_mem_cons.mpr ⟨hdemanded.within hwithin, ?_⟩,
      List.forall_mem_cons.mpr ⟨hwithin _ _ hmentions, hentries⟩⟩
    intro child hchild node value hret
    exact hreturns ▸ hdemanded' child hchild node value hret

private theorem demanded_of_children {c : TypingContext} {e : Expectation} {x : Expr}
    {asks : List Ask} (hasks : x.asks c e = .ok asks)
    (hchildren : ∀ child ∈ x.children, Demanded c child types)
    (hentries : ∀ entry ∈ asks.zip x.children, types.Mentions entry.2.id entry.1.expectation) :
    Demanded c x types := by
  intro node value hret
  rw [Expr.occurrences_eq] at hret
  rcases List.mem_cons.mp hret with rfl | hret
  · obtain rfl := Except.ok.inj hasks
    exact hentries (.operand (c.returns.getD .free), value) List.mem_cons_self
  · obtain ⟨child, hchild, hret⟩ := List.mem_flatMap.mp hret
    exact hchildren child hchild node value hret

private theorem returns_following (x : Expr) (c : TypingContext) (childTypes : List HostType) :
    (x.following c childTypes).returns = c.returns := by
  cases x <;> rfl

private theorem leaves (h : Hierarchy) (x : Expr) : Leaves h x := by
  induction x using Expr.childInduction with
  | step x ih =>
    intro outer c e types
    rw [record_eq, outcome_bind, inside]
    simp only [outcome_bind]
    cases hasks : x.asks c e with
    | error f => trivial
    | ok asks =>
      rw [outcome_ofExcept]
      apply (leaves_all x.id x.children ih asks (Expr.length_asks hasks) c types).imp
      rintro ⟨childTypes, inner⟩ types₁ ⟨_, hchildren, hentries⟩
      have hdemanded := demanded_of_children hasks hchildren hentries
      have hkept : Keeps types₁.Within (fun _ => True) (passedType e childTypes x) :=
        keeps_passedType e childTypes x
      apply (hkept types₁ fun _ _ hmentions => hmentions).imp
      intro value types₂ hwithin
      cases htype : x.ownType inner value with
      | error f => trivial
      | ok type =>
        apply (mentions_settle outer e x (type, x.following c childTypes)).imp
        rintro ⟨_, after⟩ types₃ ⟨hafter, hwithin', hmentions⟩
        obtain rfl : after = x.following c childTypes := hafter
        exact ⟨returns_following x c childTypes, hmentions,
          hdemanded.within (hwithin.trans hwithin')⟩

end Recording

/-- Type inference records a type for every value that is returned, under what is expected of
returned values. -/
theorem Expr.demanded_of_infer {x : Expr} {e : Expectation} {c : TypingContext}
    (hinfer : x.infer h e c = .ok types) : Recording.Demanded c x types := by
  obtain ⟨_, hrun⟩ := Typing.exists_record_of_infer hinfer
  exact ((Recording.leaves h x none c e {}).of_run_ok hrun).2.2

/-! ## Returns that no result forbids -/

theorem Expectation.classify_void (h : Hierarchy) (e : Expectation) (span : Span) :
    e.classify h .void span = .ok .subtype :=
  classify_of_not_checks fun _ hchecks => Bool.noConfusion hchecks.actual

theorem Expr.isOk_infer_bareReturn (h : Hierarchy) (e : Expectation) (node : Node)
    (c : TypingContext) : ((Expr.ret node none).infer h e c).isOk := by
  have hunshared : (Expr.ret node none).Unshared := List.nodup_singleton _
  have hjudge : (Expr.ret node none).judge h c e =
      Judge.conclude h e (.ret node none) .void c [] := by
    rw [judge_eq]
    rfl
  have hagrees := infer_agrees hunshared h c e
  rw [hjudge, Judge.conclude, e.classify_void h] at hagrees
  obtain ⟨types, hinfer, -⟩ := hagrees
  rw [hinfer]
  rfl

/-! ## What returned values are like -/

/-- A value of `type` can be returned where `result` is declared: it is void, or it converts. -/
def Hierarchy.MayReturn (h : Hierarchy) (result type : HostType) : Prop :=
  type.isVoid ∨ result.isVoid = false ∧ h.isConvertible type result

/-- Every type that was offered under the expectation of `r` was accepted there, and the type of `r`
is the blend of those types. -/
def Resolution.Gathers (h : Hierarchy) (r : Resolution) : Prop :=
  ∃ offered, h.blendAll offered = some r.actual ∧
    ∀ type ∈ offered, r.expectation.Accepts h type ∧ Typing.refine r.expectation type = type

private theorem Hierarchy.blendAll_concat {types : List HostType} {type : HostType}
    (hblend : h.blendAll types = some type) (last : HostType) :
    h.blendAll (types ++ [last]) = some (h.blend type last) := by
  cases types with
  | nil => cases hblend
  | cons first rest =>
    obtain rfl := Option.some.inj hblend
    simp [blendAll]

private theorem Recording.allows_gathering (h : Hierarchy) :
    Allows h (·.All (·.Gathers h)) fun _ => True := by
  refine allows_all
    (fun r => r.expectation.Accepts h r.actual ∧ Typing.refine r.expectation r.actual = r.actual)
    (fun _ _ => trivial) (fun hclassify => ?_) (fun r hr => ?_)
    fun span old new hold hnew hsame => ?_
  · exact ⟨(Expectation.classify_eq_ok.mp hclassify).accepts.refine, refine_idem _ _⟩
  · exact ⟨[r.actual], rfl, List.forall_mem_singleton.mpr hr⟩
  · split
    · rename_i merged hmerge
      obtain ⟨offered, hblend, hoffered⟩ := hold
      have hexpectation := Resolution.expectation_merge hsame hmerge
      refine ⟨offered ++ [new.actual], ?_, ?_⟩
      · rw [Resolution.actual_merge hmerge]
        exact Hierarchy.blendAll_concat hblend _
      · rw [hexpectation]
        exact List.forall_mem_append.mpr ⟨hsame ▸ hoffered, List.forall_mem_singleton.mpr hnew⟩
    · trivial

private theorem HostType.eq_void_of_isVoid {type : HostType} (hvoid : type.isVoid) :
    type = .void := by
  unfold isVoid at hvoid
  split at hvoid
  · rfl
  · cases hvoid

private theorem Hierarchy.mayReturn_of_accepts {result type : HostType}
    (hany : result.isAny = false) (hparam : result.isParam = false)
    (haccepts : (Expectation.returning result).Accepts h type)
    (hrefined : Typing.refine (.returning result) type = type) : h.MayReturn result type := by
  have htype : type.isAny = false := by
    by_contra hsome
    have hgives : type.isAny := by simpa using hsome
    have hresult : Typing.refine (.returning result) type = result := by
      simp [Typing.refine, Expectation.returning, hany, hparam, hgives]
    rw [hrefined] at hresult
    exact hsome (hresult ▸ hany)
  cases hvoid : type.isVoid with
  | true => exact .inl hvoid
  | false =>
    have hblank : type.isBlank = false := by simp [HostType.isBlank, hvoid, htype]
    have hconvertible : h.isConvertible type result := by
      rcases haccepts result ⟨rfl, hany, hparam, hblank⟩ with ⟨hexact, _⟩ | ⟨_, hsub | hconverts⟩
      · cases hexact
      · exact isConvertible_of_isSubtype hsub
      · exact hconverts.2
    refine .inr ⟨?_, hconvertible⟩
    by_contra hresult
    obtain rfl : result = .void := HostType.eq_void_of_isVoid (by simpa using hresult)
    exact Bool.false_ne_true (hvoid.symm.trans (isVoid_of_isConvertible hblank hconvertible))

namespace Request

variable {c : Compiler} {r : Request} {sig : Signature}

private theorem checks_returned {e : Expr} {out : Lowered} (hr : r.signature? = some sig)
    (hany : sig.result.isAny = false) (hparam : sig.result.isParam = false)
    (hlower : r.lower c e = .ok out) {node : Node} {value : Expr}
    (hret : .ret node (some value) ∈ e.occurrences) :
    out.types.Mentions value.id (.returning sig.result) ∧
      (∀ found ∈ out.types.resolutions value.id, found.expectation = .returning sig.result →
        ∃ offered, c.hierarchy.blendAll offered = some found.actual ∧
          ∀ type ∈ offered, c.hierarchy.MayReturn sig.result type) ∧
      (e.Unshared → c.hierarchy.MayReturn sig.result (out.types.typeOf value)) := by
  have hinfer : e.infer c.hierarchy r.expectation r.context = .ok out.types :=
    infer_of_lower hlower
  have hreturns : r.context.returns = some (.returning sig.result) := by
    cases r with
    | expression => cases hr
    | _ => exact congrArg _ (congrArg _ (congrArg _ (Option.some.inj hr)))
  have hmentions : out.types.Mentions value.id (.returning sig.result) := by
    have hdemanded := Expr.demanded_of_infer hinfer node value hret
    rwa [hreturns] at hdemanded
  have hgathers := (Recording.allows_gathering c.hierarchy).infer
    (fun _ _ hr => by cases hr) e r.expectation r.context
  rw [hinfer] at hgathers
  refine ⟨hmentions, fun found hfound hexpectation => ?_, fun hunshared => ?_⟩
  · obtain ⟨offered, hblend, hoffered⟩ := hgathers _ found hfound
    rw [hexpectation] at hoffered
    exact ⟨offered, hblend, fun type htype =>
      Hierarchy.mayReturn_of_accepts hany hparam (hoffered type htype).1 (hoffered type htype).2⟩
  · have hvalue : value ∈ e.occurrences :=
      Expr.occurrences_subset hret (Expr.mem_occurrences_of_mem_children List.mem_cons_self
        value.mem_occurrences_self)
    obtain ⟨only, honly, haccepts⟩ := ResolvedTypes.exists_resolutions_eq hunshared hinfer hvalue
    have hfits := ResolvedTypes.fits_of_infer hinfer value.id only
      (honly ▸ List.mem_singleton_self _)
    have hexpectation : only.expectation = .returning sig.result := by
      simpa [ResolvedTypes.Mentions, honly, eq_comm] using hmentions
    have htype : out.types.typeOf value = only.actual := by
      simp [ResolvedTypes.typeOf, ResolvedTypes.actual?, honly]
    rw [htype]
    rw [hexpectation] at haccepts hfits
    exact Hierarchy.mayReturn_of_accepts hany hparam haccepts hfits.refined

/-- Where a method or lambda with a definite result type is lowered, every value returned in it was
typed under that result. Each type that was found for it is void or converts to the result, and in a
tree without sharing there is only one such type, which is that of the value. What is void may be
returned whatever the result is, and a function may return without a value. -/
theorem lower_checks_returns (hr : r.signature? = some sig) (hany : sig.result.isAny = false)
    (hparam : sig.result.isParam = false) :
    (∀ e out node value, r.lower c e = .ok out → .ret node (some value) ∈ e.occurrences →
      out.types.Mentions value.id (.returning sig.result) ∧
      (∀ found ∈ out.types.resolutions value.id, found.expectation = .returning sig.result →
        ∃ offered, c.hierarchy.blendAll offered = some found.actual ∧
          ∀ type ∈ offered, c.hierarchy.MayReturn sig.result type) ∧
      (e.Unshared → c.hierarchy.MayReturn sig.result (out.types.typeOf value))) ∧
    (∀ span, (Expectation.returning sig.result).classify c.hierarchy .void span = .ok .subtype) ∧
    ∀ node e context, ((Expr.ret node none).infer c.hierarchy e context).isOk :=
  ⟨fun _ _ _ _ hlower hret => checks_returned hr hany hparam hlower hret,
    Expectation.classify_void c.hierarchy _, fun node e => Expr.isOk_infer_bareReturn _ e node⟩

private def save : Expr :=
  .call ⟨3, {}⟩ { name := "save", kind := .staticMethod } none []

private def returnedInBranch : Expr :=
  .block ⟨6, {}⟩ [
    .branch ⟨4, {}⟩ (.literal ⟨0, {}⟩ (.boolean true))
      (.ret ⟨2, {}⟩ (some (.literal ⟨1, {}⟩ (.int 1)))) none,
    .ret ⟨5, {}⟩ (some save)]

/-- A number in a branch of a method that returns a wider one. -/
theorem lower_checks_returned_number :
    let r : Request := .method { result := .primitive .long }
    let value : Expr := .literal ⟨1, {}⟩ (.int 1)
    r.signature? = some { result := .primitive .long } ∧
      .ret ⟨2, {}⟩ (some value) ∈ returnedInBranch.occurrences ∧ returnedInBranch.Unshared ∧
      ∃ out, r.lower ⟨.empty, {}⟩ returnedInBranch = .ok out ∧
        out.types.Mentions 1 (.returning (.primitive .long)) ∧
        Hierarchy.empty.MayReturn (.primitive .long) (out.types.typeOf value) := by
  intro r value
  have hret : .ret ⟨2, {}⟩ (some value) ∈ returnedInBranch.occurrences :=
    Expr.mem_occurrences_of_mem_children List.mem_cons_self <|
      Expr.mem_occurrences_of_mem_children (List.mem_cons_of_mem _ List.mem_cons_self) <|
        Expr.mem_occurrences_self _
  have hunshared : returnedInBranch.Unshared := by decide
  have hlowers : (r.lower ⟨.empty, {}⟩ returnedInBranch).isOk := by decide +kernel
  obtain ⟨out, hlower⟩ := exists_of_isOk hlowers
  have hsig : r.signature? = some { result := .primitive .long } := rfl
  obtain ⟨hchecks, -, -⟩ := lower_checks_returns (c := ⟨.empty, {}⟩) hsig rfl rfl
  obtain ⟨hmentions, -, htype⟩ := hchecks _ out _ value hlower hret
  exact ⟨rfl, hret, hunshared, out, hlower, hmentions, htype hunshared⟩

/-- A function may return nothing or the value of a call without a result, and a single expression
is lowered without regard to what it returns. -/
theorem lower_returns_nothing :
    let source (r : Request) (e : Expr) := (r.lower ⟨.empty, {}⟩ e).toOption.map (·.source)
    let type (r : Request) (e value : Expr) :=
      (r.lower ⟨.empty, {}⟩ e).toOption.map (·.types.typeOf value)
    let method : Request := .method { result := .int }
    let expression : Request := .expression (some .int) none none
    let text : Expr := .literal ⟨0, {}⟩ (.string "a")
    type method (.ret ⟨5, {}⟩ (some save)) save = some .void ∧
      source method (.ret ⟨5, {}⟩ none) = some "\nreturn;" ∧
      type expression (.ret ⟨1, {}⟩ (some text)) text = some .string ∧
      Hierarchy.empty.isConvertible .string .int = false := by
  decide +kernel

end Request

end Lowering
