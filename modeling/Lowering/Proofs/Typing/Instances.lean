import Lowering.Analysis.Thrown
import Lowering.Proofs.Typing.Mentions

/-!
# The types of instances

Inside one tree the enclosing instance is always the same, and so is its supertype. Main statement:
every read of one of them, also of a node that is shared, has the type of the context, wherever the
read stands and whatever is expected of it.
-/

namespace Lowering

variable {h : Hierarchy} {types types' : ResolvedTypes}

/-- Nodes with the same id are the same, although they may stand at several places. -/
def Expr.Identified (e : Expr) : Prop :=
  ∀ x ∈ e.occurrences, ∀ y ∈ e.occurrences, x.id = y.id → x = y

theorem Expr.Unshared.identified {e : Expr} (he : e.Unshared) : e.Identified :=
  fun _ hx _ hy => List.inj_on_of_nodup_map he hx hy

/-- What kind of feature a node reads or calls. -/
def Expr.featureKind? : Expr → Option FeatureKind
  | .call _ feature _ _ => some feature.kind
  | _ => none

/-- The type of the instance that a read of such a feature stands for. -/
def TypingContext.instance? (c : TypingContext) : FeatureKind → Option HostType
  | .this => c.thisType
  | .super => c.superType
  | _ => none

theorem TypingContext.instance?_following (c : TypingContext) (x : Expr)
    (childTypes : List HostType) (kind : FeatureKind) :
    (x.following c childTypes).instance? kind = c.instance? kind := by
  cases x <;> cases kind <;> rfl

namespace Expr

variable {x : Expr} {kind : FeatureKind} {type : HostType}

theorem passesValue_of_featureKind (hx : x.featureKind? = some kind) : x.passesValue = false := by
  cases x <;> first | rfl | cases hx

theorem ownType_of_instance {inner : TypingContext} (hx : x.featureKind? = some kind)
    (hinner : inner.instance? kind = some type) (value : HostType) :
    x.ownType inner value = .ok type := by
  cases x with
  | call node feature receiver args =>
    obtain rfl := Option.some.inj hx
    cases hkind : feature.kind with
    | this | super =>
      rw [hkind] at hinner
      simp only [TypingContext.instance?] at hinner
      simp only [ownType, Feature.typeIn, hkind, hinner]
    | _ =>
      rw [hkind] at hinner
      cases hinner
  | _ => cases hx

end Expr

/-! ## One node of the table -/

/-- All that the table says about node `i` is that it has this type. -/
def ResolvedTypes.Knows (i : NodeId) (type : HostType) (types : ResolvedTypes) : Prop :=
  ∀ r ∈ types.resolutions i, r.actual = type

/-- Offers of one type leave nothing to merge. -/
theorem Resolution.actual_mergeInto {type : HostType} {span : Span} {offer : Resolution}
    {rs rs' : List Resolution} (hmerge : mergeInto h span offer rs = .ok rs')
    (hoffer : offer.actual = type) (hrs : ∀ r ∈ rs, r.actual = type) :
    ∀ r ∈ rs', r.actual = type := by
  cases mergeInto_eq_ok hmerge with
  | added =>
    exact List.forall_mem_append.mpr ⟨hrs, List.forall_mem_singleton.mpr hoffer⟩
  | @merged old new _ _ _ _ hmerged =>
    have hold : old.actual = type := hrs old (List.mem_append_right _ List.mem_cons_self)
    rw [merge, if_pos (.inl (hold.trans hoffer.symm))] at hmerged
    obtain rfl := Except.ok.inj hmerged
    exact hrs

theorem ResolvedTypes.Knows.accept {i id : NodeId} {type : HostType} {span : Span}
    {offer : Resolution} (hknows : types.Knows i type) (hoffer : id = i → offer.actual = type)
    (haccept : types.accept h id span offer = .ok types') : types'.Knows i type := by
  by_cases hid : i = id
  · subst hid
    exact Resolution.actual_mergeInto (resolutions_accept haccept) (hoffer rfl) hknows
  · rw [Knows, resolutions_accept_of_ne haccept hid]
    exact hknows

/-! ## Trees -/

namespace Recording

variable {i : NodeId} {kind : FeatureKind} {type : HostType}

private def Learns (h : Hierarchy) (i : NodeId) (kind : FeatureKind) (type : HostType) (x : Expr) :
    Prop :=
  ∀ outer c e types, outer ≠ some i → c.instance? kind = some type → types.Knows i type →
    Outcome (record h x outer c e) types
      (fun b types' => b.2.instance? kind = some type ∧ types'.Knows i type) fun _ => True

private theorem learns_all {id : NodeId} {xs : List Expr} (hxs : ∀ x ∈ xs, Learns h i kind type x)
    {asks : List Ask} (hasks : ∀ ask ∈ asks, ask.passed → id ≠ i) {c : TypingContext}
    (hc : c.instance? kind = some type) (hknows : types.Knows i type) :
    Outcome (all id c (asks.zip (xs.map (record h)))) types
      (fun b types' => b.2.instance? kind = some type ∧ types'.Knows i type) fun _ => True := by
  induction xs generalizing asks c types with
  | nil => simp [all, hc, hknows]
  | cons x xs ih =>
    cases asks with
    | nil => exact ⟨hc, hknows⟩
    | cons ask asks =>
      obtain ⟨hx, hrest⟩ := List.forall_mem_cons.mp hxs
      obtain ⟨hask, hasks⟩ := List.forall_mem_cons.mp hasks
      have houter : (if ask.passed then some id else none) ≠ some i := by
        split
        · simpa using hask ‹_›
        · simp
      simp only [List.map_cons, List.zip_cons_cons, all, outcome_bind]
      apply (hx _ c ask.expectation types houter hc hknows).imp
      rintro ⟨_, c'⟩ types₁ ⟨hc', hknows'⟩
      exact (ih hrest hasks hc' hknows').imp fun _ _ hpost => hpost

private theorem learns_settle {outer : Option NodeId} {e : Expectation} {x : Expr}
    {typed : HostType × TypingContext} (htype : type.isAny = false) (houter : outer ≠ some i)
    (hx : x.id = i → typed.1 = type) (hknows : types.Knows i type) :
    Outcome (settle h outer e x typed) types
      (fun b types' => b.2 = typed.2 ∧ types'.Knows i type) fun _ => True := by
  have hoffered : x.id = i → Typing.refine e typed.1 = type := by
    intro hid
    rw [hx hid, refine_eq_self htype]
  simp only [settle, outcome_bind]
  cases hclassify : e.classify h typed.1 x.span with
  | error f => trivial
  | ok conformance =>
    simp only [outcome_ofExcept, Recording.offer, outcome_bind]
    refine outcome_put_of_accept fun types₁ haccept => ?_
    have hknows₁ := hknows.accept hoffered haccept
    cases outer with
    | none => exact ⟨rfl, hknows₁⟩
    | some id =>
      refine outcome_put_of_accept fun types₂ haccept' => ⟨rfl, ?_⟩
      exact hknows₁.accept (fun hid => absurd (congrArg some hid) houter) haccept'

private theorem learns {x : Expr} (htype : type.isAny = false)
    (hx : ∀ part ∈ x.occurrences, part.id = i → part.featureKind? = some kind) :
    Learns h i kind type x := by
  induction x using Expr.childInduction with
  | step x ih =>
    have hself := hx x x.mem_occurrences_self
    replace ih (child : Expr) (hchild : child ∈ x.children) := ih child hchild fun part hpart =>
      hx part (Expr.mem_occurrences_of_mem_children hchild hpart)
    intro outer c e types houter hc hknows
    rw [record_eq, outcome_bind, inside]
    simp only [outcome_bind]
    cases hasks : x.asks c e with
    | error f => trivial
    | ok asks =>
      have hpassed : ∀ ask ∈ asks, ask.passed → x.id ≠ i := by
        intro ask hask hpassed hid
        have hvalue := Expr.passesValue_of_featureKind (hself hid)
        have hown := Expr.passed_eq_false hasks hvalue ask hask
        exact Bool.false_ne_true (hown.symm.trans hpassed)
      rw [outcome_ofExcept]
      apply (learns_all ih hpassed hc hknows).imp
      rintro ⟨childTypes, inner⟩ types₁ ⟨hinner, hknows₁⟩
      have hvalue : Keeps (·.Knows i type) (fun _ => True) (passedType e childTypes x) :=
        keeps_passedType e childTypes x
      apply (hvalue types₁ hknows₁).imp
      intro value types₂ hknows₂
      cases hown : x.ownType inner value with
      | error f => trivial
      | ok found =>
        have hfound : x.id = i → found = type := by
          intro hid
          exact Except.ok.inj (hown.symm.trans (Expr.ownType_of_instance (hself hid) hinner value))
        have hsettled : Outcome (settle h outer e x (found, x.following c childTypes)) types₂
            (fun b types' => b.2 = x.following c childTypes ∧ types'.Knows i type) fun _ => True :=
          learns_settle htype houter hfound hknows₂
        apply hsettled.imp
        rintro ⟨_, after⟩ types₃ ⟨hafter, hknows₃⟩
        obtain rfl : after = x.following c childTypes := hafter
        exact ⟨(c.instance?_following x childTypes kind).trans hc, hknows₃⟩

end Recording

/-- Reads of the enclosing instance, or of its supertype, have the type that the context gives it,
if that is a definite one. -/
theorem ResolvedTypes.typeOf_instance_of_infer {x part : Expr} {e : Expectation} {c : TypingContext}
    {kind : FeatureKind} {type : HostType} (hx : x.Identified) (hinfer : x.infer h e c = .ok types)
    (hc : c.instance? kind = some type) (htype : type.isAny = false) (hpart : part ∈ x.occurrences)
    (hkind : part.featureKind? = some kind) : types.typeOf part = type := by
  have hreads : ∀ y ∈ x.occurrences, y.id = part.id → y.featureKind? = some kind := by
    intro y hy hid
    rwa [hx y hy part hpart hid]
  obtain ⟨_, hrun⟩ := Typing.exists_record_of_infer hinfer
  have hempty : ResolvedTypes.Knows part.id type {} := fun _ hr => by cases hr
  have hlearns : Recording.Learns h part.id kind type x := Recording.learns htype hreads
  have hlearned := hlearns none c e {} (by simp) hc hempty
  have hknows : types.Knows part.id type := (hlearned.of_run_ok hrun).2
  have hcontains : types.contains part.id :=
    (ResolvedTypes.contains_iff_of_infer hinfer _).mpr (List.mem_map_of_mem hpart)
  obtain ⟨first, rest, hresolutions⟩ :=
    List.exists_cons_of_ne_nil ((ResolvedTypes.tidy_of_infer hinfer).ne_nil _ hcontains)
  have hfirst : first.actual = type := hknows first (hresolutions ▸ List.mem_cons_self)
  simp [typeOf, actual?, hresolutions, hfirst]

end Lowering
