import Lowering.Proofs.Typing.Fitting
import Lowering.Proofs.Typing.Recording

/-!
# Invariants of the table

The table of types changes only where a type that was checked is offered for a node. Main statement:
what such offers keep true of the table is true of the table of every inferred tree, also of one
with sharing, and typing fails only as its rules and these offers do.
-/

namespace Lowering

namespace Failure

/-- The rules of typing reject the tree. -/
def isTyping : Failure → Bool
  | .mismatch .. | .unresolved .. | .unsupported .. => true
  | _ => false

end Failure

theorem Feature.isTyping_of_typeIn {feature : Feature} {c : TypingContext} {span : Span}
    {f : Failure} (h : feature.typeIn c span = .error f) : f.isTyping := by
  simp only [Feature.typeIn] at h
  split at h
  all_goals first | (split at h <;> cases h; rfl) | cases h

theorem Feature.isTyping_of_targetTypeIn {feature : Feature} {c : TypingContext} {span : Span}
    {f : Failure} (h : feature.targetTypeIn c span = .error f) : f.isTyping := by
  simp only [Feature.targetTypeIn] at h
  split at h <;> cases h
  rfl

theorem Expr.isTyping_of_asks {x : Expr} {c : TypingContext} {e : Expectation} {f : Failure}
    (h : x.asks c e = .error f) : f.isTyping := by
  cases x with
  | assign node target receiver value =>
    cases htarget : target.targetTypeIn c node.span with
    | ok type => simp [Expr.asks, htarget, bind, Except.bind] at h
    | error f' =>
      obtain rfl : f' = f := by simpa [Expr.asks, htarget, bind, Except.bind] using h
      exact Feature.isTyping_of_targetTypeIn htarget
  | extension node kind children =>
    cases h
    rfl
  | _ => cases h

theorem Expr.isTyping_of_ownType {x : Expr} {inner : TypingContext} {value : HostType} {f : Failure}
    (h : x.ownType inner value = .error f) : f.isTyping := by
  cases x with
  | call => exact Feature.isTyping_of_typeIn h
  | _ => cases h

theorem Expectation.isTyping_of_classify {h : Hierarchy} {e : Expectation} {type : HostType}
    {span : Span} {f : Failure} (hclassify : e.classify h type span = .error f) : f.isTyping := by
  unfold Expectation.classify at hclassify
  repeat' split at hclassify
  all_goals cases hclassify
  all_goals rfl

namespace Recording

variable {h : Hierarchy} {Inv : ResolvedTypes → Prop} {failed : Failure → Prop} {α β : Type}

/-- Run on a table of which `Inv` holds, `act` keeps it so, and fails only as `failed` allows. -/
def Keeps (Inv : ResolvedTypes → Prop) (failed : Failure → Prop) (act : Recording α) : Prop :=
  ∀ types, Inv types → Outcome act types (fun _ types' => Inv types') failed

/-- Offers of types that were checked keep `Inv`, and typing may fail as `failed` allows. -/
structure Allows (h : Hierarchy) (Inv : ResolvedTypes → Prop) (failed : Failure → Prop) :
    Prop where
  rules {f : Failure} : f.isTyping → failed f
  put {e : Expectation} {type : HostType} {span : Span} {conformance : Conformance} :
    e.classify h type span = .ok conformance → ∀ id span',
      Keeps Inv failed (put h id span' ⟨e, Typing.refine e type, conformance, e.isReturn⟩)

theorem Keeps.bind {act : Recording α} {next : α → Recording β} (hact : Keeps Inv failed act)
    (hnext : ∀ a, Keeps Inv failed (next a)) : Keeps Inv failed (act >>= next) :=
  fun types htypes =>
    (outcome_bind _ _ _ _ _).mpr ((hact types htypes).imp fun a types' => hnext a types')

theorem keeps_pure (a : α) : Keeps Inv failed (pure a) :=
  fun _ htypes => htypes

theorem keeps_ofExcept {result : Except Failure α} (hresult : ∀ f, result = .error f → failed f) :
    Keeps Inv failed (ofExcept result) := fun types htypes => by
  cases result with
  | ok a => exact htypes
  | error f => exact hresult f rfl

/-- An offer keeps `Inv` if the table that accepts it does. -/
theorem keeps_put {id : NodeId} {span : Span} {offer : Resolution}
    (haccept : ∀ types, Inv types → match types.accept h id span offer with
      | .ok types' => Inv types'
      | .error f => failed f) : Keeps Inv failed (put h id span offer) := fun types htypes => by
  have haccept := haccept types htypes
  simp only [put, outcome_bind, outcome_get]
  cases hresult : types.accept h id span offer with
  | ok types' =>
    rw [hresult] at haccept
    exact haccept
  | error f =>
    rw [hresult] at haccept
    exact haccept

section

variable (allows : Allows h Inv failed)
include allows

private theorem keeps_settle (outer : Option NodeId) (e : Expectation) (x : Expr)
    (typed : HostType × TypingContext) : Keeps Inv failed (settle h outer e x typed) := by
  intro types htypes
  simp only [settle, outcome_bind]
  cases hclassify : e.classify h typed.1 x.span with
  | error f => exact allows.rules (Expectation.isTyping_of_classify hclassify)
  | ok conformance =>
    have hoffer : Keeps Inv failed (offer h outer x.node
        ⟨e, Typing.refine e typed.1, conformance, e.isReturn⟩) := by
      refine (allows.put hclassify _ _).bind fun _ => ?_
      cases outer with
      | some id => exact allows.put hclassify id _
      | none => exact keeps_pure ()
    exact (hoffer types htypes).imp fun _ _ h => h

omit allows in
theorem keeps_passedType (e : Expectation) (childTypes : List HostType) (x : Expr) :
    Keeps Inv failed (passedType e childTypes x) := by
  intro types htypes
  cases x <;> exact htypes

omit allows in
theorem keeps_all {below : List Recorder} (id : NodeId)
    (hbelow : ∀ record ∈ below, ∀ outer c e, Keeps Inv failed (record outer c e))
    (asks : List Ask) (c : TypingContext) : Keeps Inv failed (all id c (asks.zip below)) := by
  induction asks generalizing below c with
  | nil => exact keeps_pure _
  | cons ask asks ih =>
    cases below with
    | nil => exact keeps_pure _
    | cons first rest =>
      obtain ⟨hfirst, hrest⟩ := List.forall_mem_cons.mp hbelow
      exact (hfirst _ c ask.expectation).bind fun typed => (ih hrest typed.2).bind fun _ =>
        keeps_pure _

/-- Typing a tree keeps what offers of checked types keep. -/
theorem keeps_record (x : Expr) (outer : Option NodeId) (c : TypingContext) (e : Expectation) :
    Keeps Inv failed (record h x outer c e) := by
  induction x using Expr.childInduction generalizing outer c e with
  | step x ih =>
    have hbelow : ∀ recorder ∈ x.children.map (record h), ∀ outer c e,
        Keeps Inv failed (recorder outer c e) := by
      intro recorder hrecorder
      obtain ⟨child, hchild, rfl⟩ := List.mem_map.mp hrecorder
      exact fun outer c e => ih child hchild outer c e
    have hasks : Keeps Inv failed (ofExcept (x.asks c e)) :=
      keeps_ofExcept fun f hf => allows.rules (Expr.isTyping_of_asks hf)
    have hown (inner : TypingContext) (value : HostType) :
        Keeps Inv failed (ofExcept (x.ownType inner value)) :=
      keeps_ofExcept fun f hf => allows.rules (Expr.isTyping_of_ownType hf)
    rw [record_eq, inside]
    refine Keeps.bind ?_ fun typed => keeps_settle allows outer e x typed
    exact hasks.bind fun asks => (keeps_all x.id hbelow asks c).bind fun typed =>
      (keeps_passedType e typed.1 x).bind fun value => (hown typed.2 value).bind fun type =>
        keeps_pure _

end

end Recording

/-! ## Invariants of resolutions -/

/-- `P` holds of every resolution of a table. -/
def ResolvedTypes.All (P : Resolution → Prop) (types : ResolvedTypes) : Prop :=
  ∀ id, ∀ r ∈ types.resolutions id, P r

section

variable {h : Hierarchy} {P : Resolution → Prop} {failed : Failure → Prop}

/-- `P` holds of a resolution into which an offer is merged under the same expectation, if it held
of the resolution before and `Offered` holds of the offer. -/
def Resolution.Merges (h : Hierarchy) (P Offered : Resolution → Prop) (failed : Failure → Prop) :
    Prop :=
  ∀ (span : Span) (old new : Resolution), P old → Offered new →
    old.expectation = new.expectation → match old.merge h span new with
      | .ok r => P r
      | .error f => failed f

private theorem Resolution.Merges.mergeInto {Offered : Resolution → Prop}
    (hmerges : Merges h P Offered failed) (span : Span) {offer : Resolution}
    (hoffer : Offered offer) (hfirst : P offer) {rs : List Resolution} (hrs : ∀ r ∈ rs, P r) :
    match mergeInto h span offer rs with
    | .ok rs' => ∀ r ∈ rs', P r
    | .error f => failed f := by
  induction rs with
  | nil => exact List.forall_mem_singleton.mpr hfirst
  | cons first rest ih =>
    obtain ⟨hfirst, hrest⟩ := List.forall_mem_cons.mp hrs
    rw [Resolution.mergeInto]
    by_cases hsame : first.expectation = offer.expectation
    · have hmerge := hmerges span first offer hfirst hoffer hsame
      rw [if_pos hsame]
      cases hmerged : first.merge h span offer with
      | error f => rwa [hmerged] at hmerge
      | ok merged =>
        rw [hmerged] at hmerge
        exact List.forall_mem_cons.mpr ⟨hmerge, hrest⟩
    · have hmerge := ih hrest
      rw [if_neg hsame]
      cases hmerged : Resolution.mergeInto h span offer rest with
      | error f => rwa [hmerged] at hmerge
      | ok merged =>
        rw [hmerged] at hmerge
        exact List.forall_mem_cons.mpr ⟨hfirst, hmerge⟩

/-- What holds of every offer of a type that was checked, and is kept where one is merged into a
resolution, holds of every resolution. -/
theorem Recording.allows_all (Offered : Resolution → Prop)
    (hrules : ∀ f : Failure, f.isTyping → failed f)
    (hchecked : ∀ {e : Expectation} {type : HostType} {span : Span} {conformance : Conformance},
      e.classify h type span = .ok conformance →
        Offered ⟨e, Typing.refine e type, conformance, e.isReturn⟩)
    (hfirst : ∀ r, Offered r → P r) (hmerges : Resolution.Merges h P Offered failed) :
    Allows h (·.All P) failed where
  rules := hrules _
  put hclassify id span := keeps_put fun types htypes => by
    have hoffer := hchecked hclassify
    have hmerge := hmerges.mergeInto span hoffer (hfirst _ hoffer) (htypes id)
    split
    · rename_i types' haccept
      intro other
      by_cases hother : other = id
      · subst hother
        rwa [ResolvedTypes.resolutions_accept haccept] at hmerge
      · rw [ResolvedTypes.resolutions_accept_of_ne haccept hother]
        exact htypes other
    · rename_i f haccept
      split at hmerge
      · rename_i rs hmerged
        simp [ResolvedTypes.accept, hmerged, Except.map] at haccept
      · rename_i f' hmerged
        obtain rfl : f' = f := by simpa [ResolvedTypes.accept, hmerged, Except.map] using haccept
        exact hmerge

end

/-- What offers of checked types keep holds of the table of every inferred tree, and type inference
fails only as typing may. -/
theorem Recording.Allows.infer {h : Hierarchy} {Inv : ResolvedTypes → Prop}
    {failed : Failure → Prop} (allows : Allows h Inv failed) (hempty : Inv {}) (x : Expr)
    (e : Expectation) (c : TypingContext) :
    match x.infer h e c with
    | .ok types => Inv types
    | .error f => failed f := by
  have hkeeps := keeps_record allows x none c e {} hempty
  rw [Typing.infer_eq_record]
  cases hrun : (record h x none c e).run.run {} with
  | mk result types =>
    cases result with
    | ok a => exact hkeeps.of_run_ok hrun
    | error f => exact hkeeps.of_run_error hrun

/-! ## Types that fit -/

private theorem Recording.allows_fitting (h : Hierarchy) :
    Allows h (·.All fun r => r.Fits r.expectation) (·.isTyping) := by
  refine allows_all (fun r => r.Fits r.expectation) (fun _ => id) (fun hclassify => ?_)
    (fun _ => id) fun span old new hold hnew hsame => ?_
  · exact Resolution.fits_of_classify hclassify _
  · have hfits : new.Fits old.expectation := by
      rw [hsame]
      exact hnew
    obtain ⟨r, hmerge, hfits, _⟩ := Resolution.merge_of_fits h span hold hfits
    have hmerged : r.Fits r.expectation := by rwa [hfits.expectation]
    rw [hmerge]
    exact hmerged

/-- Type inference fails only as its rules do. -/
theorem Expr.isTyping_of_infer {h : Hierarchy} {x : Expr} {e : Expectation} {c : TypingContext}
    {f : Failure} (hinfer : x.infer h e c = .error f) : f.isTyping := by
  have hfitting := (Recording.allows_fitting h).infer (fun _ _ hr => by cases hr) x e c
  rwa [hinfer] at hfitting

/-- What type inference records under an expectation fits it. -/
theorem ResolvedTypes.fits_of_infer {h : Hierarchy} {x : Expr} {e : Expectation}
    {c : TypingContext} {types : ResolvedTypes} (hinfer : x.infer h e c = .ok types) :
    types.All fun r => r.Fits r.expectation := by
  have hfitting := (Recording.allows_fitting h).infer (fun _ _ hr => by cases hr) x e c
  rwa [hinfer] at hfitting

end Lowering
