import Lowering.Proofs.Tree.Scoping
import Lowering.Proofs.Typing.Coherence

/-!
# The types of locals

Typing gives each local one type, which every context that knows the local holds, and which every
read has unless it tells nothing. Main statements: a judged tree keeps this of contexts, and what
type inference then finds for the reads of a local.
-/

namespace Lowering

variable {h : Hierarchy} {types : ResolvedTypes} {c : TypingContext} {e : Expectation}

theorem HostType.eq_any_of_isAny {type : HostType} (h : type.isAny) : type = .any := by
  cases type with
  | any => rfl
  | _ => cases h

/-- The placeholder stays, or it gives way to the type that is asked for. -/
theorem refine_any (e : Expectation) :
    Typing.refine e .any = .any ∨ e.type = some (Typing.refine e .any) := by
  unfold Typing.refine
  split
  · split
    · exact .inr ‹_›
    · exact .inl rfl
  · exact .inl rfl

/-- The type that a declaration gives to its local: the written type, or else that of the
initializer. -/
def ResolvedTypes.typeOfLocal (types : ResolvedTypes) : Expr → HostType
  | .decl _ _ (some type) _ _ => type.resolve
  | .decl _ _ none _ (some init) => types.typeOf init
  | _ => .object

/-- The context holds locals that `among` declares, with their types. -/
def TypingContext.Holds (c : TypingContext) (types : ResolvedTypes) (among : List Expr) : Prop :=
  ∀ entry ∈ c.locals, ∃ x ∈ among, entry.1 ∈ x.declared ∧ entry.2 = types.typeOfLocal x

/-- What judging the children from left to right keeps of contexts, and shows of each child. -/
theorem Judge.all_induction {P : TypingContext → Prop} {Q : Expr → Prop} {xs : List Expr}
    {asks : List Ask} {inner : TypingContext} {verdicts : List Verdict}
    (hlength : asks.length = xs.length)
    (hall : Judge.all c (asks.zip (xs.map (Expr.judge h))) = .ok (verdicts, inner))
    (hstep : ∀ x ∈ xs, ∀ c e, ∀ verdict ∈ verdicts, P c → x.judge h c e = .ok verdict →
      P verdict.after ∧ Q x)
    (hc : P c) : P inner ∧ ∀ x ∈ xs, Q x := by
  induction xs generalizing asks c verdicts with
  | nil =>
    simp only [List.map_nil, List.zip_nil_right, Judge.all, Except.ok.injEq, Prod.mk.injEq] at hall
    exact ⟨hall.2 ▸ hc, by simp⟩
  | cons x xs ih =>
    obtain ⟨ask, asks, rfl⟩ := List.exists_cons_of_length_eq_add_one hlength
    simp only [List.map_cons, List.zip_cons_cons, Judge.all, bind_eq_ok] at hall
    obtain ⟨first, hfirst, ⟨rest, after⟩, hrest, hverdicts⟩ := hall
    simp only [Except.ok.injEq, Prod.mk.injEq] at hverdicts
    obtain ⟨rfl, rfl⟩ := hverdicts
    obtain ⟨hafter, hx⟩ := hstep x List.mem_cons_self c ask.expectation first List.mem_cons_self hc
      hfirst
    obtain ⟨hinner, hxs⟩ := ih (Nat.succ.inj hlength) hrest
      (fun x hx c e verdict hverdict => hstep x (List.mem_cons_of_mem _ hx) c e verdict
        (List.mem_cons_of_mem _ hverdict)) hafter
    exact ⟨hinner, List.forall_mem_cons.mpr ⟨hx, hxs⟩⟩

namespace Expr

variable {x : Expr} {verdict : Verdict} {among : List Expr}

/-- `x` reads the local that node `d` declares. -/
def reads (d : NodeId) : Expr → Prop
  | .call _ feature _ _ => feature.kind = .localVar d
  | _ => False

/-- A read has the type of its local, unless that tells nothing and something is asked of the
read. -/
def ReadsFrom (types : ResolvedTypes) (among : List Expr) (x : Expr) : Prop :=
  ∀ d, x.reads d → ∃ y ∈ among, d ∈ y.declared ∧
    ∃ e, types.Records ⟨x.id, e, Typing.refine e (types.typeOfLocal y)⟩

private theorem typeOfLocal_of_judge {node : Node} {name : String} {type : Option WrittenType}
    {writeable : Bool} {init : Option Expr} {asks : List Ask} {verdicts : List Verdict}
    {inner : TypingContext} (hasks : (decl node name type writeable init).asks c e = .ok asks)
    (hall : Judge.all c (asks.zip (init.toList.map (judge h))) = .ok (verdicts, inner))
    (hrecords : ∀ verdict ∈ verdicts, ∀ j ∈ verdict.judgements, types.Records j) :
    (type.map (·.resolve)).getD ((verdicts.map (·.type)).head?.getD .object) =
      types.typeOfLocal (.decl node name type writeable init) := by
  have hjudged := Judge.forall₂_of_all (length_asks hasks) hall
  cases type with
  | some type => rfl
  | none =>
    cases init with
    | none =>
      cases hjudged
      rfl
    | some init =>
      cases hjudged with
      | cons hinit hrest =>
        obtain ⟨_, _, _, hinit⟩ := hinit
        exact (typeOf_of_judge hinit (hrecords _ List.mem_cons_self)).symm

private theorem holds_following {asks : List Ask} {verdicts : List Verdict} {inner : TypingContext}
    (hasks : x.asks c e = .ok asks)
    (hall : Judge.all c (asks.zip (x.children.map (judge h))) = .ok (verdicts, inner))
    (hrecords : ∀ verdict ∈ verdicts, ∀ j ∈ verdict.judgements, types.Records j)
    (hx : x ∈ among) (hc : c.Holds types among) :
    (x.following c (verdicts.map (·.type))).Holds types among := by
  cases x with
  | decl node name type writeable init =>
    refine List.forall_mem_cons.mpr ⟨⟨_, hx, List.mem_singleton_self _, ?_⟩, hc⟩
    exact typeOfLocal_of_judge hasks hall hrecords
  | _ => exact hc

private theorem exists_local_of_ownType {d : NodeId} {inner : TypingContext} {value type : HostType}
    (hreads : x.reads d) (hown : x.ownType inner value = .ok type)
    (hinner : inner.Holds types among) :
    ∃ y ∈ among, d ∈ y.declared ∧ type = types.typeOfLocal y := by
  cases x with
  | call node feature receiver args =>
    have hkind : feature.kind = .localVar d := hreads
    simp only [ownType, Feature.typeIn, hkind] at hown
    cases hlocal : inner.local? d with
    | none => simp [hlocal] at hown
    | some found =>
      obtain rfl : found = type := by simpa [hlocal] using hown
      obtain ⟨before, after, hlocals, _⟩ := List.lookup_eq_some_iff.mp hlocal
      exact hinner (d, found) (hlocals ▸ List.mem_append_right _ List.mem_cons_self)
  | _ => cases hreads

/-- Judging a tree keeps what contexts hold, and all reads are of locals that they hold. -/
theorem readsFrom_of_judge (hx : x.judge h c e = .ok verdict)
    (hrecords : ∀ j ∈ verdict.judgements, types.Records j) (hamong : x.occurrences ⊆ among)
    (hc : c.Holds types among) :
    verdict.after.Holds types among ∧ ∀ part ∈ x.occurrences, part.ReadsFrom types among := by
  induction x using childInduction generalizing c e verdict with
  | step x ih =>
    obtain ⟨asks, verdicts, inner, type, _, hasks, hall, hown, _, rfl⟩ := judge_eq_ok hx
    have hbelow : ∀ verdict ∈ verdicts, ∀ j ∈ verdict.judgements, types.Records j :=
      fun verdict hverdict j hj => hrecords j
        (List.mem_append_left _ (List.mem_flatMap.mpr ⟨verdict, hverdict, hj⟩))
    obtain ⟨hinner, hchildren⟩ := Judge.all_induction (length_asks hasks) hall
      (fun child hchild c e verdict hverdict hc hjudge => ih child hchild hjudge
        (hbelow verdict hverdict)
        (fun part hpart => hamong (mem_occurrences_of_mem_children hchild hpart)) hc) hc
    refine ⟨holds_following hasks hall hbelow (hamong x.mem_occurrences_self) hc, ?_⟩
    rw [occurrences_eq]
    refine List.forall_mem_cons.mpr ⟨fun d hreads => ?_, List.forall_mem_flatMap.mpr hchildren⟩
    obtain ⟨y, hy, hd, rfl⟩ := exists_local_of_ownType hreads hown hinner
    exact ⟨y, hy, hd, e, hrecords _ (List.mem_append_right _ List.mem_cons_self)⟩

theorem id_of_mem_declared {d : NodeId} (hd : d ∈ x.declared) : x.id = d := by
  cases x with
  | decl => exact (List.mem_singleton.mp hd).symm
  | _ => cases hd

theorem Unshared.eq_of_declared (hx : x.Unshared) {y z : Expr} (hy : y ∈ x.occurrences)
    (hz : z ∈ x.occurrences) {d : NodeId} (hyd : d ∈ y.declared) (hzd : d ∈ z.declared) : y = z :=
  List.inj_on_of_nodup_map hx hy hz
    ((id_of_mem_declared hyd).trans (id_of_mem_declared hzd).symm)

end Expr

namespace ResolvedTypes

variable {x y part : Expr} {d : NodeId}

/-- Where a local has a definite type, all reads have it; otherwise a read has the type that is
asked of it, if that is definite. -/
theorem typeOf_read_of_infer (hx : x.Unshared) (hinfer : x.infer h e c = .ok types)
    (hc : c.locals = []) (hy : y ∈ x.occurrences) (hd : d ∈ y.declared)
    (hpart : part ∈ x.occurrences) (hreads : part.reads d) :
    ∃ e, types.expected? part.id = e.type ∧
      types.typeOf part = Typing.refine e (types.typeOfLocal y) := by
  obtain ⟨verdict, hjudge, hrecords⟩ := Expr.exists_judge_of_infer hx hinfer
  have hheld : c.Holds types x.occurrences := by simp [TypingContext.Holds, hc]
  obtain ⟨_, hreadsFrom⟩ :=
    Expr.readsFrom_of_judge hjudge hrecords (List.Subset.refl _) hheld
  obtain ⟨z, hz, hdz, e, hrecorded⟩ := hreadsFrom part hpart d hreads
  obtain rfl := hx.eq_of_declared hy hz hd hdz
  exact ⟨e, expected?_of_records hrecorded, typeOf_of_records hrecorded⟩

/-- Nothing is asked of the initializer of a declaration without a type. -/
theorem expected?_init_of_infer {node : Node} {name : String} {writeable : Bool} {init : Expr}
    (hx : x.Unshared) (hinfer : x.infer h e c = .ok types)
    (hy : .decl node name none writeable (some init) ∈ x.occurrences) :
    types.expected? init.id = none := by
  obtain ⟨verdict, hjudge, hrecords⟩ := Expr.exists_judge_of_infer hx hinfer
  obtain ⟨_, _, below, hbelow, hsubset⟩ := Expr.exists_judge_of_mem_occurrences hjudge hy
  obtain ⟨asks, verdicts, inner, type, _, hasks, hall, _, _, rfl⟩ := Expr.judge_eq_ok hbelow
  obtain rfl : [Ask.operand .free] = asks := Except.ok.inj hasks
  cases Judge.forall₂_of_all rfl hall with
  | @cons _ inner _ _ hinit _ =>
    obtain ⟨_, ask, hask, hinit⟩ := hinit
    obtain rfl := List.mem_singleton.mp hask
    obtain ⟨_, hjudgements, _⟩ := Expr.judgements_eq hinit
    have hrecorded : types.Records ⟨init.id, .free, inner.type⟩ := by
      refine hrecords _ (hsubset (List.mem_append_left _ ?_))
      refine List.mem_flatMap.mpr ⟨inner, List.mem_cons_self, ?_⟩
      rw [hjudgements]
      exact List.mem_append_right _ List.mem_cons_self
    exact expected?_of_records hrecorded

end ResolvedTypes

end Lowering
