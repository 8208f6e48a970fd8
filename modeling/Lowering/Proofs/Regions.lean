import Lowering.Proofs.Running
import Lowering.Proofs.Sink.Regions
import Lowering.Proofs.Tree.Occurrences

/-!
# Regions of lowered trees

The text of a node is recorded each time its statement or expression form is written. Main
statement: the regions of a sink are well nested at every moment of a request, whether it succeeds
or fails; and where a method is lowered, every node of its tree has a region, and the tree has one
that is the whole text.
-/

namespace Lowering

/-! ## Every node has a region -/

/-- There is a region of node `i`. -/
def Sink.Traces (t : Sink) (i : NodeId) : Prop :=
  ∃ r ∈ t.finished, r.id = i

theorem Sink.lasting_traces (i : NodeId) : Lasting (Traces · i) :=
  fun _ _ hretains ⟨r, hr, hid⟩ => ⟨r, hretains.finished.subset hr, hid⟩

namespace Emit

variable {env : Env} {α : Type}

/-- The region of what was traced reaches from where that started to the end of the text. -/
theorem traced_finishes (id : NodeId) (debug : Bool) (act : Emit α) (s : Sink) :
    Obeys (fun s t => ⟨id, s.size, t.size - s.size, debug⟩ ∈ t.finished) (fun _ _ => True)
      (traced id debug act) s :=
  (obeys_trivial act s).traced fun _ _ => List.mem_cons_self

theorem leaves_traced (id : NodeId) (debug : Bool) (act : Emit α) :
    Leaves (·.Traces id) (traced id debug act) := fun s =>
  (traced_finishes id debug act s).imp (fun _ hmem => ⟨_, hmem, rfl⟩) fun _ _ => trivial

/-- The statement form of a node records a region of it. -/
theorem traces_own (part : Expr) (needed : Bool) :
    Leaves (·.Traces part.id) (statement env needed part) := by
  cases part with
  | extension => exact fun _ => trivial
  | block node exprs =>
    rcases exprs with _ | ⟨first, _ | ⟨second, rest⟩⟩ <;> exact leaves_traced _ _ _
  | decl node name type writeable init =>
    rw [statement_decl]
    exact leaves_traced _ _ _
  | ret node value => cases value <;> exact leaves_traced _ _ _
  | _ =>
    rw [statement]
    exact leaves_traced _ _ _

/-- The body of a tree records regions of all its nodes. -/
theorem traces_body {e part : Expr} (hpart : part ∈ e.occurrences) (expected : Option HostType)
    (declared : List HostType) : Leaves (·.Traces part.id) (body env e expected declared) := by
  have hlasting := Sink.lasting_traces part.id
  rw [body, functionBody_eq]
  exact (leaves_guarding hlasting (leaves_bodyText hlasting hpart (traces_own part) expected)
    _).traced _ _ hlasting

/-- The body itself is recorded as a region of the root. -/
theorem body_finishes (e : Expr) (expected : Option HostType) (declared : List HostType)
    (s : Sink) :
    Obeys (fun s t => ⟨e.id, s.size, t.size - s.size, true⟩ ∈ t.finished) (fun _ _ => True)
      (body env e expected declared) s :=
  traced_finishes _ _ _ s

private def SameSize (s t : Sink) : Prop :=
  t.size = s.size

private theorem SameSize.refl (s : Sink) : SameSize s s :=
  Eq.refl _

private theorem SameSize.trans {s t u : Sink} (h : SameSize s t) (h' : SameSize t u) :
    SameSize s u :=
  Eq.trans h' h

private theorem does_bind (key : NameKey) (name : String) :
    Does SameSize (modify (·.bind key name) : Emit PUnit) :=
  does_modify fun s => s.size_write (.bind key name)

private theorem does_declareInstance (keyword : String) (type : Option HostType) :
    Does SameSize (declareInstance keyword type) := by
  cases type with
  | none => exact does_pure SameSize.refl ()
  | some type =>
    have hobject : Does SameSize (modify (·.setObject keyword type) : Emit PUnit) :=
      does_modify fun s => .refl s
    exact hobject.bind .trans fun _ => does_bind _ _

private theorem does_declareParams (params : List (String × HostType)) :
    Does SameSize (declareParams params) := by
  induction params with
  | nil => exact does_pure SameSize.refl ()
  | cons param params ih => exact (does_bind _ _).bind .trans fun _ => ih

private theorem does_declareSignature (sig : Signature) : Does SameSize (declareSignature sig) :=
  (does_declareInstance _ _).bind .trans fun _ =>
    (does_declareInstance _ _).bind .trans fun _ => does_declareParams _

end Emit

namespace Request

variable {c : Compiler} {e : Expr}

theorem wellNested_sink (c : Compiler) (r : Request) : (r.sink c).WellNested := by
  have hnone : (r.sink c).regions = [] := by
    cases r with
    | expression expected thisType superType => cases thisType <;> cases superType <;> rfl
    | _ => rfl
  exact .of_precedes (by simp [hnone]) (by simp [hnone])

/-- At every moment of a request the regions are well nested, and each has the text that it has in
the end. -/
theorem wellNested_between (r : Request) {s m t : Sink} (hs : s.WellNested)
    (ht : ((r.emission c e).run.run s).2 = t) (hm : s.Steps m) (hmt : m.Steps t) :
    m.WellNested ∧ ∀ region ∈ m.regions, region ∈ t.regions ∧ t.bytes region = m.bytes region := by
  have hnests : s.Nests t := ht ▸ (Emit.law_nests.emission c e r s).run
  have hnested : m.WellNested := hnests.wellNested hs hm hmt
  have hretains : m.Retains t := hmt.retains
  exact ⟨hnested, fun region hregion =>
    ⟨hretains.regions.subset hregion, hretains.bytes_eq (hnested.stop_le region hregion)⟩⟩

/-- Lowering a method records a region of each node, and one of its body, which is the whole
text. -/
theorem traces_of_lowerMethod {sig : Signature} {out : Lowered}
    (hlower : c.lowerMethod e sig = .ok out) :
    (∀ part ∈ e.occurrences, ∃ region ∈ out.regions, region.id = part.id) ∧
      ⟨e.id, 0, out.source.utf8ByteSize, true⟩ ∈ out.regions := by
  let r : Request := .method sig
  obtain ⟨t, hcontents, hsource, hregions⟩ := r.exists_contents_of_lower (c := c) (e := e) hlower
  obtain ⟨_, start, hstart, hsize⟩ := Emit.does_declareSignature sig (r.sink c).openScope
  have hsize : start.size = 0 := hsize
  have hbody : (Emit.body (c.env out.types) e (some sig.result) sig.throws).run.run start =
      (.ok (), t) := by
    rw [contents, run_bind, hstart] at hcontents
    exact hcontents
  have hmem {region : Region} : region ∈ t.finished → region ∈ out.regions := by
    rw [hregions, Sink.regions, Sink.finished_closeScope]
    exact List.mem_reverse.mpr
  have hlength : out.source.utf8ByteSize = t.size := by
    rw [hsource, ← Sink.size_eq, Sink.size_closeScope]
  refine ⟨fun part hpart => ?_, ?_⟩
  · obtain ⟨region, hregion, hid⟩ : t.Traces part.id :=
      (Emit.traces_body hpart _ _ start).of_run_ok hbody
    exact ⟨region, hmem hregion, hid⟩
  · have hroot := (Emit.body_finishes e (some sig.result) sig.throws start).of_run_ok hbody
    rw [hsize, Nat.sub_zero] at hroot
    exact hlength ▸ hmem hroot

/-- A request is a run of its sink, whether it succeeds or fails, and at every moment of the run the
regions are well nested and have the text that they have in the end. Where a method was lowered,
each node of its tree has a region, and the root has one that is the whole text. -/
theorem run_nests_regions (c : Compiler) (e : Expr) :
    (∀ (r : Request) (s t : Sink), s = r.sink c ∨ s.WellNested →
      ((r.emission c e).run.run s).2 = t → s.Steps t ∧
        ∀ m, s.Steps m → m.Steps t → m.WellNested ∧
          ∀ region ∈ m.regions, region ∈ t.regions ∧ t.bytes region = m.bytes region) ∧
    ∀ sig out, c.lowerMethod e sig = .ok out →
      (∀ part ∈ e :: e.descendants, ∃ region ∈ out.regions, region.id = part.id) ∧
        ∃ region ∈ out.regions, region.id = e.id ∧ region.offset = 0 ∧
          region.length = out.source.utf8ByteSize := by
  refine ⟨fun r s t hs ht => ⟨?_, fun m hm hmt => ?_⟩, fun sig out hlower => ?_⟩
  · exact ht ▸ (Emit.law_steps.emission c e r s).run
  · have hnested : s.WellNested := hs.elim (fun hsink => hsink ▸ wellNested_sink c r) id
    exact r.wellNested_between hnested ht hm hmt
  · obtain ⟨hparts, hroot⟩ := traces_of_lowerMethod hlower
    rw [Expr.cons_descendants]
    exact ⟨hparts, _, hroot, rfl, rfl, rfl⟩

private def sumOfTwo : Expr :=
  .call ⟨2, {}⟩ (.ofOperator "sum" "+" (.primitive .int)) (some (.literal ⟨0, {}⟩ (.int 1)))
    [.literal ⟨1, {}⟩ (.int 2)]

/-- A sum is lowered, and its operands have regions in the region of the whole text. -/
theorem run_nests_regions_sum :
    let r : Request := .method { result := .int }
    ((r.emission ⟨.empty, {}⟩ sumOfTwo).run.run (r.sink ⟨.empty, {}⟩)).2.WellNested ∧
      ∃ out, r.lower ⟨.empty, {}⟩ sumOfTwo = .ok out ∧
        (∀ part ∈ sumOfTwo :: sumOfTwo.descendants, ∃ region ∈ out.regions, region.id = part.id) ∧
        ∃ region ∈ out.regions, region.id = 2 ∧ region.offset = 0 ∧
          region.length = out.source.utf8ByteSize := by
  intro r
  obtain ⟨hruns, hlowers⟩ := run_nests_regions ⟨.empty, {}⟩ sumOfTwo
  obtain ⟨hsteps, hmoments⟩ := hruns r (r.sink ⟨.empty, {}⟩) _ (.inl rfl) rfl
  have hsome : ((r.lower ⟨.empty, {}⟩ sumOfTwo).toOption.map fun _ => ()) = some () := by
    decide +kernel
  obtain ⟨out, hlower, _⟩ := exists_of_toOption_map hsome
  exact ⟨(hmoments _ hsteps .refl).1, out, hlower, hlowers _ out hlower⟩

end Request

end Lowering
