import Mathlib.Data.List.Pairwise
import Lowering.Proofs.Sink.Steps

/-!
# Nested regions

A region is recorded when its text is complete, after the regions of what is written in it. Main
statements: emission adds regions that nest in each other and come after those of before; so they
are well nested at every moment of a run, and the text of each stays as it was recorded.
-/

namespace Lowering

namespace Region

/-- The position after the text of the region. -/
def stop (r : Region) : Nat :=
  r.offset + r.length

/-- The text of `r` is part of the text of `outer`. -/
def Within (r outer : Region) : Prop :=
  outer.offset ≤ r.offset ∧ r.stop ≤ outer.stop

/-- One of the regions is part of the other, or they have no text in common. -/
def Laminar (r r' : Region) : Prop :=
  r.Within r' ∨ r'.Within r ∨ r.stop ≤ r'.offset ∨ r'.stop ≤ r.offset

/-- `r` ends no later than `later`: it is part of it, or it ends before `later` starts. -/
def Precedes (r later : Region) : Prop :=
  r.stop ≤ later.stop ∧ (r.Within later ∨ r.stop ≤ later.offset)

instance : Std.Symm Laminar where
  symm r r' := by
    unfold Laminar
    tauto

theorem Precedes.laminar {r later : Region} (h : r.Precedes later) : r.Laminar later :=
  h.2.imp (·) fun hbefore => .inr (.inl hbefore)

end Region

namespace Sink

/-- Regions are stretches of the text, any two of them are nested or disjoint, and they come in the
order in which they end: a region that is part of another one comes before it. -/
structure WellNested (s : Sink) : Prop where
  bounded : ∀ r ∈ s.regions, r.stop ≤ s.text.utf8ByteSize
  laminar : ∀ r ∈ s.regions, ∀ r' ∈ s.regions, r.Laminar r'
  precedes : s.regions.Pairwise Region.Precedes

theorem WellNested.of_precedes {s : Sink} (hbounded : ∀ r ∈ s.regions, r.stop ≤ s.size)
    (hprecedes : s.regions.Pairwise Region.Precedes) : s.WellNested where
  bounded r hr := s.size_eq ▸ hbounded r hr
  laminar r hr r' hr' := by
    have hself (r : Region) : r.Laminar r := .inl ⟨Nat.le_refl _, Nat.le_refl _⟩
    exact (hprecedes.imp Region.Precedes.laminar).forall_of_forall (fun r _ => hself r) hr hr'
  precedes := hprecedes

/-- The text of a region, in UTF-8 bytes. -/
def bytes (s : Sink) (r : Region) : ByteArray :=
  s.text.toByteArray.extract r.offset r.stop

/-- The text of a region does not change while text is added. -/
theorem Retains.bytes_eq {s t : Sink} (h : s.Retains t) {r : Region} (hr : r.stop ≤ s.size) :
    t.bytes r = s.bytes r := by
  obtain ⟨added, htext⟩ := h.text
  have hstop : r.stop - s.text.toByteArray.size = 0 := by
    rw [String.size_toByteArray, ← s.size_eq]
    exact Nat.sub_eq_zero_of_le hr
  have hnone : added.toByteArray.extract (r.offset - s.text.toByteArray.size) 0 = .empty := by
    simp [ByteArray.extract_eq_empty_iff]
  rw [bytes, bytes, htext, String.toByteArray_append, ByteArray.extract_append, hstop, hnone,
    ByteArray.append_empty]

@[simp] theorem finished_closeScope (s : Sink) : s.closeScope.finished = s.finished := by
  cases henclosing : s.enclosing <;> simp [closeScope, henclosing, write]

@[simp] theorem size_closeScope (s : Sink) : s.closeScope.size = s.size := by
  cases henclosing : s.enclosing with
  | nil => simp [closeScope, henclosing]
  | cons =>
    rw [closeScope, henclosing]
    exact s.size_write .leaveScope

/-- From `s` to `t` only regions of text after `s` were added, and those precede each other. -/
def Nests (s t : Sink) : Prop :=
  ∃ added, t.finished = added ++ s.finished ∧ s.size ≤ t.size ∧
    (∀ r ∈ added, s.size ≤ r.offset ∧ r.stop ≤ t.size) ∧
    added.Pairwise fun later r => r.Precedes later

namespace Nests

variable {s t u : Sink}

theorem refl (s : Sink) : s.Nests s :=
  ⟨[], rfl, Nat.le_refl _, by simp, .nil⟩

theorem trans (h : s.Nests t) (h' : t.Nests u) : s.Nests u := by
  obtain ⟨added, hadded, hsize, hwithin, hpairwise⟩ := h
  obtain ⟨later, hlater, hsize', hwithin', hpairwise'⟩ := h'
  have hboth : u.finished = (later ++ added) ++ s.finished := by
    rw [hlater, hadded, List.append_assoc]
  refine ⟨later ++ added, hboth, Nat.le_trans hsize hsize', ?_, ?_⟩
  · refine List.forall_mem_append.mpr ⟨fun r hr => ?_, fun r hr => ?_⟩
    · exact ⟨Nat.le_trans hsize (hwithin' r hr).1, (hwithin' r hr).2⟩
    · exact ⟨(hwithin r hr).1, Nat.le_trans (hwithin r hr).2 hsize'⟩
  · refine List.pairwise_append.mpr ⟨hpairwise', hpairwise, fun r' hr' r hr => ?_⟩
    have hbefore : r.stop ≤ r'.offset := Nat.le_trans (hwithin r hr).2 (hwithin' r' hr').1
    exact ⟨Nat.le_trans hbefore (Nat.le_add_right _ _), .inr hbefore⟩

/-- An operation that adds no region. -/
theorem of_step (h : s.Step t) (hfinished : t.finished = s.finished) : s.Nests t :=
  ⟨[], hfinished, h.retains.size_le, by simp, .nil⟩

/-- A region around everything since `s`. -/
theorem finishRegion (h : s.Nests t) (id : NodeId) (debug : Bool) :
    s.Nests (t.finishRegion id s.size debug) := by
  obtain ⟨added, hadded, hsize, hwithin, hpairwise⟩ := h
  let around : Region := ⟨id, s.size, t.size - s.size, debug⟩
  have hstop : around.stop = t.size := Nat.add_sub_cancel' hsize
  refine ⟨around :: added, congrArg (around :: ·) hadded, hsize, ?_, ?_⟩
  · exact List.forall_mem_cons.mpr ⟨⟨Nat.le_refl _, Nat.le_of_eq hstop⟩, hwithin⟩
  · refine List.pairwise_cons.mpr ⟨fun r hr => ?_, hpairwise⟩
    obtain ⟨hstart, hend⟩ := hwithin r hr
    have hbefore : r.stop ≤ around.stop := hstop ▸ hend
    exact ⟨hbefore, .inl ⟨hstart, hbefore⟩⟩

theorem inScope (h : s.openScope.Nests t) : s.Nests t.closeScope :=
  (of_step (.openScope s) rfl).trans (h.trans (of_step (.closeScope t) (finished_closeScope t)))

theorem opening {brace : Brace} (h : (s.write (.opening brace)).indent.Nests t) : s.Nests t :=
  (of_step (.write s _) rfl).trans ((of_step (.indent _) rfl).trans h)

theorem closing {brace : Brace} (h : s.Nests t) :
    s.Nests (t.dedent.newLine.write (.closing brace)) :=
  h.trans ((of_step (.write t.dedent _) rfl).trans (of_step (.write _ _) rfl))

end Nests

/-- The end of a region is the end of the text at that moment. -/
theorem Step.bounded {s t : Sink} (h : s.Step t) (hs : ∀ r ∈ s.regions, r.stop ≤ s.size) :
    ∀ r ∈ t.regions, r.stop ≤ t.size := by
  have hsize : s.size ≤ t.size := h.retains.size_le
  have hkept (hfinished : t.finished = s.finished) : ∀ r ∈ t.regions, r.stop ≤ t.size := by
    intro r hr
    rw [regions, hfinished] at hr
    exact Nat.le_trans (hs r hr) hsize
  cases h with
  | closeScope => exact hkept (finished_closeScope s)
  | @finishRegion id offset debug hoffset =>
    intro r hr
    rw [regions, Sink.finishRegion, List.reverse_cons] at hr
    rcases List.mem_append.mp hr with hr | hr
    · exact hs r hr
    · obtain rfl := List.mem_singleton.mp hr
      exact Nat.le_of_eq (Nat.add_sub_cancel' hoffset)
  | _ => exact hkept rfl

theorem Steps.bounded {s t : Sink} (h : s.Steps t) (hs : ∀ r ∈ s.regions, r.stop ≤ s.size) :
    ∀ r ∈ t.regions, r.stop ≤ t.size := by
  induction h with
  | refl => exact hs
  | tail _ hstep ih => exact hstep.bounded ih

theorem WellNested.stop_le {s : Sink} (hs : s.WellNested) : ∀ r ∈ s.regions, r.stop ≤ s.size :=
  s.size_eq ▸ hs.bounded

theorem Nests.precedes {s t : Sink} (h : s.Nests t) (hs : s.WellNested) :
    t.regions.Pairwise Region.Precedes := by
  obtain ⟨added, hadded, _, hwithin, hpairwise⟩ := h
  rw [regions, hadded, List.reverse_append]
  refine List.pairwise_append.mpr ⟨hs.precedes, List.pairwise_reverse.mpr hpairwise, ?_⟩
  intro r hr r' hr'
  have hbefore : r.stop ≤ r'.offset :=
    Nat.le_trans (hs.stop_le r hr) (hwithin r' (List.mem_reverse.mp hr')).1
  exact ⟨Nat.le_trans hbefore (Nat.le_add_right _ _), .inr hbefore⟩

/-- Where a run nests its regions, they are well nested at every moment of it: those of a moment are
the first ones of those in the end. -/
theorem Nests.wellNested {s m t : Sink} (h : s.Nests t) (hs : s.WellNested) (hm : s.Steps m)
    (hmt : m.Steps t) : m.WellNested :=
  .of_precedes (hm.bounded hs.stop_le) ((h.precedes hs).sublist hmt.retains.regions.sublist)

end Sink

/-- Emission nests the regions that it adds. -/
theorem Emit.law_nests : SinkLaw Sink.Nests Sink.Nests where
  refl := .refl
  trans := .trans
  stop := .refl
  thenStop := .trans
  write s e _ _ := .of_step (.write s e) rfl
  bind s key name _ := .of_step (.bind s key name) rfl
  bindFreshKey s name := .trans (.of_step (.freshKey s) rfl) (.of_step (.bind _ _ name) rfl)
  setObject s key type := .of_step (.setObject s key type) rfl
  region id debug h := h.finishRegion id debug
  scope h := h.inScope
  scopeStop h := h.inScope
  enclose h := (Sink.Nests.opening h).closing
  encloseStop h := .opening h

end Lowering
