import Lowering.Proofs.Emission.Entries
import Lowering.Proofs.Framing
import Lowering.Proofs.Typing.Locals

/-!
# Declared types are inferred types

Type inference gives each read of a local the type of its declaration, refined by what is asked of
the read; lowering declares the local with the type of its declaration alone. Main statements: every
local of a lowered tree is declared, with the type that inference has for all its reads, unless that
is known from the reads only.
-/

namespace Lowering

theorem Emit.hoistedType_eq_typeOfLocal {c : Compiler} {r : Request} {x y : Expr} {d : NodeId}
    {types : ResolvedTypes} (hx : x.Unshared) (hinfer : r.infer c x = .ok types)
    (hy : y ∈ x.occurrences) (hd : d ∈ y.declared) :
    Emit.hoistedType (c.env types) y = types.typeOfLocal y := by
  cases y with
  | decl node name type writeable init =>
    cases type with
    | some type => rfl
    | none =>
      cases init with
      | none => rfl
      | some init =>
        have hexpected := ResolvedTypes.expected?_init_of_infer hx hinfer hy
        change (c.env types).localType init = types.typeOf init
        simp [Env.localType, Compiler.env, hexpected]
  | _ => cases hd

namespace Request

variable {c : Compiler} {env : Env} {e : Expr} {r : Request} {i : NodeId}

/-- Every core declares all locals of the tree. -/
theorem Core.declares {core : Emit Unit} (hcore : r.Core env e core)
    (hi : i ∈ e.occurrences.flatMap Expr.declared) : Emit.Declares i core := by
  obtain ⟨part, hpart, hown⟩ := List.mem_flatMap.mp hi
  have hlasting := Sink.lasting_declares i
  cases hcore with
  | method | lambda | literal =>
    exact Emit.leaves_bodyText hlasting hpart (Emit.declares_own hown) _
  | block sig hexprs =>
    cases e with
    | block node exprs =>
      obtain rfl := Option.some.inj hexprs
      rw [Expr.occurrences_eq] at hpart
      rcases List.mem_cons.mp hpart with rfl | hpart
      · cases hown
      · obtain ⟨child, hchild, hpart⟩ := List.mem_flatMap.mp hpart
        exact Emit.leaves_returningLast hlasting hchild hpart (Emit.declares_own hown) _ _
    | _ => cases hexprs
  | inPlace _ _ _ hplain =>
    rw [Expr.declared_of_needsLocal (hplain part hpart)] at hown
    cases hown

/-- What is in the journal in the end and belongs to the forms of the tree was added by its core. -/
theorem allowed_of_not_quiet {allowed : Entry → Prop} {guarded : Bool} {t u s : Sink}
    (ht : r.Starts guarded t) (hu : t.Logs allowed u) (hs : u.Closes s) {x : Entry}
    (hx : x.isQuiet = false) (hmem : x ∈ s.journal) : allowed x := by
  obtain ⟨tail, htail, hquiet⟩ := hs.exists_journal
  obtain ⟨added, hadded, hallowed⟩ := hu
  rw [htail, hadded, List.mem_append, List.mem_append] at hmem
  rcases hmem with hmem | hmem | hmem
  · exact absurd (hquiet x hmem) (by simp [hx])
  · exact hallowed x hmem
  · exact absurd (ht.quiet x hmem) (by simp [hx])

/-- Every local of a tree without sharing that is lowered is declared, and what stands in the text
before its name is the type of each read of it. Only where the initializer tells nothing of the type
and no type is written, the local is declared as an object; a read has the type of an object too, or
the one that is asked of it. -/
theorem lower_types_locals {out : Lowered} (hx : e.Unshared) (hlower : r.lower c e = .ok out)
    {x read : Expr} {d : NodeId} (hlocal : x ∈ e.occurrences) (hd : d ∈ x.declared)
    (hread : read ∈ e.occurrences) (hreads : read.reads d) :
    ∃ s, (r.emission c e).run.run (r.sink c) = (.ok out.types, s) ∧ out.source = s.text ∧
      s.Declares d ∧ ∀ text name past, .declaration (.value d) text name :: past <:+ s.journal →
        TextAt out.source past (text ++ " " ++ name) ∧
        ((out.types.typeOfLocal x).isAny = false →
          text = (out.types.typeOf read).sourceName true) ∧
        ((out.types.typeOfLocal x).isAny → text = HostType.objectName ∧
          (text = (out.types.typeOf read).sourceName true ∨
            out.types.expected? read.id = some (out.types.typeOf read))) := by
  have hinfer := infer_of_lower hlower
  obtain ⟨s, hrun, hsource⟩ := exists_run_of_lower hlower
  let among (y : Expr) (type : HostType) : Prop :=
    y ∈ e.occurrences ∧ type = Emit.hoistedType (c.env out.types) y
  let allowed (entry : Entry) : Prop := ∀ i text name, entry = .declaration (.value i) text name →
    ∃ y type, among y type ∧ y.id = i ∧ text = type.sourceName true
  have hlaw : Emit.Law among (Sink.Logs allowed) (Sink.Logs allowed) := by
    refine Emit.law_logs (fun entry hcommon i text name heq => ?_) (fun y type name hy => ?_) nofun
    · rw [heq] at hcommon
      cases hcommon
    · rintro i text name' heq
      obtain ⟨hi, rfl, _⟩ := Entry.declaration.inj heq
      exact ⟨y, type, hy, NameKey.value.inj hi, rfl⟩
  have hcovers : ∀ y ∈ e.occurrences, among y (Emit.hoistedType (c.env out.types) y) :=
    fun y hy => ⟨hy, rfl⟩
  have hi : d ∈ e.occurrences.flatMap Expr.declared := List.mem_flatMap.mpr ⟨x, hlocal, hd⟩
  obtain ⟨t, u, hstarts, hcloses, _, hok⟩ := exists_inner hinfer fun core hcore t =>
    (hcore.obeys hlaw hcovers t).and (hcore.declares hi t)
  rw [hrun] at hcloses hok
  obtain ⟨hlogs, type, name, hdeclared⟩ := hok rfl
  refine ⟨s, hrun, hsource, ⟨type, name, hcloses.suffix.subset hdeclared⟩, ?_⟩
  intro text name past hentry
  refine ⟨hsource ▸ s.textAt hentry, ?_⟩
  obtain ⟨y, _, ⟨hy, rfl⟩, hid, rfl⟩ := allowed_of_not_quiet hstarts hlogs hcloses rfl
    (hentry.subset List.mem_cons_self) d text name rfl
  obtain rfl : y = x := List.inj_on_of_nodup_map hx hy hlocal
    (hid.trans (Expr.id_of_mem_declared hd).symm)
  obtain ⟨asked, hasked, htype⟩ := ResolvedTypes.typeOf_read_of_infer hx hinfer
    (locals_context r) hlocal hd hread hreads
  rw [Emit.hoistedType_eq_typeOfLocal hx hinfer hlocal hd, htype]
  refine ⟨fun hany => by rw [refine_eq_self hany], fun hany => ?_⟩
  rw [HostType.eq_any_of_isAny hany]
  refine ⟨rfl, ?_⟩
  rcases refine_any asked with hrefined | hrefined
  · exact .inl (by rw [hrefined])
  · exact .inr (hasked.trans hrefined)

private def localOf (init : Expr) : Expr :=
  .block ⟨6, {}⟩ [.decl ⟨4, {}⟩ "x" none false (some init), .call ⟨5, {}⟩ (.ofLocal "x" 4) none []]

private def number : Expr :=
  .branch ⟨3, {}⟩ (.literal ⟨0, {}⟩ (.boolean true)) (.literal ⟨1, {}⟩ (.int 1))
    (some (.literal ⟨2, {}⟩ (.long 2)))

/-- A local for a number, which a lambda returns. -/
theorem lower_types_number :
    let r : Request := .lambda { result := .primitive .long }
    let x : Expr := .decl ⟨4, {}⟩ "x" none false (some number)
    let read : Expr := .call ⟨5, {}⟩ (.ofLocal "x" 4) none []
    (localOf number).Unshared ∧ x ∈ (localOf number).occurrences ∧ 4 ∈ x.declared ∧
      read ∈ (localOf number).occurrences ∧ read.reads 4 ∧
      ∃ out s, r.lower ⟨.empty, {}⟩ (localOf number) = .ok out ∧
        (out.types.typeOfLocal x).isAny = false ∧
        (r.emission ⟨.empty, {}⟩ (localOf number)).run.run (r.sink ⟨.empty, {}⟩) =
          (.ok out.types, s) ∧
        s.Declares 4 ∧ ∀ text name past, .declaration (.value 4) text name :: past <:+ s.journal →
          TextAt out.source past (text ++ " " ++ name) ∧
          text = (out.types.typeOf read).sourceName true := by
  intro r x read
  have hx : (localOf number).Unshared := by decide
  have hlocal : x ∈ (localOf number).occurrences :=
    Expr.mem_occurrences_of_mem_children List.mem_cons_self x.mem_occurrences_self
  have hread : read ∈ (localOf number).occurrences :=
    Expr.mem_occurrences_of_mem_children (List.mem_cons_of_mem _ List.mem_cons_self)
      read.mem_occurrences_self
  have hd : 4 ∈ x.declared := List.mem_singleton_self _
  have htypes : (r.lower ⟨.empty, {}⟩ (localOf number)).toOption.map
      (fun out => (out.types.typeOfLocal x).isAny) = some false := by decide +kernel
  obtain ⟨out, hlower, hany⟩ := exists_of_toOption_map htypes
  obtain ⟨s, hrun, _, hdeclares, htext⟩ := lower_types_locals hx hlower hlocal hd hread rfl
  exact ⟨hx, hlocal, hd, hread, rfl, out, s, hlower, hany, hrun, hdeclares,
    fun text name past hentry => (htext text name past hentry).imp_right fun h => h.1 hany⟩

/-- A local that starts as null is declared as an object and returned as a string. -/
theorem lower_widens_null :
    let r : Request := .lambda { result := .string }
    let init : Expr := .literal ⟨0, {}⟩ .null
    (localOf init).Unshared ∧
      (r.lower ⟨.empty, {}⟩ (localOf init)).toOption.map (fun out =>
        (out.source, (out.types.typeOf (.call ⟨5, {}⟩ (.ofLocal "x" 4) none [])).sourceName true)) =
      some ("\nfinal java.lang.Object x = null;\nreturn (x);", "java.lang.String") := by
  decide +kernel

end Request

end Lowering
