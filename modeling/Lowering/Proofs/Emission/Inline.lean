import Lowering.Emission.Forms
import Lowering.Proofs.Emission.Views
import Lowering.Proofs.Tree.Occurrences

/-!
# Expression forms only write text

The expression form binds no name and opens no scope. Main statement: it completes no effect where
everything with an effect already has a name, and then the only reasons to fail are a local without
a name and an operator or assignment that the host does not have.
-/

namespace Lowering

/-- A feature or local was looked for without success. -/
def Failure.isUnresolved : Failure → Bool
  | .unresolved .. => true
  | _ => false

/-- A rule of typing or of emission was broken, whatever the tree says: two exact types met for one
node, a typing state was misused, or a local was missing that emission itself should have
declared. -/
def Failure.isProtocol : Failure → Bool
  | .conflict .. | .internal _ => true
  | _ => false

/-- Values can be assigned to the feature. -/
def Feature.isAssignable (f : Feature) : Bool :=
  match f.kind with
  | .localVar _ | .parameter | .field => true
  | _ => false

namespace Expr

/-- The children whose expression forms make up the expression form of a node. -/
def inlined : Expr → List Expr
  | .block _ [only] => [only]
  | .call _ _ receiver args => receiver.toList ++ args
  | .construct _ _ _ _ args => args
  | .cast _ _ value => [value]
  | .assign _ _ receiver value => receiver.toList ++ [value]
  | _ => []

/-- The expression form has no effect of its own and yields a value. -/
def isInline : Expr → Bool
  | .literal .. | .cast .. | .block _ [_] => true
  | .call _ feature _ _ => !feature.isInvocation
  | _ => false

/-- Every part of the expression form that is not inline has a name in `s`. -/
inductive Settled (s : Sink) : Expr → Prop
  | named {e : Expr} (hname : s.Binds (.value e.id)) : Settled s e
  | inline {e : Expr} (hinline : e.isInline) (hparts : ∀ part ∈ e.inlined, Settled s part) :
      Settled s e

/-- The expression form may look up the name of local `d`. -/
inductive ReadsLocal (d : NodeId) : Expr → Prop
  | read {node : Node} {feature : Feature} {receiver : Option Expr} {args : List Expr}
      (hkind : feature.kind = .localVar d) : ReadsLocal d (.call node feature receiver args)
  | assigned {node : Node} {target : Feature} {receiver : Option Expr} {value : Expr}
      (hkind : target.kind = .localVar d) : ReadsLocal d (.assign node target receiver value)
  | part {e part : Expr} (hpart : part ∈ e.inlined) (hread : ReadsLocal d part) : ReadsLocal d e

/-- The node is no operator without operands or with more than two, and no assignment to anything
but a local, a parameter or a field. -/
def isRegular : Expr → Bool
  | .call _ feature receiver args =>
    match feature.kind with
    | .operator _ => 0 < (receiver.toList ++ args).length ∧ (receiver.toList ++ args).length ≤ 2
    | _ => true
  | .assign _ target _ _ => target.isAssignable
  | _ => true

/-- All operators and assignments of a tree are ones that the host has. -/
def Regular (e : Expr) : Prop :=
  ∀ part ∈ e.occurrences, part.isRegular

instance (e : Expr) : Decidable e.Regular :=
  inferInstanceAs (Decidable (∀ part ∈ e.occurrences, part.isRegular = true))

theorem inlined_subset_children {e part : Expr} (h : part ∈ e.inlined) : part ∈ e.children := by
  unfold inlined at h
  split at h <;> simp_all [children]

theorem Regular.child {e child : Expr} (he : e.Regular) (hchild : child ∈ e.children) :
    child.Regular :=
  fun part hpart => he part (mem_occurrences_of_mem_children hchild hpart)

theorem Regular.self {e : Expr} (he : e.Regular) : e.isRegular :=
  he e (mem_occurrences_self e)

theorem Settled.extends {s s' : Sink} {e : Expr} (he : e.Settled s) (h : s.Extends s') :
    e.Settled s' := by
  induction he with
  | named hname => exact .named (h.binds _ hname)
  | inline hinline _ ih => exact .inline hinline ih

theorem Settled.part {s : Sink} {e part : Expr} (he : e.Settled s)
    (hname : ¬ s.Binds (.value e.id)) (hpart : part ∈ e.inlined) : part.Settled s := by
  cases he with
  | named h => exact absurd h hname
  | inline _ hparts => exact hparts part hpart

theorem Settled.isInline {s : Sink} {e : Expr} (he : e.Settled s)
    (hname : ¬ s.Binds (.value e.id)) : e.isInline := by
  cases he with
  | named h => exact absurd h hname
  | inline hinline _ => exact hinline

/-- Why the expression form of `e` may fail with `f` in the scopes of `s`. -/
structure MayFail (s : Sink) (e : Expr) (f : Failure) : Prop where
  unresolved : f.isUnresolved → ∃ d, e.ReadsLocal d ∧ ¬ s.Binds (.value d)
  settled : e.Settled s → f.isUnresolved ∨ ¬ e.Regular
  lawful : f.isProtocol = false

theorem MayFail.of_part {s : Sink} {e part : Expr} {f : Failure}
    (hname : ¬ s.Binds (.value e.id)) (hpart : part ∈ e.inlined) (h : part.MayFail s f) :
    e.MayFail s f where
  unresolved hf := by
    obtain ⟨d, hread, hd⟩ := h.unresolved hf
    exact ⟨d, .part hpart hread, hd⟩
  settled he := by
    rcases h.settled (he.part hname hpart) with hf | hregular
    · exact .inl hf
    · exact .inr fun h => hregular (h.child (inlined_subset_children hpart))
  lawful := h.lawful

end Expr

namespace Emit

/-- In the scopes of `s`, `act` binds no name. If `quiet`, it completes the effects of the nodes
`added` and no others, and it fails only as `failed` allows. -/
def Writes (s : Sink) (quiet : Prop) (added : List NodeId) (failed : Failure → Prop)
    (act : Emit Unit) : Prop :=
  ∀ t : Sink, t.scopes = s.scopes →
    Outcome act t (fun _ t' => t'.scopes = s.scopes ∧ (quiet → t'.effects = t.effects ++ added))
      failed

variable {s : Sink} {quiet : Prop} {added : List NodeId} {failed : Failure → Prop}
  {act : Emit Unit} {env : Env}

/-! ## Pieces of text -/

theorem Writes.mono {quiet' : Prop} {added' : List NodeId} {failed' : Failure → Prop}
    (h : Writes s quiet added failed act) (hquiet : quiet' → quiet ∧ added = added')
    (hfailed : ∀ f, failed f → failed' f) : Writes s quiet' added' failed' act := by
  refine fun t ht => (h t ht).mono (fun _ t' ⟨hscopes, heffects⟩ => ⟨hscopes, fun hq => ?_⟩) hfailed
  obtain ⟨hq, rfl⟩ := hquiet hq
  exact heffects hq

private theorem Writes.seq {before : List NodeId} {next : Unit → Emit Unit}
    (h : Writes s quiet before failed act) (hnext : Writes s quiet added failed (next ())) :
    Writes s quiet (before ++ added) failed (act >>= next) := by
  intro t ht
  rw [outcome_bind]
  apply (h t ht).imp
  intro _ t₁ hfirst
  obtain ⟨hscopes, heffects⟩ := hfirst
  apply (hnext t₁ hscopes).imp
  intro _ t₂ hsecond
  obtain ⟨hscopes', heffects'⟩ := hsecond
  refine ⟨hscopes', fun hq => ?_⟩
  rw [heffects' hq, heffects hq, List.append_assoc]

theorem Writes.andThen {next : Unit → Emit Unit} (h : Writes s quiet [] failed act)
    (hnext : Writes s quiet added failed (next ())) :
    Writes s quiet added failed (act >>= next) :=
  h.seq hnext

/-- Text after everything else completes no effect. -/
theorem Writes.andText {next : Unit → Emit Unit} (h : Writes s quiet added failed act)
    (hnext : Writes s quiet [] failed (next ())) :
    Writes s quiet added failed (act >>= next) := by
  simpa using h.seq hnext

theorem writes_pure : Writes s quiet [] failed (pure ()) :=
  fun t ht => by simpa using ht

theorem writes_append (text : String) : Writes s quiet [] failed (append text) :=
  fun t ht => by simpa using ht

theorem writes_newLine : Writes s quiet [] failed newLine :=
  fun t ht => by simpa using ht

theorem writes_openBrace (brace : Brace) : Writes s quiet [] failed (openBrace brace) :=
  fun t ht => by simpa [Entry.effect?] using ht

theorem writes_closeBrace (brace : Brace) : Writes s quiet [] failed (closeBrace brace) :=
  fun t ht => by simpa [Entry.effect?] using ht

theorem writes_write (e : Entry) : Writes s quiet e.effect?.toList failed (write e) :=
  fun t ht => by simpa using ht

theorem writes_throw {f : Failure} (hf : failed f) : Writes s quiet added failed (throw f) :=
  fun _ _ => hf

theorem Writes.traced (id : NodeId) (debug : Bool) (h : Writes s quiet added failed act) :
    Writes s quiet added failed (traced id debug act) := fun t ht => by
  rw [outcome_traced]
  exact (h t ht).imp fun _ t' => by simp

theorem writes_useOr (id : NodeId) (key : NameKey) (fallback : String) :
    Writes s quiet [] failed (useOr id key fallback) := fun t ht => by
  simp [ht, Entry.effect?]

theorem writes_nameOr (node : Node)
    (h : ¬ s.Binds (.value node.id) → Writes s quiet [] failed act) :
    Writes s quiet [] failed (nameOr node act) := by
  intro t ht
  simp only [nameOr, outcome_bind, outcome_get, Sink.name?_congr ht]
  cases hs : s.name? (.value node.id) with
  | some name => simp [ht, Entry.effect?]
  | none => exact (h (by simp [Sink.Binds, hs])).traced node.id true t ht

theorem Writes.converted (e : Expr) (target : Option HostType)
    (h : Writes s quiet [] failed act) :
    Writes s quiet [] failed (converted env e target act) := by
  apply h.andThen
  split
  · split
    · exact writes_append _
    · exact writes_pure
  · exact writes_pure

theorem writes_useLocal (id declaration : NodeId) (name : String) (span : Span)
    (h : ¬ s.Binds (.value declaration) → failed (.unresolved .localVariable name span)) :
    Writes s quiet [] failed (useLocal id declaration name span) := by
  intro t ht
  simp only [useLocal, outcome_bind, outcome_get, Sink.name?_congr ht]
  cases hs : s.name? (.value declaration) with
  | some text => simp [ht, Entry.effect?]
  | none => exact h (by simp [Sink.Binds, hs])

theorem writes_useField (id : NodeId) (name : String) (receiver : Option (Emit Unit))
    (h : ∀ act ∈ receiver, Writes s quiet [] failed act) :
    Writes s quiet [] failed (useField id name receiver) := by
  cases receiver with
  | none => exact writes_write (.field id name)
  | some receiver => exact (h receiver rfl).andThen (writes_append _)

theorem writes_invocation (id : NodeId) (feature : Feature) (receiver : Option (Emit Unit))
    (hreceiver : ∀ act ∈ receiver, Writes s quiet [] failed act)
    (hargs : Writes s quiet [] failed act) :
    Writes s quiet [id] failed (invocation id feature receiver act) := by
  have hcall : Writes s quiet [id] failed (do
      append (feature.name ++ "(")
      act
      append ")"
      write (.effect id)) :=
    (writes_append _).andThen (hargs.andThen ((writes_append _).andThen (writes_write _)))
  unfold invocation
  split
  · exact (writes_append _).andThen hcall
  · exact (hreceiver _ rfl).andThen ((writes_append _).andThen hcall)
  · exact hcall

theorem writes_construction (id : NodeId) (type : WrittenType)
    (hargs : Writes s quiet [] failed act) :
    Writes s quiet [id] failed (construction id type act) :=
  (writes_append _).andThen (hargs.andThen ((writes_append _).andThen (writes_write (.effect id))))

theorem writes_assignment (id : NodeId) (target : Feature) (receiver : Option (Emit Unit))
    (value : Expr)
    (hlocal : ∀ d, target.kind = .localVar d → ¬ s.Binds (.value d) →
      failed (.unresolved .localVariable target.name value.span))
    (hkind : target.isAssignable = false →
      failed (.misuse (.notAssignable target.name) value.span))
    (hreceiver : ∀ act ∈ receiver, Writes s quiet [] failed act)
    (hvalue : Writes s quiet [] failed act) :
    Writes s quiet [id] failed (assignment env id target receiver value act) := by
  have hassign : Writes s quiet [id] failed (do
      append " = "
      converted env value (env.types.expected? value.id) act
      write (.effect id)) :=
    (writes_append _).andThen ((hvalue.converted value _).andThen (writes_write _))
  unfold assignment
  split
  · exact (writes_useLocal _ _ _ _ (hlocal _ ‹_›)).andThen hassign
  · exact (writes_useOr _ _ _).andThen hassign
  · exact (writes_useField _ _ _ hreceiver).andThen hassign
  · refine (writes_throw (hkind ?_)).andThen hassign
    simp only [Feature.isAssignable]

theorem writes_arguments (params : List HostType) (args : List Expr)
    (h : ∀ arg ∈ args, Writes s quiet [] failed (expression env arg)) :
    Writes s quiet [] failed (arguments env params args) := by
  induction args generalizing params with
  | nil => exact writes_pure
  | cons first rest ih =>
    have hfirst : Writes s quiet [] failed
        (converted env first params.head? (expression env first)) :=
      (h first List.mem_cons_self).converted first params.head?
    cases rest with
    | nil => exact hfirst
    | cons second rest =>
      exact hfirst.andThen ((writes_append _).andThen
        (ih params.tail fun arg harg => h arg (List.mem_cons_of_mem _ harg)))

theorem writes_receiverText {receiver : Option Expr}
    (h : ∀ e ∈ receiver, Writes s quiet [] failed (expression env e)) :
    ∀ act ∈ receiverText env receiver, Writes s quiet [] failed act := by
  intro act hact
  cases receiver with
  | none => simp [receiverText] at hact
  | some e =>
    obtain rfl : expression env e = act := by simpa [receiverText] using hact
    exact h e rfl

/-! ## The expression form -/

private theorem mayFail_of_not_inline {e : Expr} {f : Failure} (hname : ¬ s.Binds (.value e.id))
    (he : e.isInline = false) (hf : f.isUnresolved = false) (hlawful : f.isProtocol = false) :
    e.MayFail s f where
  unresolved h := by simp [hf] at h
  settled h := by simpa [he] using h.isInline hname
  lawful := hlawful

theorem writes_operator (env : Env) (s : Sink) (node : Node) (feature : Feature)
    (symbol : String) (receiver : Option Expr) (args : List Expr)
    (hkind : feature.kind = .operator symbol)
    (hparts : ¬ s.Binds (.value node.id) →
      ∀ part ∈ receiver.toList ++ args, Writes s quiet [] failed (expression env part))
    (hcount : ¬ s.Binds (.value node.id) →
      (Expr.call node feature receiver args).isRegular = false →
      ∀ count, failed (.misuse (.operandCount feature.name count) node.span)) :
    Writes s quiet [] failed (expression env (.call node feature receiver args)) := by
  rw [expression]
  apply writes_nameOr node
  intro hname
  have h := hparts hname
  simp only [hkind]
  apply (writes_append _).andThen
  have hclose : Writes s quiet [] failed (append ")") := writes_append _
  have hone (operand : Expr) (hoperand : operand ∈ receiver.toList ++ args) :
      Writes s quiet [] failed (do
        append symbol
        converted env operand feature.paramTypes.head? (expression env operand)
        append ")") :=
    (writes_append _).andThen (((h operand hoperand).converted operand _).andThen hclose)
  have htwo (left right : Expr) (hleft : left ∈ receiver.toList ++ args)
      (hright : right ∈ receiver.toList ++ args) :
      Writes s quiet [] failed (do
        expression env left
        append (" " ++ symbol ++ " ")
        converted env right feature.paramTypes.head? (expression env right)
        append ")") :=
    (h left hleft).andThen ((writes_append _).andThen
      (((h right hright).converted right _).andThen hclose))
  split
  · exact hone _ (by simp)
  · exact hone _ (by simp)
  · exact htwo _ _ (by simp) (by simp)
  · exact htwo _ _ (by simp) (by simp)
  · refine Writes.andThen (writes_throw (hcount hname ?_ _)) hclose
    rcases receiver with _ | r <;> rcases args with _ | ⟨a, _ | ⟨b, _ | ⟨c, args⟩⟩⟩ <;>
      simp_all [Expr.isRegular]

/-- The expression form completes no effect if it is settled, and fails only for want of a local or
of an operator or assignment in the host. -/
theorem expression_writes (env : Env) (s : Sink) (e : Expr) :
    Writes s (e.Settled s) [] (e.MayFail s) (expression env e) := by
  induction e using Expr.childInduction with
  | step e ih =>
    have hpart (hname : ¬ s.Binds (.value e.id)) (part : Expr) (h : part ∈ e.inlined) :
        Writes s (e.Settled s) [] (e.MayFail s) (expression env part) :=
      (ih part (Expr.inlined_subset_children h)).mono (fun he => ⟨he.part hname h, rfl⟩)
        fun f hf => hf.of_part hname h
    have hloud {act : Emit Unit} (hname : ¬ s.Binds (.value e.id))
        (he : e.isInline = false) (h : Writes s (e.Settled s) [e.id] (e.MayFail s) act) :
        Writes s (e.Settled s) [] (e.MayFail s) act :=
      h.mono (fun hs => by simpa [he] using hs.isInline hname) fun _ hf => hf
    have hnone (hname : ¬ s.Binds (.value e.id)) (he : e.isInline = false) :
        Writes s (e.Settled s) [] (e.MayFail s) (noValue e) :=
      writes_throw (mayFail_of_not_inline hname he rfl rfl)
    cases e with
    | block node exprs =>
      rcases exprs with _ | ⟨only, _ | ⟨second, rest⟩⟩
      · exact writes_nameOr node fun hname => hnone hname rfl
      · exact writes_nameOr node fun hname => hpart hname only List.mem_cons_self
      · exact writes_nameOr node fun hname => hnone hname rfl
    | decl node => exact writes_nameOr node fun hname => hnone hname rfl
    | branch node => exact writes_nameOr node fun hname => hnone hname rfl
    | ret node => exact writes_nameOr node fun hname => hnone hname rfl
    | raise node => exact writes_nameOr node fun hname => hnone hname rfl
    | literal node value => exact writes_nameOr node fun _ => writes_append _
    | extension node =>
      exact writes_nameOr node fun hname =>
        writes_throw (mayFail_of_not_inline hname rfl rfl rfl)
    | cast node type value =>
      exact writes_nameOr node fun hname => (writes_append _).andThen
        ((hpart hname value List.mem_cons_self).andThen (writes_append _))
    | construct node type params throws args =>
      refine writes_nameOr node fun hname => hloud hname rfl ?_
      exact writes_construction _ _ (writes_arguments _ _ fun arg harg => hpart hname arg harg)
    | assign node target receiver value =>
      refine writes_nameOr node fun hname => hloud hname rfl ?_
      refine writes_assignment _ _ _ _ ?_ ?_ ?_ ?_
      · intro d hkind hd
        exact ⟨fun _ => ⟨d, .assigned hkind, hd⟩, fun _ => .inl rfl, rfl⟩
      · exact fun _ => mayFail_of_not_inline hname rfl rfl rfl
      · exact writes_receiverText fun r hr =>
          hpart hname r (List.mem_append_left _ (Option.mem_toList.mpr hr))
      · exact hpart hname value (List.mem_append_right _ List.mem_cons_self)
    | call node feature receiver args =>
      have hreceiver (hname : ¬ s.Binds (.value node.id)) :
          ∀ act ∈ receiverText env receiver, Writes s
            ((Expr.call node feature receiver args).Settled s) []
            ((Expr.call node feature receiver args).MayFail s) act :=
        writes_receiverText fun r hr =>
          hpart hname r (List.mem_append_left _ (Option.mem_toList.mpr hr))
      cases hkind : feature.kind with
      | operator symbol =>
        apply writes_operator env s node feature symbol receiver args hkind
          (fun hname part h => hpart hname part h)
        intro hname hcount _
        refine ⟨fun hf => (by cases hf), fun _ => .inr fun hregular => ?_, rfl⟩
        exact Bool.false_ne_true (hcount.symm.trans hregular.self)
      | localVar d =>
        rw [expression]
        apply writes_nameOr node
        intro hname
        simp only [hkind]
        apply writes_useLocal _ _ _ _
        intro hd
        exact ⟨fun _ => ⟨d, .read hkind, hd⟩, fun _ => .inl rfl, rfl⟩
      | parameter | this | super =>
        rw [expression]
        apply writes_nameOr node
        intro _
        simp only [hkind]
        exact writes_useOr _ _ _
      | field =>
        rw [expression]
        apply writes_nameOr node
        intro hname
        simp only [hkind]
        exact writes_useField _ _ _ (hreceiver hname)
      | method | staticMethod =>
        rw [expression]
        refine writes_nameOr node fun hname => hloud hname ?_ ?_
        · simp [Expr.isInline, Feature.isInvocation, hkind]
        · simp only [hkind]
          exact writes_invocation _ _ _ (hreceiver hname) (writes_arguments _ _ fun arg harg =>
            hpart hname arg (List.mem_append_right _ harg))

end Emit

end Lowering
