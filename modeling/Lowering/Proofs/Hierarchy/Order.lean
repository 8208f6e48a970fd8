import Lowering.Hierarchy.Standard
import Lowering.Proofs.Hierarchy.Climbing
import Mathlib.Logic.Relation

/-!
# The order of plain types

Without the placeholder and without type arguments a type is below another one by a few rules: it is
the same, it widens, it is a reference and the other one the root, a way leads up to it, or both are
arrays of references that are so. Main statement: plain types are ordered by these rules, up to
cycles of the hierarchy.
-/

namespace Lowering

/-- Neither the placeholder nor type arguments occur in the type. -/
def HostType.isPlain : HostType → Bool
  | .primitive _ | .param _ => true
  | .cls _ args => args.isEmpty
  | .array component => component.isPlain
  | .any => false

namespace Primitive

theorem widensTo_trans {p q r : Primitive} (hpq : p.widensTo q) (hqr : q.widensTo r) :
    p.widensTo r := by
  have hall : ∀ p ∈ void :: valued, ∀ q ∈ void :: valued, ∀ r ∈ void :: valued, p.widensTo q →
      q.widensTo r → p.widensTo r := by
    decide +kernel
  exact hall p p.mem_all q q.mem_all r r.mem_all hpq hqr

theorem widensTo_antisymm {p q : Primitive} (hpq : p.widensTo q) (hqp : q.widensTo p) : p = q := by
  have hall : ∀ p ∈ void :: valued, ∀ q ∈ void :: valued, p.widensTo q → q.widensTo p → p = q := by
    decide +kernel
  exact hall p p.mem_all q q.mem_all hpq hqp

end Primitive

namespace Hierarchy

/-! ## Rules of the order -/

/-- What makes one plain type a subtype of another one. -/
inductive Below (h : Hierarchy) : HostType → HostType → Prop
  | same (a : HostType) : Below h a a
  | widens {p q : Primitive} (hp : p ≠ .void) (hwidens : p.widensTo q) :
      Below h (.primitive p) (.primitive q)
  | root {a : HostType} (ha : a.primitive? = none) : Below h a .object
  | climbs {m n : String} (hreaches : h.Reaches m n) : Below h (.named m) (.named n)
  | array {a b : HostType} (ha : a.isPrimitive = false) (hb : b.isPrimitive = false)
      (hbelow : Below h a b) : Below h (.array a) (.array b)

variable {h : Hierarchy} {a b c : HostType} {m n : String}

theorem isSubtype_named_iff :
    h.isSubtype (.named m) (.named n) ↔ n = HostType.objectName ∨ h.Reaches m n := by
  rw [← isSubclass_iff, HostType.named, HostType.named, isSubtype]
  by_cases heq : m = n
  · simp [heq, isSubclass, h.mem_ancestors_self n]
  · simp [HostType.isAny, heq, isSubclass]

private theorem isSubtype_array_iff (hne : a ≠ b) : h.isSubtype (.array a) (.array b) ↔
    (a.isPrimitive = false ∧ b.isPrimitive = false) ∧ h.isSubtype a b := by
  rw [isSubtype]
  simp [HostType.isAny, hne]

theorem Below.isSubtype (hbelow : h.Below a b) : h.isSubtype a b := by
  induction hbelow with
  | same a => exact h.isSubtype_self a
  | widens hp hwidens => exact isSubtype_of_widensTo hp hwidens
  | root ha => exact isSubtype_object ha []
  | climbs hreaches => exact isSubtype_named_iff.mpr (.inr hreaches)
  | @array a b ha hb _ ih =>
    by_cases heq : a = b
    · exact heq ▸ h.isSubtype_self _
    · exact (isSubtype_array_iff heq).mpr ⟨⟨ha, hb⟩, ih⟩

private theorem below_of_isSubtype : ∀ {a b : HostType}, a.isPlain → b.isPlain →
    h.isSubtype a b → h.Below a b := by
  intro a b ha hb hsub
  by_cases heq : a = b
  · exact heq ▸ .same a
  match a, b with
  | .primitive p, .primitive q =>
    have hrule : (p ≠ .void ∧ q ≠ .void) ∧ p.widensTo q := by
      rw [isSubtype] at hsub
      simpa [HostType.isAny, heq] using hsub
    exact .widens hrule.1.1 hrule.2
  | .cls m as, .cls n bs =>
    obtain rfl : as = [] := List.isEmpty_iff.mp ha
    obtain rfl : bs = [] := List.isEmpty_iff.mp hb
    rcases isSubtype_named_iff.mp hsub with rfl | hreaches
    · exact .root rfl
    · exact .climbs hreaches
  | .array c, .array d =>
    obtain ⟨⟨hc, hd⟩, hcd⟩ := (isSubtype_array_iff (mt (congrArg _) heq)).mp hsub
    exact .array hc hd (below_of_isSubtype ha hb hcd)
  | .array c, .cls n bs | .param name, .cls n bs =>
    obtain rfl : bs = [] := List.isEmpty_iff.mp hb
    obtain rfl : n = HostType.objectName := by simpa [isSubtype, HostType.isAny] using hsub
    exact .root rfl
  | .primitive p, .cls n bs | .primitive p, .array d | .primitive p, .param name
  | .cls m as, .primitive q | .cls m as, .array d | .cls m as, .param name
  | .array c, .primitive q | .array c, .param name
  | .param name, .primitive q | .param name, .array d | .param name, .param name' =>
    simp [isSubtype, HostType.isAny, heq] at hsub
  | .any, _ => cases ha
  | _, .any => cases hb
termination_by structural a => a

/-- On plain types, subtypes are what the rules say. -/
theorem isSubtype_iff_below (ha : a.isPlain) (hb : b.isPlain) :
    h.isSubtype a b ↔ h.Below a b :=
  ⟨below_of_isSubtype ha hb, Below.isSubtype⟩

/-! ## Hierarchies without cycles -/

/-- No way up leads from a class back to itself. -/
def Acyclic (h : Hierarchy) : Prop :=
  ∀ n, ¬ Relation.TransGen (fun below above => above ∈ h.parents below) n n

/-- How late a class was registered; the ones that never were come first. -/
def rank (h : Hierarchy) (hash : TypeHash) : Nat :=
  (h.classes.findIdx? (·.1 == hash)).elim 0 (· + 1)

/-- Every class was registered after those right above it. -/
def Layered (h : Hierarchy) : Prop :=
  ∀ entry ∈ h.classes, ∀ p ∈ entry.2.parents, h.rank (.ofName p) < h.rank entry.1

instance : Decidable h.Layered :=
  inferInstanceAs (Decidable (∀ entry ∈ h.classes, ∀ p ∈ entry.2.parents,
    h.rank (.ofName p) < h.rank entry.1))

theorem exists_entry_of_mem_parents (hp : m ∈ h.parents n) :
    ∃ c, (TypeHash.ofName n, c) ∈ h.classes ∧ m ∈ c.parents := by
  unfold parents at hp
  split at hp
  · rename_i c hfind
    obtain ⟨before, after, hclasses, -⟩ := List.lookup_eq_some_iff.mp hfind
    exact ⟨c, hclasses ▸ List.mem_append_right _ List.mem_cons_self, hp⟩
  · cases hp

theorem Layered.acyclic (hlayered : h.Layered) : h.Acyclic := by
  have hdrops {m n : String} (hway : Relation.TransGen (fun b a => a ∈ h.parents b) m n) :
      h.rank (.ofName n) < h.rank (.ofName m) := by
    have hedge {m n : String} (hn : n ∈ h.parents m) :
        h.rank (.ofName n) < h.rank (.ofName m) := by
      obtain ⟨c, hc, hn⟩ := exists_entry_of_mem_parents hn
      exact hlayered _ hc n hn
    induction hway with
    | single hn => exact hedge hn
    | tail _ hn ih => exact Nat.lt_trans (hedge hn) ih
  exact fun n hcycle => Nat.lt_irrefl _ (hdrops hcycle)

theorem Climb.reflTransGen {k : Nat} (hn : h.Climb m k n) :
    Relation.ReflTransGen (fun below above => above ∈ h.parents below) m n := by
  induction hn with
  | start => exact .refl
  | up _ hparent _ ih => exact ih.tail hparent

theorem Acyclic.eq_of_reaches (hacyclic : h.Acyclic) (hn : h.Reaches m n) (hm : h.Reaches n m) :
    m = n := by
  obtain ⟨_, hn⟩ := hn
  obtain ⟨_, hm⟩ := hm
  rcases Relation.reflTransGen_iff_eq_or_transGen.mp hn.reflTransGen with heq | hway
  · exact heq.symm
  · exact absurd (hway.trans_left hm.reflTransGen) (hacyclic m)

/-! ## The order -/

namespace Below

theorem trans (hab : h.Below a b) (hbc : h.Below b c) : h.Below a c := by
  induction hab generalizing c with
  | same => exact hbc
  | widens hp hwidens =>
    cases hbc with
    | same => exact .widens hp hwidens
    | widens _ hwidens' => exact .widens hp (Primitive.widensTo_trans hwidens hwidens')
    | root hprimitive => cases hprimitive
  | root ha =>
    cases hbc with
    | same | root => exact .root ha
    | climbs hreaches => exact absurd rfl hreaches.start_ne_root
  | climbs hreaches =>
    cases hbc with
    | same => exact .climbs hreaches
    | root => exact .root rfl
    | climbs hreaches' => exact .climbs (hreaches.trans hreaches')
  | array ha hb hbelow ih =>
    cases hbc with
    | same => exact .array ha hb hbelow
    | root => exact .root rfl
    | array _ hc hbelow' => exact .array ha hc (ih hbelow')

theorem antisymm (hacyclic : h.Acyclic) (hab : h.Below a b) (hba : h.Below b a) : a = b := by
  induction hab with
  | same => rfl
  | widens _ hwidens =>
    cases hba with
    | same => rfl
    | widens _ hwidens' => exact congrArg _ (Primitive.widensTo_antisymm hwidens hwidens')
  | root =>
    cases hba with
    | same | root => rfl
    | climbs hreaches => exact absurd rfl hreaches.start_ne_root
  | climbs hreaches =>
    cases hba with
    | same => rfl
    | root => exact absurd rfl hreaches.start_ne_root
    | climbs hreaches' => exact congrArg _ (hacyclic.eq_of_reaches hreaches hreaches')
  | array _ _ _ ih =>
    cases hba with
    | same => rfl
    | array _ _ hbelow => exact congrArg _ (ih hbelow)

end Below

/-- Subtypes are a preorder of plain types, and an order where no class is above itself. -/
theorem isSubtype_orders_plain (h : Hierarchy) :
    (∀ a : HostType, a.isPlain → h.isSubtype a a) ∧
    (∀ a b c : HostType, a.isPlain → b.isPlain → c.isPlain → h.isSubtype a b →
      h.isSubtype b c → h.isSubtype a c) ∧
    (h.Acyclic → ∀ a b : HostType, a.isPlain → b.isPlain → h.isSubtype a b →
      h.isSubtype b a → a = b) := by
  refine ⟨fun a _ => h.isSubtype_self a, fun a b c ha hb hc hab hbc => ?_,
    fun hacyclic a b ha hb hab hba => ?_⟩
  · rw [isSubtype_iff_below ha hb] at hab
    rw [isSubtype_iff_below hb hc] at hbc
    exact (hab.trans hbc).isSubtype
  · rw [isSubtype_iff_below ha hb] at hab
    rw [isSubtype_iff_below hb ha] at hba
    exact hab.antisymm hacyclic hba

/-- Arrays of exceptions are arrays of what is thrown, and not the other way round. -/
theorem isSubtype_orders_plain_standard : standard.Acyclic ∧
    standard.isSubtype (.array (.named "java.io.FileNotFoundException"))
      (.array (.named throwableName)) ∧
    ¬ standard.isSubtype (.array (.named throwableName))
      (.array (.named "java.io.FileNotFoundException")) := by
  obtain ⟨hlayered, hfile, hexception⟩ : standard.Layered ∧
      standard.isSubtype (.array (.named "java.io.FileNotFoundException"))
        (.array (.named exceptionName)) ∧
      standard.isSubtype (.array (.named exceptionName)) (.array (.named throwableName)) := by
    decide +kernel
  obtain ⟨-, htrans, hantisymm⟩ := isSubtype_orders_plain standard
  have hbelow := htrans _ _ _ rfl rfl rfl hfile hexception
  refine ⟨hlayered.acyclic, hbelow, fun habove => ?_⟩
  exact absurd (hantisymm hlayered.acyclic _ _ rfl rfl hbelow habove) (by decide)

end Hierarchy

end Lowering
