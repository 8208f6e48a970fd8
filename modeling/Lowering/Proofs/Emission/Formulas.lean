import Lowering.Emission.Forms
import Lowering.Proofs.Emission.Views
import Lowering.Proofs.Tree.Occurrences

/-!
# Formulas in place

Numbers and parameters under operators, casts and blocks of one expression are written in place.
Main statements: on a sink that binds no name the expression form of a formula succeeds, and its
text is made of the texts of its operands.
-/

namespace Lowering

/-- The signs of numbers, which are operators too. -/
def IsSign (c : Char) : Prop :=
  c = '+' ∨ c = '-'

/-- The text has no sign in it, like every identifier. -/
def Signless (text : String) : Prop :=
  ∀ c ∈ text.toList, ¬ IsSign c

theorem Signless.append {a b : String} (ha : Signless a) (hb : Signless b) : Signless (a ++ b) := by
  intro c hc
  rw [String.toList_append] at hc
  exact (List.mem_append.mp hc).elim (ha c) (hb c)

theorem signless_join {texts : List String} (h : ∀ text ∈ texts, Signless text) :
    Signless (String.join texts) := by
  intro c hc
  rw [String.toList_join] at hc
  obtain ⟨text, htext, hc⟩ := List.mem_flatMap.mp hc
  exact h text htext c hc

/-- No name in the type has a sign in it. -/
inductive WrittenType.IsSignless : WrittenType → Prop
  | primitive (kind : Primitive) : IsSignless (.primitive kind)
  | cls {name : String} {args : List WrittenType} (hname : Signless name)
      (hargs : ∀ a ∈ args, IsSignless a) : IsSignless (.cls name args)
  | array {component : WrittenType} (hcomponent : IsSignless component) :
      IsSignless (.array component)
  | param {name : String} (hname : Signless name) : IsSignless (.param name)

theorem HostType.signless_dotted {name : String} (h : Signless name) : Signless (dotted name) := by
  intro c hc
  rw [dotted, String.toList_ofList] at hc
  obtain ⟨d, hd, rfl⟩ := List.mem_map.mp hc
  split
  · simp [IsSign]
  · exact h d hd

theorem WrittenType.IsSignless.sourceName {type : WrittenType} (h : type.IsSignless) (bare : Bool) :
    Signless (type.resolve.sourceName bare) := by
  induction h generalizing bare with
  | primitive kind => cases kind <;> cases bare <;> simp [Signless, IsSign, resolve,
      HostType.sourceName, Primitive.keyword, Primitive.wrapper]
  | @cls name args hname hargs ih =>
    have hname := HostType.signless_dotted hname
    rw [resolve, resolveAll_eq_map]
    rcases args with _ | ⟨a, as⟩
    · exact hname
    · have hrest : Signless (String.join ((as.map resolve).map fun t =>
          ", " ++ t.sourceName false)) := by
        refine signless_join fun text htext => ?_
        rw [List.map_map] at htext
        obtain ⟨t, ht, rfl⟩ := List.mem_map.mp htext
        exact .append (by simp [Signless, IsSign]) (ih t (List.mem_cons_of_mem a ht) false)
      rw [List.map_cons, HostType.sourceName_cls_cons]
      exact (((hname.append (by simp [Signless, IsSign])).append
        (ih a List.mem_cons_self false)).append hrest).append (by simp [Signless, IsSign])
  | array _ ih =>
    exact (ih true).append (by simp [Signless, IsSign])
  | param hname => exact hname

namespace Expr

/-- Numbers and parameters under casts, blocks of one expression and operators with one or two
operands and a symbol of one character. -/
inductive IsFormula : Expr → Prop
  | int (node : Node) (value : Int) : IsFormula (.literal node (.int value))
  | long (node : Node) (value : Int) : IsFormula (.literal node (.long value))
  | parameter {node : Node} {feature : Feature} (hkind : feature.kind = .parameter)
      (hname : Signless feature.name) : IsFormula (.call node feature none [])
  | unary {node : Node} {feature : Feature} {receiver : Option Expr} {args : List Expr}
      {symbol : Char} {operand : Expr} (hkind : feature.kind = .operator symbol.toString)
      (hoperands : receiver.toList ++ args = [operand]) (hoperand : IsFormula operand) :
      IsFormula (.call node feature receiver args)
  | binary {node : Node} {feature : Feature} {receiver : Option Expr} {args : List Expr}
      {symbol : Char} {left right : Expr} (hkind : feature.kind = .operator symbol.toString)
      (hoperands : receiver.toList ++ args = [left, right]) (hleft : IsFormula left)
      (hright : IsFormula right) : IsFormula (.call node feature receiver args)
  | cast {node : Node} {type : WrittenType} {value : Expr} (htype : type.IsSignless)
      (hvalue : IsFormula value) : IsFormula (.cast node type value)
  | block {node : Node} {only : Expr} (honly : IsFormula only) : IsFormula (.block node [only])

end Expr

namespace Emit

/-- Where no name is bound, `act` succeeds, writes the text and binds no name. -/
def Puts (text : String) (act : Emit Unit) : Prop :=
  ∀ s : Sink, (∀ key, s.name? key = none) →
    Outcome act s (fun _ t => t.scopes = s.scopes ∧ t.text = s.text ++ text) fun _ => False

variable {env : Env} {act : Emit Unit} {text later : String}

theorem puts_append (text : String) : Puts text (append text) :=
  fun s _ => ⟨rfl, s.text_write (.text text)⟩

theorem puts_pure : Puts "" (pure ()) :=
  fun _ _ => ⟨rfl, String.append_empty.symm⟩

theorem Puts.andThen {next : Unit → Emit Unit} (h : Puts text act) (hnext : Puts later (next ())) :
    Puts (text ++ later) (act >>= next) := by
  intro s hs
  rw [outcome_bind]
  refine (h s hs).imp fun _ t ⟨hscopes, htext⟩ => ?_
  have ht (key : NameKey) : t.name? key = none := (Sink.name?_congr hscopes key).trans (hs key)
  refine (hnext t ht).imp fun _ u ⟨hscopes', htext'⟩ => ⟨hscopes'.trans hscopes, ?_⟩
  rw [htext', htext, String.append_assoc]

theorem Puts.nameOr (node : Node) (h : Puts text act) : Puts text (nameOr node act) := by
  intro s hs
  simp only [Emit.nameOr, outcome_bind, outcome_get, hs, outcome_traced]
  exact h s hs

theorem puts_useOr (id : NodeId) (key : NameKey) (name : String) :
    Puts name (useOr id key name) := by
  intro s hs
  rw [outcome_useOr, hs, Option.getD_none]
  exact ⟨rfl, s.text_write (.use id key name)⟩

/-- What is written after the value of `e` where a value of type `target` is asked for. -/
def conversionText (env : Env) (e : Expr) (target : Option HostType) : String :=
  if target.any (·.isPrimitive) then
    match (env.types.typeOf e).unboxed? with
    | some kind => "." ++ kind.keyword ++ "Value()"
    | none => ""
  else ""

theorem signless_conversionText (env : Env) (e : Expr) (target : Option HostType) :
    Signless (conversionText env e target) := by
  unfold conversionText
  split
  · split
    · rename_i kind _
      cases kind <;> simp [Signless, IsSign, Primitive.keyword]
    · simp [Signless]
  · simp [Signless]

theorem Puts.converted (e : Expr) (target : Option HostType) (h : Puts text act) :
    Puts (text ++ conversionText env e target) (converted env e target act) := by
  refine h.andThen ?_
  rw [conversionText]
  by_cases htarget : target.any (·.isPrimitive)
  · rw [if_pos htarget, if_pos htarget]
    cases (env.types.typeOf e).unboxed? with
    | some kind => exact puts_append _
    | none => exact puts_pure
  · rw [if_neg htarget, if_neg htarget]
    exact puts_pure

/-! ## Pieces of formulas -/

theorem puts_literal (env : Env) (node : Node) (value : Literal) :
    Puts value.text (expression env (.literal node value)) :=
  (puts_append _).nameOr node

theorem puts_parameter (env : Env) (node : Node) {feature : Feature} (receiver : Option Expr)
    (args : List Expr) (hkind : feature.kind = .parameter) :
    Puts feature.name (expression env (.call node feature receiver args)) := by
  rw [expression]
  simp only [hkind]
  exact (puts_useOr _ _ _).nameOr node

theorem puts_block {node : Node} {only : Expr} (h : Puts text (expression env only)) :
    Puts text (expression env (.block node [only])) :=
  h.nameOr node

theorem puts_cast {node : Node} {type : WrittenType} {value : Expr}
    (h : Puts text (expression env value)) :
    Puts ("((" ++ type.resolve.sourceName true ++ ") " ++ text ++ ")")
      (expression env (.cast node type value)) := by
  rw [String.append_assoc]
  exact ((puts_append _).andThen (h.andThen (puts_append ")"))).nameOr node

theorem puts_unary {node : Node} {feature : Feature} {receiver : Option Expr} {args : List Expr}
    {symbol : String} {operand : Expr} (hkind : feature.kind = .operator symbol)
    (hoperands : receiver.toList ++ args = [operand])
    (h : Puts text (expression env operand)) :
    Puts ("(" ++ symbol ++ text ++ conversionText env operand feature.paramTypes.head? ++ ")")
      (expression env (.call node feature receiver args)) := by
  have hone : Puts (symbol ++ (text ++ conversionText env operand feature.paramTypes.head? ++ ")"))
      (do
        append symbol
        converted env operand feature.paramTypes.head? (expression env operand)
        append ")") :=
    (puts_append symbol).andThen ((h.converted operand _).andThen (puts_append ")"))
  simp only [String.append_assoc] at hone ⊢
  rw [expression]
  simp only [hkind]
  refine ((puts_append "(").andThen ?_).nameOr node
  rcases receiver with _ | r
  · obtain rfl : args = [operand] := hoperands
    exact hone
  · obtain ⟨rfl, rfl⟩ : r = operand ∧ args = [] := by simpa using hoperands
    exact hone

theorem puts_binary {node : Node} {feature : Feature} {receiver : Option Expr} {args : List Expr}
    {symbol textLeft textRight : String} {left right : Expr}
    (hkind : feature.kind = .operator symbol) (hoperands : receiver.toList ++ args = [left, right])
    (hleft : Puts textLeft (expression env left)) (hright : Puts textRight (expression env right)) :
    Puts ("(" ++ textLeft ++ " " ++ symbol ++ " " ++ textRight ++
        conversionText env right feature.paramTypes.head? ++ ")")
      (expression env (.call node feature receiver args)) := by
  have htwo : Puts (textLeft ++ (" " ++ symbol ++ " " ++
      (textRight ++ conversionText env right feature.paramTypes.head? ++ ")")))
      (do
        expression env left
        append (" " ++ symbol ++ " ")
        converted env right feature.paramTypes.head? (expression env right)
        append ")") :=
    hleft.andThen ((puts_append _).andThen ((hright.converted right _).andThen (puts_append ")")))
  simp only [String.append_assoc] at htwo ⊢
  rw [expression]
  simp only [hkind]
  refine ((puts_append "(").andThen ?_).nameOr node
  rcases receiver with _ | l
  · obtain rfl : args = [left, right] := hoperands
    exact htwo
  · obtain ⟨rfl, rfl⟩ : l = left ∧ args = [right] := by simpa using hoperands
    exact htwo

end Emit

end Lowering
