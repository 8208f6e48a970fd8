import Lowering.Proofs.Emission.Formulas

/-!
# Signs in formulas

Operators and casts bring their own parentheses into the text of a formula; a number brings its
sign. Main statement: the only signs that meet in the text of a formula are a minus and that of a
negative number under it, which then read as a decrement, and the only operands of casts whose text
starts with a sign are negative numbers.
-/

namespace Lowering

namespace Expr

/-- A number below zero, with blocks around it or none. -/
inductive IsNegative : Expr → Prop
  | int {node : Node} {value : Int} (hvalue : value < 0) : IsNegative (.literal node (.int value))
  | long {node : Node} {value : Int} (hvalue : value < 0) : IsNegative (.literal node (.long value))
  | block {node : Node} {only : Expr} (honly : IsNegative only) : IsNegative (.block node [only])

/-- A minus whose operand is a number below zero. -/
inductive NegatesNegative : Expr → Prop
  | unary {node : Node} {feature : Feature} {receiver : Option Expr} {args : List Expr}
      {operand : Expr} (hkind : feature.kind = .operator "-")
      (hoperands : receiver.toList ++ args = [operand]) (hoperand : operand.IsNegative) :
      NegatesNegative (.call node feature receiver args)

section

variable {node : Node} {value : Int} {feature : Feature} {receiver : Option Expr} {args : List Expr}

theorem isNegative_int_iff : IsNegative (.literal node (.int value)) ↔ value < 0 :=
  ⟨fun | .int hvalue => hvalue, .int⟩

theorem isNegative_long_iff : IsNegative (.literal node (.long value)) ↔ value < 0 :=
  ⟨fun | .long hvalue => hvalue, .long⟩

theorem isNegative_block_iff {only : Expr} : IsNegative (.block node [only]) ↔ only.IsNegative :=
  ⟨fun | .block honly => honly, .block⟩

theorem negatesNegative_call_iff : NegatesNegative (.call node feature receiver args) ↔
    feature.kind = .operator "-" ∧ ∃ operand, receiver.toList ++ args = [operand] ∧
      operand.IsNegative :=
  ⟨fun | .unary hkind hoperands hoperand => ⟨hkind, _, hoperands, hoperand⟩,
    fun ⟨hkind, _, hoperands, hoperand⟩ => .unary hkind hoperands hoperand⟩

@[simp]
theorem not_isNegative_call : ¬ IsNegative (.call node feature receiver args) :=
  nofun

@[simp]
theorem not_isNegative_cast {type : WrittenType} {operand : Expr} :
    ¬ IsNegative (.cast node type operand) :=
  nofun

@[simp]
theorem not_negatesNegative_literal {value : Literal} : ¬ NegatesNegative (.literal node value) :=
  nofun

@[simp]
theorem not_negatesNegative_block {exprs : List Expr} : ¬ NegatesNegative (.block node exprs) :=
  nofun

@[simp]
theorem not_negatesNegative_cast {type : WrittenType} {operand : Expr} :
    ¬ NegatesNegative (.cast node type operand) :=
  nofun

end

end Expr

/-! ## Signs that meet -/

/-- Two of the character stand next to each other in the text. -/
def Doubled (c : Char) (text : List Char) : Prop :=
  [c, c] <:+: text

section

variable {c d : Char} {before after : List Char}

theorem not_doubled_nil : ¬ Doubled c [] := by
  simp [Doubled]

theorem doubled_cons :
    Doubled c (d :: after) ↔ d = c ∧ after.head? = some c ∨ Doubled c after := by
  have hprefix : [c] <+: after ↔ after.head? = some c := by
    cases after <;> simp [eq_comm]
  rw [Doubled, List.infix_cons_iff, List.cons_prefix_cons, hprefix, eq_comm (a := c), Doubled]

theorem head?_append_eq_iff (hafter : after.head? ≠ some c) :
    (before ++ after).head? = some c ↔ before.head? = some c := by
  cases before <;> simp [hafter]

/-- Texts keep their doubled characters side by side, if the later does not start with one. -/
theorem doubled_append (hafter : after.head? ≠ some c) :
    Doubled c (before ++ after) ↔ Doubled c before ∨ Doubled c after := by
  induction before with
  | nil => simp [not_doubled_nil]
  | cons d before ih =>
    rw [List.cons_append, doubled_cons, doubled_cons, ih, head?_append_eq_iff hafter, or_assoc]

theorem doubled_append_of_not_mem (hbefore : c ∉ before) :
    Doubled c (before ++ after) ↔ Doubled c after := by
  induction before with
  | nil => rfl
  | cons d before ih =>
    have hd : c ≠ d := List.ne_of_not_mem_cons hbefore
    rw [List.cons_append, doubled_cons, ih (List.not_mem_of_not_mem_cons hbefore),
      or_iff_right fun h => hd h.1.symm]

end

namespace Signless

variable {c : Char} {text : String}

theorem head?_ne (h : Signless text) (hc : IsSign c) : text.toList.head? ≠ some c :=
  fun hhead => h c (List.mem_of_head? hhead) hc

theorem not_doubled (h : Signless text) (hc : IsSign c) : ¬ Doubled c text.toList :=
  fun hdoubled => h c (hdoubled.subset List.mem_cons_self) hc

theorem doubled_append_left (h : Signless text) (hc : IsSign c) (other : String) :
    Doubled c (text ++ other).toList ↔ Doubled c other.toList := by
  rw [String.toList_append, doubled_append_of_not_mem fun hmem => h c hmem hc]

theorem doubled_append_right (h : Signless text) (hc : IsSign c) (other : String) :
    Doubled c (other ++ text).toList ↔ Doubled c other.toList := by
  rw [String.toList_append, doubled_append (h.head?_ne hc), or_iff_left (h.not_doubled hc)]

theorem head?_append (h : Signless text) (hc : IsSign c) (other : String) :
    (other ++ text).toList.head? = some c ↔ other.toList.head? = some c := by
  rw [String.toList_append, head?_append_eq_iff (h.head?_ne hc)]

end Signless

theorem signless_nat (n : Nat) : Signless (toString n) := by
  intro c hc hsign
  rw [Nat.toString_eq_repr, Nat.toList_repr] at hc
  have hdigit := Nat.isDigit_of_mem_toDigits (by decide) (by decide) hc
  rcases hsign with rfl | rfl <;> contradiction

/-- Of a number and what follows it only the number brings a sign, and only at its start. -/
theorem signs_number (value : Int) {suffix : String} (hsuffix : Signless suffix) {c : Char}
    (hc : IsSign c) :
    ((toString value ++ suffix).toList.head? = some c ↔ c = '-' ∧ value < 0) ∧
      ¬ Doubled c (toString value ++ suffix).toList := by
  rw [hsuffix.head?_append hc, hsuffix.doubled_append_right hc]
  cases value with
  | ofNat n =>
    have hdigits : Signless (toString (Int.ofNat n)) := signless_nat n
    have hvalue : ¬ Int.ofNat n < 0 := Int.not_lt.mpr (Int.natCast_nonneg n)
    exact ⟨iff_of_false (hdigits.head?_ne hc) fun h => hvalue h.2, hdigits.not_doubled hc⟩
  | negSucc n =>
    have htext : (toString (Int.negSucc n)).toList = '-' :: (toString (n + 1)).toList := by
      rw [show toString (Int.negSucc n) = "-" ++ toString (n + 1) from rfl, String.toList_append]
      rfl
    have hdigits := signless_nat (n + 1)
    have hhead := hdigits.head?_ne hc
    rw [htext, doubled_cons]
    refine ⟨?_, not_or.mpr ⟨fun h => hhead h.2, hdigits.not_doubled hc⟩⟩
    simp only [List.head?_cons, Option.some.injEq, eq_comm, Int.negSucc_lt_zero, and_true]

namespace Emit

variable {env : Env} {e : Expr} {text : String}

/-- The text of the operand of every cast stands in the text of the tree, and starts with a sign
only if the operand is a number below zero. -/
def CastOperands (env : Env) (e : Expr) (text : String) : Prop :=
  ∀ node type value, .cast node type value ∈ e.occurrences →
    ∃ operand, Puts operand (expression env value) ∧
      ("((" ++ type.resolve.sourceName true ++ ") " ++ operand ++ ")").toList <:+: text.toList ∧
      ∀ c, IsSign c → (operand.toList.head? = some c ↔ c = '-' ∧ value.IsNegative)

/-- What the text of a formula has of signs. -/
structure Signs (env : Env) (e : Expr) (text : String) : Prop where
  puts : Puts text (expression env e)
  starts : ∀ c, IsSign c → (text.toList.head? = some c ↔ c = '-' ∧ e.IsNegative)
  meets : ∀ c, IsSign c →
    (Doubled c text.toList ↔ c = '-' ∧ ∃ x ∈ e.occurrences, x.NegatesNegative)
  casts : CastOperands env e text

private theorem infix_append (before text after : String) :
    text.toList <:+: (before ++ text ++ after).toList := by
  rw [String.toList_append, String.toList_append]
  exact List.infix_append ..

theorem castOperands_of_children (hroot : ∀ node type value, e ≠ .cast node type value)
    (hchildren : ∀ child ∈ e.children, ∃ part, CastOperands env child part ∧
      part.toList <:+: text.toList) : CastOperands env e text := by
  intro node type value hmem
  rw [Expr.occurrences_eq] at hmem
  rcases List.mem_cons.mp hmem with heq | hmem
  · exact absurd heq.symm (hroot node type value)
  · obtain ⟨child, hchild, hmem⟩ := List.mem_flatMap.mp hmem
    obtain ⟨part, hpart, hinfix⟩ := hchildren child hchild
    obtain ⟨operand, hputs, hoperand, hstart⟩ := hpart node type value hmem
    exact ⟨operand, hputs, hoperand.trans hinfix, hstart⟩

private theorem starts_opening (hhead : text.toList.head? = some '(') (he : ¬ e.IsNegative)
    (c : Char) (hc : IsSign c) : text.toList.head? = some c ↔ c = '-' ∧ e.IsNegative := by
  refine iff_of_false (fun hsign => ?_) fun hnegative => he hnegative.2
  obtain rfl : '(' = c := Option.some.inj (hhead.symm.trans hsign)
  simp [IsSign] at hc

private theorem signs_number_literal {node : Node} {value : Literal} {number : Int}
    {suffix : String} (htext : value.text = toString number ++ suffix) (hsuffix : Signless suffix)
    (hnegative : Expr.IsNegative (.literal node value) ↔ number < 0) :
    Signs env (.literal node value) value.text where
  puts := puts_literal env node value
  starts c hc := by rw [htext, hnegative, (signs_number number hsuffix hc).1]
  meets c hc := by
    rw [htext, iff_false_left (signs_number number hsuffix hc).2, Expr.exists_mem_occurrences_iff]
    simp [Expr.children]
  casts := castOperands_of_children (fun _ _ _ => Expr.noConfusion) (fun _ hchild => nomatch hchild)

private theorem signs_parameter {node : Node} {feature : Feature}
    (hkind : feature.kind = .parameter) (hname : Signless feature.name) :
    Signs env (.call node feature none []) feature.name where
  puts := puts_parameter env node none [] hkind
  starts c hc := iff_of_false (hname.head?_ne hc) (by simp)
  meets c hc := by
    rw [iff_false_left (hname.not_doubled hc), Expr.exists_mem_occurrences_iff]
    simp [Expr.children, Expr.negatesNegative_call_iff, hkind]
  casts := castOperands_of_children (fun _ _ _ => Expr.noConfusion) (fun _ hchild => nomatch hchild)

private theorem Signs.block {node : Node} {only : Expr} (h : Signs env only text) :
    Signs env (.block node [only]) text where
  puts := puts_block h.puts
  starts c hc := by rw [h.starts c hc, Expr.isNegative_block_iff]
  meets c hc := by
    rw [h.meets c hc, Expr.exists_mem_occurrences_iff (e := .block node [only])]
    simp [Expr.children]
  casts := castOperands_of_children (fun _ _ _ => Expr.noConfusion) fun child hchild => by
    obtain rfl := List.mem_singleton.mp hchild
    exact ⟨text, h.casts, List.infix_rfl⟩

private theorem Signs.cast {node : Node} {type : WrittenType} {value : Expr}
    (h : Signs env value text) (htype : type.IsSignless) :
    Signs env (.cast node type value)
      ("((" ++ type.resolve.sourceName true ++ ") " ++ text ++ ")") where
  puts := puts_cast h.puts
  starts := starts_opening (by simp) (by simp)
  meets c hc := by
    have hbefore : Signless ("((" ++ type.resolve.sourceName true ++ ") ") :=
      ((by simp [Signless, IsSign] : Signless "((").append (htype.sourceName true)).append
        (by simp [Signless, IsSign])
    have hafter : Signless ")" := by simp [Signless, IsSign]
    rw [hafter.doubled_append_right hc, hbefore.doubled_append_left hc, h.meets c hc,
      Expr.exists_mem_occurrences_iff (e := .cast node type value)]
    simp [Expr.children]
  casts node' type' value' hmem := by
    rw [Expr.occurrences_eq] at hmem
    rcases List.mem_cons.mp hmem with heq | hmem
    · obtain ⟨rfl, rfl, rfl⟩ := Expr.cast.inj heq
      exact ⟨text, h.puts, List.infix_rfl, h.starts⟩
    · rw [Expr.children, List.flatMap_singleton] at hmem
      obtain ⟨operand, hputs, hoperand, hstart⟩ := h.casts node' type' value' hmem
      exact ⟨operand, hputs, hoperand.trans (infix_append _ _ _), hstart⟩

private theorem signless_closing (env : Env) (operand : Expr) (target : Option HostType) :
    Signless (conversionText env operand target ++ ")") :=
  (signless_conversionText env operand target).append (by simp [Signless, IsSign])

private theorem Signs.unary {node : Node} {feature : Feature} {receiver : Option Expr}
    {args : List Expr} {symbol : Char} {operand : Expr} (h : Signs env operand text)
    (hkind : feature.kind = .operator symbol.toString)
    (hoperands : receiver.toList ++ args = [operand]) :
    Signs env (.call node feature receiver args) ("(" ++ symbol.toString ++ text ++
      conversionText env operand feature.paramTypes.head? ++ ")") where
  puts := puts_unary hkind hoperands h.puts
  starts := starts_opening (by simp) (by simp)
  meets c hc := by
    have hopening : Signless "(" := by simp [Signless, IsSign]
    have hafter := signless_closing env operand feature.paramTypes.head?
    have hsymbol : symbol.toString.toList = [symbol] := String.toList_singleton symbol
    have hroot : Expr.NegatesNegative (.call node feature receiver args) ↔
        symbol = '-' ∧ operand.IsNegative := by
      rw [Expr.negatesNegative_call_iff, hkind, hoperands, FeatureKind.operator.injEq,
        ← String.toList_inj, hsymbol]
      simp
    rw [String.append_assoc, String.append_assoc, String.append_assoc,
      hopening.doubled_append_left hc, String.toList_append, hsymbol, List.singleton_append,
      doubled_cons, hafter.head?_append hc, hafter.doubled_append_right hc, h.starts c hc,
      h.meets c hc,
      Expr.exists_mem_occurrences_iff (e := .call node feature receiver args), hroot]
    simp only [Expr.children, hoperands, List.mem_singleton, exists_eq_left]
    grind
  casts := castOperands_of_children (fun _ _ _ => Expr.noConfusion) fun child hchild => by
    rw [Expr.children, hoperands] at hchild
    obtain rfl := List.mem_singleton.mp hchild
    refine ⟨text, h.casts, ?_⟩
    rw [String.append_assoc]
    exact infix_append _ _ _

private theorem Signs.binary {node : Node} {feature : Feature} {receiver : Option Expr}
    {args : List Expr} {symbol : Char} {left right : Expr} {textLeft textRight : String}
    (hleft : Signs env left textLeft) (hright : Signs env right textRight)
    (hkind : feature.kind = .operator symbol.toString)
    (hoperands : receiver.toList ++ args = [left, right]) :
    Signs env (.call node feature receiver args)
      ("(" ++ textLeft ++ " " ++ symbol.toString ++ " " ++ textRight ++
        conversionText env right feature.paramTypes.head? ++ ")") where
  puts := puts_binary hkind hoperands hleft.puts hright.puts
  starts := starts_opening (by simp) (by simp)
  meets c hc := by
    have hafter := signless_closing env right feature.paramTypes.head?
    have hne : '(' ≠ c ∧ ' ' ≠ c := by
      constructor <;> rintro rfl <;> simp [IsSign] at hc
    have hroot : ¬ Expr.NegatesNegative (.call node feature receiver args) := by
      rw [Expr.negatesNegative_call_iff, hoperands]
      simp
    have hend := hafter.doubled_append_right hc textRight
    have hbetween (rest : List Char) :
        Doubled c (' ' :: symbol :: ' ' :: rest) ↔ Doubled c rest := by
      simp [doubled_cons, hne.2]
    have htext : ("(" ++ textLeft ++ " " ++ symbol.toString ++ " " ++ textRight ++
        conversionText env right feature.paramTypes.head? ++ ")").toList =
        '(' :: (textLeft.toList ++ ' ' :: symbol :: ' ' ::
          (textRight ++ (conversionText env right feature.paramTypes.head? ++ ")")).toList) := by
      simp
    rw [htext, doubled_cons, doubled_append (by simp [hne.2]), hbetween, hend, hleft.meets c hc,
      hright.meets c hc, Expr.exists_mem_occurrences_iff (e := .call node feature receiver args),
      or_iff_right hroot, or_iff_right fun h => hne.1 h.1]
    simp [Expr.children, hoperands, and_or_left]
  casts := castOperands_of_children (fun _ _ _ => Expr.noConfusion) fun child hchild => by
    rw [Expr.children, hoperands] at hchild
    rcases List.mem_pair.mp hchild with rfl | rfl
    · refine ⟨textLeft, hleft.casts, ?_⟩
      have hinfix := infix_append "(" textLeft (" " ++ symbol.toString ++ " " ++ textRight ++
        conversionText env right feature.paramTypes.head? ++ ")")
      simpa only [String.append_assoc] using hinfix
    · refine ⟨textRight, hright.casts, ?_⟩
      rw [String.append_assoc]
      exact infix_append _ _ _

private theorem exists_signs (env : Env) (he : e.IsFormula) : ∃ text, Signs env e text := by
  induction he with
  | int node value =>
    exact ⟨_, signs_number_literal String.append_empty.symm (fun _ hc => nomatch hc)
      Expr.isNegative_int_iff⟩
  | long node value =>
    exact ⟨_, signs_number_literal rfl (by simp [Signless, IsSign]) Expr.isNegative_long_iff⟩
  | parameter hkind hname => exact ⟨_, signs_parameter hkind hname⟩
  | unary hkind hoperands _ ih =>
    obtain ⟨_, hoperand⟩ := ih
    exact ⟨_, hoperand.unary hkind hoperands⟩
  | binary hkind hoperands _ _ ihleft ihright =>
    obtain ⟨_, hleft⟩ := ihleft
    obtain ⟨_, hright⟩ := ihright
    exact ⟨_, hleft.binary hright hkind hoperands⟩
  | cast htype _ ih =>
    obtain ⟨_, hvalue⟩ := ih
    exact ⟨_, hvalue.cast htype⟩
  | block _ ih =>
    obtain ⟨_, honly⟩ := ih
    exact ⟨_, honly.block⟩

/-- On a sink that binds no name the expression form of a formula succeeds, and in its text no two
plus signs meet. Two minus signs meet exactly if somewhere in the formula a minus is applied to a
number below zero, and the text of the operand of a cast starts with a sign exactly if that operand
is a number below zero. -/
theorem formula_signs (env : Env) {e : Expr} (he : e.IsFormula) :
    ∃ text, Puts text (expression env e) ∧ ¬ Doubled '+' text.toList ∧
      (Doubled '-' text.toList ↔ ∃ x ∈ e.occurrences, x.NegatesNegative) ∧
      ∀ node type value, .cast node type value ∈ e.occurrences →
        ∃ operand, Puts operand (expression env value) ∧
          ("((" ++ type.resolve.sourceName true ++ ") " ++ operand ++ ")").toList <:+:
            text.toList ∧
          operand.toList.head? ≠ some '+' ∧
          (operand.toList.head? = some '-' ↔ value.IsNegative) := by
  obtain ⟨text, h⟩ := exists_signs env he
  have hplus : ¬ Doubled '+' text.toList := by simp [h.meets '+' (.inl rfl)]
  have hminus : Doubled '-' text.toList ↔ ∃ x ∈ e.occurrences, x.NegatesNegative := by
    simp [h.meets '-' (.inr rfl)]
  refine ⟨text, h.puts, hplus, hminus, fun node type value hmem => ?_⟩
  obtain ⟨operand, hputs, hinfix, hstart⟩ := h.casts node type value hmem
  exact ⟨operand, hputs, hinfix, by simp [hstart '+' (.inl rfl)], by simp [hstart '-' (.inr rfl)]⟩

/-- The minus of a difference stands apart from the sign of what it takes away. -/
theorem formula_signs_difference :
    let a : Expr := .call ⟨0, {}⟩ (.ofParameter "a" (.primitive .int)) none []
    let one : Expr := .literal ⟨1, {}⟩ (.int (-1))
    let difference : Expr :=
      .call ⟨2, {}⟩ (.ofOperator "operator_minus" "-" (.primitive .int)) (some a) [one]
    let e : Expr := .cast ⟨3, {}⟩ (.cls "java.lang.Integer" []) difference
    e.IsFormula ∧ ∃ text, Puts text (expression ⟨.empty, {}, {}⟩ e) ∧
      ¬ Doubled '+' text.toList ∧ ¬ Doubled '-' text.toList ∧
      ∃ operand, Puts operand (expression ⟨.empty, {}, {}⟩ difference) ∧
        ("((java.lang.Integer) " ++ operand ++ ")").toList <:+: text.toList ∧
        ∀ c, IsSign c → operand.toList.head? ≠ some c := by
  intro a one difference e
  have ha : a.IsFormula := .parameter rfl (by simp [Signless, IsSign, Feature.ofParameter])
  have hkind : (Feature.ofOperator "operator_minus" "-" (.primitive .int)).kind =
      .operator '-'.toString := rfl
  have hdifference : difference.IsFormula :=
    .binary hkind rfl ha (.int _ _)
  have he : e.IsFormula := .cast (.cls (by simp [Signless, IsSign]) (by simp)) hdifference
  obtain ⟨text, hputs, hplus, hminus, hcasts⟩ := formula_signs ⟨.empty, {}, {}⟩ he
  obtain ⟨operand, hoperand, hinfix, hstartPlus, hstartMinus⟩ :=
    hcasts ⟨3, {}⟩ (.cls "java.lang.Integer" []) difference e.mem_occurrences_self
  refine ⟨he, text, hputs, hplus, ?_, operand, hoperand, hinfix, ?_⟩
  · have hoccurrences : e.occurrences = [e, difference, a, one] := rfl
    rw [hminus, hoccurrences]
    simp [e, difference, a, one, Expr.negatesNegative_call_iff]
  · have hnegative : ¬ difference.IsNegative := Expr.not_isNegative_call
    rintro c (rfl | rfl)
    · exact hstartPlus
    · exact fun h => hnegative (hstartMinus.mp h)

/-- A minus and the sign of a negative number under it read as a decrement, and the operand of a
cast may be a negative number without parentheses. -/
theorem formula_signs_meet :
    let one : Expr := .literal ⟨0, {}⟩ (.int (-1))
    let negated : Expr :=
      .call ⟨1, {}⟩ (.ofOperator "operator_minus" "-" (.primitive .int)) none [one]
    let e : Expr := .cast ⟨2, {}⟩ (.cls "java.lang.Integer" []) one
    negated.IsFormula ∧ Puts "(--1)" (expression ⟨.empty, {}, {}⟩ negated) ∧
      Doubled '-' "(--1)".toList ∧ e.IsFormula ∧
      Puts "-1" (expression ⟨.empty, {}, {}⟩ one) ∧
      Puts "((java.lang.Integer) -1)" (expression ⟨.empty, {}, {}⟩ e) := by
  intro one negated e
  have hone : Puts "-1" (expression ⟨.empty, {}, {}⟩ one) := puts_literal _ _ _
  have hnegated : Puts ("(" ++ "-" ++ "-1" ++ "" ++ ")") (expression ⟨.empty, {}, {}⟩ negated) :=
    puts_unary rfl rfl hone
  have hkind : (Feature.ofOperator "operator_minus" "-" (.primitive .int)).kind =
      .operator '-'.toString := rfl
  refine ⟨.unary hkind rfl (.int _ _), hnegated,
    ⟨['('], ['1', ')'], by decide⟩, ?_, hone, puts_cast hone⟩
  exact .cast (.cls (by simp [Signless, IsSign]) (by simp)) (.int _ _)

end Emit

end Lowering
