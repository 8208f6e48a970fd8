import Mathlib.Tactic.SplitIfs
import Lowering.Emission.LiteralText

/-!
# Reading string literals back

A scanner reads the inside of a string literal from left to right: escapes by what they stand for,
and every other character as itself. Main statement: it reads the literal of any string completely
and returns that string, and no quote or control character stands unescaped in the literal.
-/

namespace Lowering

namespace Quoted

/-! ## The scanner -/

/-- The value of a hexadecimal digit in either case. -/
def hexDigit? (c : Char) : Option Nat :=
  if '0' ≤ c ∧ c ≤ '9' then some (c.toNat - '0'.toNat)
  else if 'a' ≤ c ∧ c ≤ 'f' then some (c.toNat - 'a'.toNat + 10)
  else if 'A' ≤ c ∧ c ≤ 'F' then some (c.toNat - 'A'.toNat + 10)
  else none

/-- The character whose number these digits are, unless a digit or the number is none. -/
def ofHex? (digits : List Char) : Option Char := do
  let values ← digits.mapM hexDigit?
  let n := values.foldl (fun n value => 16 * n + value) 0
  if n.isValidChar then some (Char.ofNat n) else none

/-- What a backslash and this character stand for. -/
def ofEscape? : Char → Option Char
  | '\\' => some '\\'
  | 'n' => some '\n'
  | 'r' => some '\r'
  | 't' => some '\t'
  | 'b' => some '\x08'
  | 'f' => some '\x0c'
  | '"' => some '"'
  | _ => none

/-- Read all characters, if each backslash starts an escape. -/
def scan : List Char → Option (List Char)
  | [] => some []
  | '\\' :: 'u' :: a :: b :: c :: d :: rest => do return (← ofHex? [a, b, c, d]) :: (← scan rest)
  | '\\' :: e :: rest => do return (← ofEscape? e) :: (← scan rest)
  | ['\\'] => none
  | c :: rest => do return c :: (← scan rest)

/-- The characters without a backslash that escapes them, and without such backslashes. -/
def unescaped : List Char → List Char
  | [] => []
  | '\\' :: _ :: rest => unescaped rest
  | c :: rest => c :: unescaped rest

theorem scan_escape_pair {e c : Char} (he : ofEscape? e = some c) (rest : List Char) :
    scan ('\\' :: e :: rest) = (scan rest).map (c :: ·) := by
  have hu : e ≠ 'u' := by
    rintro rfl
    cases he
  rw [scan]
  · rw [he]
    cases scan rest <;> rfl
  · intro a b c d rest' heq
    exact absurd heq hu

theorem scan_unicode {digits : List Char} {c : Char} (hlength : digits.length = 4)
    (hc : ofHex? digits = some c) (rest : List Char) :
    scan ('\\' :: 'u' :: digits ++ rest) = (scan rest).map (c :: ·) := by
  match digits, hlength with
  | [a, b, c, d], _ =>
    simp only [List.cons_append, List.nil_append, scan, hc]
    cases scan rest <;> rfl

theorem scan_cons {c : Char} (hc : c ≠ '\\') (rest : List Char) :
    scan (c :: rest) = (scan rest).map (c :: ·) := by
  rw [scan]
  · cases scan rest <;> rfl
  all_goals simp [hc]

theorem unescaped_append {text : List Char} (htext : '\\' ∉ text) (rest : List Char) :
    unescaped (text ++ rest) = text ++ unescaped rest := by
  induction text with
  | nil => rfl
  | cons c text ih =>
    rw [List.mem_cons, not_or] at htext
    rw [List.cons_append, unescaped, ih htext.2, List.cons_append]
    exact fun _ _ heq => absurd heq.symm htext.1

/-! ## One character -/

private inductive Written (c : Char) : List Char → Prop
  | pair {e : Char} (he : ofEscape? e = some c) : Written c ['\\', e]
  | unicode (hc : isControl c) : Written c ('\\' :: 'u' :: fourDigits c.toNat)
  | plain (hslash : c ≠ '\\') (hquote : c ≠ '"') (hc : isControl c = false) : Written c [c]

private theorem written_escape (c : Char) : Written c (escape '"' c) := by
  simp only [escape, beq_iff_eq]
  split_ifs with hslash hline hreturn htab hback hfeed hquote hcontrol
  · subst hslash
    exact .pair rfl
  · exact hline ▸ .pair rfl
  · exact hreturn ▸ .pair rfl
  · exact htab ▸ .pair rfl
  · exact hback ▸ .pair rfl
  · exact hfeed ▸ .pair rfl
  · exact hquote ▸ .pair rfl
  · exact .unicode hcontrol
  · exact .plain hslash hquote (Bool.not_eq_true _ ▸ hcontrol)

private theorem digitChar_cases (k : Fin 16) : hexDigit? (Nat.digitChar k) = some k.val ∧
    isControl (Nat.digitChar k) = false ∧ Nat.digitChar k ≠ '\\' ∧ Nat.digitChar k ≠ '"' := by
  decide +revert

private theorem isControl_of_ofEscape? {e c : Char} (he : ofEscape? e = some c) :
    isControl e = false := by
  unfold ofEscape? at he
  split at he
  case h_8 => cases he
  all_goals rfl

private theorem mem_fourDigits {n : Nat} {x : Char} (hx : x ∈ fourDigits n) :
    ∃ k : Fin 16, x = Nat.digitChar k := by
  obtain ⟨k, hk, rfl⟩ := List.mem_map.mp hx
  refine ⟨⟨k, ?_⟩, rfl⟩
  simp only [List.mem_cons, List.not_mem_nil, or_false] at hk
  omega

private theorem ofHex?_fourDigits {n : Nat} (hlt : n < 0x10000) (hn : n.isValidChar) :
    ofHex? (fourDigits n) = some (Char.ofNat n) := by
  have hdigit (k : Nat) (hk : k < 16) : hexDigit? (Nat.digitChar k) = some k :=
    (digitChar_cases ⟨k, hk⟩).1
  have hvalue : 16 * (16 * (16 * (n / 4096 % 16) + n / 256 % 16) + n / 16 % 16) + n % 16 = n := by
    omega
  simp only [ofHex?, fourDigits, List.map_cons, List.map_nil, List.mapM_cons, List.mapM_nil,
    Nat.zero_lt_succ, Nat.mod_lt, hdigit, Option.pure_def, Option.bind_eq_bind, Option.bind_some,
    List.foldl_cons, List.foldl_nil, Nat.mul_zero, Nat.zero_add, hvalue, hn, if_true]

private theorem Written.scan_append {c : Char} {text : List Char} (h : Written c text)
    (rest : List Char) : scan (text ++ rest) = (scan rest).map (c :: ·) := by
  cases h with
  | pair he => exact scan_escape_pair he rest
  | unicode hc =>
    have hlt : c.toNat < 0xA0 := by
      simp only [isControl, Bool.or_eq_true, Bool.and_eq_true, decide_eq_true_eq] at hc
      omega
    have hhex := ofHex?_fourDigits (Nat.lt_trans hlt (by decide)) c.valid
    rw [Char.ofNat_toNat] at hhex
    exact scan_unicode rfl hhex rest
  | plain hslash => exact scan_cons hslash rest

private theorem Written.isControl_eq_false {c x : Char} {text : List Char} (h : Written c text)
    (hx : x ∈ text) : isControl x = false := by
  cases h with
  | pair he =>
    rcases List.mem_cons.mp hx with rfl | hx
    · rfl
    · exact List.mem_singleton.mp hx ▸ isControl_of_ofEscape? he
  | unicode hc =>
    rcases List.mem_cons.mp hx with rfl | hx
    · rfl
    rcases List.mem_cons.mp hx with rfl | hx
    · rfl
    obtain ⟨k, rfl⟩ := mem_fourDigits hx
    exact (digitChar_cases k).2.1
  | plain _ _ hc => exact List.mem_singleton.mp hx ▸ hc

private theorem Written.mem_unescaped {c : Char} {text : List Char} (h : Written c text)
    {rest : List Char} (hx : '"' ∈ unescaped (text ++ rest)) : '"' ∈ unescaped rest := by
  cases h with
  | pair he => exact hx
  | unicode hc =>
    have hdigits {x : Char} (hmem : x ∈ fourDigits c.toNat) : x ≠ '\\' ∧ x ≠ '"' := by
      obtain ⟨k, rfl⟩ := mem_fourDigits hmem
      exact (digitChar_cases k).2.2
    change '"' ∈ unescaped (fourDigits c.toNat ++ rest) at hx
    rw [unescaped_append fun hmem => (hdigits hmem).1 rfl] at hx
    exact (List.mem_append.mp hx).resolve_left fun hmem => (hdigits hmem).2 rfl
  | plain hslash hquote =>
    rw [unescaped_append fun hmem => hslash (List.mem_singleton.mp hmem).symm] at hx
    exact (List.mem_cons.mp hx).resolve_left (Ne.symm hquote)

/-! ## Whole strings -/

theorem scan_flatMap_escape (cs : List Char) : scan (cs.flatMap (escape '"')) = some cs := by
  induction cs with
  | nil => rfl
  | cons c cs ih => rw [List.flatMap_cons, (written_escape c).scan_append, ih, Option.map_some]

theorem isControl_of_mem_flatMap_escape {cs : List Char} {x : Char}
    (hx : x ∈ cs.flatMap (escape '"')) : isControl x = false := by
  obtain ⟨c, -, hx⟩ := List.mem_flatMap.mp hx
  exact (written_escape c).isControl_eq_false hx

theorem quote_not_mem_unescaped (cs : List Char) :
    '"' ∉ unescaped (cs.flatMap (escape '"')) := by
  induction cs with
  | nil => exact List.not_mem_nil
  | cons c cs ih => exact fun hx => ih ((written_escape c).mem_unescaped hx)

end Quoted

/-- The literal of a string stands between two quotes. Inside there are no other quotes but escaped
ones, no control characters and so no line breaks, and what a scanner reads there is the string. -/
theorem Literal.scan_text_string (s : String) :
    ∃ inside, (Literal.string s).text.toList = '"' :: inside ++ ['"'] ∧
      '"' ∉ Quoted.unescaped inside ∧ (∀ c ∈ inside, Quoted.isControl c = false) ∧
      '\n' ∉ inside ∧ Quoted.scan inside = some s.toList ∧
      ∀ t, (Literal.string t).text = (Literal.string s).text → t = s := by
  have htext (t : String) : (Literal.string t).text.toList =
      '"' :: t.toList.flatMap (Quoted.escape '"') ++ ['"'] := String.toList_ofList
  have hcontrol : ∀ c ∈ s.toList.flatMap (Quoted.escape '"'), Quoted.isControl c = false :=
    fun c => Quoted.isControl_of_mem_flatMap_escape
  refine ⟨_, htext s, Quoted.quote_not_mem_unescaped s.toList, hcontrol, fun hline => ?_,
    Quoted.scan_flatMap_escape s.toList, fun t heq => ?_⟩
  · exact absurd (hcontrol '\n' hline) (by decide)
  · have hinside : t.toList.flatMap (Quoted.escape '"') = s.toList.flatMap (Quoted.escape '"') :=
      List.append_cancel_right (List.cons.inj ((htext t).symm.trans (heq ▸ htext s))).2
    have hscan := Quoted.scan_flatMap_escape t.toList
    rw [hinside, Quoted.scan_flatMap_escape s.toList] at hscan
    exact String.toList_injective (Option.some.inj hscan).symm

/-- A backslash, a quote, a line break and a control character before characters that could belong
to an escape. -/
example : (Literal.string "\\u0041\"\n\x010").text = "\"\\\\u0041\\\"\\n\\u00010\"" := by
  decide +kernel

end Lowering
