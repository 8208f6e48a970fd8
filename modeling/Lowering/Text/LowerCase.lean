import Lowering.Text.CaseTable

/-! # Lower case

Full lower-casing of characters and words. Only `İ` becomes two characters, and a capital sigma
that ends a word becomes the final sigma. -/

namespace Lowering

/-- The lower case of one character by itself. -/
def lowerChar (c : Char) : List Char :=
  if c == 'İ' then ['i', '\u0307']
  else match CaseTable.runOf? c.toNat CaseTable.lowerRuns with
    | some run => [Char.ofNat (c.toNat + run.shift).toNat]
    | none => [c]

/-- A cased character comes first, after characters that case ignores. -/
private def meetsCased (cs : List Char) : Bool :=
  match cs.dropWhile (fun c => CaseTable.inRanges c.toNat CaseTable.caseIgnorable) with
  | [] => false
  | c :: _ => CaseTable.inRanges c.toNat CaseTable.cased

/-- Lower-case `rest`, which follows the characters `before`, nearest first. -/
private def lowerAfter (before : List Char) : List Char → List Char
  | [] => []
  | c :: rest =>
    (if c == 'Σ' then [if meetsCased before && !meetsCased rest then 'ς' else 'σ']
      else lowerChar c) ++ lowerAfter (c :: before) rest

/-- The lower case of a whole text. -/
def lowerWord (s : String) : String :=
  String.ofList (lowerAfter [] s.toList)

/-- Only the first character in lower case. -/
def lowerFirst (s : String) : String :=
  match s.toList with
  | [] => ""
  | c :: rest => String.ofList (lowerChar c ++ rest)

end Lowering
