import RingStore.Text.CaseTable

/-!
# Small letters

The full lower-casing of Unicode, under which command names are compared. A character goes to its
small letter wherever it stands, with two exceptions: U+0130 becomes two characters, and the
capital sigma becomes `ς` at the end of a word and `σ` elsewhere. A sigma ends a word when, passing
over case-ignorable characters, the nearest character before it is a letter with case and the
nearest one after it is not.
-/

namespace RingStore.Text

/-- The character lies in one of the ranges. -/
def inRanges (ranges : List (Nat × Nat)) (char : Char) : Bool :=
  ranges.any fun range => range.1 ≤ char.toNat && char.toNat ≤ range.2

/-- A letter with case. -/
def isCased (char : Char) : Bool :=
  inRanges casedRanges char

/-- A character that is passed over when a word's edge is looked for. -/
def isCaseIgnorable (char : Char) : Bool :=
  inRanges caseIgnorableRanges char

/-- The small form of a character that does not depend on where it stands. -/
def smallForm (char : Char) : List Char :=
  if char = '\u0130' then ['i', '\u0307']
  else match smallRuns.find? (·.contains char.toNat) with
    | some run => [Char.ofNat (char.toNat + run.shift).toNat]
    | none => [char]

/-- The nearest character, passing over case-ignorable ones, is a letter with case. -/
def meetsCased (chars : List Char) : Bool :=
  ((chars.dropWhile isCaseIgnorable).head?.map isCased).getD false

/-- A sigma between `before` (nearest character first) and `after` ends its word. -/
def endsWord (before after : List Char) : Bool :=
  meetsCased before && !meetsCased after

/-- The small form of `char` between `before` (nearest character first) and `after`. -/
def smallFormIn (before : List Char) (char : Char) (after : List Char) : List Char :=
  if char = 'Σ' then [if endsWord before after then 'ς' else 'σ'] else smallForm char

/-- The small form of the characters that follow `before` (nearest character first). -/
def lowercaseAfter (before : List Char) : List Char → List Char
  | [] => []
  | char :: after => smallFormIn before char after ++ lowercaseAfter (char :: before) after

/-- The text in small letters. -/
def lowercase (text : String) : String :=
  String.ofList (lowercaseAfter [] text.toList)

end RingStore.Text
