import RingStore.Decimal

/-!
# Tokens of a JSON text

The first half of reading JSON: a text is cut into punctuation, literals, numbers and strings, with
blanks between them dropped. Numbers keep their value only if they are written without sign,
fraction and exponent and fit 64 bits. A string is text unless its escapes leave half of a surrogate
pair alone; such a string is well-formed, but it denotes no text.

## Main definitions

* `Json.Token`: the tokens.
* `Json.tokens?`: cutting a text into tokens.
-/

namespace RingStore.Json

/-- A token. -/
inductive Token where
  /-- An opening bracket. -/
  | openArray
  /-- A closing bracket. -/
  | closeArray
  /-- An opening brace. -/
  | openObject
  /-- A closing brace. -/
  | closeObject
  /-- A comma. -/
  | comma
  /-- A colon. -/
  | colon
  /-- The literal `null`. -/
  | null
  /-- The literal `true` or `false`. -/
  | bool (value : Bool)
  /-- A number, with its value if it is written as a whole number without sign and fits 64 bits. -/
  | number (whole : Option Nat)
  /-- A string, with its text if it denotes one. -/
  | string (text : Option String)
  deriving DecidableEq

/-- What one character or escape of a string stands for. -/
inductive StringPart where
  /-- A character. -/
  | char (char : Char)
  /-- Half of a surrogate pair. -/
  | half (code : Nat)

/-- The text of a string; there is none if half of a surrogate pair stands alone. -/
def joinParts : List StringPart → Option (List Char)
  | [] => some []
  | .char char :: rest => (joinParts rest).map (char :: ·)
  | .half high :: .half low :: rest =>
    if high < 0xDC00 ∧ 0xDC00 ≤ low then
      (joinParts rest).map (Char.ofNat (0x10000 + (high - 0xD800) * 0x400 + (low - 0xDC00)) :: ·)
    else none
  | .half _ :: _ => none

/-- The value of a hexadecimal digit. -/
def hexDigit? (char : Char) : Option Nat :=
  if char.isDigit then some (char.toNat - '0'.toNat)
  else if 'a' ≤ char ∧ char ≤ 'f' then some (char.toNat - 'a'.toNat + 10)
  else if 'A' ≤ char ∧ char ≤ 'F' then some (char.toNat - 'A'.toNat + 10)
  else none

/-- What four hexadecimal digits stand for. -/
def unicodeEscape? (digits : List Char) : Option StringPart :=
  (digits.mapM hexDigit?).map fun values =>
    let code := values.foldl (fun high low => 16 * high + low) 0
    if 0xD800 ≤ code ∧ code < 0xE000 then .half code else .char (Char.ofNat code)

/-- What the character after a backslash stands for. -/
def simpleEscape? : Char → Option Char
  | '"' => some '"'
  | '\\' => some '\\'
  | '/' => some '/'
  | 'b' => some '\x08'
  | 'f' => some '\x0c'
  | 'n' => some '\n'
  | 'r' => some '\r'
  | 't' => some '\t'
  | _ => none

/-- Reads a string up to its closing quote, after the parts already read (latest first); control
characters may only be escaped. -/
def takeString (parts : List StringPart) : List Char → Option (List StringPart × List Char)
  | [] => none
  | '"' :: rest => some (parts.reverse, rest)
  | '\\' :: 'u' :: a :: b :: c :: d :: rest =>
    match unicodeEscape? [a, b, c, d] with
    | some part => takeString (part :: parts) rest
    | none => none
  | '\\' :: escape :: rest =>
    match simpleEscape? escape with
    | some char => takeString (.char char :: parts) rest
    | none => none
  | char :: rest => if char < ' ' then none else takeString (.char char :: parts) rest

/-- One digit or more and nothing else. -/
def areDigits (chars : List Char) : Bool :=
  !chars.isEmpty && chars.all Char.isDigit

/-- An exponent, or nothing. -/
def isExponent : List Char → Bool
  | [] => true
  | mark :: '+' :: digits => (mark == 'e' || mark == 'E') && areDigits digits
  | mark :: '-' :: digits => (mark == 'e' || mark == 'E') && areDigits digits
  | mark :: digits => (mark == 'e' || mark == 'E') && areDigits digits

/-- A fraction, an exponent, one after the other, or nothing. -/
def isFraction : List Char → Bool
  | '.' :: rest =>
    !(rest.takeWhile Char.isDigit).isEmpty && isExponent (rest.dropWhile Char.isDigit)
  | rest => isExponent rest

/-- Digits that start with zero only if they are just that. -/
def isWhole (digits : List Char) : Bool :=
  areDigits digits && (digits.length == 1 || digits.head? != some '0')

/-- A number without sign. -/
def isUnsigned (chars : List Char) : Bool :=
  isWhole (chars.takeWhile Char.isDigit) && isFraction (chars.dropWhile Char.isDigit)

/-- The token of a run of characters that numbers consist of. -/
def number? : List Char → Option Token
  | '-' :: chars => if isUnsigned chars then some (.number none) else none
  | chars =>
    if isUnsigned chars then
      some (.number (if isWhole chars then Decimal.uint64? (chars.map Char.toUInt8) else none))
    else none

/-- Characters that numbers consist of. -/
def isNumberChar (char : Char) : Bool :=
  char.isDigit || char == '-' || char == '+' || char == '.' || char == 'e' || char == 'E'

/-- Characters that may stand between tokens. -/
def isBlank (char : Char) : Bool :=
  char == ' ' || char == '\n' || char == '\t' || char == '\r'

/-- The token, if there is one, that starts with a character, and what comes after it. -/
def takeToken (first : Char) (rest : List Char) : Option (Option Token × List Char) :=
  if isBlank first then some (none, rest)
  else match first with
    | '[' => some (some .openArray, rest)
    | ']' => some (some .closeArray, rest)
    | '{' => some (some .openObject, rest)
    | '}' => some (some .closeObject, rest)
    | ',' => some (some .comma, rest)
    | ':' => some (some .colon, rest)
    | '"' =>
      (takeString [] rest).map fun (parts, after) =>
        (some (.string ((joinParts parts).map String.ofList)), after)
    | 'n' => if rest.take 3 = ['u', 'l', 'l'] then some (some .null, rest.drop 3) else none
    | 't' => if rest.take 3 = ['r', 'u', 'e'] then some (some (.bool true), rest.drop 3) else none
    | 'f' =>
      if rest.take 4 = ['a', 'l', 's', 'e'] then some (some (.bool false), rest.drop 4) else none
    | _ =>
      (number? (first :: rest.takeWhile isNumberChar)).map fun token =>
        (some token, rest.dropWhile isNumberChar)

theorem length_of_takeString {parts result : List StringPart} {chars rest : List Char}
    (h : takeString parts chars = some (result, rest)) : rest.length ≤ chars.length := by
  fun_induction takeString parts chars with
  | case1 => cases h
  | case2 => cases h; simp
  | case3 _ _ _ _ _ _ _ _ ih => have := ih h; simp only [List.length_cons]; omega
  | case4 => cases h
  | case5 _ _ _ _ _ _ ih => have := ih h; simp only [List.length_cons]; omega
  | case6 => cases h
  | case7 => cases h
  | case8 _ _ _ _ _ _ _ ih => have := ih h; simp only [List.length_cons]; omega

theorem length_of_takeToken {first : Char} {rest after : List Char} {token : Option Token}
    (h : takeToken first rest = some (token, after)) : after.length ≤ rest.length := by
  unfold takeToken at h
  split at h
  · cases h; exact Nat.le_refl _
  · split at h
    case h_7 =>
      obtain ⟨⟨parts, tail⟩, htake, heq⟩ := Option.map_eq_some_iff.1 h
      cases heq
      exact length_of_takeString htake
    case h_11 =>
      obtain ⟨found, _, heq⟩ := Option.map_eq_some_iff.1 h
      cases heq
      exact (List.dropWhile_sublist _).length_le
    all_goals
      first
        | (split at h <;> cases h; simp only [List.length_drop]; omega)
        | (cases h; exact Nat.le_refl _)

/-- Cuts on after the tokens already found, which are given latest first. -/
def tokensOnto (found : List Token) (chars : List Char) : Option (List Token) :=
  match chars with
  | [] => some found.reverse
  | first :: rest =>
    match h : takeToken first rest with
    | none => none
    | some (token, after) =>
      have := length_of_takeToken h
      tokensOnto (token.toList ++ found) after
termination_by chars.length
decreasing_by simp only [List.length_cons]; omega

/-- Cuts a text into tokens, if it consists of tokens. -/
def tokens? (text : String) : Option (List Token) :=
  tokensOnto [] text.toList

end RingStore.Json
