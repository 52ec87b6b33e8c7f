import RingStore.Bytes

/-!
# Text as bytes

Text is written in UTF-8. Bytes that are not valid UTF-8 can still be read as text: every
*maximal invalid part* then becomes one replacement character U+FFFD. A maximal invalid part is
the longest start of a well-formed sequence that the next byte (or the end) fails to continue,
or a single byte that starts no sequence.

`Text.scan` reads bytes into characters with `none` for each maximal invalid part; `Text.ofBytes`
and `Text.isValid` are both read off it.
-/

namespace RingStore.Text

/-- The UTF-8 bytes of a text. -/
def toBytes (text : String) : Bytes :=
  text.toList.flatMap String.utf8EncodeChar

/-- A byte that continues a sequence: `10xxxxxx`. -/
def isContinuation (byte : UInt8) : Bool :=
  128 ≤ byte && byte ≤ 191

/-- The bytes that may stand second after a lead byte, as bounds; `none` if the byte starts no
sequence of several bytes. The bounds exclude overlong forms, surrogates and numbers above
U+10FFFF. -/
def secondBounds? (lead : UInt8) : Option (UInt8 × UInt8) :=
  if lead < 0xC2 then none
  else if lead < 0xE0 then some (0x80, 0xBF)
  else if lead = 0xE0 then some (0xA0, 0xBF)
  else if lead = 0xED then some (0x80, 0x9F)
  else if lead < 0xF0 then some (0x80, 0xBF)
  else if lead = 0xF0 then some (0x90, 0xBF)
  else if lead < 0xF4 then some (0x80, 0xBF)
  else if lead = 0xF4 then some (0x80, 0x8F)
  else none

/-- The six payload bits of a continuation byte. -/
def payload (byte : UInt8) : Nat :=
  byte.toNat % 64

/-- The character of the sequence that starts with `lead`, `none` for a maximal invalid part,
together with the bytes after it. -/
def next (lead : UInt8) (rest : Bytes) : Option Char × Bytes :=
  if lead < 0x80 then (some (Char.ofNat lead.toNat), rest)
  else match secondBounds? lead, rest with
    | some (low, high), second :: rest₁ =>
      if low ≤ second && second ≤ high then
        if lead < 0xE0 then
          (some (Char.ofNat (lead.toNat % 32 * 64 + payload second)), rest₁)
        else match rest₁ with
          | third :: rest₂ =>
            if isContinuation third then
              if lead < 0xF0 then
                (some (Char.ofNat (lead.toNat % 16 * 4096 + payload second * 64 + payload third)),
                  rest₂)
              else match rest₂ with
                | fourth :: rest₃ =>
                  if isContinuation fourth then
                    (some (Char.ofNat (lead.toNat % 8 * 262144 + payload second * 4096
                      + payload third * 64 + payload fourth)), rest₃)
                  else (none, rest₂)
                | [] => (none, [])
            else (none, rest₁)
          | [] => (none, [])
      else (none, rest)
    | _, _ => (none, rest)

/-- Reading a sequence never lengthens what is left. -/
theorem length_next_le (lead : UInt8) (rest : Bytes) : (next lead rest).2.length ≤ rest.length := by
  unfold next
  repeat' split
  all_goals simp_all <;> omega

/-- The characters read so far, latest first, continued with those of `bytes`. -/
def scanOnto (read : List (Option Char)) (bytes : Bytes) : List (Option Char) :=
  match bytes with
  | [] => read.reverse
  | lead :: rest =>
    scanOnto ((next lead rest).1 :: read) (next lead rest).2
termination_by bytes.length
decreasing_by
  have := length_next_le lead rest
  simp only [List.length_cons]
  omega

/-- The characters of a byte string in order, with `none` for each maximal invalid part. -/
def scan (bytes : Bytes) : List (Option Char) :=
  scanOnto [] bytes

/-- The text of a byte string, each maximal invalid part replaced by U+FFFD. -/
def ofBytes (bytes : Bytes) : String :=
  String.ofList ((scan bytes).map (·.getD '\uFFFD'))

/-- The byte string is well-formed UTF-8. -/
def isValid (bytes : Bytes) : Bool :=
  (scan bytes).all (·.isSome)

end RingStore.Text
