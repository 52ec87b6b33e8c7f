import RingStore.Bytes

/-!
# Decimal numbers

The decimal form of whole numbers as bytes. Writing uses the fewest digits and `-` for the sign.
Reading accepts any number of leading zeros and, where a sign is allowed, one `+` or `-` in front
of at least one digit; nothing else may stand in the text.
-/

namespace RingStore.Decimal

/-- The shortest decimal form of a natural number. -/
def ofNat (value : Nat) : Bytes :=
  (Nat.toDigits 10 value).map Char.toUInt8

/-- The shortest decimal form of an integer. -/
def ofInt : Int → Bytes
  | .ofNat value => ofNat value
  | .negSucc value => 45 :: ofNat (value + 1)

/-- The value of one ASCII digit. -/
def digit? (byte : UInt8) : Option Nat :=
  if 48 ≤ byte ∧ byte ≤ 57 then some (byte.toNat - 48) else none

/-- The value of a run of digits that follows digits of value `high`, unless it passes a limit. As
leading digits never have a greater value than all of them, reading stops where they pass it. -/
def extend? (limit high : Nat) : Bytes → Option Nat
  | [] => some high
  | byte :: rest => (digit? byte).bind fun digit =>
    let value := 10 * high + digit
    if value ≤ limit then extend? limit value rest else none

/-- An unsigned number up to a limit: one digit or more and nothing else. -/
def digits? (limit : Nat) : Bytes → Option Nat
  | [] => none
  | text => extend? limit 0 text

/-- A natural number up to a limit, which may carry one `+` in front. -/
def nat? (limit : Nat) : Bytes → Option Nat
  | 43 :: text => digits? limit text
  | text => digits? limit text

/-- The 64-bit signed number that a decimal text denotes, if it denotes one in range. The text may
carry one `+` or `-` in front. -/
def int64? : Bytes → Option Int64
  | 45 :: text => (digits? (Int64.maxValue.toNatClampNeg + 1) text).map fun value =>
    Int64.ofInt (-Int.ofNat value)
  | text => (nat? Int64.maxValue.toNatClampNeg text).map Int64.ofNat

/-- The unsigned 64-bit number that a decimal text denotes, if it denotes one in range. -/
def uint64? (text : Bytes) : Option Nat :=
  nat? (UInt64.size - 1) text

end RingStore.Decimal
