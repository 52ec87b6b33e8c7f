import Mathlib.Data.Nat.Digits.Defs
import Mathlib.Tactic.Ring
import RingStore.Proofs.Decimal

/-!
# What decimal texts denote

The numbers that texts denote, by rules: one decimal digit or more, with or without a sign in
front. Zeros in front do not matter. A reader for a range of numbers reads exactly the texts that
denote one of them.

## Main definitions

* `Decimal.Denotes`: the text of a number, and the number.

## Main results

* `Decimal.digits?_eq_some_iff`: which digits are read up to a limit.
* `Decimal.int64?_eq_some_iff`: which texts are read as numbers of 64 bits.
* `Decimal.denotes_ofInt`: a decimal form denotes its number.
* `Decimal.int64?_ofInt`: a 64-bit signed number is read back.
-/

namespace RingStore.Decimal

/-- All bytes are decimal digits. -/
def AreDigits (text : Bytes) : Prop :=
  ∀ byte ∈ text, 48 ≤ byte.toNat ∧ byte.toNat ≤ 57

/-- The natural number that decimal digits denote. -/
def valueOf (text : Bytes) : Nat :=
  Nat.ofDigits 10 (text.map fun byte => byte.toNat - 48).reverse

/-- A text denotes a number: it is one digit or more, with or without a sign in front. -/
inductive Denotes : Bytes → Int → Prop where
  /-- There is no sign. -/
  | unsigned {digits : Bytes} (hne : digits ≠ []) (hdigits : AreDigits digits) :
      Denotes digits (valueOf digits)
  /-- The sign is a plus. -/
  | plus {digits : Bytes} (hne : digits ≠ []) (hdigits : AreDigits digits) :
      Denotes (43 :: digits) (valueOf digits)
  /-- The sign is a minus. -/
  | minus {digits : Bytes} (hne : digits ≠ []) (hdigits : AreDigits digits) :
      Denotes (45 :: digits) (-valueOf digits)

theorem areDigits_cons {byte : UInt8} {rest : Bytes} :
    AreDigits (byte :: rest) ↔ (48 ≤ byte.toNat ∧ byte.toNat ≤ 57) ∧ AreDigits rest :=
  List.forall_mem_cons

theorem valueOf_cons (byte : UInt8) (rest : Bytes) :
    valueOf (byte :: rest) = valueOf rest + 10 ^ rest.length * (byte.toNat - 48) := by
  rw [valueOf, List.map_cons, Nat.ofDigits_reverse_cons, List.length_map]
  rfl

theorem digit?_eq_some_iff {byte : UInt8} {digit : Nat} :
    digit? byte = some digit ↔
      (48 ≤ byte.toNat ∧ byte.toNat ≤ 57) ∧ digit = byte.toNat - 48 := by
  have hlow : (48 : UInt8).toNat = 48 := rfl
  have hhigh : (57 : UInt8).toNat = 57 := rfl
  simp only [digit?, UInt8.le_iff_toNat_le, hlow, hhigh]
  split
  · next h => simp [h, eq_comm]
  · next h => simp [h]

/-- What digits lead to that follow others. -/
theorem extend?_eq_some_iff {limit high : Nat} (hhigh : high ≤ limit) {text : Bytes} {value : Nat} :
    extend? limit high text = some value ↔
      AreDigits text ∧ value = 10 ^ text.length * high + valueOf text ∧ value ≤ limit := by
  induction text generalizing high with
  | nil =>
    have hvalue : valueOf [] = 0 := rfl
    have hnone : AreDigits [] := by simp [AreDigits]
    rw [extend?, hvalue, List.length_nil, pow_zero, one_mul, add_zero, Option.some.injEq]
    refine ⟨fun heq => ⟨hnone, heq.symm, heq ▸ hhigh⟩, fun h => h.2.1.symm⟩
  | cons byte rest ih =>
    rw [areDigits_cons, extend?, valueOf_cons, List.length_cons]
    cases hdigit : digit? byte with
    | none =>
      refine ⟨fun h => (Option.some_ne_none _ h.symm).elim, fun h => ?_⟩
      rw [digit?_eq_some_iff.2 ⟨h.1.1, rfl⟩] at hdigit
      cases hdigit
    | some digit =>
      obtain ⟨hbyte, rfl⟩ := digit?_eq_some_iff.1 hdigit
      have hsum : 10 ^ rest.length * (10 * high + (byte.toNat - 48)) + valueOf rest =
          10 ^ (rest.length + 1) * high +
            (valueOf rest + 10 ^ rest.length * (byte.toNat - 48)) := by
        ring
      rw [Option.bind_some]
      dsimp only
      split
      · next hle =>
        rw [ih hle, hsum]
        exact ⟨fun h => ⟨⟨hbyte, h.1⟩, h.2⟩, fun h => ⟨h.1.2, h.2⟩⟩
      · next hgt =>
        -- what follows does not make the number smaller
        refine ⟨fun h => (Option.some_ne_none _ h.symm).elim, fun h => ?_⟩
        obtain ⟨-, hvalue, hle⟩ := h
        rw [← hsum] at hvalue
        have hpos : 0 < 10 ^ rest.length := Nat.pow_pos (by decide)
        have hgrows := Nat.le_mul_of_pos_left (10 * high + (byte.toNat - 48)) hpos
        omega

theorem digits?_eq_some_iff {limit : Nat} {text : Bytes} {value : Nat} :
    digits? limit text = some value ↔
      text ≠ [] ∧ AreDigits text ∧ value = valueOf text ∧ value ≤ limit := by
  cases text with
  | nil => simp [digits?]
  | cons byte rest =>
    rw [digits?]
    · rw [extend?_eq_some_iff (Nat.zero_le _)]
      simp
    · simp

/-- Digits do not start with a sign. -/
theorem AreDigits.ne_cons {digits rest : Bytes} {byte : UInt8} (h : AreDigits digits)
    (hsign : byte.toNat < 48) : digits ≠ byte :: rest := by
  rintro rfl
  exact absurd (h byte List.mem_cons_self).1 (Nat.not_le.2 hsign)

/-- A natural number is read, with a plus in front or without one. -/
theorem nat?_eq_some_iff {limit : Nat} {text : Bytes} {value : Nat} :
    nat? limit text = some value ↔
      ∃ digits, (text = digits ∨ text = 43 :: digits) ∧ digits ≠ [] ∧ AreDigits digits ∧
        value = valueOf digits ∧ value ≤ limit := by
  unfold nat?
  split
  · next digits =>
    rw [digits?_eq_some_iff]
    constructor
    · exact fun h => ⟨digits, .inr rfl, h⟩
    · rintro ⟨other, rfl | htext, h⟩
      · exact absurd rfl (h.2.1.ne_cons (by decide))
      · cases htext
        exact h
  · next hnone =>
    rw [digits?_eq_some_iff]
    constructor
    · exact fun h => ⟨text, .inl rfl, h⟩
    · rintro ⟨digits, rfl | htext, h⟩
      · exact h
      · exact absurd htext (hnone digits)

/-- A 64-bit number that was read has 64 bits. -/
theorem lt_of_uint64? {text : Bytes} {value : Nat} (h : uint64? text = some value) :
    value < UInt64.size := by
  obtain ⟨_, _, _, _, _, hle⟩ := nat?_eq_some_iff.1 h
  exact Nat.lt_of_le_of_lt hle (by decide)

/-- Exactly the texts that denote a number of 64 bits are read, and as that number. -/
theorem int64?_eq_some_iff {text : Bytes} {number : Int64} :
    int64? text = some number ↔ Denotes text number.toInt := by
  have hlow : -9223372036854775808 ≤ number.toInt := number.le_toInt
  have hhigh : number.toInt < 9223372036854775808 := number.toInt_lt
  have hback : Int64.ofInt number.toInt = number := Int64.ofInt_toInt number
  have hmax : Int64.maxValue.toNatClampNeg = 9223372036854775807 := by decide
  constructor
  · intro h
    unfold int64? at h
    split at h
    · next digits =>
      obtain ⟨value, hdigits, rfl⟩ := Option.map_eq_some_iff.1 h
      obtain ⟨hne, hall, rfl, hle⟩ := digits?_eq_some_iff.1 hdigits
      rw [Int64.toInt_ofInt_of_le (by simp; omega) (by simp; omega)]
      exact .minus hne hall
    · obtain ⟨value, hnat, rfl⟩ := Option.map_eq_some_iff.1 h
      obtain ⟨digits, htext, hne, hall, rfl, hle⟩ := nat?_eq_some_iff.1 hnat
      rw [Int64.toInt_ofNat_of_lt (by omega)]
      rcases htext with rfl | rfl
      · exact .unsigned hne hall
      · exact .plus hne hall
  · intro h
    generalize hinteger : number.toInt = integer at h
    -- a text without a sign and one with a plus are read by the same reader
    have hunsigned : ∀ digits : Bytes, (text = digits ∨ text = 43 :: digits) → digits ≠ [] →
        AreDigits digits → integer = valueOf digits → int64? text = some number := by
      rintro digits htext hne hall rfl
      have hnat : nat? Int64.maxValue.toNatClampNeg text = some (valueOf digits) :=
        nat?_eq_some_iff.2 ⟨digits, htext, hne, hall, rfl, by omega⟩
      unfold int64?
      split
      · rcases htext with rfl | htext
        · exact absurd rfl (hall.ne_cons (by decide))
        · cases htext
      · rw [hnat, Option.map_some, ← hback, hinteger]
        rfl
    cases h with
    | unsigned hne hall => exact hunsigned _ (.inl rfl) hne hall rfl
    | plus hne hall => exact hunsigned _ (.inr rfl) hne hall rfl
    | minus hne hall =>
      rw [int64?, digits?_eq_some_iff.2 ⟨hne, hall, rfl, by omega⟩, Option.map_some, ← hback,
        hinteger]
      rfl

/-- The text of a number holds digits and perhaps a sign. -/
theorem Denotes.mem {text : Bytes} {number : Int} (h : Denotes text number) {byte : UInt8}
    (hbyte : byte ∈ text) : 43 ≤ byte.toNat ∧ byte.toNat ≤ 57 := by
  have hdigits : ∀ {digits : Bytes}, AreDigits digits → byte ∈ digits →
      43 ≤ byte.toNat ∧ byte.toNat ≤ 57 :=
    fun hall hmem => ⟨Nat.le_trans (by decide) (hall byte hmem).1, (hall byte hmem).2⟩
  cases h with
  | unsigned hne hall => exact hdigits hall hbyte
  | plus hne hall =>
    rcases List.mem_cons.1 hbyte with rfl | hmem
    · decide
    · exact hdigits hall hmem
  | minus hne hall =>
    rcases List.mem_cons.1 hbyte with rfl | hmem
    · decide
    · exact hdigits hall hmem

/-- A decimal form denotes the number that it is the form of. -/
theorem ofNat_spec (value : Nat) :
    AreDigits (ofNat value) ∧ valueOf (ofNat value) = value := by
  obtain ⟨-, hdigits, hvalue, -⟩ := digits?_eq_some_iff.1 (digits?_ofNat (Nat.le_refl value))
  exact ⟨hdigits, hvalue.symm⟩

theorem denotes_ofNat (value : Nat) : Denotes (ofNat value) value := by
  obtain ⟨hdigits, hvalue⟩ := ofNat_spec value
  have hdenotes := Denotes.unsigned (ofNat_ne_nil value) hdigits
  rwa [hvalue] at hdenotes

theorem denotes_ofInt (value : Int) : Denotes (ofInt value) value := by
  match value with
  | .ofNat value => exact denotes_ofNat value
  | .negSucc value =>
    obtain ⟨hdigits, hvalue⟩ := ofNat_spec (value + 1)
    have hdenotes := Denotes.minus (ofNat_ne_nil (value + 1)) hdigits
    rwa [hvalue] at hdenotes

/-- A 64-bit signed number is read back. -/
theorem int64?_ofInt (number : Int64) : int64? (ofInt number.toInt) = some number :=
  int64?_eq_some_iff.2 (denotes_ofInt number.toInt)

end RingStore.Decimal
