/-!
# Byte strings

Keys, values, command names and everything that crosses a connection or a file are finite
strings of bytes. This module fixes their type, the little-endian form in which fixed-width
numbers are stored, and the cyclic rule "a number in `w` bytes is kept modulo `capacity w`".
-/

namespace RingStore

/-- A finite string of bytes. -/
abbrev Bytes := List UInt8

/-- A command as it is sent: the command's name followed by its arguments. It may be empty. -/
abbrev CommandLine := List Bytes

namespace Bytes

/-- The `width` low-order bytes of a number, least significant first. -/
def littleEndian : (width : Nat) → (value : Nat) → Bytes
  | 0, _ => []
  | width + 1, value => UInt8.ofNat value :: littleEndian width (value / 256)

/-- The number whose bytes, least significant first, are given. -/
def ofLittleEndian : Bytes → Nat
  | [] => 0
  | byte :: rest => byte.toNat + 256 * ofLittleEndian rest

/-- How many numbers can be told apart in `width` bytes. -/
def capacity : (width : Nat) → Nat
  | 0 => 1
  | width + 1 => 256 * capacity width

@[simp]
theorem length_littleEndian (width value : Nat) : (littleEndian width value).length = width := by
  induction width generalizing value with
  | zero => rfl
  | succ width ih => simp [littleEndian, ih]

/-- Reading back what was written gives the number modulo the width. -/
theorem ofLittleEndian_littleEndian (width value : Nat) :
    ofLittleEndian (littleEndian width value) = value % capacity width := by
  induction width generalizing value with
  | zero => simp [littleEndian, ofLittleEndian, capacity, Nat.mod_one]
  | succ width ih =>
    simp only [littleEndian, ofLittleEndian, capacity, ih]
    rw [Nat.mod_mul]
    simp

/-- As many bytes as a number takes hold it. -/
theorem ofLittleEndian_lt (bytes : Bytes) : ofLittleEndian bytes < capacity bytes.length := by
  induction bytes with
  | nil => exact Nat.one_pos
  | cons byte rest ih =>
    have hbyte := byte.toNat_lt
    simp only [ofLittleEndian, List.length_cons, capacity]
    omega

/-- Writing what was read gives the bytes again. -/
theorem littleEndian_ofLittleEndian (bytes : Bytes) :
    littleEndian bytes.length (ofLittleEndian bytes) = bytes := by
  induction bytes with
  | nil => rfl
  | cons byte rest ih =>
    have hbyte : UInt8.ofNat (byte.toNat + 256 * ofLittleEndian rest) = byte := by
      rw [← UInt8.toNat_inj, UInt8.toNat_ofNat']
      have := byte.toNat_lt
      omega
    have hrest : (byte.toNat + 256 * ofLittleEndian rest) / 256 = ofLittleEndian rest := by
      have := byte.toNat_lt
      omega
    rw [ofLittleEndian, List.length_cons, littleEndian, hbyte, hrest, ih]

/-- Bytes of the ASCII space class: space, tab, line feed, form feed and carriage return. -/
def isBlank (byte : UInt8) : Bool :=
  byte == 32 || byte == 9 || byte == 10 || byte == 12 || byte == 13

/-- The maximal runs of bytes that are not blank, in order. -/
def words (line : Bytes) : List Bytes :=
  (line.splitOnP isBlank).filter (· ≠ [])

/-- An ASCII letter in its small form; every other byte is left alone. -/
def toAsciiLower (byte : UInt8) : UInt8 :=
  if 65 ≤ byte ∧ byte ≤ 90 then byte + 32 else byte

/-- Equality up to the case of ASCII letters. -/
def equalsIgnoringAsciiCase (left right : Bytes) : Bool :=
  left.map toAsciiLower == right.map toAsciiLower

end Bytes

end RingStore
