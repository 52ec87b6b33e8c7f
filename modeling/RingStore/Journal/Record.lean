import RingStore.Database
import RingStore.Hash.XxHash64

/-!
# Journal records

A journal is a file of records, each a logged command line with the number of its database. A
record starts with that number, the number of words of the command line and the words, each after
its length; these numbers take four bytes, least significant first. A checksum of eight bytes over
all that comes before it ends the record.

The checksum is a parameter: everything but the value of a mismatch holds for any function.

## Main definitions

* `Record.encode`, `Record.decode`: the bytes of a record and the record at the start of bytes.
* `Unreadable`: why there is no record at the start of bytes.
* `journalChecksum`: the checksum that journals use.
-/

namespace RingStore

/-- A logged command line as it is kept in a journal. -/
structure Record where
  /-- The number of the database, of which a record keeps 32 bits. -/
  database : UInt32
  /-- The command line. -/
  line : CommandLine
  deriving DecidableEq, Inhabited

/-- Why no record can be read at the start of bytes. -/
inductive Unreadable where
  /-- The bytes are fewer than any record has. -/
  | tooShort
  /-- The bytes end before the length of a word. -/
  | missingLength
  /-- The bytes end within a word. -/
  | truncatedWord
  /-- The bytes end before or within the checksum. -/
  | missingChecksum
  /-- The checksum is not that of the bytes before it. -/
  | checksumMismatch (stored computed : UInt64)
  deriving DecidableEq

/-- The reason in words. -/
def Unreadable.message : Unreadable → String
  | tooShort => "Insufficient data"
  | missingLength => "Missing argument length"
  | truncatedWord => "Truncated argument"
  | missingChecksum => "Missing checksum"
  | checksumMismatch stored computed =>
    s!"Checksum mismatch: expected {stored.toNat}, got {computed.toNat}"

/-- The checksum that journals use: XXH64 under the seed zero. -/
def journalChecksum (bytes : Bytes) : UInt64 :=
  Hash.xxHash64 0 bytes

namespace Record

/-- The record of a change. -/
def ofWrite (write : Write) : Record :=
  ⟨write.database.toUInt32, write.line⟩

/-- The least number of bytes of a record. -/
def minLength : Nat := 16

/-- A word with its length in front. -/
def encodeWord (word : Bytes) : Bytes :=
  Bytes.littleEndian 4 word.length ++ word

/-- All of a record but its checksum. -/
def payload (record : Record) : Bytes :=
  Bytes.littleEndian 4 record.database.toNat ++
    (Bytes.littleEndian 4 record.line.length ++ record.line.flatMap encodeWord)

/-- The bytes of a record. -/
def encode (checksum : Bytes → UInt64) (record : Record) : Bytes :=
  record.payload ++ Bytes.littleEndian 8 (checksum record.payload).toNat

/-- The bytes of records one after the other. -/
def encodeAll (checksum : Bytes → UInt64) (records : List Record) : Bytes :=
  records.flatMap (encode checksum)

/-- The number in the first four bytes, and the bytes after it. -/
def takeNumber? : Bytes → Option (Nat × Bytes)
  | b0 :: b1 :: b2 :: b3 :: rest => some (Bytes.ofLittleEndian [b0, b1, b2, b3], rest)
  | _ => none

/-- So many words, after those already read (latest first), and the bytes after them. -/
def takeWords : Nat → List Bytes → Bytes → Except Unreadable (List Bytes × Bytes)
  | 0, words, bytes => .ok (words.reverse, bytes)
  | count + 1, words, bytes =>
    match takeNumber? bytes with
    | none => .error .missingLength
    | some (length, rest) =>
      let word := rest.take length
      if word.length < length then .error .truncatedWord
      else takeWords count (word :: words) (rest.drop length)

/-- The record at the start of bytes, and the bytes after it. -/
def decode (checksum : Bytes → UInt64) (bytes : Bytes) : Except Unreadable (Record × Bytes) :=
  if (bytes.take minLength).length < minLength then .error .tooShort
  else
    match takeNumber? bytes with
    | none => .error .tooShort
    | some (database, afterDatabase) =>
      match takeNumber? afterDatabase with
      | none => .error .tooShort
      | some (count, afterCount) =>
        match takeWords count [] afterCount with
        | .error reason => .error reason
        | .ok (line, afterWords) =>
          let last := afterWords.take 8
          if last.length < 8 then .error .missingChecksum
          else
            let record : Record := ⟨database.toUInt32, line⟩
            let stored := (Bytes.ofLittleEndian last).toUInt64
            let computed := checksum (bytes.take record.payload.length)
            if stored = computed then .ok (record, afterWords.drop 8)
            else .error (.checksumMismatch stored computed)

theorem length_of_takeNumber? {bytes rest : Bytes} {number : Nat}
    (h : takeNumber? bytes = some (number, rest)) : bytes.length = rest.length + 4 := by
  unfold takeNumber? at h
  split at h <;> cases h
  rfl

theorem length_of_takeWords {count : Nat} {words line : List Bytes} {bytes rest : Bytes}
    (h : takeWords count words bytes = .ok (line, rest)) : rest.length ≤ bytes.length := by
  induction count generalizing words bytes with
  | zero => cases h; exact Nat.le_refl _
  | succ count ih =>
    unfold takeWords at h
    split at h
    · cases h
    · next length after heq =>
      have hnumber := length_of_takeNumber? heq
      simp only at h
      split at h
      · cases h
      · have := ih h
        simp only [List.length_drop] at this
        omega

/-- A record takes at least its least number of bytes. -/
theorem length_of_decode {checksum : Bytes → UInt64} {bytes rest : Bytes} {record : Record}
    (h : decode checksum bytes = .ok (record, rest)) : rest.length + minLength ≤ bytes.length := by
  unfold decode at h
  split at h
  · cases h
  · split at h
    · cases h
    · next heq₁ =>
      have h₁ := length_of_takeNumber? heq₁
      split at h
      · cases h
      · next heq₂ =>
        have h₂ := length_of_takeNumber? heq₂
        split at h
        · cases h
        · next heq₃ =>
          have h₃ := length_of_takeWords heq₃
          simp only at h
          split at h
          · cases h
          · split at h
            · cases h
              simp only [List.length_drop, List.length_take, minLength] at *
              omega
            · cases h

end Record

end RingStore
