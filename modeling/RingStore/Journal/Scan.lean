import RingStore.Journal.Record

/-!
# Reading a journal

The content of a journal is read record by record. It ends well when nothing is left; a crash in
the middle of an append, or damage, leaves a tail in which no record can be read. The *readable
part* is all that comes before the tail.

## Main definitions

* `Journal.Scan`: the records of the readable part and the unreadable tail.
* `Journal.scan`: reading a content.
-/

namespace RingStore.Journal

/-- What is found in the content of a journal. -/
structure Scan where
  /-- The records of the readable part, in order. -/
  records : List Record
  /-- The bytes after the readable part; no record starts there. -/
  tail : Bytes

/-- Reads on after the records already read, which are given latest first. -/
def scanOnto (checksum : Bytes → UInt64) (read : List Record) (bytes : Bytes) : Scan :=
  match h : Record.decode checksum bytes with
  | .error _ => ⟨read.reverse, bytes⟩
  | .ok (record, rest) =>
    have := Record.length_of_decode h
    scanOnto checksum (record :: read) rest
termination_by bytes.length
decreasing_by
  simp only [Record.minLength] at this
  omega

/-- Reads the content of a journal. -/
def scan (checksum : Bytes → UInt64) (content : Bytes) : Scan :=
  scanOnto checksum [] content

/-- The length of the readable part of a content. -/
def readableLength (checksum : Bytes → UInt64) (content : Bytes) : Nat :=
  content.length - (scan checksum content).tail.length

end RingStore.Journal
