import RingStore.Failure
import RingStore.Journal.Scan

/-!
# The journal's file

What lies at the path of a journal, the ways in which it is opened and cut, and the writer that
appends records to it. The writer holds back what it was given until it commits. A write or a commit
that fails leaves with the writer what the file has not taken, except for the record that was to be
written.

## Main definitions

* `Journal.Place`: what lies at a path.
* `Journal.SyncPolicy`: when a commit waits for the storage device.
* `Journal.Writer`: appending records to an open file.
* `Journal.FileFailures`: which operations on the file fail.
-/

namespace RingStore.Journal

/-- What lies at the path of a journal. -/
inductive Place where
  /-- No file yet, in a directory that exists. -/
  | vacant
  /-- A file with its content. -/
  | file (content : Bytes)
  /-- A directory. -/
  | directory
  /-- Nothing, and not even the directory that would hold the file. -/
  | nowhere
  deriving DecidableEq

namespace Place

/-- There is no such file. -/
def missing : Failure :=
  ⟨.notFound, "No such file or directory (os error 2)"⟩

/-- A directory stands where a file was expected. -/
def notAFile : Failure :=
  ⟨.isDirectory, "Is a directory (os error 21)"⟩

/-- A position in a file would not be a signed number of 64 bits. -/
def offsetOutOfRange : Failure :=
  ⟨.invalidInput, "out of range integral type conversion attempted"⟩

/-- A file would be longer than the storage device can keep. -/
def tooLarge : Failure :=
  ⟨.fileTooLarge, "File too large (os error 27)"⟩

/-- The greatest position in a file. -/
def maxOffset : Nat := Int64.maxValue.toNatClampNeg

/-- The greatest length of a file, a little under 16 TiB. -/
def maxLength : Nat := 17592186040320

/-- Something lies at the path. -/
def isOccupied : Place → Bool
  | file _ => true
  | directory => true
  | vacant => false
  | nowhere => false

/-- The content of the file. -/
def read : Place → Except Failure Bytes
  | file content => .ok content
  | directory => .error notAFile
  | vacant => .error missing
  | nowhere => .error missing

/-- The content of the file after opening it to append, which makes a file where there is none. -/
def openToAppend : Place → Except Failure Bytes
  | file content => .ok content
  | vacant => .ok []
  | directory => .error notAFile
  | nowhere => .error missing

/-- Content cut to a length, or lengthened to it with zeros. -/
def resize (length : Nat) (content : Bytes) : Bytes :=
  content.take length ++ List.replicate (length - content.length) 0

/-- Cuts or lengthens the file. -/
def truncate (length : Nat) (place : Place) : Except Failure Place :=
  place.read.bind fun content =>
    if maxOffset < length then .error offsetOutOfRange
    else if maxLength < length then .error tooLarge
    else .ok (file (resize length content))

end Place

/-- When a commit waits until the storage device holds everything. -/
inductive SyncPolicy where
  /-- At every commit. -/
  | always
  /-- At the first commit after a second without waiting. -/
  | everySecond
  /-- Never. -/
  | no
  deriving DecidableEq, Inhabited

/-- Which operations on the file fail during one step of a recorder. An operation that fails does so
after the file has taken some bytes. -/
structure FileFailures where
  /-- Writing the record. -/
  write : Option Nat
  /-- Committing at the end of a batch. -/
  commit : Option Nat
  /-- The last attempts at the end of the recorder. -/
  sync : Option Nat
  deriving DecidableEq

/-- No operation fails. -/
def FileFailures.none : FileFailures :=
  ⟨Option.none, Option.none, Option.none⟩

/-- A file open for appending records. -/
structure Writer where
  /-- When a commit waits for the storage device. -/
  policy : SyncPolicy
  /-- What the file holds. -/
  content : Bytes
  /-- What was written since the last commit. -/
  pending : Bytes
  /-- How much of the content the storage device is known to hold. -/
  synced : Nat

namespace Writer

/-- A writer that has written nothing yet, on a file with a content. -/
def ofContent (policy : SyncPolicy) (content : Bytes) : Writer :=
  ⟨policy, content, [], 0⟩

/-- Opens the file at a place. -/
def ofPlace (policy : SyncPolicy) (place : Place) : Except Failure Writer :=
  place.openToAppend.map (ofContent policy)

/-- Writes one record. -/
def write (checksum : Bytes → UInt64) (writer : Writer) (record : Record) : Writer :=
  { writer with pending := writer.pending ++ record.encode checksum }

/-- Hands everything written to the file. -/
def flush (writer : Writer) : Writer :=
  { writer with content := writer.content ++ writer.pending, pending := [] }

/-- Hands everything written to the file and waits until the storage device holds it. -/
def sync (writer : Writer) : Writer :=
  let flushed := writer.flush
  { flushed with synced := flushed.content.length }

/-- Hands everything written to the file, and waits for the storage device as the policy asks;
`secondPassed` tells whether a second has passed without waiting. -/
def commit (writer : Writer) (secondPassed : Bool) : Writer :=
  match writer.policy with
  | .always => writer.sync
  | .everySecond => if secondPassed then writer.sync else writer.flush
  | .no => writer.flush

/-- Hands the first bytes of what was written to the file, which takes no more. -/
def hand (writer : Writer) (taken : Nat) : Writer :=
  { writer with
    content := writer.content ++ writer.pending.take taken
    pending := writer.pending.drop taken }

/-- Fails to write one record, after the file has taken some bytes. The record is dropped, and what
was written before it stays as far as the file has not taken it. -/
def failWrite (checksum : Bytes → UInt64) (writer : Writer) (record : Record) (taken : Nat) :
    Writer :=
  { writer with
    content := ((writer.write checksum record).hand taken).content
    pending := (writer.hand taken).pending }

/-- Writes one record unless that fails. -/
def tryWrite (checksum : Bytes → UInt64) (writer : Writer) (record : Record) :
    Option Nat → Writer
  | some taken => writer.failWrite checksum record taken
  | none => writer.write checksum record

/-- Commits unless that fails. -/
def tryCommit (writer : Writer) (secondPassed : Bool) : Option Nat → Writer
  | some taken => writer.hand taken
  | none => writer.commit secondPassed

/-- Waits for the storage device unless that fails. -/
def trySync (writer : Writer) : Option Nat → Writer
  | some taken => writer.hand taken
  | none => writer.sync

/-- Writes records and commits. -/
def append (checksum : Bytes → UInt64) (writer : Writer) (records : List Record) : Writer :=
  (records.foldl (write checksum) writer).commit false

end Writer

end RingStore.Journal
