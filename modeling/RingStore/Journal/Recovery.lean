import RingStore.Journal.Recorder
import RingStore.Node

/-!
# Nodes with a journal

A node with a journal is opened on what lies at the journal's path. The readable records are
executed again, each on the database it was logged for; those of databases that the node does not
have stay in the file and are passed over. An unreadable tail is cut off, so that new records
follow the last readable one. Only then are the databases joined to the recorder, so executing
records again appends nothing.

## Main definitions

* `Node.replay`: executing records again.
* `JournaledNode.openAt`, `JournaledNode.exec`, `JournaledNode.close`: the life of a node with a
  journal.
-/

namespace RingStore

namespace Node

/-- Executes a record again on the database it was logged for, if the node has it. -/
def replayOne (node : Node) (record : Record) : Node :=
  if record.database.toNat < node.count then
    (node.exec ⟨record.database.toNat⟩ record.line).state
  else node

/-- Executes records again in order. -/
def replay (node : Node) (records : List Record) : Node :=
  records.foldl replayOne node

end Node

/-- How a node keeps its journal. -/
structure JournalOptions where
  /-- There is a journal at all. -/
  enabled : Bool
  /-- When commits wait for the storage device. -/
  policy : Journal.SyncPolicy

/-- A node together with the recorder of its journal, if it has one. -/
structure JournaledNode where
  /-- The node. -/
  node : Node
  /-- The recorder that the node's databases are joined to. -/
  recorder : Option Journal.Recorder

namespace JournaledNode

open Journal

/-- What a node finds and leaves at the journal's path when it is opened: the records to execute
again, and the place without its unreadable tail. -/
def recover (place : Place) : Except Failure (List Record × Place) :=
  if place.isOccupied then
    place.read.map fun content =>
      let found := scan journalChecksum content
      (found.records, if found.tail = [] then place
        else .file (Place.resize (readableLength journalChecksum content) content))
  else .ok ([], place)

/-- Opens a node of the catalogue on what lies at the journal's path. -/
def openAt [Machine] (databases : Nat) (options : JournalOptions) (place : Place) :
    Except Failure JournaledNode :=
  let node := Node.empty Catalogue.registry databases
  if options.enabled then do
    let (records, place) ← recover place
    let writer ← Writer.ofPlace options.policy place
    return ⟨(node.replay records).journaled, some (.start writer)⟩
  else .ok ⟨node, none⟩

/-- Executes a command line for a session and puts what it logs into the recorder's queue. -/
def exec (journaled : JournaledNode) (session : Session) (line : CommandLine) :
    Answer JournaledNode :=
  let answer := journaled.node.exec session line
  ⟨⟨answer.state, journaled.recorder.map fun recorder =>
      (answer.writes.map Record.ofWrite).foldl Recorder.enqueue recorder⟩,
    answer.session, answer.writes, answer.outcome⟩

/-- Ends the recorder after everything that was logged. -/
def close (journaled : JournaledNode) : JournaledNode :=
  { journaled with recorder := journaled.recorder.map (Recorder.close journalChecksum) }

/-- What lies at the journal's path, where `before` lay before the node was opened. -/
def place (journaled : JournaledNode) (before : Place) : Place :=
  match journaled.recorder with
  | some recorder => .file recorder.writer.content
  | none => before

end JournaledNode

end RingStore
