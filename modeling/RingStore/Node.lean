import RingStore.Command.Catalogue
import RingStore.Database

/-!
# Nodes with several databases

A node holds databases numbered from zero. Each client has a *session*, whose only content is the
number of the database it has selected; `SELECT` is the one command that the node itself runs.
A command that faults is answered by a general error, and the node goes on.

## Main definitions

* `Session`: what a client has selected.
* `Node.exec`: executing a command line for a session.
-/

namespace RingStore

/-- What a client has selected. -/
structure Session where
  /-- The number of the selected database. -/
  database : Nat
  deriving DecidableEq, Inhabited

namespace Session

/-- The session of a client that has selected nothing yet. -/
def start : Session :=
  ⟨0⟩

end Session

/-- Databases under numbers from zero, with the commands that run on them. -/
structure Node where
  /-- The commands that clients can call. -/
  registry : Registry
  /-- The databases. -/
  databases : Array Database

/-- What executing a command line for a session does. `state` is what the line was executed on. -/
structure Answer (σ : Type) where
  /-- What the line was executed on, afterwards. -/
  state : σ
  /-- The session afterwards. -/
  session : Session
  /-- What is handed to the journal, in order. -/
  writes : List Write
  /-- How the command ends. -/
  outcome : Outcome

/-- The reply given for an outcome: a fault is answered by a general error. -/
def Outcome.toReply : Outcome → Value
  | reply value => value
  | fault => Refusal.fault.reply

/-- The reply to a command line. -/
def Answer.reply {σ : Type} (answer : Answer σ) : Value :=
  answer.outcome.toReply

namespace Node

/-- The number of databases of a node for which none is configured. -/
def usualDatabases : Nat := 16

/-- A node without keys, for a configured number of databases; zero stands for the usual number. -/
def empty [Machine] (registry : Registry) (databases : Nat) : Node where
  registry := registry
  databases :=
    let count := if databases = 0 then usualDatabases else databases
    (Array.range count).map Database.empty

/-- The number of databases. -/
def count (node : Node) : Nat :=
  node.databases.size

/-- The node whose databases hand their changes to a journal. -/
def journaled (node : Node) : Node :=
  { node with databases := node.databases.map fun database => { database with journaled := true } }

/-- A reply that changes nothing. -/
def answer (node : Node) (session : Session) (value : Value) : Answer Node :=
  ⟨node, session, [], .reply value⟩

/-- A refusal, which changes nothing. -/
def refuse (node : Node) (session : Session) (refusal : Refusal) : Answer Node :=
  node.answer session refusal.reply

/-- Selects a database for the session. -/
def select (node : Node) (session : Session) (argument : Bytes) : Answer Node :=
  match Decimal.uint64? argument with
  | none => node.refuse session .invalidIndex
  | some index =>
    if index < node.count then node.answer ⟨index⟩ .ok
    else node.refuse session .indexOutOfRange

/-- The bytes name the command that selects a database. -/
def isSelect (name : Bytes) : Bool :=
  Bytes.equalsIgnoringAsciiCase name (Text.toBytes "select")

/-- Executes a command line on the session's database. -/
def execSelected (node : Node) (session : Session) (line : CommandLine) : Answer Node :=
  if h : session.database < node.databases.size then
    let execution := node.databases[session.database].exec node.registry line
    ⟨{ node with databases := node.databases.set session.database execution.database },
      session, execution.writes, execution.outcome⟩
  else node.refuse session .indexOutOfRange

/-- Executes a command line for a session. -/
def exec (node : Node) (session : Session) (line : CommandLine) : Answer Node :=
  match line with
  | [] => node.refuse session .emptyCommand
  | name :: arguments =>
    if isSelect name then
      match arguments with
      | [argument] => node.select session argument
      | _ => node.refuse session (.wrongArity "select")
    else node.execSelected session line

/-- The numbers of the databases with keys, each with the number of its keys. -/
def sizes (node : Node) : List (Nat × Nat) :=
  (node.databases.toList.map fun database => (database.index, database.keyspace.size)).filter
    fun entry => entry.2 ≠ 0

end Node

end RingStore
