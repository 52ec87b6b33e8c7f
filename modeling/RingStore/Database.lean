import RingStore.Command.Registry

/-!
# One database

A database is a keyspace with a number. It checks a command line against the registry and the
command's arity before it runs the command, and it hands the lines that the command logs to the
journal, if it has one.

## Main definitions

* `Write`: a logged command line together with the number of its database.
* `Database.exec`: executing one command line.
-/

namespace RingStore

/-- A change to be made durable: a command line to be repeated on a database. -/
structure Write where
  /-- The number of the database. -/
  database : Nat
  /-- The command line. -/
  line : CommandLine
  deriving DecidableEq, Inhabited

/-- A keyspace with its number. -/
structure Database where
  /-- The number by which clients select the database. -/
  index : Nat
  /-- What is stored. -/
  keyspace : Keyspace
  /-- Changes are handed to a journal. -/
  journaled : Bool
  deriving Inhabited

namespace Database

/-- A database without keys and without a journal. -/
def empty [Machine] (index : Nat) : Database :=
  ⟨index, .empty Keyspace.usualStripes, false⟩

/-- What is handed to the journal for a line to be made durable. -/
def record (database : Database) (line : CommandLine) : List Write :=
  if database.journaled then [⟨database.index, line⟩] else []

/-- What executing a command line on a database does. -/
structure Execution where
  /-- The database afterwards. -/
  database : Database
  /-- What is handed to the journal, in order. -/
  writes : List Write
  /-- How the command ends. -/
  outcome : Outcome

/-- A refusal, which changes nothing. -/
def refuse (database : Database) (refusal : Refusal) : Execution :=
  ⟨database, [], .reply refusal.reply⟩

/-- Runs a command, whatever the number of arguments. -/
def run (database : Database) (command : Command) (arguments : List Bytes) : Execution :=
  let effect := command.run database.keyspace arguments
  ⟨{ database with keyspace := effect.keyspace }, effect.logged.flatMap database.record,
    effect.outcome⟩

/-- Executes a command line: the first command whose name is the line's in small letters. -/
def exec (registry : Registry) (database : Database) : CommandLine → Execution
  | [] => database.refuse .emptyCommand
  | name :: arguments =>
    let small := Text.lowercase (Text.ofBytes name)
    match registry.find? small with
    | none => database.refuse (.unknownCommand small)
    | some command =>
      if command.arity.allows arguments.length then database.run command arguments
      else database.refuse (.wrongArity small)

end Database

end RingStore
