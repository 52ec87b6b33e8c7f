import RingStore.Keyspace
import RingStore.Refusal
import RingStore.Text.Lowercase

/-!
# Commands and their registry

A command takes a keyspace and arguments to a new keyspace, a reply and the command lines that
must be made durable for the change to survive a restart. A command may also *fault*, after
which the change it made so far stays.

Commands are looked up by name without regard to letter case.

## Main definitions

* `Arity`: how many arguments a command takes.
* `Command`, `Effect`: a command and what running it does.
* `Registry`: the commands that can be called, at most one for each name in small letters.
-/

namespace RingStore

/-- How many arguments a command takes, its name not counted. -/
inductive Arity where
  /-- Exactly so many. -/
  | exactly (count : Nat)
  /-- So many or more. -/
  | atLeast (count : Nat)
  deriving DecidableEq

namespace Arity

/-- The arity that a number stands for: `n` for exactly `n`, `-n` for at least `n`. -/
def ofCode : Int → Arity
  | .ofNat count => exactly count
  | .negSucc count => atLeast (count + 1)

/-- The number that stands for an arity. -/
def code : Arity → Int
  | exactly count => count
  | atLeast count => -count

/-- The arity allows so many arguments. -/
def allows : Arity → Nat → Bool
  | exactly count, given => given == count
  | atLeast count, given => count ≤ given

end Arity

/-- How a command ends. -/
inductive Outcome where
  /-- It answers. -/
  | reply (value : Value)
  /-- It stops without an answer. -/
  | fault

/-- What running a command does. -/
structure Effect where
  /-- The keyspace afterwards. -/
  keyspace : Keyspace
  /-- The command lines to be made durable, in order. -/
  logged : List CommandLine
  /-- How the command ends. -/
  outcome : Outcome

namespace Effect

/-- An answer that changes nothing. -/
def answer (keyspace : Keyspace) (value : Value) : Effect :=
  ⟨keyspace, [], .reply value⟩

/-- A refusal, which changes nothing. -/
def refuse (keyspace : Keyspace) (refusal : Refusal) : Effect :=
  answer keyspace refusal.reply

/-- A fault before any change. -/
def fault (keyspace : Keyspace) : Effect :=
  ⟨keyspace, [], .fault⟩

end Effect

/-- A command that clients can call. -/
structure Command where
  /-- The command's own name, in any letter case. -/
  name : String
  /-- How many arguments it takes. -/
  arity : Arity
  /-- It may change the keyspace. -/
  isWrite : Bool
  /-- What it writes depends on what it read, so that no other write may come in between. -/
  isReadModifyWrite : Bool
  /-- Runs the command on a keyspace with arguments. -/
  run : Keyspace → List Bytes → Effect

/-- The commands that can be called. -/
structure Registry where
  /-- The commands under their names in small letters. -/
  commands : List (String × Command)

namespace Registry

/-- The registry without commands. -/
def empty : Registry :=
  ⟨[]⟩

/-- Adds a command; one of the same name in small letters gives way to it. -/
def register (registry : Registry) (command : Command) : Registry :=
  let name := Text.lowercase command.name
  ⟨(name, command) :: registry.commands.filter fun entry => entry.1 ≠ name⟩

/-- Adds commands in order. -/
def registerAll (registry : Registry) (commands : List Command) : Registry :=
  commands.foldl register registry

/-- The command of a name, in any letter case. -/
def find? (registry : Registry) (name : String) : Option Command :=
  let small := Text.lowercase name
  (registry.commands.find? fun entry => entry.1 = small).map Prod.snd

end Registry

end RingStore
