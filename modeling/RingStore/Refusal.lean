import RingStore.Wire.Reader

/-!
# Refusals

Every reason for which a command line is answered by an error that the store itself words, with
the text of that error.
-/

namespace RingStore

/-- Why a command line is refused. -/
inductive Refusal where
  /-- The command line has no name. -/
  | emptyCommand
  /-- No command has the name. -/
  | unknownCommand (name : String)
  /-- The command does not take that many arguments. -/
  | wrongArity (name : String)
  /-- The key to be renamed does not occur. -/
  | noSuchKey
  /-- The argument of a selection is no index. -/
  | invalidIndex
  /-- There is no database with the index. -/
  | indexOutOfRange
  /-- A command faulted. -/
  | fault
  /-- The bytes received are malformed. -/
  | protocol (reason : Malformed)
  /-- Too many bytes were received without completing a command. -/
  | queryTooLong
  /-- A request is no array of bulk strings. -/
  | notACommand
  /-- The cluster does not route commands of the name. -/
  | notSupported (name : String)
  /-- Two keys that must live together live on different members. -/
  | ownersDiffer
  /-- Commands of the name are not taken from another member. -/
  | notForwardable (name : String)
  /-- There is no such member. -/
  | unknownPeer (peer : String)
  /-- A member could not be asked. -/
  | peerFailed (peer : String) (cause : String)
  /-- Some member did not answer OK. -/
  | memberNotOk
  /-- A member's answer was expected to be a number. -/
  | notACount (owner : String) (reply : Value)

namespace Refusal

/-- The text of the error. -/
def message : Refusal → String
  | emptyCommand => "ERR empty command"
  | unknownCommand name => s!"ERR unknown command '{name}'"
  | wrongArity name => s!"ERR wrong number of arguments for '{name}' command"
  | noSuchKey => "ERR no such key"
  | invalidIndex => "ERR invalid DB index"
  | indexOutOfRange => "ERR DB index is out of range"
  | fault => "ERR unknown"
  | protocol reason => s!"ERR protocol error: {reason.message}"
  | queryTooLong => "ERR max query buffer length exceeded"
  | notACommand => "ERR invalid command format"
  | notSupported name => s!"ERR not supported cmd '{name}'"
  | ownersDiffer =>
    "ERR source and destination keys live on different nodes, use a \x7bhash tag\x7d"
  | notForwardable name => s!"ERR '{name}' cannot be forwarded"
  | unknownPeer peer => s!"ERR unknown peer {peer}"
  | peerFailed peer cause => s!"ERR peer {peer}: {cause}"
  | memberNotOk => "ERR unexpected reply from a member"
  | notACount owner reply => s!"ERR unexpected reply from {owner}: {reply.summary}"

/-- The error as a value. -/
def reply (refusal : Refusal) : Value :=
  .error refusal.message

end Refusal

end RingStore
