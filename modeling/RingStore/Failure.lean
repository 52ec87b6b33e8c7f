/-!
# Failures outside the store

Reading, writing and connecting can fail for reasons that lie with a file or a connection. Such a
failure has a kind, which a program can act on, and a text for a person to read.
-/

namespace RingStore

/-- What kind of thing failed. -/
inductive FailureKind where
  /-- There is no such file. -/
  | notFound
  /-- A directory stands where a file was expected. -/
  | isDirectory
  /-- A file would be longer than files can be. -/
  | fileTooLarge
  /-- Nobody accepts connections at the address. -/
  | connectionRefused
  /-- The address lies in a network that cannot be reached. -/
  | networkUnreachable
  /-- The other side went away in the middle of something. -/
  | connectionReset
  /-- The connection was given up. -/
  | connectionAborted
  /-- The other side takes no more bytes. -/
  | brokenPipe
  /-- An argument makes no sense. -/
  | invalidInput
  /-- What was received makes no sense. -/
  | invalidData
  /-- The stream ended too early. -/
  | unexpectedEof
  /-- Nothing happened in time. -/
  | timedOut
  /-- Anything else. -/
  | other
  deriving DecidableEq, Inhabited

/-- A failure of a file or of a connection. -/
structure Failure where
  /-- What kind of thing failed. -/
  kind : FailureKind
  /-- The failure in words. -/
  message : String
  deriving DecidableEq, Inhabited

end RingStore
