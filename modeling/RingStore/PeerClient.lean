import RingStore.Failure
import RingStore.Wire.Reader

/-!
# Clients of a peer

A member asks another member over a connection of its own. One request is under way at a time: the
client writes a command line and takes the next value that arrives for the reply. A chunk is read
only when the bytes already received hold no reply.

## Main definitions

* `PeerStream`: what the other side sends and takes.
* `PeerClient.send`: one request and its reply.
-/

namespace RingStore

/-- What a stream gives when nothing is left to read. -/
inductive StreamEnd where
  /-- The other side has closed the stream. -/
  | closed
  /-- Reading fails. -/
  | failed (failure : Failure)
  /-- Nothing comes. -/
  | quiet

/-- The other side of a connection, as far as it is known. -/
structure PeerStream where
  /-- Chunks sent and not yet read, oldest first. -/
  incoming : List Bytes
  /-- What comes after them. -/
  ending : StreamEnd
  /-- The failure with which every write is lost, if the other side takes none. -/
  refusesWrites : Option Failure

/-- A client over a connection to a peer. -/
structure PeerClient where
  /-- The peer's address. -/
  address : String
  /-- Bytes received that belong to no reply yet. -/
  buffer : Bytes
  /-- The other side. -/
  stream : PeerStream

/-- What one request does. -/
structure Sent where
  /-- The client afterwards. -/
  client : PeerClient
  /-- The bytes written. -/
  written : Bytes
  /-- The reply. -/
  result : Except Failure Value

namespace PeerClient

/-- A client over which nothing has gone yet. -/
def ofStream (address : String) (stream : PeerStream) : PeerClient :=
  ⟨address, [], stream⟩

/-- The peer closed the connection where a reply was expected. -/
def closedByPeer : Failure :=
  ⟨.unexpectedEof, "peer closed the connection"⟩

/-- The peer did not reply in time. -/
def replyTimedOut : Failure :=
  ⟨.timedOut, "peer reply timed out"⟩

/-- The failure of a reader that needs more than a stream holds. -/
def failureAt : StreamEnd → Failure
  | .closed => closedByPeer
  | .failed failure => failure
  | .quiet => replyTimedOut

/-- The next value that arrives, with the bytes received after it and the chunks not yet read. -/
def awaitReply (ending : StreamEnd) (buffer : Bytes) (incoming : List Bytes) :
    Except Failure Value × Bytes × List Bytes :=
  match Wire.read buffer with
  | .done reply rest => (.ok reply, rest, incoming)
  | .malformed reason => (.error ⟨.invalidData, reason.message⟩, buffer, incoming)
  | .incomplete =>
    match incoming with
    | [] => (.error (failureAt ending), buffer, [])
    | chunk :: rest => awaitReply ending (buffer ++ chunk) rest

/-- Waits for the reply to a request that has been written. -/
def receive (client : PeerClient) : PeerClient × Except Failure Value :=
  let (result, buffer, incoming) :=
    awaitReply client.stream.ending client.buffer client.stream.incoming
  ({ client with buffer, stream := { client.stream with incoming } }, result)

/-- Sends a command line and waits for its reply. -/
def send (client : PeerClient) (line : CommandLine) : Sent :=
  match client.stream.refusesWrites with
  | some failure => ⟨client, [], .error failure⟩
  | none =>
    let (received, result) := client.receive
    ⟨received, encodeCommandLine line, result⟩

end PeerClient

end RingStore
