import RingStore.Failure
import RingStore.Node

/-!
# Client connections

A connection reads what its client sends in chunks, answers every whole request that has arrived,
in order, and keeps the rest until more arrives. What executes the requests is a *service* on some
state: a node, a node with a journal, or a whole cluster.

## Main definitions

* `Service`: what executes command lines.
* `Connection.answerFrame`: the answer to one request.
* `Connection.drain`: answering every whole request that has arrived.
* `Connection.receive`: taking in one chunk.
* `Connection.handle`: a whole connection, from its first chunk to its end.
-/

namespace RingStore

/-- What executing a command line gives back to a connection. -/
structure Served (σ : Type) where
  /-- The service's state afterwards. -/
  state : σ
  /-- The session afterwards. -/
  session : Session
  /-- The reply. -/
  reply : Value

/-- What executes command lines for sessions. -/
abbrev Service (σ : Type) :=
  σ → Session → CommandLine → Served σ

/-- A node as a service. -/
def Node.serve : Service Node := fun node session line =>
  let answer := node.exec session line
  ⟨answer.state, answer.session, answer.reply⟩

/-- A connection together with the state of the service behind it. -/
structure Connection (σ : Type) where
  /-- The service's state. -/
  state : σ
  /-- The client's session. -/
  session : Session
  /-- Bytes received and not yet answered. -/
  buffer : Bytes
  /-- All bytes sent to the client. -/
  sent : Bytes

/-- How a connection is run. A reply is taken to reach the client or to be lost at once: a client
that takes replies takes each of them within the ten seconds that a connection grants once a
shutdown is signalled. -/
structure ConnectionOptions where
  /-- The greatest number of bytes that may be received without completing a request. -/
  maxQueryBuffer : Nat
  /-- The failure with which every reply sent to the client is lost, if the client takes none. -/
  refusesReplies : Option Failure

namespace Connection

variable {σ : Type}

/-- The usual bound on bytes received without completing a request, 1 GiB. -/
def usualQueryBuffer : Nat := 1073741824

/-- A connection over which nothing has gone yet. -/
def start (state : σ) : Connection σ :=
  ⟨state, .start, [], []⟩

/-- The client went away in the middle of a request. -/
def resetByPeer : Failure :=
  ⟨.connectionReset, "connection reset by peer"⟩

/-- Too many bytes were received without completing a request. -/
def bufferExceeded : Failure :=
  ⟨.invalidData, "query buffer limit exceeded"⟩

/-- The connection with other bytes waiting to be answered. -/
def withBuffer (connection : Connection σ) (buffer : Bytes) : Connection σ :=
  { connection with buffer }

/-- The connection after a reply has reached the client. -/
def tell (connection : Connection σ) (reply : Value) : Connection σ :=
  { connection with sent := connection.sent ++ reply.encode }

/-- Sends a reply; the failure tells that it was lost. How long it takes to reach the client is not
looked at. -/
def send (options : ConnectionOptions) (connection : Connection σ) (reply : Value) :
    Connection σ × Option Failure :=
  match options.refusesReplies with
  | some failure => (connection, some failure)
  | none => (connection.tell reply, none)

/-- Executes one request and gives the reply to be sent. An empty array is passed over, and any
other value that is no command line is refused without executing anything. -/
def answerFrame (service : Service σ) (connection : Connection σ) (frame : Value) :
    Connection σ × Option Value :=
  match frame.commandLine? with
  | some line =>
    let served := service connection.state connection.session line
    ({ connection with state := served.state, session := served.session },
      match served.reply with
      | .silent => none
      | reply => some reply)
  | none =>
    match frame with
    | .array [] => (connection, none)
    | _ => (connection, some Refusal.notACommand.reply)

theorem buffer_answerFrame (service : Service σ) (connection : Connection σ) (frame : Value) :
    (connection.answerFrame service frame).1.buffer = connection.buffer := by
  unfold answerFrame
  repeat' split
  all_goals rfl

/-- Answering the first request that has arrived leaves fewer bytes to answer. -/
theorem length_buffer_lt {service : Service σ} {connection answered : Connection σ} {frame : Value}
    {rest : Bytes} {reply : Option Value} (hread : Wire.read connection.buffer = .done frame rest)
    (hanswer : (connection.withBuffer rest).answerFrame service frame = (answered, reply)) :
    answered.buffer.length < connection.buffer.length := by
  have hbuffer := buffer_answerFrame service (connection.withBuffer rest) frame
  rw [hanswer] at hbuffer
  simp only [withBuffer] at hbuffer
  rw [hbuffer]
  exact Wire.length_lt_of_read hread

/-- Answers every whole request that has arrived. Malformed bytes are answered by an error and
dropped together with everything received after them. The failure tells that a reply was lost. -/
def drain (service : Service σ) (options : ConnectionOptions) (connection : Connection σ) :
    Connection σ × Option Failure :=
  match hread : Wire.read connection.buffer with
  | .incomplete => (connection, none)
  | .malformed reason => (connection.withBuffer []).send options (Refusal.protocol reason).reply
  | .done frame rest =>
    match hanswer : (connection.withBuffer rest).answerFrame service frame with
    | (answered, none) =>
      have := length_buffer_lt hread hanswer
      answered.drain service options
    | (answered, some reply) =>
      match options.refusesReplies with
      | some failure => (answered, some failure)
      | none =>
        have := length_buffer_lt hread hanswer
        (answered.tell reply).drain service options
termination_by connection.buffer.length

/-- Takes in what one read gave. A connection over its bound is told so and ends. -/
def receive (options : ConnectionOptions) (connection : Connection σ) (chunk : Bytes) :
    Connection σ × Option Failure :=
  let buffer := connection.buffer ++ chunk
  if options.maxQueryBuffer < buffer.length then
    match (connection.withBuffer []).send options Refusal.queryTooLong.reply with
    | (told, some failure) => (told, some failure)
    | (told, none) => (told, some bufferExceeded)
  else (connection.withBuffer buffer, none)

/-- The end of a stream: it is a failure if a request is left incomplete. -/
def finish (options : ConnectionOptions) (connection : Connection σ) :
    Connection σ × Option Failure :=
  match connection.receive options [] with
  | (ended, some failure) => (ended, some failure)
  | (ended, none) => (ended, if ended.buffer = [] then none else some resetByPeer)

/-- Runs a connection over what its reads give: chunks, then the end of the stream or a failure.
`untilShutdown` counts the chunks after which a shutdown is signalled, if one is; what has arrived
by then is still answered. -/
def handle (service : Service σ) (options : ConnectionOptions) (readFails : Option Failure)
    (connection : Connection σ) (untilShutdown : Option Nat) (chunks : List Bytes) :
    Connection σ × Option Failure :=
  match connection.drain service options with
  | (drained, some failure) => (drained, some failure)
  | (drained, none) =>
    if untilShutdown = some 0 then (drained, none)
    else
      match chunks with
      | [] =>
        match readFails with
        | some failure => (drained, some failure)
        | none => drained.finish options
      | chunk :: rest =>
        match drained.receive options chunk with
        | (received, some failure) => (received, some failure)
        | (received, none) =>
          received.handle service options readFails (untilShutdown.map (· - 1)) rest

end Connection

end RingStore
