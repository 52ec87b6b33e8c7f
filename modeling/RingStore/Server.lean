import RingStore.Connection
import RingStore.Journal.Recovery

/-!
# Servers

A server gives every client that connects a *task* of its own. The tasks, the loop that accepts
clients and the journal's recorder advance by single events, in any order, around one node.

A shutdown is cooperative. Once it is signalled no task takes in more bytes, but each one answers
every whole request that it has received. The accept loop ends when it sees the signal. When every
task has ended, the server has the recorder write what is left in its queue, and then it stops.

An event that cannot happen in a state leaves the state as it is, so that every list of events is
a run of the server.

## Main definitions

* `ClientTask`: one client's task.
* `Server`, `Server.Event`: a server and what can happen to it.
* `Server.step`, `Server.run`: what one event and a list of events do.
-/

namespace RingStore

/-- A node with a journal as a service. -/
def JournaledNode.serve : Service JournaledNode := fun journaled session line =>
  let answer := journaled.exec session line
  ⟨answer.state, answer.session, answer.reply⟩

/-- Where a task is in its loop. -/
inductive TaskPhase where
  /-- It looks for a whole request among the bytes received. -/
  | looking
  /-- It has a reply to send. After a last reply it ends with a failure. -/
  | replying (reply : Value) (last : Option Failure)
  /-- It waits for its client to send more. -/
  | waiting
  /-- It has ended, with a failure if there was one. -/
  | ended (failure : Option Failure)

/-- The task of one client. -/
structure ClientTask where
  /-- The client's session. -/
  session : Session
  /-- Bytes received and not yet answered. -/
  buffer : Bytes
  /-- All bytes sent to the client. -/
  sent : Bytes
  /-- Where the task is in its loop. -/
  phase : TaskPhase

namespace ClientTask

variable {σ : Type}

/-- The task of a client that has just connected. -/
def start : ClientTask :=
  ⟨.start, [], [], .looking⟩

/-- The task is over. -/
def hasEnded (task : ClientTask) : Bool :=
  match task.phase with
  | .ended _ => true
  | _ => false

/-- The task after its end. -/
def finish (task : ClientTask) (failure : Option Failure) : ClientTask :=
  { task with phase := .ended failure }

/-- The task with a reply to send. -/
def replyWith (task : ClientTask) (reply : Value) (last : Option Failure) : ClientTask :=
  { task with phase := .replying reply last }

/-- Looks for a whole request and executes it. Malformed bytes are dropped together with
everything received after them. -/
def answer (service : Service σ) (state : σ) (task : ClientTask) : ClientTask × σ :=
  match task.phase with
  | .looking =>
    match Wire.read task.buffer with
    | .incomplete => ({ task with phase := .waiting }, state)
    | .malformed reason =>
      (replyWith { task with buffer := [] } (Refusal.protocol reason).reply none, state)
    | .done frame rest =>
      let (answered, reply) :=
        (Connection.mk state task.session rest task.sent).answerFrame service frame
      let next := { task with session := answered.session, buffer := rest }
      match reply with
      | some reply => (next.replyWith reply none, answered.state)
      | none => (next, answered.state)
  | _ => (task, state)

/-- The reply that the task has to send reaches the client. -/
def reply (task : ClientTask) : ClientTask :=
  match task.phase with
  | .replying reply last =>
    let told := { task with sent := task.sent ++ reply.encode }
    match last with
    | some failure => told.finish (some failure)
    | none => { told with phase := .looking }
  | _ => task

/-- The reply that the task has to send is lost, which ends the task. -/
def loseReply (task : ClientTask) (failure : Failure) : ClientTask :=
  match task.phase with
  | .replying _ _ => task.finish (some failure)
  | _ => task

/-- Takes in what a read gave; an empty chunk is the end of the stream. -/
def receive (task : ClientTask) (chunk : Bytes) : ClientTask :=
  match task.phase with
  | .waiting =>
    let buffer := task.buffer ++ chunk
    if Connection.usualQueryBuffer < buffer.length then
      replyWith { task with buffer := [] } Refusal.queryTooLong.reply
        (some Connection.bufferExceeded)
    else if chunk = [] then
      task.finish (if buffer = [] then none else some Connection.resetByPeer)
    else { task with buffer, phase := .looking }
  | _ => task

/-- A read fails, which ends the task. -/
def failRead (task : ClientTask) (failure : Failure) : ClientTask :=
  match task.phase with
  | .waiting => task.finish (some failure)
  | _ => task

/-- A task that waits for its client ends without a failure. -/
def leave (task : ClientTask) : ClientTask :=
  match task.phase with
  | .waiting => task.finish none
  | _ => task

end ClientTask

/-- How far a server is in its life. -/
inductive ServerStage where
  /-- It accepts clients. -/
  | accepting
  /-- It accepts no more clients and waits until every task has ended. -/
  | draining
  /-- It waits until the recorder has ended. -/
  | closing
  /-- It is over. -/
  | stopped
  deriving DecidableEq

/-- A node with a journal and the tasks of its clients. -/
structure Server where
  /-- The node with its journal. -/
  journaled : JournaledNode
  /-- The tasks of all clients that were accepted, oldest first. -/
  tasks : List ClientTask
  /-- A shutdown is signalled. -/
  signalled : Bool
  /-- How far the server is in its life. -/
  stage : ServerStage

namespace Server

/-- A server to which no client has connected yet. -/
def start (journaled : JournaledNode) : Server :=
  ⟨journaled, [], false, .accepting⟩

/-- What can happen to a server. Tasks are named by their position. -/
inductive Event where
  /-- A client connects. -/
  | accept
  /-- A task looks for a whole request and executes it. -/
  | answer (task : Nat)
  /-- A task's reply reaches its client. -/
  | reply (task : Nat)
  /-- A task's reply is lost, or does not reach its client in the time that a shutdown leaves. -/
  | loseReply (task : Nat) (failure : Failure)
  /-- A task takes in what a read gave. -/
  | receive (task : Nat) (chunk : Bytes)
  /-- A task's read fails. -/
  | failRead (task : Nat) (failure : Failure)
  /-- A task that waits for its client sees the signal. -/
  | leave (task : Nat)
  /-- A shutdown is signalled. -/
  | signal
  /-- The accept loop sees the signal. -/
  | stopAccepting
  /-- The recorder takes a step, on a file that may fail. -/
  | record (failures : Journal.FileFailures) (glance : Journal.Recorder.Glance)
  /-- The server, all tasks having ended, tells the recorder to end. -/
  | close
  /-- The server, the recorder having ended, stops. -/
  | stop

/-- Which operations on the journal's file fail meanwhile. -/
def Event.failures : Event → Journal.FileFailures
  | .record failures _ => failures
  | _ => .none

/-- Every task has ended. -/
def isIdle (server : Server) : Bool :=
  server.tasks.all ClientTask.hasEnded

/-- The recorder has ended, or there is none. -/
def recorderEnded (server : Server) : Bool :=
  match server.journaled.recorder with
  | some recorder => recorder.phase = .stopped
  | none => true

/-- The server with its recorder changed, if it has one. -/
def changeRecorder (server : Server) (change : Journal.Recorder → Journal.Recorder) : Server :=
  { server with journaled :=
      { server.journaled with recorder := server.journaled.recorder.map change } }

/-- The server with one task changed. -/
def changeTask (server : Server) (index : Nat) (change : ClientTask → ClientTask) : Server :=
  { server with tasks := server.tasks.modify index change }

/-- A task looks for a whole request and executes it. -/
def answer (server : Server) (index : Nat) : Server :=
  match server.tasks[index]? with
  | some task =>
    let (answered, journaled) := task.answer JournaledNode.serve server.journaled
    { server with journaled, tasks := server.tasks.set index answered }
  | none => server

/-- What one event does. -/
def step (server : Server) : Event → Server
  | .accept =>
    if server.stage = .accepting then { server with tasks := server.tasks ++ [.start] } else server
  | .answer task => server.answer task
  | .reply task => server.changeTask task ClientTask.reply
  | .loseReply task failure => server.changeTask task fun task => task.loseReply failure
  | .receive task chunk =>
    if server.signalled then server else server.changeTask task fun task => task.receive chunk
  | .failRead task failure =>
    if server.signalled then server else server.changeTask task fun task => task.failRead failure
  | .leave task => if server.signalled then server.changeTask task ClientTask.leave else server
  | .signal => { server with signalled := true }
  | .stopAccepting =>
    if server.signalled ∧ server.stage = .accepting then { server with stage := .draining }
    else server
  | .record failures glance =>
    server.changeRecorder fun recorder => recorder.stepOn failures journalChecksum glance
  | .close =>
    if server.stage = .draining ∧ server.isIdle then
      { server.changeRecorder fun recorder => recorder.send .shutdown with stage := .closing }
    else server
  | .stop =>
    if server.stage = .closing ∧ server.recorderEnded then { server with stage := .stopped }
    else server

/-- What events do one after the other. -/
def run (server : Server) (events : List Event) : Server :=
  events.foldl step server

end Server

end RingStore
