import RingStore.Journal.File

/-!
# The recorder

Databases do not wait for the journal's file. They put what is to be written into a queue, from
which a *recorder* that runs beside them takes it in order. The recorder takes what it finds in
batches and commits once for each batch. Closing puts a last message into the queue and waits until
the recorder has taken it; nothing that comes after it is written.

The recorder advances by single steps, so that any interleaving with those who fill the queue is a
list of steps and additions.

## Main definitions

* `Recorder`: the queue, the recorder's position in its loop, and the writer.
* `Recorder.stepOn`, `Recorder.step`: one step of the recorder, on a file that may fail and on one
  that does not.
* `Recorder.enqueue`, `Recorder.close`: what databases and the node do.
-/

namespace RingStore.Journal

/-- What is put into the queue. -/
inductive Message where
  /-- A record to be written. -/
  | record (record : Record)
  /-- No more will be written. -/
  | shutdown
  deriving DecidableEq

/-- Where the recorder is in its loop. -/
inductive Phase where
  /-- It waits for the first message of a batch. -/
  | waiting
  /-- It has taken a message, after writing some records of the same batch. -/
  | handling (written : Nat) (message : Message)
  /-- It has ended. -/
  | stopped
  deriving DecidableEq

/-- The queue, the recorder's position in its loop, and the writer. -/
structure Recorder where
  /-- The open file. -/
  writer : Writer
  /-- Messages not yet taken, oldest first. -/
  queue : List Message
  /-- The recorder's position in its loop. -/
  phase : Phase

namespace Recorder

/-- The greatest number of records in one batch. -/
def maxBatch : Nat := 1024

/-- A recorder that starts on an open file. -/
def start (writer : Writer) : Recorder :=
  ⟨writer, [], .waiting⟩

/-- What the recorder sees of its surroundings during one step. -/
structure Glance where
  /-- The queue gives up its oldest message, if it has one. -/
  queueAnswers : Bool
  /-- A second has passed without waiting for the storage device. -/
  secondPassed : Bool

/-- The glance of a recorder that nothing delays. -/
def Glance.prompt : Glance :=
  ⟨true, false⟩

/-- The oldest message, if the queue has one and gives it up. -/
def take? (recorder : Recorder) (glance : Glance) : Option (Message × List Message) :=
  match recorder.queue with
  | message :: rest => if glance.queueAnswers then some (message, rest) else none
  | [] => none

/-- Ends a batch. -/
def endBatch (recorder : Recorder) (failures : FileFailures) (glance : Glance) : Recorder :=
  { recorder with
    writer := recorder.writer.tryCommit glance.secondPassed failures.commit
    phase := .waiting }

/-- Takes a message into a batch. -/
def goOn (recorder : Recorder) (written : Nat) (message : Message) (rest : List Message) :
    Recorder :=
  { recorder with queue := rest, phase := .handling written message }

/-- One step of the recorder, on a file that may fail. Waiting in vain commits too. A failure is
passed over. -/
def stepOn (failures : FileFailures) (checksum : Bytes → UInt64) (recorder : Recorder)
    (glance : Glance) : Recorder :=
  match recorder.phase with
  | .waiting =>
    match recorder.take? glance with
    | some (message, rest) => recorder.goOn 0 message rest
    | none => recorder.endBatch failures glance
  | .handling written (.record record) =>
    let wrote :=
      { recorder with writer := recorder.writer.tryWrite checksum record failures.write }
    if written + 1 < maxBatch then
      match recorder.take? glance with
      | some (message, rest) => wrote.goOn (written + 1) message rest
      | none => wrote.endBatch failures glance
    else wrote.endBatch failures glance
  | .handling _ .shutdown =>
    { recorder with
      writer :=
        (recorder.writer.tryCommit glance.secondPassed failures.commit).trySync failures.sync
      phase := .stopped }
  | .stopped => recorder

/-- One step of the recorder on a file that does not fail. -/
def step (checksum : Bytes → UInt64) (recorder : Recorder) (glance : Glance) : Recorder :=
  recorder.stepOn .none checksum glance

/-- Puts a message into the queue; nobody takes it once the recorder has ended. -/
def send (recorder : Recorder) (message : Message) : Recorder :=
  match recorder.phase with
  | .stopped => recorder
  | _ => { recorder with queue := recorder.queue ++ [message] }

/-- Puts a record into the queue. -/
def enqueue (recorder : Recorder) (record : Record) : Recorder :=
  recorder.send (.record record)

/-- How many steps the recorder can take before it waits for a message. -/
def workLeft (recorder : Recorder) : Nat :=
  2 * recorder.queue.length +
    match recorder.phase with
    | .handling _ _ => 1
    | _ => 0

/-- The recorder has ended or waits for a message. -/
def isIdle (recorder : Recorder) : Bool :=
  match recorder.phase, recorder.queue with
  | .stopped, _ => true
  | .waiting, [] => true
  | _, _ => false

theorem workLeft_step (checksum : Bytes → UInt64) {recorder : Recorder}
    (h : recorder.isIdle = false) :
    (recorder.step checksum .prompt).workLeft < recorder.workLeft := by
  obtain ⟨writer, queue, phase⟩ := recorder
  cases phase with
  | stopped => cases h
  | waiting =>
    cases queue with
    | nil => cases h
    | cons message rest =>
      simp [step, stepOn, take?, Glance.prompt, goOn, workLeft]
      omega
  | handling written message =>
    cases message with
    | shutdown => simp [step, stepOn, workLeft]
    | record record =>
      simp only [step, stepOn]
      split
      · cases queue with
        | nil => simp [take?, endBatch, workLeft]
        | cons message rest => simp [take?, Glance.prompt, goOn, workLeft]
      · simp [endBatch, workLeft]

/-- Runs the recorder until it has ended or waits for a message. -/
def run (checksum : Bytes → UInt64) (recorder : Recorder) : Recorder :=
  match h : recorder.isIdle with
  | true => recorder
  | false =>
    have := workLeft_step checksum h
    (recorder.step checksum .prompt).run checksum
termination_by recorder.workLeft

/-- Ends the recorder after everything that is in the queue. -/
def close (checksum : Bytes → UInt64) (recorder : Recorder) : Recorder :=
  (recorder.send .shutdown).run checksum

end Recorder

end RingStore.Journal
