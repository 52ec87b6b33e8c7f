import RingStore.Journal.Recorder
import RingStore.Proofs.Journal.Codec

/-!
# The recorder writes what it was given

At every moment the file, the bytes that the writer holds back and the messages still to be taken
together determine what the file will hold in the end: what the recorder has *promised*. No step of
the recorder changes the promise, whatever the recorder sees while it takes the step; a record put
into the queue extends it by the bytes of that record; and a recorder that has ended has kept it.

## Main definitions

* `Recorder.promised`: what the file will hold once the recorder has ended.
* `Recorder.IsOpen`: no message that ends the recorder has been sent.
* `Recorder.closeAfter`: closing the recorder while it takes any steps of its own.

## Main results

* `promised_step`, `promised_enqueue`: what a step and an addition do to the promise.
* `content_closeAfter`: a closed recorder has written what it had promised.
-/

namespace RingStore.Journal

namespace Writer

variable (checksum : Bytes → UInt64)

/-- Everything that was written: what the file holds and what is held back. -/
def written (writer : Writer) : Bytes :=
  writer.content ++ writer.pending

theorem written_write (writer : Writer) (record : Record) :
    (writer.write checksum record).written = writer.written ++ record.encode checksum :=
  (List.append_assoc _ _ _).symm

theorem written_flush (writer : Writer) : writer.flush.written = writer.written :=
  List.append_nil _

theorem written_sync (writer : Writer) : writer.sync.written = writer.written :=
  written_flush writer

/-- A commit neither adds nor loses anything. -/
theorem written_commit (writer : Writer) (secondPassed : Bool) :
    (writer.commit secondPassed).written = writer.written := by
  unfold commit
  split
  · exact written_sync writer
  · split
    · exact written_sync writer
    · exact written_flush writer
  · exact written_flush writer

end Writer

namespace Recorder

variable (checksum : Bytes → UInt64)

/-- The messages still to be handled, oldest first. -/
def messages (recorder : Recorder) : List Message :=
  match recorder.phase with
  | .waiting => recorder.queue
  | .handling _ message => message :: recorder.queue
  | .stopped => []

/-- The records ahead of the first message that ends the recorder. -/
def recordsOf : List Message → List Record
  | .record record :: rest => record :: recordsOf rest
  | .shutdown :: _ => []
  | [] => []

theorem recordsOf_append_record {queue : List Message} (h : .shutdown ∉ queue) (record : Record) :
    recordsOf (queue ++ [.record record]) = recordsOf queue ++ [record] := by
  induction queue with
  | nil => rfl
  | cons message rest ih =>
    cases message with
    | shutdown => exact absurd List.mem_cons_self h
    | record first => exact congrArg (first :: ·) (ih fun hrest => h (List.mem_cons_of_mem _ hrest))

theorem recordsOf_append_shutdown (queue : List Message) :
    recordsOf (queue ++ [.shutdown]) = recordsOf queue := by
  induction queue with
  | nil => rfl
  | cons message rest ih =>
    cases message with
    | shutdown => rfl
    | record first => exact congrArg (first :: ·) ih

/-- What the file will hold once the recorder has ended. -/
def promised (recorder : Recorder) : Bytes :=
  recorder.writer.written ++ Record.encodeAll checksum (recordsOf recorder.messages)

/-- No message that ends the recorder has been sent. -/
structure IsOpen (recorder : Recorder) : Prop where
  /-- The recorder has not ended. -/
  running : recorder.phase ≠ .stopped
  /-- It is not about to end. -/
  unended : .shutdown ∉ recorder.messages

/-- A recorder that has ended holds nothing back, and one that has not will come to an end if it was
told to. -/
structure IsEnding (recorder : Recorder) : Prop where
  /-- The recorder has ended, or the message to end is on its way. -/
  ends : recorder.phase = .stopped ∨ .shutdown ∈ recorder.messages
  /-- Nothing is held back after the end. -/
  flushed : recorder.phase = .stopped → recorder.writer.pending = []

theorem take?_eq_some {recorder : Recorder} {glance : Glance} {message : Message}
    {rest : List Message} (h : recorder.take? glance = some (message, rest)) :
    recorder.queue = message :: rest := by
  unfold take? at h
  split at h
  · next hqueue =>
    split at h
    · cases h
      exact hqueue
    · cases h
  · cases h

/-- What one step amounts to. -/
inductive Advances (recorder next : Recorder) : Prop where
  /-- A recorder that has ended stays as it is. -/
  | stays (hphase : recorder.phase = .stopped) (hnext : next = recorder)
  /-- The message to end is handled, after which nothing is held back. -/
  | ends (rest : List Message) (hmessages : recorder.messages = .shutdown :: rest)
    (hphase : next.phase = .stopped) (hpending : next.writer.pending = [])
    (hwritten : next.writer.written = recorder.writer.written)
  /-- Some records at the front are written. -/
  | goesOn (done : List Record) (hmessages : recorder.messages = done.map .record ++ next.messages)
    (hbefore : recorder.phase ≠ .stopped) (hphase : next.phase ≠ .stopped)
    (hwritten : next.writer.written = recorder.writer.written ++ Record.encodeAll checksum done)

/-- A recorder that has ended takes no step. -/
theorem stepOn_of_stopped {recorder : Recorder} (h : recorder.phase = .stopped)
    (failures : FileFailures) (glance : Glance) :
    recorder.stepOn failures checksum glance = recorder := by
  rw [stepOn, h]

/-- Takes the next message of a batch, or ends the batch. -/
def proceed (recorder : Recorder) (glance : Glance) (written : Nat) : Recorder :=
  match recorder.take? glance with
  | some (message, rest) => recorder.goOn written message rest
  | none => recorder.endBatch .none glance

theorem messages_proceed (recorder : Recorder) (glance : Glance) (written : Nat) :
    (recorder.proceed glance written).messages = recorder.queue ∧
      (recorder.proceed glance written).phase ≠ .stopped ∧
      (recorder.proceed glance written).writer.written = recorder.writer.written := by
  have hend : (recorder.endBatch .none glance).messages = recorder.queue ∧
      (recorder.endBatch .none glance).phase ≠ .stopped ∧
      (recorder.endBatch .none glance).writer.written = recorder.writer.written :=
    ⟨rfl, Phase.noConfusion, Writer.written_commit _ _⟩
  unfold proceed
  split
  · next message rest htake =>
    exact ⟨(take?_eq_some htake).symm, Phase.noConfusion, rfl⟩
  · exact hend

/-- Every step of the recorder is of one of the three kinds. -/
theorem advances_step (recorder : Recorder) (glance : Glance) :
    Advances checksum recorder (recorder.step checksum glance) := by
  obtain ⟨writer, queue, phase⟩ := recorder
  cases phase with
  | stopped => exact .stays rfl rfl
  | waiting =>
    -- a batch begins, and nothing is written yet
    obtain ⟨hmessages, hphase, hwritten⟩ := messages_proceed ⟨writer, queue, .waiting⟩ glance 0
    refine .goesOn [] ?_ Phase.noConfusion hphase ?_
    · exact hmessages.symm
    · exact hwritten.trans (List.append_nil _).symm
  | handling count message =>
    cases message with
    | shutdown =>
      refine .ends queue rfl rfl rfl ?_
      exact (Writer.written_sync _).trans (Writer.written_commit _ _)
    | record record =>
      have hwrote := Writer.written_write checksum writer record
      have hone : Record.encodeAll checksum [record] = record.encode checksum :=
        List.append_nil _
      obtain ⟨hmessages, hphase, hwritten⟩ :=
        messages_proceed ⟨writer.write checksum record, queue, .handling count (.record record)⟩
          glance (count + 1)
      simp only [step, stepOn]
      split
      · refine .goesOn [record] ?_ Phase.noConfusion hphase ?_
        · exact congrArg (Message.record record :: ·) hmessages.symm
        · rw [hone, ← hwrote]
          exact hwritten
      · refine .goesOn [record] rfl Phase.noConfusion Phase.noConfusion ?_
        rw [hone, ← hwrote]
        exact Writer.written_commit _ _

variable {recorder : Recorder}

theorem recordsOf_map_append (done : List Record) (messages : List Message) :
    recordsOf (done.map .record ++ messages) = done ++ recordsOf messages := by
  induction done with
  | nil => rfl
  | cons record rest ih => exact congrArg (record :: ·) ih

/-- A step neither adds to the promise nor takes from it. -/
theorem promised_step (recorder : Recorder) (glance : Glance) :
    (recorder.step checksum glance).promised checksum = recorder.promised checksum := by
  cases advances_step checksum recorder glance with
  | stays hphase hnext => rw [hnext]
  | ends rest hmessages hphase hpending hwritten =>
    have hnone : (recorder.step checksum glance).messages = [] := by rw [messages, hphase]
    rw [promised, promised, hwritten, hmessages, hnone]
    rfl
  | goesOn done hmessages hbefore hphase hwritten =>
    rw [promised, promised, hwritten, hmessages, recordsOf_map_append, Record.encodeAll_append,
      List.append_assoc]

/-- A step does not end a recorder that was not told to end. -/
theorem IsOpen.step (h : recorder.IsOpen) (glance : Glance) :
    (recorder.step checksum glance).IsOpen := by
  cases advances_step checksum recorder glance with
  | stays hphase hnext => exact absurd hphase h.running
  | ends rest hmessages hphase hpending hwritten =>
    exact absurd (hmessages ▸ List.mem_cons_self) h.unended
  | goesOn done hmessages hbefore hphase hwritten =>
    refine ⟨hphase, fun hmem => h.unended ?_⟩
    rw [hmessages]
    exact List.mem_append_right _ hmem

/-- A recorder that was told to end has ended or is still about to. -/
theorem IsEnding.step (h : recorder.IsEnding) (glance : Glance) :
    (recorder.step checksum glance).IsEnding := by
  cases advances_step checksum recorder glance with
  | stays hphase hnext =>
    rw [hnext]
    exact h
  | ends rest hmessages hphase hpending hwritten => exact ⟨.inl hphase, fun _ => hpending⟩
  | goesOn done hmessages hbefore hphase hwritten =>
    refine ⟨.inr ?_, fun hstopped => absurd hstopped hphase⟩
    -- the message to end is none of the records that were written
    have hmem := h.ends.resolve_left hbefore
    rw [hmessages, List.mem_append] at hmem
    refine hmem.resolve_left fun hrecord => ?_
    obtain ⟨_, _, hcontra⟩ := List.mem_map.1 hrecord
    cases hcontra

/-- A recorder that has not ended takes every message into its queue. -/
theorem send_eq (h : recorder.phase ≠ .stopped) (message : Message) :
    recorder.send message = { recorder with queue := recorder.queue ++ [message] } := by
  unfold send
  split
  · next hphase => exact absurd hphase h
  · rfl

theorem messages_send (h : recorder.phase ≠ .stopped) (message : Message) :
    (recorder.send message).messages = recorder.messages ++ [message] := by
  rw [send_eq h]
  unfold messages
  cases hphase : recorder.phase with
  | waiting => rfl
  | handling count first => rfl
  | stopped => exact absurd hphase h

theorem isOpen_start (writer : Writer) : (start writer).IsOpen where
  running := Phase.noConfusion
  unended := List.not_mem_nil

/-- A recorder that starts on a file promises to keep what is there. -/
theorem promised_start (policy : SyncPolicy) (content : Bytes) :
    (start (.ofContent policy content)).promised checksum = content := by
  simp [promised, start, messages, recordsOf, Record.encodeAll, Writer.written, Writer.ofContent]

/-- Putting a record into the queue extends the promise by its bytes. -/
theorem promised_enqueue (h : recorder.IsOpen) (record : Record) :
    (recorder.enqueue record).promised checksum =
      recorder.promised checksum ++ record.encode checksum := by
  have hone : Record.encodeAll checksum [record] = record.encode checksum := List.append_nil _
  rw [promised, promised, enqueue, messages_send h.running, recordsOf_append_record h.unended,
    Record.encodeAll_append, hone, send_eq h.running, List.append_assoc]

theorem IsOpen.enqueue (h : recorder.IsOpen) (record : Record) :
    (recorder.enqueue record).IsOpen where
  running := by
    rw [Recorder.enqueue, send_eq h.running]
    exact h.running
  unended := by
    rw [Recorder.enqueue, messages_send h.running, List.mem_append]
    exact fun hmem => hmem.elim h.unended (by simp)

/-- Several records extend the promise by their bytes in order. -/
theorem promised_foldl_enqueue (h : recorder.IsOpen) (records : List Record) :
    (records.foldl Recorder.enqueue recorder).IsOpen ∧
      (records.foldl Recorder.enqueue recorder).promised checksum =
        recorder.promised checksum ++ Record.encodeAll checksum records := by
  induction records generalizing recorder with
  | nil => exact ⟨h, (List.append_nil _).symm⟩
  | cons record rest ih =>
    obtain ⟨hopen, hpromised⟩ := ih (h.enqueue record)
    refine ⟨hopen, hpromised.trans ?_⟩
    rw [promised_enqueue checksum h, List.append_assoc]
    rfl

/-- Telling the recorder to end leaves the promise as it is. -/
theorem promised_send_shutdown (h : recorder.IsOpen) :
    (recorder.send .shutdown).promised checksum = recorder.promised checksum := by
  rw [promised, promised, messages_send h.running, recordsOf_append_shutdown, send_eq h.running]

theorem IsOpen.isEnding_send (h : recorder.IsOpen) : (recorder.send .shutdown).IsEnding where
  ends := by
    rw [messages_send h.running]
    exact .inr (List.mem_append_right _ List.mem_cons_self)
  flushed hphase := by
    rw [send_eq h.running] at hphase
    exact absurd hphase h.running

/-- A recorder that has ended has kept its promise. -/
theorem promised_of_stopped (h : recorder.IsEnding) (hstopped : recorder.phase = .stopped) :
    recorder.promised checksum = recorder.writer.content := by
  rw [promised, Writer.written, h.flushed hstopped, messages, hstopped]
  simp [recordsOf, Record.encodeAll]

/-- What every step keeps, running the recorder keeps. -/
theorem run_induction {motive : Recorder → Prop}
    (hstep : ∀ recorder glance, motive recorder → motive (recorder.step checksum glance))
    (recorder : Recorder) (h : motive recorder) : motive (recorder.run checksum) := by
  fun_induction run checksum recorder with
  | case1 recorder _ => exact h
  | case2 recorder _ _ ih => exact ih (hstep recorder _ h)

theorem isIdle_run (recorder : Recorder) : (recorder.run checksum).isIdle = true := by
  fun_induction run checksum recorder with
  | case1 recorder hidle => exact hidle
  | case2 recorder _ _ ih => exact ih

/-- Ends the recorder while it takes steps of its own: those of `glances`, and then whatever is left
to do. -/
def closeAfter (glances : List Glance) (recorder : Recorder) : Recorder :=
  (glances.foldl (step checksum) (recorder.send .shutdown)).run checksum

theorem closeAfter_nil (recorder : Recorder) :
    recorder.closeAfter checksum [] = recorder.close checksum :=
  rfl

theorem foldl_step_induction {motive : Recorder → Prop}
    (hstep : ∀ recorder glance, motive recorder → motive (recorder.step checksum glance))
    (glances : List Glance) (recorder : Recorder) (h : motive recorder) :
    motive (glances.foldl (step checksum) recorder) := by
  induction glances generalizing recorder with
  | nil => exact h
  | cons glance rest ih => exact ih _ (hstep recorder glance h)

/-- A recorder that was told to end comes to its end when nothing delays it, and has then kept its
promise. -/
theorem IsEnding.run (h : recorder.IsEnding) :
    (recorder.run checksum).phase = .stopped ∧ (recorder.run checksum).writer.pending = [] ∧
      (recorder.run checksum).writer.content = recorder.promised checksum := by
  have hkeeps : ∀ (other : Recorder) (glance : Glance),
      other.IsEnding ∧ other.promised checksum = recorder.promised checksum →
      (other.step checksum glance).IsEnding ∧
        (other.step checksum glance).promised checksum = recorder.promised checksum :=
    fun other glance hother =>
      ⟨hother.1.step checksum glance, (promised_step checksum other glance).trans hother.2⟩
  obtain ⟨hending, hpromised⟩ := run_induction checksum hkeeps recorder ⟨h, rfl⟩
  have hidle := isIdle_run checksum recorder
  generalize recorder.run checksum = ended at *
  -- an idle recorder either has ended or has an empty queue, and no message to end is left in that
  have hstopped : ended.phase = .stopped := by
    refine hending.ends.resolve_right fun hmem => ?_
    obtain ⟨writer, queue, phase⟩ := ended
    cases phase with
    | stopped => cases hmem
    | handling count message => cases hidle
    | waiting =>
      cases queue with
      | nil => cases hmem
      | cons message rest => cases hidle
  refine ⟨hstopped, hending.flushed hstopped, ?_⟩
  rw [← hpromised, promised_of_stopped checksum hending hstopped]

/-- A closed recorder has written what it had promised, whatever it saw while it was closing. -/
theorem content_closeAfter (h : recorder.IsOpen) (glances : List Glance) :
    (recorder.closeAfter checksum glances).writer.content = recorder.promised checksum := by
  obtain ⟨hending, hpromised⟩ := foldl_step_induction checksum
    (motive := fun other =>
      other.IsEnding ∧ other.promised checksum = recorder.promised checksum)
    (fun other glance hother =>
      ⟨hother.1.step checksum glance, (promised_step checksum other glance).trans hother.2⟩)
    glances _ ⟨h.isEnding_send, promised_send_shutdown checksum h⟩
  rw [closeAfter, (hending.run checksum).2.2, hpromised]

end Recorder

end RingStore.Journal
