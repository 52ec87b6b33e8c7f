import RingStore.Proofs.Journal.Recorder

/-!
# Records that are handed over

Those who fill a recorder's queue and the recorder itself take turns in any order. A record may
come while the recorder waits, while it is in the middle of a batch, or after the batch is full;
the queue may look empty to the recorder although a message is on its way, and the recorder may
wait in vain. Records may even come after the message that ends the recorder. Whatever the order,
the file is in the end what it was at first, followed by the records that were put into the queue
before that message.

What is conserved is the recorder's promise. A record extends it as long as no message to end was
sent, and makes no difference afterwards, because the recorder never takes what stands behind that
message.

## Main definitions

* `Recorder.Event`, `Recorder.meetAll`: what happens to a recorder, in any order.

## Main results

* `Recorder.IsOpen.meetAll`, `Recorder.IsEnding.meetAll`: what events do to the promise before and
  after the recorder was told to end.
* `Recorder.closed_writes_enqueued`: what the file holds after closing.
-/

namespace RingStore.Journal.Recorder

/-- What happens to a recorder. -/
inductive Event where
  /-- Somebody puts a record into the queue. -/
  | enqueue (record : Record)
  /-- The recorder takes a step. -/
  | step (glance : Glance)

/-- The records that are put into the queue, in order. -/
def enqueued : List Event → List Record
  | [] => []
  | .enqueue record :: rest => record :: enqueued rest
  | .step _ :: rest => enqueued rest

variable (checksum : Bytes → UInt64)

/-- The recorder after an event. -/
def meet (recorder : Recorder) : Event → Recorder
  | .enqueue record => recorder.enqueue record
  | .step glance => recorder.step checksum glance

/-- The recorder after events, in order. -/
def meetAll (recorder : Recorder) (events : List Event) : Recorder :=
  events.foldl (meet checksum) recorder

variable {recorder : Recorder}

/-- Until the recorder is told to end, its promise grows by the records that come, and by nothing
else. -/
theorem IsOpen.meetAll (h : recorder.IsOpen) (events : List Event) :
    (recorder.meetAll checksum events).IsOpen ∧
      (recorder.meetAll checksum events).promised checksum =
        recorder.promised checksum ++ Record.encodeAll checksum (enqueued events) := by
  induction events generalizing recorder with
  | nil => exact ⟨h, (List.append_nil _).symm⟩
  | cons event rest ih =>
    cases event with
    | enqueue record =>
      obtain ⟨hopen, hpromised⟩ := ih (h.enqueue record)
      refine ⟨hopen, hpromised.trans ?_⟩
      rw [promised_enqueue checksum h, List.append_assoc]
      rfl
    | step glance =>
      obtain ⟨hopen, hpromised⟩ := ih (h.step checksum glance)
      refine ⟨hopen, hpromised.trans ?_⟩
      rw [promised_step]
      rfl

/-- What stands behind the message to end is never written. -/
theorem recordsOf_append_of_mem {messages : List Message} (h : .shutdown ∈ messages)
    (more : List Message) : recordsOf (messages ++ more) = recordsOf messages := by
  induction messages with
  | nil => cases h
  | cons message rest ih =>
    cases message with
    | shutdown => rfl
    | record first =>
      exact congrArg (first :: ·) (ih (List.mem_of_ne_of_mem Message.noConfusion h))

/-- Nobody takes what is sent to a recorder that has ended. -/
theorem send_of_stopped (h : recorder.phase = .stopped) (message : Message) :
    recorder.send message = recorder := by
  rw [send, h]

/-- A recorder that has ended stays as it is, whatever happens. -/
theorem meetAll_of_stopped (h : recorder.phase = .stopped) (events : List Event) :
    recorder.meetAll checksum events = recorder := by
  induction events with
  | nil => rfl
  | cons event rest ih =>
    have hsame : recorder.meet checksum event = recorder := by
      cases event with
      | enqueue record => exact send_of_stopped h _
      | step glance => exact stepOn_of_stopped checksum h .none glance
    rw [meetAll, List.foldl_cons, hsame]
    exact ih

/-- Once the recorder was told to end, a record that comes too late makes no difference. -/
theorem IsEnding.enqueue (h : recorder.IsEnding) (record : Record) :
    (recorder.enqueue record).IsEnding ∧
      (recorder.enqueue record).promised checksum = recorder.promised checksum := by
  by_cases hstopped : recorder.phase = .stopped
  · rw [Recorder.enqueue, send_of_stopped hstopped]
    exact ⟨h, rfl⟩
  · -- the message to end is still ahead of the record, which is therefore never written
    have htold : .shutdown ∈ recorder.messages := h.ends.resolve_left hstopped
    have hmessages := messages_send hstopped (.record record)
    refine ⟨⟨.inr ?_, fun hphase => ?_⟩, ?_⟩
    · rw [Recorder.enqueue, hmessages]
      exact List.mem_append_left _ htold
    · rw [Recorder.enqueue, send_eq hstopped] at hphase
      exact absurd hphase hstopped
    · rw [promised, promised, Recorder.enqueue, hmessages, recordsOf_append_of_mem htold,
        send_eq hstopped]

/-- Once the recorder was told to end, nothing that happens changes its promise. -/
theorem IsEnding.meetAll (h : recorder.IsEnding) (events : List Event) :
    (recorder.meetAll checksum events).IsEnding ∧
      (recorder.meetAll checksum events).promised checksum = recorder.promised checksum := by
  induction events generalizing recorder with
  | nil => exact ⟨h, rfl⟩
  | cons event rest ih =>
    cases event with
    | enqueue record =>
      obtain ⟨hending, hsame⟩ := h.enqueue checksum record
      exact ⟨(ih hending).1, (ih hending).2.trans hsame⟩
    | step glance =>
      have hending := h.step checksum glance
      exact ⟨(ih hending).1, (ih hending).2.trans (promised_step checksum recorder glance)⟩

/-- A recorder starts on a file. Records come and it takes steps, in any order; then it is told to
end. Again records come and it takes steps, in any order, and in the end it goes on undisturbed. It
comes to its end and holds nothing back then. The file is what it was at first, followed by the
bytes of exactly the records that came before the recorder was told to end, in their order.
Whatever happens after that leaves everything as it is. -/
theorem closed_writes_enqueued (policy : SyncPolicy) (content : Bytes)
    (events closing late : List Event) :
    let opened := start (.ofContent policy content)
    let told := (opened.meetAll checksum events).send .shutdown
    let closed := (told.meetAll checksum closing).run checksum
    closed.phase = .stopped ∧ closed.writer.pending = [] ∧
      closed.writer.content = content ++ Record.encodeAll checksum (enqueued events) ∧
      closed.meetAll checksum late = closed := by
  intro opened told closed
  have hstart : opened.promised checksum = content := promised_start checksum policy content
  obtain ⟨hopen, hpromised⟩ := (isOpen_start (.ofContent policy content)).meetAll checksum events
  obtain ⟨hending, hkept⟩ := hopen.isEnding_send.meetAll checksum closing
  obtain ⟨hstopped, hpending, hcontent⟩ := hending.run checksum
  refine ⟨hstopped, hpending, ?_, meetAll_of_stopped checksum hstopped late⟩
  -- the file holds what was promised, and a promise grows only by what came before the end
  calc
    closed.writer.content = (told.meetAll checksum closing).promised checksum := hcontent
    _ = told.promised checksum := hkept
    _ = (opened.meetAll checksum events).promised checksum := promised_send_shutdown checksum hopen
    _ = opened.promised checksum ++ Record.encodeAll checksum (enqueued events) := hpromised
    _ = content ++ Record.encodeAll checksum (enqueued events) := by rw [hstart]

/-- The queue looks empty in the middle of a batch, and one record comes too late. -/
example :
    let record : UInt32 → Record := fun database => ⟨database, [[102]]⟩
    let hidden : Event := .step ⟨false, true⟩
    let opened := start (.ofContent .always [9])
    let told := (opened.meetAll (fun _ => 0) [hidden, .enqueue (record 1), .step .prompt,
      .enqueue (record 2), hidden, .step .prompt]).send .shutdown
    (told.meetAll (fun _ => 0) [.enqueue (record 3), hidden, .step .prompt, .step .prompt]).writer =
      ⟨.always, [9] ++ Record.encodeAll (fun _ => 0) [record 1, record 2], [], 43⟩ := by
  rfl

end RingStore.Journal.Recorder
