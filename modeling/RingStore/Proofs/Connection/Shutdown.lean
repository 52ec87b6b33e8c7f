import RingStore.Proofs.Connection.Dialogue

/-!
# Connections that are shut down

A shutdown may be signalled while a connection waits for its client. What has arrived by then is
answered, and no more is read. So the connection does what it would have done if its client had gone
away after the last chunk that arrived, but it does not take offence at an incomplete request.

## Main definitions

* `Connection.StopsAlike`: a shutdown leaves what the end of the stream leaves.

## Main results

* `Connection.drain_within`, `Connection.receive_of_lt`: what answering and receiving come to.
* `Connection.stopsAlike`: a shutdown and the end of the stream side by side.
* `Connection.shutdown_answers_received`: a shutdown after some chunks.
-/

namespace RingStore.Connection

variable {σ : Type} (service : Service σ) (options : ConnectionOptions)

/-- A reply reaches the client, or it is lost as the options say. -/
theorem send_cases (connection : Connection σ) (reply : Value) :
    (connection.send options reply = (connection.tell reply, none)) ∨
      ∃ lost, options.refusesReplies = some lost ∧
        connection.send options reply = (connection, some lost) := by
  unfold send
  cases hlost : options.refusesReplies with
  | none => exact .inl rfl
  | some lost => exact .inr ⟨lost, rfl, rfl⟩

/-- Answering makes no more bytes wait, and it fails only if a reply is lost. -/
theorem drain_within (connection : Connection σ) :
    (connection.drain service options).1.buffer.length ≤ connection.buffer.length ∧
      ∀ failure, (connection.drain service options).2 = some failure →
        options.refusesReplies = some failure := by
  fun_induction drain service options connection with
  | case1 connection hread => exact ⟨Nat.le_refl _, fun _ h => nomatch h⟩
  | case2 connection reason hread =>
    rcases send_cases options (connection.withBuffer []) (Refusal.protocol reason).reply with
      hsend | ⟨lost, hlost, hsend⟩
    · rw [hsend]
      exact ⟨Nat.zero_le _, fun _ h => nomatch h⟩
    · rw [hsend, hlost]
      exact ⟨Nat.zero_le _, fun _ h => h⟩
  | case3 connection request rest hread answered hanswer hlength ih =>
    exact ⟨Nat.le_trans ih.1 (Nat.le_of_lt hlength), ih.2⟩
  | case4 connection request rest hread answered reply hanswer lost hlost =>
    exact ⟨Nat.le_of_lt (length_buffer_lt hread hanswer), fun _ h => hlost.trans h⟩
  | case5 connection request rest hread answered reply hanswer hlost hlength ih =>
    exact ⟨Nat.le_trans ih.1 (Nat.le_of_lt hlength), ih.2⟩

/-- A chunk beyond the bound ends the connection. -/
theorem receive_of_lt {connection : Connection σ} {chunk : Bytes}
    (h : options.maxQueryBuffer < (connection.buffer ++ chunk).length) :
    ∃ told failure, connection.receive options chunk = (told, some failure) ∧
      (failure = bufferExceeded ∨ options.refusesReplies = some failure) := by
  rcases send_cases options (connection.withBuffer []) Refusal.queryTooLong.reply with
    hsend | ⟨lost, hlost, hsend⟩
  · refine ⟨(connection.withBuffer []).tell Refusal.queryTooLong.reply, bufferExceeded, ?_,
      .inl rfl⟩
    simp only [receive, if_pos h, hsend]
  · refine ⟨connection.withBuffer [], lost, ?_, .inr hlost⟩
    simp only [receive, if_pos h, hsend]

/-- A connection that loses a reply ends there. -/
theorem handle_of_lost {connection drained : Connection σ} {lost : Failure}
    (hdrain : connection.drain service options = (drained, some lost)) (readFails : Option Failure)
    (untilShutdown : Option Nat) (chunks : List Bytes) :
    connection.handle service options readFails untilShutdown chunks = (drained, some lost) := by
  rw [handle.eq_def, hdrain]

/-- A connection that is shut down after some chunks is left as one whose client sends these chunks
and goes away. It fails only if a reply is lost or too much has arrived, and then the other one
fails for the same reason. -/
def StopsAlike (connection : Connection σ) (readFails : Option Failure) (chunks : List Bytes)
    (count : Nat) : Prop :=
  ∃ stopped failure,
    connection.handle service options readFails (some count) chunks = (stopped, failure) ∧
    connection.handle service options none none (chunks.take count) =
      (stopped, failure.or stopped.unfinished) ∧
    ∀ reason, failure = some reason →
      reason = bufferExceeded ∨ options.refusesReplies = some reason

/-- A reply that is lost before the first read ends both. -/
theorem stopsAlike_of_lost {connection drained : Connection σ} {lost : Failure}
    (hdrain : connection.drain service options = (drained, some lost)) (readFails : Option Failure)
    (chunks : List Bytes) (count : Nat) :
    connection.StopsAlike service options readFails chunks count := by
  have hrefuses := (drain_within service options connection).2
  rw [hdrain] at hrefuses
  exact ⟨drained, some lost, handle_of_lost service options hdrain _ _ _,
    handle_of_lost service options hdrain _ _ _, fun reason h => .inr (hrefuses reason h)⟩

/-- A shutdown before the first read ends a connection where its client would have gone away. -/
theorem stopsAlike_zero {connection drained : Connection σ}
    (hbuffer : connection.buffer.length ≤ options.maxQueryBuffer)
    (hdrain : connection.drain service options = (drained, none)) (readFails : Option Failure)
    (chunks : List Bytes) : connection.StopsAlike service options readFails chunks 0 := by
  have hwaits := (drain_within service options connection).1
  rw [hdrain] at hwaits
  refine ⟨drained, none, ?_, ?_, fun _ h => nomatch h⟩
  · rw [handle.eq_def, hdrain]
    rfl
  · rw [List.take_zero, handle, hdrain]
    simp only [reduceCtorEq, if_false, finish_of_length_le options (Nat.le_trans hwaits hbuffer)]
    rfl

/-- A shutdown and the end of the stream do the same as long as chunks are read. -/
theorem stopsAlike (readFails : Option Failure) {connection : Connection σ}
    (hbuffer : connection.buffer.length ≤ options.maxQueryBuffer) {chunks : List Bytes}
    {count : Nat} (hcount : count ≤ chunks.length) :
    connection.StopsAlike service options readFails chunks count := by
  -- a round answers what has arrived and then takes in one chunk
  induction count generalizing connection chunks with
  | zero =>
    rcases hdrain : connection.drain service options with ⟨drained, _ | lost⟩
    · exact stopsAlike_zero service options hbuffer hdrain readFails chunks
    · exact stopsAlike_of_lost service options hdrain readFails chunks 0
  | succ count ih =>
    rcases hdrain : connection.drain service options with ⟨drained, _ | lost⟩
    · cases chunks with
      | nil => exact absurd hcount (Nat.not_succ_le_zero count)
      | cons chunk later =>
        rw [StopsAlike, List.take_succ_cons, handle, handle, hdrain]
        simp only [reduceCtorEq, if_false, Option.some.injEq, Nat.add_one_ne_zero, Option.map_some,
          Nat.add_one_sub_one, Option.map_none]
        by_cases hfits : (drained.buffer ++ chunk).length ≤ options.maxQueryBuffer
        · rw [receive_of_length_le options hfits]
          exact ih hfits (Nat.le_of_succ_le_succ hcount)
        · obtain ⟨told, failure, hreceive, hreason⟩ :=
            receive_of_lt options (Nat.lt_of_not_le hfits)
          rw [hreceive]
          refine ⟨told, some failure, rfl, rfl, fun reason h => ?_⟩
          cases h
          exact hreason
    · exact stopsAlike_of_lost service options hdrain readFails chunks (count + 1)

/-- A shutdown that is signalled when some chunks have arrived, of any bytes whatever, leaves the
service, the session and the bytes sent as they are if the client sends these chunks and goes away.
Where that makes the connection fail since a request was left incomplete, the shutdown ends it in
good order. So it fails with the same reason unless this is a reset, provided that replies are not
lost by a reset. It is assumed that a client which takes replies takes them within the time that a
connection grants them during a shutdown. -/
theorem shutdown_answers_received (service : Service σ) (state : σ) (options : ConnectionOptions)
    (readFails : Option Failure) {chunks : List Bytes} {count : Nat}
    (hcount : count ≤ chunks.length) :
    let (stopped, failure) := (start state).handle service options readFails (some count) chunks
    let (ended, failureAtEnd) := (start state).handle service options none none (chunks.take count)
    stopped.sent = ended.sent ∧ stopped.state = ended.state ∧ stopped.session = ended.session ∧
      failureAtEnd = failure.or (if stopped.buffer = [] then none else some resetByPeer) ∧
      ((∀ lost, options.refusesReplies = some lost → lost.kind ≠ .connectionReset) →
        failure = failureAtEnd.filter fun reason => reason.kind ≠ .connectionReset) := by
  have hbuffer : (start state).buffer.length ≤ options.maxQueryBuffer := Nat.zero_le _
  obtain ⟨stopped, failure, hstopped, hended, hreason⟩ :=
    stopsAlike service options readFails hbuffer hcount
  simp only [hstopped, hended]
  refine ⟨trivial, trivial, trivial, rfl, fun hlost => ?_⟩
  cases failure with
  | none =>
    rw [Option.none_or, unfinished]
    split <;> rfl
  | some reason =>
    have hkind : reason.kind ≠ .connectionReset := by
      rcases hreason reason rfl with rfl | hrefuses
      · decide
      · exact hlost reason hrefuses
    rw [Option.some_or, Option.filter_some, if_pos (decide_eq_true hkind)]

/-- A request and the start of another one, and the rest of that. -/
def interrupted : List Bytes :=
  ["PING\r\nPI", "NG\r\n"].map Text.toBytes

/-- If the client goes away in the middle of the second request the connection fails, but not if it
is shut down there. -/
theorem shutdown_answers_received_of_interrupted :
    1 ≤ interrupted.length ∧ ∃ stopped ended : Connection Node,
      (start (Node.empty Catalogue.registry 16)).handle Node.serve ⟨100, none⟩ none (some 1)
        interrupted = (stopped, none) ∧
      (start (Node.empty Catalogue.registry 16)).handle Node.serve ⟨100, none⟩ none none
        (interrupted.take 1) = (ended, some resetByPeer) ∧
      stopped.sent = Text.toBytes "+PONG\r\n" ∧ ended.sent = Text.toBytes "+PONG\r\n" := by
  have hcount : 1 ≤ interrupted.length := by decide
  have hrequest : Wire.read (interrupted.take 1).flatten =
      .done (.array [.bulk (Text.toBytes "PING")]) (Text.toBytes "PI") := rfl
  have hleft : Wire.read (Text.toBytes "PI") = .incomplete := rfl
  have hall : Wire.readAll ((start (Node.empty Catalogue.registry 16)).buffer ++
      (interrupted.take 1).flatten) =
      ([.array [.bulk (Text.toBytes "PING")]], Text.toBytes "PI") := by
    refine (Wire.readAll_of_done hrequest).trans ?_
    rw [Wire.readAll_of_not_done (by simp [hleft])]
  have hreadable : Wire.Readable ((start (Node.empty Catalogue.registry 16)).buffer ++
      (interrupted.take 1).flatten) := by
    rw [Wire.Readable, hall]
    simp [hleft]
  have hlength : ((start (Node.empty Catalogue.registry 16)).buffer ++
      (interrupted.take 1).flatten).length ≤ min Wire.maxInlineLength 100 := by decide +kernel
  obtain ⟨ended, hended, hshows⟩ :=
    (shows_start (Node.empty Catalogue.registry 16)).handle Node.serve hlength hreadable
  rw [hall] at hended hshows
  have hsent : ended.sent = Text.toBytes "+PONG\r\n" := hshows.sent.trans (by decide +kernel)
  have h := shutdown_answers_received Node.serve (Node.empty Catalogue.registry 16) ⟨100, none⟩ none
    hcount
  rcases hstopped : (start (Node.empty Catalogue.registry 16)).handle Node.serve ⟨100, none⟩ none
    (some 1) interrupted with ⟨stopped, failure⟩
  simp only [hstopped, hended] at h
  obtain ⟨hequal, -, -, -, hfailure⟩ := h
  -- no reply is lost
  obtain rfl := hfailure (by simp)
  exact ⟨hcount, stopped, ended, rfl, hended, hequal.trans hsent, hsent⟩

end RingStore.Connection
