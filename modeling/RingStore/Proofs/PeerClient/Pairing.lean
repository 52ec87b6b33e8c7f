import RingStore.Proofs.PeerClient

/-!
# Replies in the order of requests

The chunks in which a peer's replies arrive say nothing about where one reply ends and the next one
starts: a chunk may end within a reply, and it may bring several. Nor does a reply name its request.
What keeps requests and replies together is that a client takes from the stream just what one
request is owed: the bytes received and those not yet read make up, at any time, the replies to the
requests that come next.

A client that has failed once stays where it is. The bytes that make no reply are not taken away, so
every later request finds them again.

## Main definitions

* `PeerClient.after`: a client after some requests.
* `PeerClient.Owed`: the replies that are still to come.
* `PeerClient.Stuck`: a client whose requests all fail.

## Main results

* `PeerClient.Owed.send`, `PeerClient.Owed.after`: what a request takes of what is owed.
* `PeerClient.Stuck.of_send`, `PeerClient.Stuck.after`: a request that fails, and those after it.
* `PeerClient.send_pairs_replies`: each request gets its own reply.
-/

namespace RingStore.PeerClient

variable {client : PeerClient} {replies : List Value}

/-- The client after it has sent command lines one after the other. -/
def after (client : PeerClient) (lines : List CommandLine) : PeerClient :=
  lines.foldl (fun client line => (client.send line).client) client

theorem after_cons (client : PeerClient) (line : CommandLine) (lines : List CommandLine) :
    client.after (line :: lines) = (client.send line).client.after lines :=
  rfl

/-- The client with these bytes received and these chunks not yet read. -/
def withReceived (client : PeerClient) (buffer : Bytes) (incoming : List Bytes) : PeerClient :=
  { client with buffer, stream := { client.stream with incoming } }

/-- Where writes are taken, a request is what is written and what is awaited. -/
theorem send_of_awaitReply (client : PeerClient) (hwrites : client.stream.refusesWrites = none)
    {result : Except Failure Value} {buffer : Bytes} {incoming : List Bytes}
    (h : awaitReply client.stream.ending client.buffer client.stream.incoming =
      (result, buffer, incoming)) (line : CommandLine) :
    client.send line =
      ⟨client.withReceived buffer incoming, encodeCommandLine line, result⟩ := by
  simp only [send, hwrites, receive, h, withReceived]

/-- Each chunk that a request reads is read because more bytes are needed. -/
theorem send_readOnDemand (client : PeerClient) (line : CommandLine) :
    ∃ taken, client.stream.incoming = taken ++ (client.send line).client.stream.incoming ∧
      ReadOnDemand client.buffer taken := by
  cases hwrites : client.stream.refusesWrites with
  | some failure =>
    refine ⟨[], ?_, readOnDemand_nil _⟩
    simp only [send, hwrites, List.nil_append]
  | none =>
    obtain ⟨taken, left, hincoming, hdemand, hstops⟩ :=
      exists_stops client.stream.ending client.buffer client.stream.incoming
    refine ⟨taken, ?_, hdemand⟩
    rw [send_of_awaitReply client hwrites rfl]
    exact hincoming.trans (congrArg (taken ++ ·) hstops.left_eq.symm)

/-! ### Replies that are owed -/

/-- The other side takes every request, and what has been received and not been read is the replies,
after which it closes the stream. -/
structure Owed (client : PeerClient) (replies : List Value) : Prop where
  writes : client.stream.refusesWrites = none
  closes : client.stream.ending = .closed
  bytes : client.buffer ++ client.stream.incoming.flatten = replies.flatMap Value.encode
  framed : ∀ reply ∈ replies, reply.Framed Wire.maxDepth

/-- Where a whole reply comes first it is got, and what comes after it is left. -/
theorem awaitReply_of_encode_append {reply : Value} (h : reply.Framed Wire.maxDepth)
    (ending : StreamEnd) {buffer rest : Bytes} {incoming : List Bytes}
    (hbytes : buffer ++ incoming.flatten = reply.encode ++ rest) :
    ∃ behind left, awaitReply ending buffer incoming = (.ok reply, behind, left) ∧
      behind ++ left.flatten = rest := by
  obtain ⟨taken, left, rfl, -, hstops⟩ := exists_stops ending buffer incoming
  rw [List.flatten_append, ← List.append_assoc] at hbytes
  have harrived := Wire.read_of_encode_append h hbytes
  generalize awaitReply ending buffer (taken ++ left) = outcome at hstops ⊢
  cases hstops with
  | replied hread =>
    rcases harrived with hneeds | ⟨behind, hdone, hrest⟩
    · cases hread.symm.trans hneeds
    · obtain ⟨rfl, rfl⟩ := Reading.done.inj (hread.symm.trans hdone)
      exact ⟨_, left, rfl, hrest⟩
  | malformed hread =>
    rcases harrived with hneeds | ⟨behind, hdone, -⟩
    · cases hread.symm.trans hneeds
    · cases hread.symm.trans hdone
  | ended hread =>
    -- the reply has arrived as a whole, so nothing more is needed
    rw [List.flatten_nil, List.append_nil] at hbytes
    rw [hbytes, Wire.read_encode h] at hread
    cases hread

/-- Where nothing arrives any more, waiting fails. -/
theorem awaitReply_of_flatten_eq_nil (ending : StreamEnd) {buffer : Bytes} {incoming : List Bytes}
    (hbytes : buffer ++ incoming.flatten = []) :
    awaitReply ending buffer incoming = (.error (failureAt ending), [], []) := by
  obtain ⟨taken, left, rfl, -, hstops⟩ := exists_stops ending buffer incoming
  rw [List.flatten_append, ← List.append_assoc] at hbytes
  obtain ⟨hreceived, -⟩ := List.append_eq_nil_iff.1 hbytes
  rw [hreceived] at hstops
  generalize awaitReply ending buffer (taken ++ left) = outcome at hstops ⊢
  cases hstops with
  | replied hread => cases hread
  | malformed hread => cases hread
  | ended => rfl

/-- A request gets the first of the replies that are owed, or a failure if none is. The others are
owed to the requests after it. -/
theorem Owed.send (h : client.Owed replies) (line : CommandLine) :
    (client.send line).written = encodeCommandLine line ∧
      (client.send line).result = replies.head?.elim (.error closedByPeer) .ok ∧
      (client.send line).client.Owed replies.tail := by
  have hbytes := h.bytes
  cases replies with
  | nil =>
    have hawait := awaitReply_of_flatten_eq_nil client.stream.ending hbytes
    rw [send_of_awaitReply client h.writes hawait]
    exact ⟨rfl, by rw [h.closes]; rfl, h.writes, h.closes, rfl, h.framed⟩
  | cons reply more =>
    obtain ⟨hreply, hmore⟩ := List.forall_mem_cons.1 h.framed
    rw [List.flatMap_cons] at hbytes
    obtain ⟨behind, left, hawait, hleft⟩ :=
      awaitReply_of_encode_append hreply client.stream.ending hbytes
    rw [send_of_awaitReply client h.writes hawait]
    exact ⟨rfl, rfl, h.writes, h.closes, hleft, hmore⟩

/-- Every request takes one reply off the front of what is owed. -/
theorem Owed.after (h : client.Owed replies) (lines : List CommandLine) :
    (client.after lines).Owed (replies.drop lines.length) := by
  induction lines generalizing client replies with
  | nil => exact h
  | cons line more ih =>
    rw [after_cons, List.length_cons, ← List.drop_tail]
    exact ih (h.send line).2.2

/-! ### Requests after a failure -/

/-- Every request fails, for the same reason, and leaves everything as it is. -/
def Stuck (client : PeerClient) (failure : Failure) : Prop :=
  ∀ line, (client.send line).result = .error failure ∧ (client.send line).client = client

/-- A client is stuck once a request has failed. -/
theorem Stuck.of_send {line : CommandLine} {failure : Failure}
    (h : (client.send line).result = .error failure) : (client.send line).client.Stuck failure := by
  intro next
  cases hwrites : client.stream.refusesWrites with
  | some refused =>
    simp only [PeerClient.send, hwrites] at h ⊢
    exact ⟨h, trivial⟩
  | none =>
    generalize hawait : awaitReply client.stream.ending client.buffer client.stream.incoming =
      outcome
    obtain ⟨result, received, left⟩ := outcome
    rw [send_of_awaitReply client hwrites hawait] at h ⊢
    subst h
    have hagain := awaitReply_of_error hawait
    rw [send_of_awaitReply (client.withReceived received left) hwrites hagain]
    exact ⟨rfl, rfl⟩

theorem Stuck.after {failure : Failure} (h : client.Stuck failure) (lines : List CommandLine) :
    client.after lines = client := by
  induction lines with
  | nil => rfl
  | cons line more ih => rw [after_cons, (h line).2, ih]

/-! ### Requests and their replies -/

/-- Over a stream that consists of encodable replies, in whatever chunks, every request is written
as it is and gets the reply with the same number, and a chunk is read only while what was received
holds no reply; the requests after the last reply fail, as the stream has been closed. Over any
stream, once a request has failed because the bytes received are malformed, all requests after it
fail for the same reason, and neither these bytes nor the chunks to come are touched again. -/
theorem send_pairs_replies :
    (∀ (address : String) (replies : List Value) (chunks : List Bytes),
      (∀ reply ∈ replies, reply.Framed Wire.maxDepth) →
      chunks.flatten = replies.flatMap Value.encode →
      ∀ (earlier : List CommandLine) (line : CommandLine),
        let client := (ofStream address ⟨chunks, .closed, none⟩).after earlier
        (client.send line).written = encodeCommandLine line ∧
        (client.send line).result = replies[earlier.length]?.elim (.error closedByPeer) .ok ∧
        ∃ taken, client.stream.incoming = taken ++ (client.send line).client.stream.incoming ∧
          ReadOnDemand client.buffer taken) ∧
    ∀ (client : PeerClient) (line : CommandLine) (reason : Malformed),
      (client.send line).result = .error ⟨.invalidData, reason.message⟩ →
      ∀ (later : List CommandLine) (next : CommandLine),
        let failed := (client.send line).client
        ((failed.after later).send next).result = .error ⟨.invalidData, reason.message⟩ ∧
        ((failed.after later).send next).client = failed := by
  refine ⟨fun address replies chunks hframed hbytes earlier line => ?_,
    fun client line reason hfails later next => ?_⟩
  · have howed : (ofStream address ⟨chunks, .closed, none⟩).Owed replies :=
      ⟨rfl, rfl, hbytes, hframed⟩
    obtain ⟨hwritten, hresult, -⟩ := (howed.after earlier).send line
    rw [List.head?_drop] at hresult
    exact ⟨hwritten, hresult, send_readOnDemand _ line⟩
  · have hstuck := Stuck.of_send hfails
    simp only [hstuck.after later]
    exact hstuck next

/-- Two replies, cut within the first and within the second. -/
def cutReplies : List Bytes :=
  ["+PO", "NG\r\n$-", "1\r\n"].map Text.toBytes

/-- A number that is none, and a reply after it. -/
def spoiltReplies : List Bytes :=
  [":x\r", "\n", "+OK\r\n"].map Text.toBytes

/-- The second request gets the second reply, and the third one finds the stream closed. The reply
after a malformed one is never read. -/
theorem send_pairs_replies_cutReplies :
    (∀ reply ∈ [Value.simple "PONG", .null], reply.Framed Wire.maxDepth) ∧
    cutReplies.flatten = [Value.simple "PONG", .null].flatMap Value.encode ∧
    (let client := (ofStream "peer" ⟨cutReplies, .closed, none⟩).after [[Text.toBytes "PING"]]
    (client.send [Text.toBytes "GET"]).result = .ok .null ∧
      ((client.send [Text.toBytes "GET"]).client.send []).result = .error closedByPeer) ∧
    let failed := ((ofStream "peer" ⟨spoiltReplies, .quiet, none⟩).send []).client
    failed.stream.incoming = [Text.toBytes "+OK\r\n"] ∧
      ((failed.after [[]]).send [Text.toBytes "PING"]).result =
        .error ⟨.invalidData, Malformed.notNumber.message⟩ ∧
      ((failed.after [[]]).send [Text.toBytes "PING"]).client.stream.incoming =
        [Text.toBytes "+OK\r\n"] := by
  have hframed : ∀ reply ∈ [Value.simple "PONG", .null], reply.Framed Wire.maxDepth := by
    have hline : ¬lineEnd <:+: Text.toBytes "PONG" := by decide +kernel
    simpa using hline
  have hbytes : cutReplies.flatten = [Value.simple "PONG", .null].flatMap Value.encode := by
    decide +kernel
  have hfails : ((ofStream "peer" ⟨spoiltReplies, .quiet, none⟩).send []).result =
      .error ⟨.invalidData, Malformed.notNumber.message⟩ := by
    with_unfolding_all rfl
  have hleft : ((ofStream "peer" ⟨spoiltReplies, .quiet, none⟩).send []).client.stream.incoming =
      [Text.toBytes "+OK\r\n"] := by
    with_unfolding_all rfl
  have hpairs := send_pairs_replies.1 "peer" _ _ hframed hbytes
  have hspoilt := send_pairs_replies.2 _ _ _ hfails [[]] [Text.toBytes "PING"]
  refine ⟨hframed, hbytes, ⟨(hpairs [[Text.toBytes "PING"]] [Text.toBytes "GET"]).2.1,
    (hpairs [[Text.toBytes "PING"], [Text.toBytes "GET"]] []).2.1⟩, hleft, hspoilt.1, ?_⟩
  exact (congrArg (fun client => client.stream.incoming) hspoilt.2).trans hleft

end RingStore.PeerClient
