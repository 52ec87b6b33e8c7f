import RingStore.PeerClient
import RingStore.Proofs.Wire.Extension

/-!
# Waiting for one reply

A client that waits for a reply reads a chunk only if it needs more bytes, and stops where the bytes
received hold a reply, can never become one, or are all that there is. So where any part of a reply
arrives, in any chunks, the client gets that reply or a failure, and never another value. If it gets
the reply then all of it has arrived, and nothing of it is left anywhere.

## Main definitions

* `PeerClient.ReadOnDemand`: chunks that were read because more bytes were needed.
* `PeerClient.Stops`: where waiting comes to an end.

## Main results

* `PeerClient.exists_stops`: what waiting for a reply comes to.
* `PeerClient.awaitReply_of_part`: waiting where some part of a reply's bytes arrives.
* `PeerClient.send_of_part`: the same of a whole request.
* `PeerClient.awaitReply_of_encode`: waiting where all bytes of a reply have been sent at once.
-/

namespace RingStore.PeerClient

/-- Chunks read one after the other, each of them only because the bytes received before it hold no
value yet. -/
def ReadOnDemand (buffer : Bytes) (taken : List Bytes) : Prop :=
  ∀ early chunk later, taken = early ++ chunk :: later →
    Wire.read (buffer ++ early.flatten) = .incomplete

theorem readOnDemand_nil (buffer : Bytes) : ReadOnDemand buffer [] := by
  intro early chunk later h
  cases early <;> cases h

theorem ReadOnDemand.cons {buffer chunk : Bytes} {taken : List Bytes}
    (hread : Wire.read buffer = .incomplete) (h : ReadOnDemand (buffer ++ chunk) taken) :
    ReadOnDemand buffer (chunk :: taken) := by
  intro early next later heq
  cases early with
  | nil => rwa [List.flatten_nil, List.append_nil]
  | cons first others =>
    obtain ⟨rfl, htaken⟩ := List.cons.inj heq
    have hothers := h others next later htaken
    rwa [List.append_assoc] at hothers

/-- What a client has come to that stops waiting, given the bytes received by then. -/
inductive Stops (ending : StreamEnd) (received : Bytes) :
    List Bytes → Except Failure Value × Bytes × List Bytes → Prop
  /-- A reply is there. -/
  | replied {reply : Value} {rest : Bytes} {left : List Bytes} :
    Wire.read received = .done reply rest → Stops ending received left (.ok reply, rest, left)
  /-- No reply can come of the bytes, which stay where they are. -/
  | malformed {reason : Malformed} {left : List Bytes} :
    Wire.read received = .malformed reason →
      Stops ending received left (.error ⟨.invalidData, reason.message⟩, received, left)
  /-- The reply needs more bytes, and there are none. -/
  | ended : Wire.read received = .incomplete →
      Stops ending received [] (.error (failureAt ending), received, [])

section Waiting

variable {ending : StreamEnd} {received : Bytes} {left : List Bytes}
  {outcome : Except Failure Value × Bytes × List Bytes}

/-- Where a client stops it reads nothing. -/
theorem Stops.awaitReply (h : Stops ending received left outcome) :
    PeerClient.awaitReply ending received left = outcome := by
  cases h with
  | replied hread => rw [PeerClient.awaitReply.eq_def, hread]
  | malformed hread => rw [PeerClient.awaitReply.eq_def, hread]
  | ended hread => rw [PeerClient.awaitReply.eq_def, hread]

/-- The chunks that were not read stay. -/
theorem Stops.left_eq (h : Stops ending received left outcome) : outcome.2.2 = left := by
  cases h <;> rfl

/-- A client that waits reads some of the chunks, each because it needs more bytes, and stops. -/
theorem exists_stops (ending : StreamEnd) (buffer : Bytes) (incoming : List Bytes) :
    ∃ taken left, incoming = taken ++ left ∧ ReadOnDemand buffer taken ∧
      Stops ending (buffer ++ taken.flatten) left (awaitReply ending buffer incoming) := by
  induction incoming generalizing buffer with
  | nil =>
    refine ⟨[], [], rfl, readOnDemand_nil buffer, ?_⟩
    rw [awaitReply, List.flatten_nil, List.append_nil]
    cases hread : Wire.read buffer with
    | done reply rest => exact .replied hread
    | malformed reason => exact .malformed hread
    | incomplete => exact .ended hread
  | cons chunk more ih =>
    rw [awaitReply]
    cases hread : Wire.read buffer with
    | done reply rest =>
      refine ⟨[], chunk :: more, rfl, readOnDemand_nil buffer, ?_⟩
      rw [List.flatten_nil, List.append_nil]
      exact .replied hread
    | malformed reason =>
      refine ⟨[], chunk :: more, rfl, readOnDemand_nil buffer, ?_⟩
      rw [List.flatten_nil, List.append_nil]
      exact .malformed hread
    | incomplete =>
      -- only here another chunk is read
      obtain ⟨taken, left, hmore, hdemand, hstops⟩ := ih (buffer ++ chunk)
      refine ⟨chunk :: taken, left, by rw [hmore, List.cons_append], hdemand.cons hread, ?_⟩
      rw [List.flatten_cons, ← List.append_assoc]
      exact hstops

/-- Waiting that failed fails again, for the same reason, and reads no more. -/
theorem awaitReply_of_error {buffer : Bytes} {incoming : List Bytes} {failure : Failure}
    (h : awaitReply ending buffer incoming = (.error failure, received, left)) :
    awaitReply ending received left = (.error failure, received, left) := by
  obtain ⟨taken, rest, -, -, hstops⟩ := exists_stops ending buffer incoming
  rw [h] at hstops
  generalize hat : buffer ++ taken.flatten = stopped at hstops
  cases hstops with
  | malformed hread => exact (Stops.malformed hread).awaitReply
  | ended hread => exact (Stops.ended hread).awaitReply

end Waiting

/-- Where only a part of one reply's bytes can arrive, that reply is got or none. -/
theorem awaitReply_of_part {reply : Value} (h : reply.Framed Wire.maxDepth) (ending : StreamEnd)
    {buffer : Bytes} {incoming : List Bytes} (hpart : buffer ++ incoming.flatten <+: reply.encode) :
    (∃ left, awaitReply ending buffer incoming = (.ok reply, [], left) ∧ left.flatten = [] ∧
      buffer ++ incoming.flatten = reply.encode) ∨
    ∃ failure buffer' left, awaitReply ending buffer incoming =
      (.error failure, buffer', left) := by
  obtain ⟨taken, left, rfl, -, hstops⟩ := exists_stops ending buffer incoming
  rw [List.flatten_append, ← List.append_assoc] at hpart ⊢
  generalize awaitReply ending buffer (taken ++ left) = outcome at hstops ⊢
  cases hstops with
  | replied hread =>
    obtain ⟨rfl, rfl, hreceived⟩ :=
      Wire.eq_of_read_part h ((List.prefix_append _ _).trans hpart) hread
    -- what was received is already the whole reply, so the chunks not yet read are empty
    rw [hreceived] at hpart ⊢
    have hleft : left.flatten = [] := by
      have hlength := hpart.length_le
      rw [List.length_append] at hlength
      exact List.eq_nil_of_length_eq_zero (by omega)
    exact .inl ⟨left, rfl, hleft, by rw [hleft, List.append_nil]⟩
  | malformed hread => exact .inr ⟨_, _, _, rfl⟩
  | ended hread => exact .inr ⟨_, _, _, rfl⟩

/-- A reply that has been sent at once is got at once. -/
theorem awaitReply_of_encode {reply : Value} (h : reply.Framed Wire.maxDepth) (ending : StreamEnd) :
    awaitReply ending [] [reply.encode] = (.ok reply, [], []) := by
  unfold awaitReply
  simp only [Wire.read]
  unfold awaitReply
  rw [List.nil_append, Wire.read_encode_iff.2 h]

/-- A client without left-over bytes, to which a part of one reply's bytes comes, gets that reply,
with nothing left over again, or a failure. -/
theorem send_of_part (client : PeerClient) (hbuffer : client.buffer = []) {reply : Value}
    (h : reply.Framed Wire.maxDepth) (hpart : client.stream.incoming.flatten <+: reply.encode)
    (line : CommandLine) :
    ((client.send line).result = .ok reply ∧ (client.send line).client.buffer = [] ∧
      (client.send line).client.stream.incoming.flatten = [] ∧
      client.stream.incoming.flatten = reply.encode) ∨
    ∃ failure, (client.send line).result = .error failure := by
  cases hwrite : client.stream.refusesWrites with
  | some failure =>
    refine .inr ⟨failure, ?_⟩
    simp only [send, hwrite]
  | none =>
    have hbytes :
        client.buffer ++ client.stream.incoming.flatten = client.stream.incoming.flatten := by
      rw [hbuffer, List.nil_append]
    rw [← hbytes] at hpart ⊢
    rcases awaitReply_of_part h client.stream.ending hpart with
      ⟨left, hawait, hleft, hwhole⟩ | ⟨failure, buffer, left, hawait⟩
    · left
      simp only [send, hwrite, receive, hawait]
      exact ⟨trivial, trivial, hleft, hwhole⟩
    · refine .inr ⟨failure, ?_⟩
      simp only [send, hwrite, receive, hawait]

end RingStore.PeerClient
