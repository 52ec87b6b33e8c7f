import RingStore.Connection
import RingStore.Proofs.Wire.ReadAll

/-!
# What a connection sends

A connection whose client takes every reply answers all requests that have arrived and sends the
replies one after the other. Nothing is sent in between, and only bytes that are malformed are
answered by something that is no reply to a request.

## Main definitions

* `Connection.replies`: the replies to requests answered one after the other.
* `Connection.complaints`: what is sent about bytes that are malformed.

## Main results

* `Connection.drain_of_done`: answering the first request.
* `Connection.sent_drain`: everything that is sent.
* `Connection.drain_of_encodeCommandLine`: answering one command line.
-/

namespace RingStore.Connection

variable {σ : Type}

/-- The replies to requests answered one after the other, each with its request. -/
def replies (service : Service σ) (state : σ) (session : Session) :
    List Value → List (Value × Value)
  | [] => []
  | request :: rest =>
    let answer := (mk state session [] []).answerFrame service request
    (answer.2.map fun reply => (request, reply)).toList ++
      replies service answer.1.state answer.1.session rest

/-- What is sent about bytes of which no further request can be read. -/
def complaints (left : Bytes) : List Value :=
  match Wire.read left with
  | .malformed reason => [(Refusal.protocol reason).reply]
  | _ => []

/-- An answer depends on the state and the session only. -/
theorem answerFrame_eq (service : Service σ) (connection : Connection σ) (request : Value) :
    connection.answerFrame service request =
      let (answered, reply) :=
        (mk connection.state connection.session [] []).answerFrame service request
      ({ connection with state := answered.state, session := answered.session }, reply) := by
  unfold answerFrame
  dsimp only
  split
  · rfl
  · split <;> rfl

/-- What is neither a command line nor the empty array is refused, and nothing is executed. -/
theorem answerFrame_of_not_command (service : Service σ) (connection : Connection σ)
    {request : Value} (hline : request.commandLine? = none) (hempty : request ≠ .array []) :
    connection.answerFrame service request = (connection, some Refusal.notACommand.reply) := by
  cases request with
  | array items =>
    cases items with
    | nil => exact absurd rfl hempty
    | cons first rest => simp only [answerFrame, hline]
  | _ => rfl

/-- The connection after a reply, if there is one, has reached the client. -/
def tellAll (connection : Connection σ) (reply : Option Value) : Connection σ :=
  { connection with sent := connection.sent ++ reply.toList.flatMap Value.encode }

variable (service : Service σ) (limit : Nat) (connection : Connection σ)

/-- The first request that has arrived is answered, and then the others are. -/
theorem drain_of_done {request : Value} {rest : Bytes}
    (hread : Wire.read connection.buffer = .done request rest) :
    connection.drain service ⟨limit, none⟩ =
      let (answered, reply) := (connection.withBuffer rest).answerFrame service request
      (answered.tellAll reply).drain service ⟨limit, none⟩ := by
  rw [drain]
  split
  · next h => rw [hread] at h; cases h
  · next h => rw [hread] at h; cases h
  · next h =>
    rw [hread] at h
    cases h
    split
    · next answered hanswer =>
      simp only [hanswer]
      simp [tellAll]
    · next answered reply hanswer =>
      simp only [hanswer]
      simp [tellAll, tell]

/-- Without a whole request nothing is done. -/
theorem drain_of_incomplete (hread : Wire.read connection.buffer = .incomplete) :
    connection.drain service ⟨limit, none⟩ = (connection, none) := by
  rw [drain]
  split
  · rfl
  · next h => rw [hread] at h; cases h
  · next h => rw [hread] at h; cases h

/-- Malformed bytes are dropped and answered by an error. -/
theorem drain_of_malformed {reason : Malformed}
    (hread : Wire.read connection.buffer = .malformed reason) :
    connection.drain service ⟨limit, none⟩ =
      ((connection.withBuffer []).tell (Refusal.protocol reason).reply, none) := by
  rw [drain]
  split
  · next h => rw [hread] at h; cases h
  · next h => rw [hread] at h; cases h; rfl
  · next h => rw [hread] at h; cases h

/-- Everything that is sent: the replies to all requests that have arrived, and what is sent about
the bytes after them. -/
theorem sent_drain :
    (connection.drain service ⟨limit, none⟩).1.sent =
      connection.sent ++
        ((replies service connection.state connection.session
            (Wire.readAll connection.buffer).1).map Prod.snd ++
          complaints (Wire.readAll connection.buffer).2).flatMap Value.encode := by
  -- each request leaves fewer bytes
  induction hlength : connection.buffer.length using Nat.strongRecOn generalizing connection with
  | _ length ih =>
    cases hread : Wire.read connection.buffer with
    | incomplete =>
      rw [drain_of_incomplete _ _ _ hread, Wire.readAll_of_not_done (by simp [hread])]
      simp [complaints, hread, replies]
    | malformed reason =>
      rw [drain_of_malformed _ _ _ hread, Wire.readAll_of_not_done (by simp [hread])]
      simp [complaints, hread, replies, tell, withBuffer]
    | done request rest =>
      rw [drain_of_done _ _ _ hread, answerFrame_eq, Wire.readAll_of_done hread]
      dsimp only [withBuffer]
      rw [ih rest.length (hlength ▸ Wire.length_lt_of_read hread) _ rfl]
      simp only [tellAll, replies]
      cases (answerFrame service ⟨connection.state, connection.session, [], []⟩ request).2 <;> simp

/-- One command line that has arrived as a whole is executed and answered. -/
theorem drain_of_encodeCommandLine {line : CommandLine} (hline : line.Framed) (hne : line ≠ [])
    (hbuffer : connection.buffer = encodeCommandLine line) :
    let served := service connection.state connection.session line
    connection.drain service ⟨limit, none⟩ =
      (⟨served.state, served.session, [], connection.sent ++ served.reply.encode⟩, none) := by
  intro served
  have hread : Wire.read connection.buffer = .done (.array (line.map .bulk)) [] := by
    rw [hbuffer, ← List.append_nil (encodeCommandLine line)]
    exact Wire.read_encodeCommandLine hline []
  have hframe : Value.commandLine? (.array (line.map .bulk)) = some line :=
    Value.commandLine?_request hne
  have hanswer : ∃ told : Option Value,
      (connection.withBuffer []).answerFrame service (.array (line.map .bulk)) =
        ({ connection with state := served.state, session := served.session, buffer := [] }, told) ∧
      told.toList.flatMap Value.encode = served.reply.encode := by
    have hserved :
        service (connection.withBuffer []).state (connection.withBuffer []).session line =
          served := rfl
    simp only [answerFrame, hframe, hserved]
    refine ⟨_, rfl, ?_⟩
    -- a silent reply is not sent, and has no bytes
    generalize served.reply = reply
    cases reply <;> simp [Value.encode]
  obtain ⟨told, hanswer, hsent⟩ := hanswer
  rw [drain_of_done _ _ _ hread, hanswer]
  dsimp only [tellAll]
  rw [hsent]
  exact drain_of_incomplete _ _ _ rfl

end RingStore.Connection
