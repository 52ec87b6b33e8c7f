import RingStore.PeerClient
import RingStore.Proofs.Cluster.Errands
import RingStore.Proofs.Connection
import RingStore.Proofs.Wire.Overlong

/-!
# Passing a client's line on

A member that takes a command line from a client passes it on to other members as it is, or in
parts, or, for a line that every member executes, behind a marker. The marker is one more word. A
client may send as many words as a member reads at all, and such a line has one word too many as
soon as it is forwarded: the member that it is forwarded to refuses the bytes. This is the only line
of a client that is not passed on as it should be.

## Main results

* `Coordinator.part_or_marked`: what other members get of a line.
* `Coordinator.framed_forward_iff`: a marked line is within the limits unless it is the longest.
* `Coordinator.asked_line_read_back`: what another member reads and what it answers.
* `Coordinator.not_forall_asked_line_read_back`: the longest line of a client is not passed on.
-/

namespace RingStore

/-- Some words of a line within the limits are within the limits. -/
theorem CommandLine.Framed.sublist {line part : CommandLine} (h : line.Framed)
    (hpart : part.Sublist line) : part.Framed :=
  ⟨Nat.le_trans hpart.length_le h.count, fun word hword => h.words word (hpart.subset hword)⟩

/-- A client's framed request to run a line is within the limits. -/
theorem CommandLine.framed_of_read {first : UInt8} {tail rest : Bytes} {request : Value}
    {line : CommandLine} (hmark : Wire.isMark first = true)
    (hread : Wire.read (first :: tail) = .done request rest)
    (hline : request.commandLine? = some line) : line.Framed := by
  rw [Wire.read_cons, if_pos hmark] at hread
  obtain ⟨-, rfl⟩ := Value.commandLine?_eq_some_iff.1 hline
  exact Value.framed_request.1 (Wire.framed_of_readValue hread)

namespace Coordinator

/-- The words of a marked line are short enough if those of the line are. -/
theorem length_of_mem_forward {line : CommandLine} (h : line.Framed) {word : Bytes}
    (hword : word ∈ forward line) : word.length ≤ Wire.bulkLimit := by
  rcases List.mem_cons.1 hword with rfl | hword
  · decide +kernel
  · exact h.words word hword

/-- A marked line is within the limits exactly if there is room for one more word. -/
theorem framed_forward_iff {line : CommandLine} (h : line.Framed) :
    (forward line).Framed ↔ line.length ≠ Wire.arrayLimit := by
  have hcount := h.count
  have hlength : (forward line).length = line.length + 1 := List.length_cons
  constructor
  · intro hforward hfull
    have := hforward.count
    omega
  · intro hne
    exact ⟨by omega, fun word => length_of_mem_forward h⟩

variable {coordinator : Coordinator} {line : CommandLine} {errand : Errand}

/-- Another member gets the line as it is, or the part that concerns its keys, or the line behind a
marker. -/
theorem part_or_marked (h : errand ∈ coordinator.errands line)
    (hother : errand.member ≠ coordinator.self) :
    errand.line = line ∨
      (∃ name keys part, line = name :: keys ∧ errand.line = name :: part ∧ part.Sublist keys ∧
        ∀ key ∈ part, coordinator.owner key = errand.member) ∨
      errand.line = forward line := by
  cases entrusts_of_mem_errands h with
  | here => exact absurd rfl hother
  | forwarded => exact absurd rfl hother
  | firstKey => exact .inl rfl
  | sameOwner => exact .inl rfl
  | splitKeys route some sublist owns => exact .inr (.inl ⟨_, _, _, rfl, rfl, sublist, owns⟩)
  | broadcast => exact .inr (.inr (if_neg hother))

/-- So what another member gets are words of the marked line. -/
theorem sublist_forward (h : errand ∈ coordinator.errands line)
    (hother : errand.member ≠ coordinator.self) : errand.line.Sublist (forward line) := by
  rcases part_or_marked h hother with heq | ⟨name, keys, part, rfl, heq, hsub, -⟩ | heq
  · rw [heq]
    exact List.sublist_cons_self _ _
  · rw [heq]
    exact (hsub.cons_cons name).cons _
  · rw [heq]

/-- A line that every member executes is forwarded to every other one. -/
theorem mem_errands_of_broadcast {name : Bytes} {merge : Merge}
    (hroute : route? (Text.lowercase (Text.ofBytes name)) = some (.broadcast merge))
    {member : String} (hmember : member ∈ coordinator.members)
    (hother : member ≠ coordinator.self) {arguments : List Bytes} :
    ⟨member, forward (name :: arguments)⟩ ∈ coordinator.errands (name :: arguments) := by
  simp only [errands, hroute, errandsBy]
  refine List.mem_map.2 ⟨member, hmember, ?_⟩
  rw [lineFor, if_neg hother]

/-- What another member gets of a line within the limits is within the limits, unless it is the
longest line behind a marker. -/
theorem framed_of_asked (hline : line.Framed) (h : errand ∈ coordinator.errands line)
    (hother : errand.member ≠ coordinator.self)
    (hroom : ¬(errand.line = forward line ∧ line.length = Wire.arrayLimit)) :
    errand.line.Framed := by
  rcases part_or_marked h hother with heq | ⟨name, keys, part, rfl, heq, hsub, -⟩ | heq
  · rwa [heq]
  · rw [heq]
    exact hline.sublist (hsub.cons_cons _)
  · rw [heq]
    exact (framed_forward_iff hline).2 fun hfull => hroom ⟨heq, hfull⟩

/-- The longest line of all has one word too many as soon as it is marked, and to tell their number
is enough to be refused. -/
theorem read_forward_of_full (hfull : line.length = Wire.arrayLimit) (more : Bytes) :
    Wire.read (encodeLine 42 (Decimal.ofNat (forward line).length) ++ more) =
      .malformed (.arrayLength 1048577) := by
  have hlength : (forward line).length = 1048577 := by
    rw [forward, List.length_cons, hfull]
    decide
  rw [hlength, Wire.read_encodeLine_of_lt (by decide) (by decide)]
  rfl

/-- Words that come without the number of words are no requests: each of them is refused. -/
theorem drain_words {σ : Type} (service : Service σ) (limit : Nat) (state : σ) (session : Session)
    (sent : Bytes) {words : List Bytes} (hwords : ∀ word ∈ words, word.length ≤ Wire.bulkLimit) :
    (Connection.mk state session (words.flatMap encodeBulk) sent).drain service ⟨limit, none⟩ =
      (⟨state, session, [],
        sent ++ words.flatMap fun _ => Refusal.notACommand.reply.encode⟩, none) := by
  induction words generalizing sent with
  | nil =>
    rw [Connection.drain_of_incomplete _ _ _ rfl]
    simp
  | cons word more ih =>
    obtain ⟨hword, hmore⟩ := List.forall_mem_cons.1 hwords
    have hread : Wire.read ((word :: more).flatMap encodeBulk) =
        .done (.bulk word) (more.flatMap encodeBulk) := by
      have hencode : (Value.bulk word).encode = encodeBulk word := by rw [Value.encode]
      rw [List.flatMap_cons, ← hencode]
      exact Wire.read_encode (Value.framed_bulk.2 hword) _
    have hanswer : (Connection.mk state session (more.flatMap encodeBulk) sent).answerFrame service
        (.bulk word) = (_, some Refusal.notACommand.reply) :=
      Connection.answerFrame_of_not_command service _ rfl fun hempty => by cases hempty
    rw [Connection.drain_of_done _ _ _ hread]
    simp only [Connection.withBuffer, hanswer, Connection.tellAll, ih _ hmore]
    simp

/-- What a member sends to another one for a client's framed request is the client's line, or the
part of it that concerns the other member's keys, or the client's line behind a marker. The other
member reads this line and nothing else from the bytes, executes it once, sends its reply and
nothing else, and nothing is left over. The only exception is a line of as many words as there may
be at all: behind a marker it has one word too many, so that the other member answers an error and
executes nothing. Wherever the bytes are cut, the words behind the cut are then answered by an error
each. -/
theorem asked_line_read_back {first : UInt8} {tail rest : Bytes} {request : Value}
    (hmark : Wire.isMark first = true) (hread : Wire.read (first :: tail) = .done request rest)
    (hline : request.commandLine? = some line) (herrand : errand ∈ coordinator.errands line)
    (hother : errand.member ≠ coordinator.self) :
    (∀ client : PeerClient, client.stream.refusesWrites = none →
      (client.send errand.line).written = encodeCommandLine errand.line) ∧
    (errand.line = line ∨
      (∃ name keys part, line = name :: keys ∧ errand.line = name :: part ∧ part.Sublist keys ∧
        ∀ key ∈ part, coordinator.owner key = errand.member) ∨
      errand.line = forward line) ∧
    (¬(errand.line = forward line ∧ line.length = Wire.arrayLimit) →
      Wire.AsksToRun errand.line [] ∧
      ∀ {σ : Type} (service : Service σ) (limit : Nat) (state : σ) (session : Session)
        (sent : Bytes),
        let served := service state session errand.line
        (Connection.mk state session (encodeCommandLine errand.line) sent).drain service
            ⟨limit, none⟩ =
          (⟨served.state, served.session, [], sent ++ served.reply.encode⟩, none)) ∧
    (errand.line = forward line ∧ line.length = Wire.arrayLimit →
      ∀ front back, errand.line = front ++ back →
        let arrived := encodeLine 42 (Decimal.ofNat errand.line.length) ++ front.flatMap encodeBulk
        encodeCommandLine errand.line = arrived ++ back.flatMap encodeBulk ∧
        ∀ {σ : Type} (service : Service σ) (limit : Nat) (state : σ) (session : Session)
          (sent : Bytes),
          (Connection.mk state session arrived sent).drain service ⟨limit, none⟩ =
            (⟨state, session, [],
              sent ++ (Refusal.protocol (.arrayLength 1048577)).reply.encode⟩, none) ∧
          (Connection.mk state session (back.flatMap encodeBulk) sent).drain service
              ⟨limit, none⟩ =
            (⟨state, session, [],
              sent ++ back.flatMap fun _ => Refusal.notACommand.reply.encode⟩, none)) := by
  have hframed := CommandLine.framed_of_read hmark hread hline
  have hne := (entrusts_of_mem_errands herrand).line_ne_nil
  refine ⟨fun client hwrites => ?_, part_or_marked herrand hother, fun hroom => ?_, ?_⟩
  · simp only [PeerClient.send, hwrites]
  · -- within the limits the bytes are those of one request
    have hasked := framed_of_asked hframed herrand hother hroom
    refine ⟨⟨_, Wire.read_encodeCommandLine hasked [], Value.commandLine?_request hne⟩, ?_⟩
    intro σ service limit state session sent
    exact Connection.drain_of_encodeCommandLine service limit
      (.mk state session (encodeCommandLine errand.line) sent) hasked hne rfl
  · rintro ⟨hmarked, hfull⟩ front back hcut arrived
    have hrefused : Wire.read arrived = .malformed (.arrayLength 1048577) := by
      simp only [arrived, hmarked]
      exact read_forward_of_full hfull _
    refine ⟨?_, fun service limit state session sent => ⟨?_, ?_⟩⟩
    · simp only [arrived, encodeCommandLine, List.append_assoc, ← List.flatMap_append, ← hcut]
    · exact Connection.drain_of_malformed service limit (.mk state session arrived sent) hrefused
    · refine drain_words service limit state session sent fun word hword => ?_
      have hmem : word ∈ forward line := by
        rw [← hmarked, hcut]
        exact List.mem_append_right _ hword
      exact length_of_mem_forward hframed hmem

theorem route?_dbSize : route? (Text.lowercase (Text.ofBytes (Text.toBytes "DBSIZE"))) =
    some (.broadcast .sumIntegers) := by
  decide +kernel

/-- A member of two has the other one count its keys. -/
theorem asked_line_read_back_dbSize :
    let line : CommandLine := [Text.toBytes "DBSIZE"]
    let asked : Errand := ⟨"second", forward line⟩
    (∃ request, Wire.read (encodeCommandLine line) = .done request [] ∧
      request.commandLine? = some line) ∧
      asked ∈ (ofPeers "first" ["second"] 64).errands line ∧ Wire.AsksToRun asked.line [] := by
  intro line asked
  have hline : line.Framed := ⟨by decide +kernel, by decide +kernel⟩
  have hread : Wire.read (encodeCommandLine line) = .done (.array (line.map .bulk)) [] :=
    Wire.read_encodeCommandLine_iff.2 hline
  have hask : asked ∈ (ofPeers "first" ["second"] 64).errands line :=
    mem_errands_of_broadcast route?_dbSize (.head _) (by decide)
  obtain ⟨-, -, hpassed, -⟩ :=
    asked_line_read_back (by decide) hread (Value.commandLine?_request (by simp [line])) hask
      (show "second" ≠ "first" by decide)
  have hroom : ¬(asked.line = forward line ∧ line.length = Wire.arrayLimit) := fun h =>
    absurd h.2 (by decide +kernel)
  exact ⟨⟨_, hread, Value.commandLine?_request (by simp [line])⟩, hask, (hpassed hroom).1⟩

/-- A name can be followed by so many empty words that there may be no more. -/
theorem exists_full_line {name : Bytes} (hname : name.length ≤ Wire.bulkLimit) :
    ∃ arguments, (name :: arguments).length = Wire.arrayLimit ∧
      CommandLine.Framed (name :: arguments) := by
  have hfull : (name :: List.replicate (Wire.arrayLimit - 1) []).length = Wire.arrayLimit := by
    rw [List.length_cons, List.length_replicate]
    exact Nat.sub_add_cancel (by decide)
  refine ⟨_, hfull, Nat.le_of_eq hfull, List.forall_mem_cons.2 ⟨hname, fun word hword => ?_⟩⟩
  rw [List.eq_of_mem_replicate hword]
  exact Nat.zero_le _

/-- The longest line that a client can send is not read back by the member that it is forwarded
to. -/
theorem not_forall_asked_line_read_back :
    ¬∀ (coordinator : Coordinator) (tail rest : Bytes) (request : Value) (line : CommandLine)
      (errand : Errand), Wire.read (42 :: tail) = .done request rest →
        request.commandLine? = some line → errand ∈ coordinator.errands line →
          errand.member ≠ coordinator.self → Wire.AsksToRun errand.line [] := by
  intro hall
  -- the command takes no argument, but nobody counts them before the line is forwarded
  obtain ⟨arguments, hfull, hline⟩ :=
    exists_full_line (show (Text.toBytes "DBSIZE").length ≤ Wire.bulkLimit by decide +kernel)
  generalize hname : Text.toBytes "DBSIZE" :: arguments = line at *
  have hask : (⟨"second", forward line⟩ : Errand) ∈
      (ofPeers "first" ["second"] 64).errands line := by
    rw [← hname]
    exact mem_errands_of_broadcast route?_dbSize (.head _) (by decide)
  have hne : line ≠ [] := hname ▸ List.cons_ne_nil _ _
  obtain ⟨request, hread, -⟩ := hall _ _ [] _ line _ (Wire.read_encodeCommandLine_iff.2 hline)
    (Value.commandLine?_request hne) hask (show "second" ≠ "first" by decide)
  rw [encodeCommandLine, List.append_assoc, read_forward_of_full hfull] at hread
  cases hread

end Coordinator

end RingStore
