import RingStore.Command.Catalogue
import RingStore.Proofs.Connection
import RingStore.Proofs.Wire.Feeding

/-!
# A connection as a dialogue

A client need not know in which chunks its requests arrive, nor that several may wait for an answer
at once. What it sees is a *dialogue*: its requests are taken one by one, and each is answered
before the next is taken. A connection that has answered all requests that have arrived *shows*
such a dialogue, and what it has sent is the replies of the dialogue, one after the other.

The argument goes through the three loops of a connection, from the inside out: one request, all
requests that have arrived, all chunks.

## Main definitions

* `Dialogue`: a service's state, a client's session and the replies so far.
* `Dialogue.take`: taking one request.
* `Connection.Shows`: what a connection has done so far is what the dialogue has done.
* `Connection.Takes`: chunks that a connection takes in, for they are neither malformed nor too
  long.
* `Wire.Readable`: no malformed bytes follow the requests of a stream.

## Main results

* `Connection.Shows.answerFrame`: answering a request.
* `Connection.Shows.drain`: answering all requests that have arrived.
* `Connection.Shows.handle_append`: taking in the first chunks of a stream.
* `Connection.Shows.handle_of_takes`: a whole connection.
* `Connection.handle_eq_takeAll`: a connection sends the replies of the dialogue, however its
  requests were cut into chunks.
-/

namespace RingStore

variable {σ : Type}

/-- Requests that are taken one by one. -/
structure Dialogue (σ : Type) where
  /-- The service's state. -/
  state : σ
  /-- The client's session. -/
  session : Session
  /-- The replies so far, in order. -/
  replies : List Value

namespace Dialogue

/-- A dialogue in which nothing was said yet. -/
def start (state : σ) : Dialogue σ :=
  ⟨state, .start, []⟩

/-- The dialogue after a reply. Silence is no reply. -/
def answer (dialogue : Dialogue σ) : Value → Dialogue σ
  | .silent => dialogue
  | reply => { dialogue with replies := dialogue.replies ++ [reply] }

/-- Takes one request: the empty array asks for nothing, a command line is executed, and anything
else is refused and touches nothing. -/
def take (service : Service σ) (dialogue : Dialogue σ) (request : Value) : Dialogue σ :=
  match request with
  | .array [] => dialogue
  | _ =>
    match request.commandLine? with
    | some line =>
      let served := service dialogue.state dialogue.session line
      { dialogue with state := served.state, session := served.session }.answer served.reply
    | none => dialogue.answer (.error "ERR invalid command format")

theorem take_of_commandLine? (service : Service σ) (dialogue : Dialogue σ) {request : Value}
    {line : CommandLine} (hline : request.commandLine? = some line) :
    dialogue.take service request =
      let served := service dialogue.state dialogue.session line
      { dialogue with state := served.state, session := served.session }.answer served.reply := by
  unfold take
  split
  · cases hline
  · rw [hline]

theorem take_of_not_command (service : Service σ) (dialogue : Dialogue σ) {request : Value}
    (hline : request.commandLine? = none) (hempty : request ≠ .array []) :
    dialogue.take service request = dialogue.answer (.error "ERR invalid command format") := by
  unfold take
  split
  · exact absurd rfl hempty
  · rw [hline]

theorem state_answer (dialogue : Dialogue σ) (reply : Value) :
    (dialogue.answer reply).state = dialogue.state := by
  cases reply <;> rfl

theorem session_answer (dialogue : Dialogue σ) (reply : Value) :
    (dialogue.answer reply).session = dialogue.session := by
  cases reply <;> rfl

/-- The bytes of a reply follow those of the replies before it, and silence has none. -/
theorem flatMap_answer (dialogue : Dialogue σ) (reply : Value) :
    (dialogue.answer reply).replies.flatMap Value.encode =
      dialogue.replies.flatMap Value.encode ++ reply.encode := by
  cases reply <;> simp [answer, Value.encode]

/-- Takes requests one by one. -/
def takeAll (service : Service σ) (dialogue : Dialogue σ) (requests : List Value) : Dialogue σ :=
  requests.foldl (take service) dialogue

theorem takeAll_append (service : Service σ) (dialogue : Dialogue σ) (first second : List Value) :
    dialogue.takeAll service (first ++ second) =
      (dialogue.takeAll service first).takeAll service second :=
  List.foldl_append

end Dialogue

namespace Wire

/-- No malformed bytes follow the values that stand at the start of a stream. -/
def Readable (stream : Bytes) : Prop :=
  ∀ reason, read (readAll stream).2 ≠ .malformed reason

theorem Readable.rest {stream rest : Bytes} {value : Value} (h : Readable stream)
    (hread : read stream = .done value rest) : Readable rest := by
  rwa [Readable, readAll_of_done hread] at h

/-- The values that have arrived as a whole may be read off the stream at once. -/
theorem readable_append_iff {arrived more : Bytes} :
    Readable (arrived ++ more) ↔ Readable ((readAll arrived).2 ++ more) := by
  rw [Readable, readAll_append]
  rfl

/-- What is left of such a stream waits for more bytes. -/
theorem Readable.read_left {stream : Bytes} (h : Readable stream) :
    read (readAll stream).2 = .incomplete := by
  cases hread : read (readAll stream).2 with
  | incomplete => rfl
  | malformed reason => exact absurd hread (h reason)
  | done value rest => exact absurd hread (read_readAll_ne_done stream value rest)

/-- Where no inline request is too long, a stream has no malformed bytes before its end if it has
none as a whole. -/
theorem Readable.of_append {arrived more : Bytes} (h : Readable (arrived ++ more))
    (hshort : (arrived ++ more).length ≤ maxInlineLength) : Readable arrived := by
  intro reason hread
  have hle : ((readAll arrived).2 ++ more).length ≤ maxInlineLength := by
    rw [List.length_append] at hshort ⊢
    exact Nat.le_trans (Nat.add_le_add_right (length_readAll_le arrived) _) hshort
  -- what is left of the bytes that have arrived would be malformed with the others behind it, too
  have hmore := (shortLines_of_length_le hle).read_append hread
  rw [readable_append_iff, Readable, readAll_of_not_done (by simp [hmore])] at h
  exact h reason hmore

end Wire

namespace Connection

/-- What a connection has done so far is what a dialogue has done. -/
structure Shows (connection : Connection σ) (dialogue : Dialogue σ) : Prop where
  /-- The service is in the same state. -/
  state : connection.state = dialogue.state
  /-- The client has the same session. -/
  session : connection.session = dialogue.session
  /-- The replies were sent, one after the other, and nothing else. -/
  sent : connection.sent = dialogue.replies.flatMap Value.encode

variable {connection : Connection σ} {dialogue : Dialogue σ}

theorem shows_start (state : σ) : (start state).Shows (.start state) :=
  ⟨rfl, rfl, rfl⟩

/-- What is still to be answered does not matter. -/
theorem Shows.withBuffer (h : connection.Shows dialogue) (buffer : Bytes) :
    (connection.withBuffer buffer).Shows dialogue :=
  ⟨h.state, h.session, h.sent⟩

/-- What is told to the client is said in the dialogue. -/
theorem Shows.tellAll (h : connection.Shows dialogue) {told : Option Value} {reply : Value}
    (htold : told.getD .silent = reply) :
    (connection.tellAll told).Shows (dialogue.answer reply) where
  state := by
    rw [Dialogue.state_answer]
    exact h.state
  session := by
    rw [Dialogue.session_answer]
    exact h.session
  sent := by
    rw [Dialogue.flatMap_answer, ← h.sent, ← htold]
    cases told <;> simp [Connection.tellAll, Value.encode]

/-- A request is answered as in the dialogue. -/
theorem Shows.answerFrame (h : connection.Shows dialogue) (service : Service σ) (request : Value) :
    let (answered, told) := connection.answerFrame service request
    (answered.tellAll told).Shows (dialogue.take service request) := by
  cases hline : request.commandLine? with
  | some line =>
    rw [Dialogue.take_of_commandLine? service dialogue hline]
    -- the service is in the same state and knows the same session, so it serves the same
    simp only [Connection.answerFrame, hline, h.state, h.session]
    generalize service dialogue.state dialogue.session line = served
    have hserved : Shows { connection with state := served.state, session := served.session }
        { dialogue with state := served.state, session := served.session } := ⟨rfl, rfl, h.sent⟩
    exact hserved.tellAll (by cases served.reply <;> rfl)
  | none =>
    by_cases hempty : request = .array []
    · subst hempty
      exact h.tellAll (rfl : none.getD Value.silent = .silent)
    · rw [Dialogue.take_of_not_command service dialogue hline hempty,
        answerFrame_of_not_command service connection hline hempty]
      exact h.tellAll rfl

/-- All requests that have arrived are answered as in the dialogue. -/
theorem Shows.drain (h : connection.Shows dialogue) (service : Service σ) (limit : Nat)
    (hread : Wire.Readable connection.buffer) :
    ∃ drained, connection.drain service ⟨limit, none⟩ = (drained, none) ∧
      drained.buffer = (Wire.readAll connection.buffer).2 ∧
      drained.Shows (dialogue.takeAll service (Wire.readAll connection.buffer).1) := by
  -- the requests that have arrived are counted off as they are read
  induction hbuffer : connection.buffer using Wire.readAll.induct
    generalizing connection dialogue with
  | case1 buffer request rest hrequest _ _ _ _ ih =>
    subst hbuffer
    have hanswer := (h.withBuffer rest).answerFrame service request
    have hrest := buffer_answerFrame service (connection.withBuffer rest) request
    rw [drain_of_done _ _ _ hrequest, Wire.readAll_of_done hrequest]
    generalize (connection.withBuffer rest).answerFrame service request = answer at hanswer hrest
    exact ih hanswer (hrest ▸ hread.rest hrequest) hrest
  | case2 buffer hrequest =>
    subst hbuffer
    rw [Wire.readAll_of_not_done hrequest]
    refine ⟨connection, ?_, rfl, h⟩
    cases hstop : Wire.read connection.buffer with
    | incomplete => exact drain_of_incomplete _ _ _ hstop
    | done request rest => exact (hrequest request rest hstop).elim
    | malformed reason =>
      rw [Wire.Readable, Wire.readAll_of_not_done hrequest] at hread
      exact absurd hstop (hread reason)

/-- Bytes within the bound are taken in. -/
theorem receive_of_length_le (options : ConnectionOptions) {chunk : Bytes}
    (h : (connection.buffer ++ chunk).length ≤ options.maxQueryBuffer) :
    connection.receive options chunk =
      (connection.withBuffer (connection.buffer ++ chunk), none) :=
  if_neg (Nat.not_lt.2 h)

/-- The failure of a connection whose client goes away: an incomplete request was left. -/
def unfinished (connection : Connection σ) : Option Failure :=
  if connection.buffer = [] then none else some resetByPeer

/-- The end of the stream leaves a connection as it is. -/
theorem finish_of_length_le (options : ConnectionOptions)
    (h : connection.buffer.length ≤ options.maxQueryBuffer) :
    connection.finish options = (connection, connection.unfinished) := by
  have hend : (connection.buffer ++ []).length ≤ options.maxQueryBuffer := by
    rwa [List.append_nil]
  rw [finish, receive_of_length_le options hend, List.append_nil]
  rfl

/-- Each chunk is within the bound together with the incomplete request that waits for it, if
`buffer` waits to be answered at first. -/
def ReadsWithin (limit : Nat) (buffer : Bytes) (chunks : List Bytes) : Prop :=
  ∀ early chunk, early ++ [chunk] <+: chunks →
    ((Wire.readAll (buffer ++ early.flatten)).2 ++ chunk).length ≤ limit

/-- Chunks can be taken in one after the other while `buffer` waits to be answered. -/
structure Takes (limit : Nat) (buffer : Bytes) (chunks : List Bytes) : Prop where
  /-- Malformed bytes never get to the front. -/
  readable : ∀ early, early <+: chunks → Wire.Readable (buffer ++ early.flatten)
  /-- What waits stays within the bound. -/
  fits : ReadsWithin limit buffer chunks

namespace Takes

variable {limit : Nat} {buffer chunk : Bytes} {later : List Bytes}

theorem readable_front {chunks : List Bytes} (h : Takes limit buffer chunks) :
    Wire.Readable buffer := by
  simpa using h.readable [] List.nil_prefix

theorem fits_front (h : Takes limit buffer (chunk :: later)) :
    ((Wire.readAll buffer).2 ++ chunk).length ≤ limit := by
  simpa using h.fits [] chunk ⟨later, rfl⟩

/-- What waits for the second chunk is what is left of the first one. -/
theorem tail (h : Takes limit buffer (chunk :: later)) :
    Takes limit ((Wire.readAll buffer).2 ++ chunk) later where
  readable early hearly := by
    have hmore := h.readable (chunk :: early) (List.cons_prefix_cons.2 ⟨rfl, hearly⟩)
    rwa [Wire.readable_append_iff, List.flatten_cons, ← List.append_assoc] at hmore
  fits early next hearly := by
    have hmore := h.fits (chunk :: early) next (List.cons_prefix_cons.2 ⟨rfl, hearly⟩)
    rwa [Wire.readAll_append, List.flatten_cons, ← List.append_assoc] at hmore

/-- A stream that fits as a whole can be taken in, however it is cut. -/
theorem of_length_le {chunks : List Bytes}
    (hlength : (buffer ++ chunks.flatten).length ≤ min Wire.maxInlineLength limit)
    (hread : Wire.Readable (buffer ++ chunks.flatten)) : Takes limit buffer chunks where
  readable := by
    rintro early ⟨more, rfl⟩
    rw [List.flatten_append, ← List.append_assoc] at hlength hread
    exact hread.of_append (Nat.le_min.1 hlength).1
  fits := by
    rintro early chunk ⟨more, rfl⟩
    have hleft := Wire.length_readAll_le (buffer ++ early.flatten)
    simp only [List.flatten_append, List.flatten_singleton, List.length_append] at hlength hleft ⊢
    omega

end Takes

/-- All requests that have arrived were answered as in a dialogue, and what waits is an incomplete
request within the bound. -/
structure Waits (limit : Nat) (connection : Connection σ) (dialogue : Dialogue σ) : Prop
    extends connection.Shows dialogue where
  /-- What waits is incomplete. -/
  incomplete : Wire.read connection.buffer = .incomplete
  /-- It is within the bound. -/
  within : connection.buffer.length ≤ limit

/-- Answering what has arrived is the first thing that a connection does. -/
theorem handle_of_drain (service : Service σ) {limit : Nat} {drained : Connection σ}
    (hdrain : connection.drain service ⟨limit, none⟩ = (drained, none))
    (hread : Wire.read drained.buffer = .incomplete) (chunks : List Bytes) :
    connection.handle service ⟨limit, none⟩ none none chunks =
      drained.handle service ⟨limit, none⟩ none none chunks := by
  rw [Connection.handle, hdrain, Connection.handle.eq_def,
    drain_of_incomplete service limit drained hread]

/-- Where only an incomplete request waits, the next chunk is taken in if it is within the bound. -/
theorem handle_of_fits (service : Service σ) {limit : Nat}
    (hread : Wire.read connection.buffer = .incomplete) {chunk : Bytes}
    (hfits : (connection.buffer ++ chunk).length ≤ limit) (later : List Bytes) :
    connection.handle service ⟨limit, none⟩ none none (chunk :: later) =
      (connection.withBuffer (connection.buffer ++ chunk)).handle service ⟨limit, none⟩ none none
        later := by
  rw [Connection.handle, drain_of_incomplete service limit connection hread]
  simp only [receive_of_length_le ⟨limit, none⟩ hfits, reduceCtorEq, if_false, Option.map_none]

/-- With all requests that have arrived answered, a connection waits. -/
theorem Shows.drain_waits (h : connection.Shows dialogue) (service : Service σ) {limit : Nat}
    (hread : Wire.Readable connection.buffer) (hbuffer : connection.buffer.length ≤ limit) :
    ∃ drained, connection.drain service ⟨limit, none⟩ = (drained, none) ∧
      drained.buffer = (Wire.readAll connection.buffer).2 ∧
      drained.Waits limit (dialogue.takeAll service (Wire.readAll connection.buffer).1) := by
  obtain ⟨drained, hdrain, hleft, hdrained⟩ := h.drain service limit hread
  have hlength := Wire.length_readAll_le connection.buffer
  rw [← hleft] at hlength
  exact ⟨drained, hdrain, hleft, hdrained, hleft ▸ hread.read_left, Nat.le_trans hlength hbuffer⟩

/-- A connection takes in chunks one after the other and answers the requests in them as in the
dialogue. -/
theorem Shows.handle_append (h : connection.Shows dialogue) (service : Service σ) {limit : Nat}
    {early : List Bytes} (htakes : Takes limit connection.buffer early)
    (hbuffer : connection.buffer.length ≤ limit) (later : List Bytes) :
    ∃ reached : Connection σ, connection.handle service ⟨limit, none⟩ none none (early ++ later) =
        reached.handle service ⟨limit, none⟩ none none later ∧
      reached.buffer = (Wire.readAll (connection.buffer ++ early.flatten)).2 ∧
      reached.Waits limit
        (dialogue.takeAll service (Wire.readAll (connection.buffer ++ early.flatten)).1) := by
  -- what is left of the chunks so far waits in the buffer and stands in front of the next one
  induction early generalizing connection dialogue with
  | nil =>
    obtain ⟨drained, hdrain, hleft, hwaits⟩ :=
      h.drain_waits service htakes.readable_front hbuffer
    rw [List.nil_append, List.flatten_nil, List.append_nil]
    exact ⟨drained, handle_of_drain service hdrain hwaits.incomplete later, hleft, hwaits⟩
  | cons chunk early ih =>
    obtain ⟨drained, hdrain, hleft, hwaits⟩ :=
      h.drain_waits service htakes.readable_front hbuffer
    have hfits := htakes.fits_front
    have htail := htakes.tail
    have hall : Wire.readAll (connection.buffer ++ (chunk :: early).flatten) =
        ((Wire.readAll connection.buffer).1 ++
            (Wire.readAll (drained.buffer ++ chunk ++ early.flatten)).1,
          (Wire.readAll (drained.buffer ++ chunk ++ early.flatten)).2) := by
      rw [List.flatten_cons, Wire.readAll_append, ← hleft, ← List.append_assoc]
    rw [← hleft] at hfits htail
    obtain ⟨reached, hreached, hbuffer, hshows⟩ :=
      ih (hwaits.toShows.withBuffer (drained.buffer ++ chunk)) htail hfits
    rw [hall, Dialogue.takeAll_append]
    refine ⟨reached, ?_, hbuffer, hshows⟩
    rw [List.cons_append, handle_of_drain service hdrain hwaits.incomplete,
      handle_of_fits service hwaits.incomplete hfits]
    exact hreached

/-- A connection that takes in all chunks answers the requests of the stream as in the dialogue, and
it fails if a request is left incomplete at the end. -/
theorem Shows.handle_of_takes (h : connection.Shows dialogue) (service : Service σ) {limit : Nat}
    {chunks : List Bytes} (htakes : Takes limit connection.buffer chunks)
    (hbuffer : connection.buffer.length ≤ limit) :
    ∃ ended, connection.handle service ⟨limit, none⟩ none none chunks =
        (ended, if (Wire.readAll (connection.buffer ++ chunks.flatten)).2 = [] then none
          else some resetByPeer) ∧
      ended.Shows
        (dialogue.takeAll service (Wire.readAll (connection.buffer ++ chunks.flatten)).1) := by
  obtain ⟨reached, hreached, hleft, hwaits⟩ := h.handle_append service htakes hbuffer []
  refine ⟨reached, ?_, hwaits.toShows⟩
  rw [List.append_nil] at hreached
  rw [hreached, Connection.handle, drain_of_incomplete service limit reached hwaits.incomplete]
  simp only [reduceCtorEq, if_false, finish_of_length_le ⟨limit, none⟩ hwaits.within, unfinished,
    hleft]

/-- A stream that fits as a whole is answered as in the dialogue, however it was cut into chunks. -/
theorem Shows.handle (h : connection.Shows dialogue) (service : Service σ) {limit : Nat}
    {chunks : List Bytes}
    (hlength : (connection.buffer ++ chunks.flatten).length ≤ min Wire.maxInlineLength limit)
    (hread : Wire.Readable (connection.buffer ++ chunks.flatten)) :
    ∃ ended, connection.handle service ⟨limit, none⟩ none none chunks =
        (ended, if (Wire.readAll (connection.buffer ++ chunks.flatten)).2 = [] then none
          else some resetByPeer) ∧
      ended.Shows
        (dialogue.takeAll service (Wire.readAll (connection.buffer ++ chunks.flatten)).1) := by
  have hbuffer : connection.buffer.length ≤ limit := by
    rw [List.length_append] at hlength
    omega
  exact h.handle_of_takes service (Takes.of_length_le hlength hread) hbuffer

/-- What a connection does does not depend on how the requests of its client are cut into chunks.
As long as the stream fits into the buffer and has no malformed bytes, everything that is sent is
the replies to the requests, taken one by one; the service and the session are left as they are
after the last request; and the connection fails exactly if a request is left incomplete at the
end. -/
theorem handle_eq_takeAll (service : Service σ) (state : σ) (limit : Nat) (chunks : List Bytes)
    (hlength : chunks.flatten.length ≤ min Wire.maxInlineLength limit)
    (hread : Wire.Readable chunks.flatten) :
    let (requests, left) := Wire.readAll chunks.flatten
    let dialogue := (Dialogue.start state).takeAll service requests
    let (ended, failure) := (start state).handle service ⟨limit, none⟩ none none chunks
    ended.sent = dialogue.replies.flatMap Value.encode ∧
      ended.state = dialogue.state ∧ ended.session = dialogue.session ∧
      failure = if left = [] then none else some resetByPeer := by
  obtain ⟨ended, hended, hshows⟩ := (shows_start state).handle service hlength hread
  simp only [hended]
  exact ⟨hshows.sent, hshows.state, hshows.session, rfl⟩

/-- A request, a number that asks for nothing and the start of another request, cut within the first
two. -/
def cutDialogue : List Bytes :=
  ["*2\r\n$6\r\nSEL", "ECT\r\n$1\r\n3\r\n:1\r", "\n*1\r"].map Text.toBytes

/-- The request is answered and the number refused, and what is left makes the connection fail. -/
theorem handle_eq_takeAll_cutDialogue :
    cutDialogue.flatten.length ≤ min Wire.maxInlineLength 100 ∧ Wire.Readable cutDialogue.flatten ∧
    let (ended, failure) := (start (Node.empty Catalogue.registry 16)).handle Node.serve ⟨100, none⟩
      none none cutDialogue
    ended.sent = Text.toBytes "+OK\r\n-ERR invalid command format\r\n" ∧
      ended.session.database = 3 ∧ failure = some resetByPeer := by
  have hselect : Wire.read cutDialogue.flatten =
      .done (.array [.bulk (Text.toBytes "SELECT"), .bulk (Text.toBytes "3")])
        (Text.toBytes ":1\r\n*1\r") := by with_unfolding_all rfl
  have hnumber : Wire.read (Text.toBytes ":1\r\n*1\r") =
      .done (.integer 1) (Text.toBytes "*1\r") := by with_unfolding_all rfl
  have hleft : Wire.read (Text.toBytes "*1\r") = .incomplete := rfl
  have hall : Wire.readAll cutDialogue.flatten =
      ([.array [.bulk (Text.toBytes "SELECT"), .bulk (Text.toBytes "3")], .integer 1],
        Text.toBytes "*1\r") := by
    rw [Wire.readAll_of_done hselect, Wire.readAll_of_done hnumber,
      Wire.readAll_of_not_done (by simp [hleft])]
  have hlength : cutDialogue.flatten.length ≤ min Wire.maxInlineLength 100 := by decide +kernel
  have hread : Wire.Readable cutDialogue.flatten := by
    rw [Wire.Readable, hall]
    simp [hleft]
  have h := handle_eq_takeAll Node.serve (Node.empty Catalogue.registry 16) 100 cutDialogue hlength
    hread
  rw [hall] at h
  obtain ⟨hsent, -, hsession, hfailure⟩ := h
  refine ⟨hlength, hread, hsent.trans ?_, (congrArg Session.database hsession).trans ?_, ?_⟩
  · decide +kernel
  · decide +kernel
  · exact hfailure

end Connection

end RingStore
