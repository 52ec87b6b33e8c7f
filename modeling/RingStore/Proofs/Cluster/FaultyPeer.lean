import RingStore.Proofs.Cluster.RelayStages
import RingStore.Proofs.PeerClient

/-!
# A peer whose connections fail

One node relays command lines of any sessions to one peer through its pool. Relays are under way at
the same time and take their steps in any order, and the pool may be closed meanwhile. On every
connection the peer answers the requests that reach it in order, each with one value that can be
read back. But nothing else is certain: a connection may fail to open, a write may fail, what the
peer sends may arrive in any chunks, and it may stop after any byte. What was sent and has not
arrived stays *in flight* and would arrive before the reply to a later request on the same
connection.

What becomes of a step is up to a *weather*, which may look at everything that was asked so far.

## Main definitions

* `Channel`: a connection with what is in flight on it.
* `World`: the pool, and every request so far with its reply.
* `Fate`, `Weather`: what becomes of one request, and of one step.
* `Traffic`, `Traffic.run`: relays that are under way, and what can happen next.
* `Exchanged`: the ways in which a relay can end, with what it asked the peer.

## Main results

* `World.ask_of_clean`: a request on a connection on which nothing is left.
* `World.advanceTimes_eq_relay`: a relay that nobody interrupts.
-/

namespace RingStore.FaultyPeer

/-- A connection to the peer. -/
structure Channel where
  /-- Connections are numbered in the order in which they are opened. -/
  number : Nat
  /-- The near end. -/
  client : PeerClient
  /-- Bytes of replies that have not arrived. -/
  inFlight : Bytes

/-- One request and what came of it. -/
structure Exchange where
  /-- The number of the relay that made it. -/
  relay : Nat
  /-- The number of the connection. -/
  channel : Nat
  /-- The request. -/
  request : CommandLine
  /-- The peer's reply to it. -/
  reply : Value
  /-- What the relay got. -/
  result : Except Failure Value

/-- The request was answered by the peer's reply to it. -/
def Exchange.Answered (exchange : Exchange) : Prop :=
  exchange.result = .ok exchange.reply

/-- The node's side of all connections, and everything asked so far. -/
structure World where
  /-- The peer's pool. -/
  pool : Pool Channel
  /-- How many connections were opened. -/
  opened : Nat
  /-- All requests, oldest first. -/
  exchanges : List Exchange

/-- What becomes of one request on a connection on which bytes are in flight. -/
structure Fate (inFlight : Bytes) where
  /-- The peer's reply. -/
  reply : Value
  /-- The reply can be read back. -/
  framed : reply.Framed Wire.maxDepth
  /-- The failure of the write, if it fails. -/
  writeFails : Option Failure
  /-- The chunks that arrive. -/
  chunks : List Bytes
  /-- They are the first of the bytes in flight, those of the reply being the last. -/
  arrives : chunks.flatten <+: inFlight ++ reply.encode
  /-- What comes after them. -/
  ending : StreamEnd

/-- What becomes of a request or of an attempt to connect. -/
structure Weather where
  /-- What becomes of a request, after those that were made before. -/
  fate : List Exchange → (channel : Channel) → CommandLine → Fate channel.inFlight
  /-- The failure of an attempt to connect, if it fails. -/
  blocks : List Exchange → Option Failure

namespace World

variable (weather : Weather) (peer : String) (who : Nat)

/-- Opens a connection. -/
def connect (world : World) : Except Failure Channel × World :=
  match weather.blocks world.exchanges with
  | some failure => (.error failure, world)
  | none =>
    (.ok ⟨world.opened, .ofStream peer ⟨[], .quiet, none⟩, []⟩,
      { world with opened := world.opened + 1 })

/-- The world after another request. -/
def record (world : World) (exchange : Exchange) : World :=
  { world with exchanges := world.exchanges ++ [exchange] }

/-- A relay sends a request on a connection and waits for its reply. -/
def ask (world : World) (channel : Channel) (request : CommandLine) :
    Except Failure Value × Channel × World :=
  let fate := weather.fate world.exchanges channel request
  let stream : PeerStream :=
    ⟨channel.client.stream.incoming ++ fate.chunks, fate.ending, fate.writeFails⟩
  let sent := { channel.client with stream := stream }.send request
  (sent.result,
    ⟨channel.number, sent.client,
      (channel.inFlight ++ fate.reply.encode).drop fate.chunks.flatten.length⟩,
    world.record ⟨who, channel.number, request, fate.reply, sent.result⟩)

/-- The pool of the peer and its connections, as one relay uses them. -/
def access : PeerAccess World Channel where
  peer := peer
  pool? world := some world.pool
  setPool world pool := { world with pool }
  connect := connect weather peer
  ask := ask weather who

theorem access_lawful : (access weather peer who).Lawful where
  pool_setPool _ _ := rfl
  setPool_setPool _ _ _ := rfl
  connect_setPool world pool := by
    simp only [access, connect]
    split <;> rfl
  pool_ask _ _ _ _ := nofun

/-- A relay that nobody interrupts ends like one that is made at once. -/
theorem advanceTimes_eq_relay (world : World) (session : Session) (line : CommandLine)
    (hpermit : world.pool.closed = true ∨ world.pool.permits ≠ 0) : ∃ times,
    let ended := (access weather peer who).advanceTimes world.pool.closed times world
      (PeerAccess.begin session line)
    (access weather peer who).reply? ended.relaying =
        some ((access weather peer who).relay world session line).1 ∧
      ended.state = ((access weather peer who).relay world session line).2 :=
  PeerAccess.advanceTimes_eq_relay (access_lawful weather peer who) rfl hpermit

end World

/-- Relays that are under way, and those who close the pool. -/
structure Traffic where
  /-- The pool, and everything asked so far. -/
  world : World
  /-- No permit is handed out any more. -/
  barred : Bool
  /-- The relays, in the order in which they began. -/
  relays : List (Relaying Channel)
  /-- How far each of those has got who close the pool. -/
  closers : List (Pool.Closing Channel)

namespace Traffic

/-- Nothing was relayed yet. -/
def start (options : PoolOptions) : Traffic :=
  ⟨⟨.empty options, 0, []⟩, false, [], []⟩

/-- What can happen. -/
inductive Step where
  /-- A session has a command line relayed. -/
  | relay (session : Session) (line : CommandLine)
  /-- A relay takes its next step. -/
  | proceed (who : Nat) (weather : Weather)
  /-- Someone comes who closes the pool. -/
  | close
  /-- Someone who closes the pool takes the next step. -/
  | proceedClosing (who : Nat)

/-- One step, and what the pool does to connections in it. -/
def run (peer : String) (traffic : Traffic) : Step → Traffic × List (PoolEvent Channel)
  | .relay session line =>
    ({ traffic with relays := traffic.relays ++ [PeerAccess.begin session line] }, [])
  | .proceed who weather =>
    match traffic.relays[who]? with
    | none => (traffic, [])
    | some relaying =>
      let taken :=
        (World.access weather peer who).advance traffic.barred traffic.world relaying
      ({ traffic with world := taken.state, relays := traffic.relays.set who taken.relaying },
        taken.events)
  | .close => ({ traffic with closers := traffic.closers ++ [.asked] }, [])
  | .proceedClosing who =>
    match traffic.closers[who]? with
    | none => (traffic, [])
    | some stage =>
      let (taken, barred) := traffic.world.pool.proceedClosing traffic.barred stage
      ({ traffic with
          world := { traffic.world with pool := taken.pool }, barred
          closers := traffic.closers.set who taken.result },
        taken.events)

/-- Several steps, with everything that the pool does to connections. -/
def runAll (peer : String) (traffic : Traffic) : List Step → Traffic × List (PoolEvent Channel)
  | [] => (traffic, [])
  | step :: rest =>
    let (next, events) := traffic.run peer step
    let (last, more) := next.runAll peer rest
    (last, events ++ more)

end Traffic

/-- The ways in which a relay of a command line can end: what it asked the peer, and its reply. -/
inductive Exchanged (peer : String) (who : Nat) (session : Session) (line : CommandLine) :
    List Exchange → Value → Prop where
  /-- It got no connection. -/
  | unreached (error : PoolError) :
    Exchanged peer who session line [] (Refusal.peerFailed peer error.message).reply
  /-- The selection was not answered. -/
  | unselected (number : Nat) (answer : Value) (failure : Failure) :
    Exchanged peer who session line
      [⟨who, number, PeerAccess.selection session, answer, .error failure⟩]
      (Refusal.peerFailed peer failure.message).reply
  /-- The peer refused the selection; the command line was not sent. -/
  | refused (number : Nat) (answer : Value) (hrefused : answer.isError = true) :
    Exchanged peer who session line
      [⟨who, number, PeerAccess.selection session, answer, .ok answer⟩] answer
  /-- The command line, sent right after the selection, was not answered. -/
  | unanswered (number : Nat) (selected answer : Value) (hselected : selected.isError = false)
    (failure : Failure) :
    Exchanged peer who session line
      [⟨who, number, PeerAccess.selection session, selected, .ok selected⟩,
        ⟨who, number, line, answer, .error failure⟩]
      (Refusal.peerFailed peer failure.message).reply
  /-- The peer's reply to the command line, sent right after the selection, is the reply. -/
  | answered (number : Nat) (selected answer : Value) (hselected : selected.isError = false) :
    Exchanged peer who session line
      [⟨who, number, PeerAccess.selection session, selected, .ok selected⟩,
        ⟨who, number, line, answer, .ok answer⟩] answer

/-- Nothing is left of any reply on the connection. -/
structure Channel.Clean (channel : Channel) : Prop where
  /-- The read buffer is empty. -/
  buffer : channel.client.buffer = []
  /-- Nothing that arrived waits to be read. -/
  incoming : channel.client.stream.incoming.flatten = []
  /-- Nothing is in flight. -/
  inFlight : channel.inFlight = []

namespace World

/-- On a connection on which nothing is left, a request gets the peer's reply to it, and nothing is
left again, or it fails. -/
theorem ask_of_clean (weather : Weather) (who : Nat) (world : World) {channel : Channel}
    (h : channel.Clean) (request : CommandLine) :
    ∃ reply result after, ask weather who world channel request =
        (result, after, world.record ⟨who, channel.number, request, reply, result⟩) ∧
      after.number = channel.number ∧
      (result = .ok reply ∧ after.Clean ∨ ∃ failure, result = .error failure) := by
  obtain ⟨number, client, inFlight⟩ := channel
  -- with nothing left, what arrives next is a beginning of the reply to this request
  obtain ⟨hbuffer, hincoming, rfl⟩ := h
  refine ⟨_, _, _, rfl, rfl, ?_⟩
  generalize weather.fate world.exchanges ⟨number, client, []⟩ request = fate
  have hpart : (client.stream.incoming ++ fate.chunks).flatten <+: fate.reply.encode := by
    rw [List.flatten_append, hincoming, List.nil_append]
    exact fate.arrives
  let delivered : PeerClient :=
    { client with stream := ⟨client.stream.incoming ++ fate.chunks, fate.ending, fate.writeFails⟩ }
  rcases delivered.send_of_part hbuffer fate.framed hpart request with
    ⟨hresult, hbuffer', hincoming', hwhole⟩ | hfailure
  · -- the reply is returned only when its last byte has arrived, so that none stays in flight
    refine .inl ⟨hresult, hbuffer', hincoming', ?_⟩
    rw [List.flatten_append, hincoming, List.nil_append] at hwhole
    rw [List.nil_append, hwhole, List.drop_length]
  · exact .inr hfailure

end World

end RingStore.FaultyPeer
