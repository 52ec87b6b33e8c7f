import RingStore.Cluster.Relay
import RingStore.Pool.Stages

/-!
# Stages of a relay

Relays of several sessions to the same peer are under way at the same time and share its pool. A
relay takes its steps at the pool as any borrower does, and once it has a connection nobody else
uses that one: the request that selects the database and the one that follows it are a step each,
from the first byte written to the reply or the failure that ends the waiting.

A relay that is never interrupted goes through its stages to what `PeerAccess.relay` gives.

## Main definitions

* `Relaying`: how far a relay has got.
* `PeerAccess.advance`: its next step.
* `PeerAccess.reply?`: its reply, when it is done.
-/

namespace RingStore

/-- What a relay has learnt from the peer. -/
inductive Talk where
  /-- Nothing has been asked. -/
  | unasked
  /-- The session's database is selected. -/
  | selected
  /-- The reply is known, and whether every request on the connection was answered. -/
  | ended (reply : Value) (whole : Bool)

/-- A relay that is under way. -/
structure Relaying (κ : Type) where
  /-- The session. -/
  session : Session
  /-- The command line. -/
  line : CommandLine
  /-- How far it has got at the pool. -/
  stage : Pool.Stage κ
  /-- What it has learnt. -/
  talk : Talk

/-- What a step of a relay does. -/
structure Relaying.Advance (σ κ : Type) where
  /-- The relay afterwards. -/
  relaying : Relaying κ
  /-- What the pool does to connections. -/
  events : List (PoolEvent κ)
  /-- The state afterwards. -/
  state : σ

namespace PeerAccess

variable {σ κ : Type}

/-- A relay that has just begun. -/
def begin (session : Session) (line : CommandLine) : Relaying κ :=
  ⟨session, line, .waiting, .unasked⟩

/-- A relay takes a step at the peer's pool. -/
def advanceAtPool (access : PeerAccess σ κ) (state : σ) (relaying : Relaying κ)
    (step : Pool κ → Pool.Stage κ → PoolStep κ (Pool.Stage κ) × σ) : Relaying.Advance σ κ :=
  match access.pool? state with
  | none => ⟨relaying, [], state⟩
  | some pool =>
    let (taken, next) := step pool relaying.stage
    ⟨{ relaying with stage := taken.result }, taken.events, access.setPool next taken.pool⟩

/-- A relay asks the peer to select the session's database. A refusal is its reply. -/
def advanceSelection (access : PeerAccess σ κ) (state : σ) (relaying : Relaying κ)
    (connection : κ) : Relaying.Advance σ κ :=
  match access.ask state connection (selection relaying.session) with
  | (.error failure, after, next) =>
    ⟨{ relaying with
        stage := .holding after, talk := .ended (access.failed failure.message) false }, [], next⟩
  | (.ok selected, after, next) =>
    ⟨{ relaying with
        stage := .holding after
        talk := if selected.isError then .ended selected true else .selected }, [], next⟩

/-- A relay asks the peer to execute the command line. -/
def advanceLine (access : PeerAccess σ κ) (state : σ) (relaying : Relaying κ) (connection : κ) :
    Relaying.Advance σ κ :=
  match access.ask state connection relaying.line with
  | (.error failure, after, next) =>
    ⟨{ relaying with
        stage := .holding after, talk := .ended (access.failed failure.message) false }, [], next⟩
  | (.ok reply, after, next) =>
    ⟨{ relaying with stage := .holding after, talk := .ended reply true }, [], next⟩

/-- The next step of a relay, where `barred` says that the pool hands out no permits any more. With
a connection in hand it asks the peer, and when its reply is known it lets go of the connection. -/
def advance (access : PeerAccess σ κ) (barred : Bool) (state : σ) (relaying : Relaying κ) :
    Relaying.Advance σ κ :=
  match relaying.stage, relaying.talk with
  | .holding connection, .unasked => access.advanceSelection state relaying connection
  | .holding connection, .selected => access.advanceLine state relaying connection
  | .holding _, .ended _ true =>
    access.advanceAtPool state relaying fun pool stage => (pool.startReturn stage, state)
  | .holding _, .ended _ false =>
    access.advanceAtPool state relaying fun pool stage => (pool.startDiscard stage, state)
  | _, _ =>
    access.advanceAtPool state relaying fun pool =>
      pool.proceed barred (fun _ => true) access.connect state

/-- The reply of a relay that is done: why it got no connection, or what it has learnt. -/
def reply? (access : PeerAccess σ κ) (relaying : Relaying κ) : Option Value :=
  match relaying.stage, relaying.talk with
  | .refused error, _ => some (access.failed error.message)
  | .gone, .ended reply _ => some reply
  | _, _ => none

end PeerAccess

end RingStore
