import RingStore.Node
import RingStore.PeerClient
import RingStore.Pool

/-!
# Relaying to a peer

A command line goes to another member over a connection borrowed from the peer's pool. Sessions
with different databases share these connections, so every command is sent right after a selection
of the session's own database. A connection on which every request was answered goes back to the
pool; one on which a request failed is destroyed, because what it would answer next is not known.

The connections and what lies behind them are parameters.

## Main definitions

* `PeerAccess`: the pool of a peer and what can be done with its connections.
* `PeerAccess.relay`: relaying one command line.
-/

namespace RingStore

/-- The pool of a peer, and what can be done with its connections. -/
structure PeerAccess (σ κ : Type) where
  /-- The peer's address. -/
  peer : String
  /-- The peer's pool; there is none if the peer is no member. -/
  pool? : σ → Option (Pool κ)
  /-- Puts another pool in the place of the peer's. -/
  setPool : σ → Pool κ → σ
  /-- Opens a connection to the peer. -/
  connect : σ → Except Failure κ × σ
  /-- Sends one request on a connection and waits for its reply. -/
  ask : σ → κ → CommandLine → Except Failure Value × κ × σ

namespace PeerAccess

variable {σ κ : Type}

/-- What becomes of a connection after use. -/
inductive Return (κ : Type) where
  /-- Every request on it was answered. -/
  | whole (connection : κ)
  /-- A request on it failed. -/
  | broken (connection : κ)

/-- The command line that selects the database of a session. -/
def selection (session : Session) : CommandLine :=
  [Text.toBytes "SELECT", Decimal.ofNat session.database]

/-- The reply when the peer could not be asked. -/
def failed (access : PeerAccess σ κ) (cause : String) : Value :=
  (Refusal.peerFailed access.peer cause).reply

/-- Asks the peer to execute a command line on the session's database. A refused selection is the
reply, and then the command line is not sent. -/
def converse (access : PeerAccess σ κ) (state : σ) (connection : κ) (session : Session)
    (line : CommandLine) : Value × Return κ × σ :=
  match access.ask state connection (selection session) with
  | (.error failure, after, next) => (access.failed failure.message, .broken after, next)
  | (.ok selected, after, next) =>
    if selected.isError then (selected, .whole after, next)
    else
      match access.ask next after line with
      | (.error failure, last, final) => (access.failed failure.message, .broken last, final)
      | (.ok reply, last, final) => (reply, .whole last, final)

/-- Gives a connection back to the peer's pool, or has the pool destroy it. What the pool does to
the connection meanwhile is told where a relay is taken step by step. -/
def putBack (access : PeerAccess σ κ) (state : σ) (connection : Return κ) : σ :=
  match access.pool? state with
  | none => state
  | some pool =>
    match connection with
    | .whole connection => access.setPool state (pool.giveBack connection).pool
    | .broken connection => access.setPool state (pool.discard connection).pool

/-- Relays a command line to the peer. A borrower that would wait for a connection of which none
can come free is told that the peer did not reply in time. -/
def relay (access : PeerAccess σ κ) (state : σ) (session : Session) (line : CommandLine) :
    Value × σ :=
  match access.pool? state with
  | none => ((Refusal.unknownPeer access.peer).reply, state)
  | some pool =>
    let (step, opened) := pool.borrow (fun _ => true) access.connect state
    let lent := access.setPool opened step.pool
    match step.result with
    | .wait => (access.failed PeerClient.replyTimedOut.message, lent)
    | .refused error => (access.failed error.message, lent)
    | .granted connection =>
      let (reply, after, next) := access.converse lent connection session line
      (reply, access.putBack next after)

end PeerAccess

end RingStore
