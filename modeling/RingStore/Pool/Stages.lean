import RingStore.Pool

/-!
# Stages of borrowing

Several borrowers use a pool at the same time, and others may come in between wherever one of them
does two things one after the other: a connection at rest is taken out before it is checked, opening
one takes time, the pool is found open before a connection that comes back is put among those at
rest, and a permit is given up last. A pool is closed bit by bit, too: it is marked as closed, then
it is barred, so that no permit is handed out any more, and then what is at rest is taken out and
destroyed.

A *stage* is where someone is between two such steps. One who is never interrupted goes through them
in the way of `Pool.borrow`, `Pool.giveBack`, `Pool.discard` and `Pool.close`.

## Main definitions

* `Pool.Stage`, `Pool.Closing`: how far someone has got who borrows a connection or closes the pool.
* `Pool.proceed`, `Pool.startReturn`, `Pool.startDiscard`, `Pool.giveUp`, `Pool.exchange`: the steps
  of a borrower.
* `Pool.proceedClosing`: the steps of closing.
-/

namespace RingStore.Pool

/-- How far a borrower has got. -/
inductive Stage (κ : Type) where
  /-- It waits for a permit. -/
  | waiting
  /-- It has a permit and looks for a connection at rest. -/
  | searching
  /-- It has taken a connection that was at rest and is to check it. -/
  | checking (connection : κ)
  /-- Nothing is at rest, and a connection is being opened for it. -/
  | opening
  /-- It has a connection. -/
  | holding (connection : κ)
  /-- It has found the pool open and is to put the connection among those at rest. -/
  | returning (connection : κ)
  /-- It has let go of its connection and still has the permit. -/
  | leaving
  /-- It gets no connection. -/
  | refused (error : PoolError)
  /-- It is done with the pool. -/
  | gone
  deriving DecidableEq

/-- How far closing a pool has got. -/
inductive Closing (κ : Type) where
  /-- Nothing has been done. -/
  | asked
  /-- The pool is marked as closed. -/
  | marked
  /-- No permit is handed out any more. -/
  | barred
  /-- What was at rest has been taken out, and these are still to be destroyed. -/
  | sweeping (left : List κ)
  /-- The pool is closed. -/
  | finished
  deriving DecidableEq

variable {κ σ : Type}

/-- The connection in the hands of a borrower. -/
def Stage.connections : Stage κ → List κ
  | checking connection | holding connection | returning connection => [connection]
  | _ => []

/-- The connections in the hands of someone who closes a pool. -/
def Closing.connections : Closing κ → List κ
  | sweeping left => left
  | _ => []

/-- The next step of a borrower, where `barred` says that no permit is handed out any more. A
borrower that has a connection takes none by itself. -/
def proceed (barred : Bool) (isValid : κ → Bool) (create : σ → Except Failure κ × σ) (state : σ)
    (pool : Pool κ) : Stage κ → PoolStep κ (Stage κ) × σ
  | .waiting =>
    if barred then (⟨pool, [], .refused .closed⟩, state)
    else if pool.permits = 0 then (⟨pool, [], .waiting⟩, state)
    else (⟨{ pool with permits := pool.permits - 1 }, [], .searching⟩, state)
  | .searching =>
    match pool.idle with
    | [] => (⟨pool, [], .opening⟩, state)
    | connection :: rest => (⟨{ pool with idle := rest }, [], .checking connection⟩, state)
  | .checking connection =>
    if isValid connection then
      (⟨pool, [.validate connection, .activate connection], .holding connection⟩, state)
    else (⟨pool, [.validate connection, .destroy connection], .searching⟩, state)
  | .opening =>
    match create state with
    | (.ok connection, next) =>
      (⟨pool, [.create connection, .activate connection], .holding connection⟩, next)
    | (.error failure, next) =>
      (⟨{ pool with permits := pool.permits + 1 }, [], .refused (.create failure)⟩, next)
  | .returning connection =>
    if pool.idle.length < pool.maxIdle then
      (⟨{ pool with idle := connection :: pool.idle }, [], .leaving⟩, state)
    else (⟨pool, [.destroy connection], .leaving⟩, state)
  | .leaving => (⟨{ pool with permits := pool.permits + 1 }, [], .gone⟩, state)
  | .holding connection => (⟨pool, [], .holding connection⟩, state)
  | .refused error => (⟨pool, [], .refused error⟩, state)
  | .gone => (⟨pool, [], .gone⟩, state)

/-- A borrower gives back what it has. A pool that is marked as closed destroys it. -/
def startReturn (pool : Pool κ) : Stage κ → PoolStep κ (Stage κ)
  | .holding connection =>
    if pool.closed then ⟨pool, [.destroy connection], .leaving⟩
    else ⟨pool, [.passivate connection], .returning connection⟩
  | stage => ⟨pool, [], stage⟩

/-- A borrower has what it has destroyed. -/
def startDiscard (pool : Pool κ) : Stage κ → PoolStep κ (Stage κ)
  | .holding connection => ⟨pool, [.destroy connection], .leaving⟩
  | stage => ⟨pool, [], stage⟩

/-- A borrower that gets no connection yet gives up. Only one that waits, for a permit or for a
connection to open, can be stopped. -/
def giveUp (pool : Pool κ) : Stage κ → PoolStep κ (Stage κ)
  | .waiting => ⟨pool, [], .gone⟩
  | .opening => ⟨{ pool with permits := pool.permits + 1 }, [], .gone⟩
  | stage => ⟨pool, [], stage⟩

/-- A borrower takes another connection for the one it holds. -/
def exchange (pool : Pool κ) (connection : κ) : Stage κ → PoolStep κ (Stage κ)
  | .holding _ => ⟨pool, [], .holding connection⟩
  | stage => ⟨pool, [], stage⟩

/-- The next step of someone who closes a pool, and whether permits are barred after it. -/
def proceedClosing (barred : Bool) (pool : Pool κ) : Closing κ → PoolStep κ (Closing κ) × Bool
  | .asked => (⟨{ pool with closed := true }, [], .marked⟩, barred)
  | .marked => (⟨pool, [], .barred⟩, true)
  | .barred => (⟨{ pool with idle := [] }, [], .sweeping pool.idle.reverse⟩, barred)
  | .sweeping (connection :: rest) => (⟨pool, [.destroy connection], .sweeping rest⟩, barred)
  | .sweeping [] => (⟨pool, [], .finished⟩, barred)
  | .finished => (⟨pool, [], .finished⟩, barred)

end RingStore.Pool
