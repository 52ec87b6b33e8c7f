import RingStore.Pool.Borrowers
import RingStore.Pool.Stages

/-!
# Shared pools

A pool with everyone who is at it at the same time. They take their steps in any order, each from
the stage where it is, and how far the others have got is no concern of it. Borrowers and those who
close the pool are numbered as they come.

## Main definitions

* `SharedPool`: the state.
* `SharedPool.Step`: what can happen next.
* `SharedPool.run`, `SharedPool.runAll`: one step, and several ones.
-/

namespace RingStore

/-- A pool with everyone who is at it. -/
structure SharedPool where
  /-- The pool. -/
  pool : Pool Nat
  /-- No permit is handed out any more. -/
  barred : Bool
  /-- Where new connections come from. -/
  supply : Supply
  /-- How far each borrower has got, in the order in which they came. -/
  borrowers : List (Pool.Stage Nat)
  /-- How far each of those has got who close the pool, in the order in which they came. -/
  closers : List (Pool.Closing Nat)

namespace SharedPool

/-- A pool that nobody uses yet. -/
def start (options : PoolOptions) : SharedPool :=
  ⟨.empty options, false, ⟨0, none, []⟩, [], []⟩

/-- What can happen. -/
inductive Step where
  /-- Someone comes who wants a connection. -/
  | borrow
  /-- A borrower takes its next step. -/
  | proceed (who : Nat)
  /-- A borrower gives its connection back. -/
  | giveBack (who : Nat)
  /-- A borrower has found its connection useless. -/
  | discard (who : Nat)
  /-- A borrower gives up waiting. -/
  | giveUp (who : Nat)
  /-- A borrower takes another connection for the one it holds. -/
  | exchange (who : Nat) (connection : Nat)
  /-- Opening connections starts to fail, or works again. -/
  | supplyFails (failing : Option Failure)
  /-- These connections, and no others, are invalid from now on. -/
  | invalidate (connections : List Nat)
  /-- Someone comes who closes the pool. -/
  | close
  /-- Someone who closes the pool takes the next step. -/
  | proceedClosing (who : Nat)

/-- A borrower takes a step that may open a connection. -/
def advance (shared : SharedPool) (who : Nat)
    (step : Pool.Stage Nat → PoolStep Nat (Pool.Stage Nat) × Supply) :
    SharedPool × List (PoolEvent Nat) :=
  match shared.borrowers[who]? with
  | none => (shared, [])
  | some stage =>
    let (taken, supply) := step stage
    ({ shared with
        pool := taken.pool, supply, borrowers := shared.borrowers.set who taken.result },
      taken.events)

/-- Someone who closes the pool takes the next step. -/
def advanceClosing (shared : SharedPool) (who : Nat) : SharedPool × List (PoolEvent Nat) :=
  match shared.closers[who]? with
  | none => (shared, [])
  | some stage =>
    let (taken, barred) := shared.pool.proceedClosing shared.barred stage
    ({ shared with pool := taken.pool, barred, closers := shared.closers.set who taken.result },
      taken.events)

/-- One step, and what it does to connections. -/
def run (shared : SharedPool) : Step → SharedPool × List (PoolEvent Nat)
  | .borrow => ({ shared with borrowers := shared.borrowers ++ [.waiting] }, [])
  | .proceed who =>
    shared.advance who <|
      shared.pool.proceed shared.barred shared.supply.isValid Supply.create shared.supply
  | .giveBack who => shared.advance who fun stage => (shared.pool.startReturn stage, shared.supply)
  | .discard who => shared.advance who fun stage => (shared.pool.startDiscard stage, shared.supply)
  | .giveUp who => shared.advance who fun stage => (shared.pool.giveUp stage, shared.supply)
  | .exchange who connection =>
    shared.advance who fun stage => (shared.pool.exchange connection stage, shared.supply)
  | .supplyFails failing => ({ shared with supply := { shared.supply with failing } }, [])
  | .invalidate invalid => ({ shared with supply := { shared.supply with invalid } }, [])
  | .close => ({ shared with closers := shared.closers ++ [.asked] }, [])
  | .proceedClosing who => shared.advanceClosing who

/-- Several steps, with everything that is done to connections. -/
def runAll (shared : SharedPool) : List Step → SharedPool × List (PoolEvent Nat)
  | [] => (shared, [])
  | step :: rest =>
    let (next, events) := shared.run step
    let (last, more) := next.runAll rest
    (last, events ++ more)

end SharedPool

end RingStore
