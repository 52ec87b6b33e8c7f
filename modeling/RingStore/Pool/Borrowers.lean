import RingStore.Pool

/-!
# Borrowers of a pool

A pool with everyone who uses it: borrowers that hold a connection, borrowers that wait, in order of
arrival, and the supply of connections, which are numbered as they are opened. Steps come one at a
time, and after each step every waiting borrower is looked after once, in order of arrival.

## Main definitions

* `Borrowers`: the state.
* `Borrowers.Step`: what borrowers, the supply and the owner can do.
* `Borrowers.run`: one step.
-/

namespace RingStore

/-- Where new connections come from. -/
structure Supply where
  /-- How many connections have been opened; they are numbered from one. -/
  opened : Nat
  /-- Why no connection can be opened at present, if that is so. -/
  failing : Option Failure
  /-- Connections that are found invalid when they are checked. -/
  invalid : List Nat

namespace Supply

/-- Opens a connection. -/
def create (supply : Supply) : Except Failure Nat × Supply :=
  match supply.failing with
  | some failure => (.error failure, supply)
  | none => (.ok (supply.opened + 1), { supply with opened := supply.opened + 1 })

/-- The connection is valid. -/
def isValid (supply : Supply) (connection : Nat) : Bool :=
  !supply.invalid.contains connection

end Supply

/-- A pool with everyone who uses it. -/
structure Borrowers where
  /-- The pool. -/
  pool : Pool Nat
  /-- Where new connections come from. -/
  supply : Supply
  /-- Who holds which connection. -/
  held : List (String × Nat)
  /-- Who waits, in order of arrival. -/
  waiting : List String

namespace Borrowers

/-- A pool that nobody uses yet. -/
def start (options : PoolOptions) : Borrowers :=
  ⟨.empty options, ⟨0, none, []⟩, [], []⟩

/-- What can happen. -/
inductive Step where
  /-- Someone asks for a connection. -/
  | borrow (who : String)
  /-- Someone gives the connection back. -/
  | giveBack (who : String)
  /-- Someone has found the connection useless. -/
  | discard (who : String)
  /-- Someone gives up waiting. -/
  | cancel (who : String)
  /-- Someone takes another connection for the one held. -/
  | exchange (who : String) (connection : Nat)
  /-- Opening connections starts to fail, or works again. -/
  | supplyFails (failing : Option Failure)
  /-- These connections, and no others, are invalid from now on. -/
  | invalidate (connections : List Nat)
  /-- The pool is closed. -/
  | close

/-- What a step does. -/
structure Report where
  /-- Requests for a connection that have ended, in order. -/
  done : List (String × Except PoolError Nat)
  /-- What was done to connections, in order. -/
  events : List (PoolEvent Nat)

/-- Nothing. -/
def Report.nothing : Report :=
  ⟨[], []⟩

/-- One report after the other. -/
def Report.append (first second : Report) : Report :=
  ⟨first.done ++ second.done, first.events ++ second.events⟩

/-- Lets go of the connection that someone holds, if there is one. -/
def release (how : Pool Nat → Nat → PoolStep Nat Unit) (who : String) (borrowers : Borrowers) :
    Borrowers × List (PoolEvent Nat) :=
  match borrowers.held.lookup who with
  | some connection =>
    let step := how borrowers.pool connection
    ({ borrowers with
        pool := step.pool, held := borrowers.held.filter fun entry => entry.1 ≠ who }, step.events)
  | none => (borrowers, [])

/-- Looks after someone who waits. A connection that the borrower already holds is given back when
another one is granted. -/
def serveOne (borrowers : Borrowers) (who : String) : Borrowers × Report :=
  let (step, supply) :=
    borrowers.pool.borrow borrowers.supply.isValid Supply.create borrowers.supply
  let asked := { borrowers with pool := step.pool, supply }
  match step.result with
  | .wait => ({ asked with waiting := asked.waiting ++ [who] }, ⟨[], step.events⟩)
  | .refused error => (asked, ⟨[(who, .error error)], step.events⟩)
  | .granted connection =>
    let (freed, events) := asked.release Pool.giveBack who
    ({ freed with held := (who, connection) :: freed.held },
      ⟨[(who, .ok connection)], step.events ++ events⟩)

/-- Looks after those who wait, one after the other. -/
def serveEach (borrowers : Borrowers) : List String → Borrowers × Report
  | [] => (borrowers, .nothing)
  | who :: rest =>
    let (served, report) := borrowers.serveOne who
    let (finished, more) := served.serveEach rest
    (finished, report.append more)

/-- Looks after everyone who waits, in order of arrival. -/
def serveAll (borrowers : Borrowers) : Borrowers × Report :=
  { borrowers with waiting := [] }.serveEach borrowers.waiting

/-- What happens before those who wait are looked after. -/
def apply (borrowers : Borrowers) : Step → Borrowers × List (PoolEvent Nat)
  | .borrow who => ({ borrowers with waiting := borrowers.waiting ++ [who] }, [])
  | .giveBack who => borrowers.release Pool.giveBack who
  | .discard who => borrowers.release Pool.discard who
  | .cancel who => ({ borrowers with waiting := borrowers.waiting.filter (· ≠ who) }, [])
  | .exchange who connection =>
    ({ borrowers with held := borrowers.held.map fun entry =>
        if entry.1 = who then (who, connection) else entry }, [])
  | .supplyFails failing => ({ borrowers with supply := { borrowers.supply with failing } }, [])
  | .invalidate invalid => ({ borrowers with supply := { borrowers.supply with invalid } }, [])
  | .close =>
    let step := borrowers.pool.close
    ({ borrowers with pool := step.pool }, step.events)

/-- One step, after which everyone who waits is looked after once. -/
def run (borrowers : Borrowers) (step : Step) : Borrowers × Report :=
  let (changed, events) := borrowers.apply step
  let (served, report) := changed.serveAll
  (served, (Report.mk [] events).append report)

end Borrowers

end RingStore
