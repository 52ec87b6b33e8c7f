import RingStore.Failure

/-!
# Connection pools

A pool keeps connections to one peer for reuse. A *permit* is held for every connection in use, so
only so many are in use at once. A connection given back stays idle if there is room for it; the
idle connection given back last is handed out first, after it has been found valid. A closed pool
hands out nothing and destroys what is given back.

The pool itself does nothing to connections. It reports what is to be done to them as events, in
order.

## Main definitions

* `Pool`: permits and idle connections.
* `Pool.borrow`, `Pool.giveBack`, `Pool.discard`, `Pool.close`: what borrowers and owners do.
-/

namespace RingStore

/-- Something done to a connection. -/
inductive PoolEvent (κ : Type) where
  /-- It is opened. -/
  | create (connection : κ)
  /-- It is checked before it is handed out again. -/
  | validate (connection : κ)
  /-- It is made ready for a borrower. -/
  | activate (connection : κ)
  /-- It is put to rest. -/
  | passivate (connection : κ)
  /-- It is closed for good. -/
  | destroy (connection : κ)
  deriving DecidableEq

/-- Why a pool hands out no connection. -/
inductive PoolError where
  /-- The pool is closed. -/
  | closed
  /-- No connection could be opened. -/
  | create (failure : Failure)
  deriving DecidableEq

/-- The reason in words. -/
def PoolError.message : PoolError → String
  | closed => "connection pool closed"
  | create failure => s!"connection failed: {failure.message}"

/-- How many connections a pool keeps. -/
structure PoolOptions where
  /-- How many connections may be in use at once; zero counts as one. -/
  maxActive : Nat
  /-- How many idle connections are kept. -/
  maxIdle : Nat

/-- A pool of connections. -/
structure Pool (κ : Type) where
  /-- How many idle connections are kept. -/
  maxIdle : Nat
  /-- How many more connections may be in use. -/
  permits : Nat
  /-- Idle connections, the one given back last first. -/
  idle : List κ
  /-- The pool is closed. -/
  closed : Bool

/-- What a pool does for one call. -/
structure PoolStep (κ α : Type) where
  /-- The pool afterwards. -/
  pool : Pool κ
  /-- What is done to connections, in order. -/
  events : List (PoolEvent κ)
  /-- What the caller gets. -/
  result : α

/-- What a borrower gets. -/
inductive Loan (κ : Type) where
  /-- It must wait for a permit. -/
  | wait
  /-- It gets no connection. -/
  | refused (error : PoolError)
  /-- It gets a connection. -/
  | granted (connection : κ)

namespace Pool

variable {κ σ : Type}

/-- The number of connections that may be in use at once. -/
def capacity (options : PoolOptions) : Nat :=
  max options.maxActive 1

/-- A pool without connections. -/
def empty (options : PoolOptions) : Pool κ :=
  ⟨options.maxIdle, capacity options, [], false⟩

/-- Looks for a valid connection among idle ones. Those found invalid are destroyed; the others
stay idle. -/
def takeIdle (isValid : κ → Bool) : List κ → List (PoolEvent κ) × Option κ × List κ
  | [] => ([], none, [])
  | connection :: rest =>
    if isValid connection then ([.validate connection], some connection, rest)
    else
      let (events, found, left) := takeIdle isValid rest
      (.validate connection :: .destroy connection :: events, found, left)

/-- Hands out a connection to a borrower that holds a permit: a valid idle one, or else a new one.
If none can be opened the permit is given up. -/
def checkOut (isValid : κ → Bool) (create : σ → Except Failure κ × σ) (state : σ) (pool : Pool κ) :
    PoolStep κ (Loan κ) × σ :=
  let (events, found, left) := takeIdle isValid pool.idle
  let searched := { pool with idle := left }
  match found with
  | some connection =>
    (⟨searched, events ++ [.activate connection], .granted connection⟩, state)
  | none =>
    match create state with
    | (.ok connection, next) =>
      (⟨searched, events ++ [.create connection, .activate connection], .granted connection⟩, next)
    | (.error failure, next) =>
      (⟨{ searched with permits := searched.permits + 1 }, events,
        .refused (.create failure)⟩, next)

/-- Asks for a connection. -/
def borrow (isValid : κ → Bool) (create : σ → Except Failure κ × σ) (state : σ) (pool : Pool κ) :
    PoolStep κ (Loan κ) × σ :=
  if pool.closed then (⟨pool, [], .refused .closed⟩, state)
  else if pool.permits = 0 then (⟨pool, [], .wait⟩, state)
  else { pool with permits := pool.permits - 1 }.checkOut isValid create state

/-- Takes a connection back and its permit with it. -/
def giveBack (pool : Pool κ) (connection : κ) : PoolStep κ Unit :=
  let freed := { pool with permits := pool.permits + 1 }
  if pool.closed then ⟨freed, [.destroy connection], ()⟩
  else if pool.idle.length < pool.maxIdle then
    ⟨{ freed with idle := connection :: pool.idle }, [.passivate connection], ()⟩
  else ⟨freed, [.passivate connection, .destroy connection], ()⟩

/-- Takes a permit back after its connection has become useless. -/
def discard (pool : Pool κ) (connection : κ) : PoolStep κ Unit :=
  ⟨{ pool with permits := pool.permits + 1 }, [.destroy connection], ()⟩

/-- Closes the pool and destroys the idle connections, the one given back first at first. -/
def close (pool : Pool κ) : PoolStep κ Unit :=
  ⟨{ pool with idle := [], closed := true }, pool.idle.reverse.map .destroy, ()⟩

end Pool

end RingStore
