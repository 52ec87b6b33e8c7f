import RingStore.Pool

/-!
# Borrowing from a pool

What a borrower gets from a pool: a refusal if the pool is closed, nothing yet if no permit is
left, and else a connection or the failure to open one. From an open pool whose connections are
always valid it gets the idle connection that was given back last, or a new one, or the failure to
open one.

## Main results

* `Pool.borrow_cases`: what can come of asking for a connection.
* `Pool.borrow_of_idle`, `Pool.borrow_of_create_ok`, `Pool.borrow_of_create_error`: the three cases
  for connections that are always valid.
-/

namespace RingStore.Pool

variable {κ σ : Type} {pool : Pool κ} {create : σ → Except Failure κ × σ} {state : σ}

/-- At least one connection may be in use. -/
theorem capacity_pos (options : PoolOptions) : 0 < capacity options :=
  Nat.lt_of_lt_of_le Nat.one_pos (Nat.le_max_right options.maxActive 1)

/-- What can come of asking for a connection. A closed pool refuses, and without a permit the
borrower has to wait. With a permit it gets a connection that was idle or has just been opened, and
takes the permit, or none could be opened, and the permit is free again. Idle connections that were
found invalid are gone in both cases. -/
theorem borrow_cases (isValid : κ → Bool) (create : σ → Except Failure κ × σ) (state : σ)
    (pool : Pool κ) :
    (pool.closed = true ∧
      pool.borrow isValid create state = (⟨pool, [], .refused .closed⟩, state)) ∨
    (pool.closed = false ∧ pool.permits = 0 ∧
      pool.borrow isValid create state = (⟨pool, [], .wait⟩, state)) ∨
    (pool.closed = false ∧ pool.permits ≠ 0 ∧ ∃ idle events,
      (∃ failure next, create state = (.error failure, next) ∧
        pool.borrow isValid create state =
          (⟨{ pool with idle }, events, .refused (.create failure)⟩, next)) ∨
      (∃ connection next, (next = state ∨ create state = (.ok connection, next)) ∧
        pool.borrow isValid create state =
          (⟨{ pool with permits := pool.permits - 1, idle }, events, .granted connection⟩,
            next))) := by
  unfold borrow
  by_cases hclosed : pool.closed = true
  · exact .inl ⟨hclosed, if_pos hclosed⟩
  have hopen := Bool.eq_false_iff.2 hclosed
  rw [if_neg hclosed]
  by_cases hpermits : pool.permits = 0
  · exact .inr (.inl ⟨hopen, hpermits, if_pos hpermits⟩)
  rw [if_neg hpermits]
  refine .inr (.inr ⟨hopen, hpermits, ?_⟩)
  unfold checkOut
  obtain ⟨searched, found, idle⟩ := takeIdle isValid pool.idle
  -- a connection is opened only if none was found among those at rest
  obtain _ | connection := found
  · rcases hcreate : create state with ⟨_ | connection, next⟩
    · have hback : pool.permits - 1 + 1 = pool.permits :=
        Nat.sub_add_cancel (Nat.pos_of_ne_zero hpermits)
      refine ⟨idle, searched, .inl ⟨_, _, rfl, ?_⟩⟩
      simp only [hback]
    · exact ⟨idle, _, .inr ⟨connection, next, .inr rfl, rfl⟩⟩
  · exact ⟨idle, _, .inr ⟨connection, state, .inl rfl, rfl⟩⟩

theorem borrow_of_idle (hopen : pool.closed = false) (hpermits : pool.permits ≠ 0) {connection : κ}
    {rest : List κ} (hidle : pool.idle = connection :: rest) :
    pool.borrow (fun _ => true) create state =
      (⟨{ pool with permits := pool.permits - 1, idle := rest },
        [.validate connection, .activate connection], .granted connection⟩, state) := by
  rw [borrow, if_neg (by simp [hopen]), if_neg hpermits, checkOut]
  simp [hidle, takeIdle]

theorem borrow_of_create_ok (hopen : pool.closed = false) (hpermits : pool.permits ≠ 0)
    (hidle : pool.idle = []) {connection : κ} {next : σ}
    (hcreate : create state = (.ok connection, next)) :
    pool.borrow (fun _ => true) create state =
      (⟨{ pool with permits := pool.permits - 1 },
        [.create connection, .activate connection], .granted connection⟩, next) := by
  rw [borrow, if_neg (by simp [hopen]), if_neg hpermits, checkOut]
  simp [hidle, takeIdle, hcreate]

/-- The permit of a borrower for which no connection could be opened is free again. -/
theorem borrow_of_create_error (hopen : pool.closed = false) (hpermits : pool.permits ≠ 0)
    (hidle : pool.idle = []) {failure : Failure} {next : σ}
    (hcreate : create state = (.error failure, next)) :
    pool.borrow (fun _ => true) create state =
      (⟨pool, [], .refused (.create failure)⟩, next) := by
  have hback : pool.permits - 1 + 1 = pool.permits :=
    Nat.sub_add_cancel (Nat.pos_of_ne_zero hpermits)
  rw [borrow, if_neg (by simp [hopen]), if_neg hpermits, checkOut]
  obtain ⟨maxIdle, permits, idle, closed⟩ := pool
  simp only at hidle hback
  simp [hidle, takeIdle, hcreate, hback]

/-- An open pool takes a connection's permit back and keeps the connection if there is room. -/
theorem giveBack_of_open (hopen : pool.closed = false) (connection : κ) :
    (pool.giveBack connection).pool =
      { pool with
        permits := pool.permits + 1
        idle := if pool.idle.length < pool.maxIdle then connection :: pool.idle
          else pool.idle } := by
  rw [giveBack, if_neg (by simp [hopen])]
  split <;> rfl

end RingStore.Pool
