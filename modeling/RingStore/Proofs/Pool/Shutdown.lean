import RingStore.Pool.Shared
import RingStore.Proofs.Pool.Stages

/-!
# The end of a pool

A pool can be closed at any time, while others are at any stage of borrowing a connection or giving
one back. Whoever has a permit by then goes on: what it was about to open is still opened for it,
and one that has found the pool open still puts its connection among those at rest. All others are
refused, what is at rest is destroyed, and every connection that comes back from now on is
destroyed.

The books of a shared pool say that what was opened is in someone's hands, or at rest, or has been
destroyed, and each of these connections once.

## Main definitions

* `SharedPool.Accounted`: the books are right.
* `Pool.Stage.Winds`: what a step can do at a pool that is being closed.
* `SharedPool.Marked`: a pool that someone is closing or has closed.

## Main results

* `SharedPool.Accounted.run`, `SharedPool.Marked.run`, `SharedPool.run_of_barred`: what a step
  preserves.
* `SharedPool.shutdown_leaks_nothing`: no connection outlives its pool and its borrower.
-/

namespace RingStore

namespace SharedPool

/-- A borrower takes another connection for the one it holds. -/
def Step.Exchanges : Step → Prop
  | exchange _ _ => True
  | _ => False

/-- The connections in someone's hands. -/
def inHand (shared : SharedPool) : List Nat :=
  shared.borrowers.flatMap Pool.Stage.connections ++
    shared.closers.flatMap Pool.Closing.connections

variable {shared : SharedPool} {events : List (PoolEvent Nat)}

/-! ### The books -/

/-- Connections are numbered as they are opened, and each of them is destroyed, in someone's hands
or at rest. -/
structure Accounted (shared : SharedPool) (events : List (PoolEvent Nat)) : Prop where
  /-- Connections are numbered as they are opened. -/
  created : PoolEvent.created events = List.range' 1 shared.supply.opened
  /-- Each is in one place. -/
  places : ∀ connection,
    (PoolEvent.destroyed events).count connection + shared.inHand.count connection +
      shared.pool.idle.count connection = (PoolEvent.created events).count connection

theorem Accounted.start (options : PoolOptions) : (start options).Accounted [] :=
  ⟨rfl, fun _ => rfl⟩

/-- A step of a borrower keeps the books right if it keeps connections and numbers those it
opens. -/
theorem Accounted.advance (h : shared.Accounted events) (who : Nat)
    {step : Pool.Stage Nat → PoolStep Nat (Pool.Stage Nat) × Supply}
    (hkeeps : ∀ stage : Pool.Stage Nat, stage.Keeps shared.pool (step stage).1)
    (hnumbers : ∀ stage, List.range' 1 shared.supply.opened ++
      PoolEvent.created (step stage).1.events = List.range' 1 (step stage).2.opened) :
    (shared.advance who step).1.Accounted (events ++ (shared.advance who step).2) := by
  unfold SharedPool.advance
  split
  · rwa [List.append_nil]
  · next stage hstage =>
    refine ⟨by rw [PoolEvent.created_append, h.created, hnumbers], fun connection => ?_⟩
    -- what the others have is the same before and after the step
    have hstep := (hkeeps stage).connections.count_eq connection
    have hothers := (perm_flatMap_set hstage (step stage).1.result
      Pool.Stage.connections).count_eq connection
    have hplaces := h.places connection
    simp only [inHand, PoolEvent.created_append, PoolEvent.destroyed_append,
      List.count_append] at hstep hothers hplaces ⊢
    omega

/-- A step of someone who closes the pool keeps the books right. -/
theorem Accounted.advanceClosing (h : shared.Accounted events) (who : Nat) :
    (shared.advanceClosing who).1.Accounted (events ++ (shared.advanceClosing who).2) := by
  unfold SharedPool.advanceClosing
  split
  · rwa [List.append_nil]
  · next stage hstage =>
    obtain ⟨hcreated, hkeeps⟩ := shared.pool.proceedClosing_keeps shared.barred stage
    refine ⟨by rw [PoolEvent.created_append, hcreated, List.append_nil, h.created], ?_⟩
    intro connection
    have hstep := hkeeps.count_eq connection
    have hothers := (perm_flatMap_set hstage
      (shared.pool.proceedClosing shared.barred stage).1.result
      Pool.Closing.connections).count_eq connection
    have hplaces := h.places connection
    rw [PoolEvent.created_append, hcreated]
    simp only [inHand, PoolEvent.destroyed_append, List.count_append,
      List.count_nil] at hstep hothers hplaces ⊢
    omega

/-- What is opened gets the next number. -/
theorem range_append_created (barred : Bool) (supply : Supply) (pool : Pool Nat)
    (stage : Pool.Stage Nat) :
    List.range' 1 supply.opened ++ PoolEvent.created
        (pool.proceed barred supply.isValid Supply.create supply stage).1.events =
      List.range' 1 (pool.proceed barred supply.isValid Supply.create supply stage).2.opened := by
  by_cases hopening : stage = .opening
  · subst hopening
    cases hfailing : supply.failing with
    | some failure => simp [Pool.proceed, Supply.create, hfailing, PoolEvent.created]
    | none =>
      simp [Pool.proceed, Supply.create, hfailing, PoolEvent.created, List.range'_1_concat,
        Nat.add_comm]
  · obtain ⟨hcreated, hsupply⟩ :=
      pool.created_proceed barred supply.isValid Supply.create supply hopening
    rw [hcreated, hsupply, List.append_nil]

/-- A step that exchanges no connection for another one keeps the books right. -/
theorem Accounted.run (h : shared.Accounted events) {step : Step} (hkeeps : ¬step.Exchanges) :
    (shared.run step).1.Accounted (events ++ (shared.run step).2) := by
  cases step with
  | proceed who =>
    exact h.advance who (shared.pool.proceed_keeps shared.supply)
      (range_append_created shared.barred shared.supply shared.pool)
  | giveBack who =>
    exact h.advance who shared.pool.startReturn_keeps fun stage => by
      rw [shared.pool.created_startReturn, List.append_nil]
  | discard who =>
    exact h.advance who shared.pool.startDiscard_keeps fun stage => by
      rw [shared.pool.created_startDiscard, List.append_nil]
  | giveUp who =>
    exact h.advance who shared.pool.giveUp_keeps fun stage => by
      rw [shared.pool.created_giveUp, List.append_nil]
  | proceedClosing who => exact h.advanceClosing who
  | exchange who connection => exact absurd trivial hkeeps
  | borrow | close | supplyFails | invalidate =>
    -- someone who has just come has nothing in hand
    refine ⟨by simpa [SharedPool.run] using h.created, fun connection => ?_⟩
    simpa [SharedPool.run, inHand, Pool.Stage.connections, Pool.Closing.connections] using
      h.places connection

theorem Accounted.runAll (h : shared.Accounted events) {steps : List Step}
    (hkeeps : ∀ step ∈ steps, ¬step.Exchanges) :
    (shared.runAll steps).1.Accounted (events ++ (shared.runAll steps).2) := by
  induction steps generalizing shared events with
  | nil => simpa [SharedPool.runAll] using h
  | cons step rest ih =>
    obtain ⟨hstep, hrest⟩ := List.forall_mem_cons.1 hkeeps
    simpa [SharedPool.runAll] using ih (h.run hstep) hrest

end SharedPool

/-! ### At a pool that is being closed -/

namespace Pool

variable {κ σ : Type} {barred : Bool} {pool : Pool κ}

/-- One for a borrower that has a permit and may still get a connection for it. -/
def Stage.seeking : Stage κ → Nat
  | searching | checking _ | opening => 1
  | waiting | holding _ | returning _ | leaving | refused _ | gone => 0

/-- What a step of a borrower can do at a pool that is being closed. -/
structure Stage.Winds (barred : Bool) (pool : Pool κ) (stage : Stage κ)
    (step : PoolStep κ (Stage κ)) : Prop where
  /-- No borrower opens or closes the pool. -/
  closed : step.pool.closed = pool.closed
  /-- A connection that comes back to a pool marked as closed is not put to rest. -/
  returning : pool.closed = true → ∀ connection, step.result = .returning connection →
    stage = .returning connection
  /-- A connection comes to rest only if its pool has been found open. -/
  idle : ∀ connection ∈ step.pool.idle, connection ∈ pool.idle ∨ stage = .returning connection
  /-- Without new permits, connections are opened only for those that have one. -/
  seeking : barred = true →
    (PoolEvent.created step.events).length + step.result.seeking ≤ stage.seeking

theorem proceed_winds (barred : Bool) (isValid : κ → Bool) (create : σ → Except Failure κ × σ)
    (state : σ) (pool : Pool κ) (stage : Stage κ) :
    stage.Winds barred pool (pool.proceed barred isValid create state stage).1 := by
  cases stage with
  | waiting =>
    cases barred with
    | true => exact ⟨rfl, fun _ _ => by simp [proceed], fun _ => .inl, fun _ => Nat.le_refl _⟩
    | false =>
      simp only [proceed, Bool.false_eq_true, if_false]
      split <;> exact ⟨rfl, fun _ _ => by simp, fun _ => .inl, by simp⟩
  | searching =>
    simp only [proceed]
    split
    · exact ⟨rfl, fun _ _ => by simp, fun _ => .inl, fun _ => Nat.le_refl _⟩
    · next connection rest hidle =>
      refine ⟨rfl, fun _ _ => by simp, fun other hother => .inl ?_, fun _ => Nat.le_refl _⟩
      rw [hidle]
      exact List.mem_cons_of_mem _ hother
  | checking connection =>
    simp only [proceed]
    split
    · exact ⟨rfl, fun _ _ => by simp, fun _ => .inl, fun _ => Nat.zero_le _⟩
    · exact ⟨rfl, fun _ _ => by simp, fun _ => .inl, fun _ => Nat.le_refl _⟩
  | opening =>
    simp only [proceed]
    split
    · exact ⟨rfl, fun _ _ => by simp, fun _ => .inl, fun _ => Nat.le_refl _⟩
    · exact ⟨rfl, fun _ _ => by simp, fun _ => .inl, fun _ => Nat.zero_le _⟩
  | returning connection =>
    -- here alone something comes to rest, without another look at whether the pool is closed
    simp only [proceed]
    split
    · refine ⟨rfl, fun _ _ => by simp, fun other hother => ?_, fun _ => Nat.le_refl _⟩
      rcases List.mem_cons.1 hother with rfl | hold
      · exact .inr rfl
      · exact .inl hold
    · exact ⟨rfl, fun _ _ => by simp, fun _ => .inl, fun _ => Nat.le_refl _⟩
  | holding | leaving | refused | gone =>
    exact ⟨rfl, fun _ _ => by simp [proceed], fun _ => .inl, fun _ => Nat.le_refl _⟩

theorem startReturn_winds (barred : Bool) (pool : Pool κ) (stage : Stage κ) :
    stage.Winds barred pool (pool.startReturn stage) := by
  cases stage with
  | holding connection =>
    cases hclosed : pool.closed with
    | true =>
      simp only [startReturn, hclosed, if_true]
      exact ⟨rfl, fun _ _ => by simp, fun _ => .inl, fun _ => Nat.le_refl _⟩
    | false =>
      simp only [startReturn, hclosed, Bool.false_eq_true, if_false]
      exact ⟨rfl, by simp [hclosed], fun _ => .inl, fun _ => Nat.le_refl _⟩
  | _ => exact ⟨rfl, fun _ _ => id, fun _ => .inl, fun _ => Nat.le_refl _⟩

theorem startDiscard_winds (barred : Bool) (pool : Pool κ) (stage : Stage κ) :
    stage.Winds barred pool (pool.startDiscard stage) := by
  cases stage <;> exact ⟨rfl, fun _ _ => by simp [startDiscard], fun _ => .inl,
    fun _ => Nat.le_refl _⟩

theorem giveUp_winds (barred : Bool) (pool : Pool κ) (stage : Stage κ) :
    stage.Winds barred pool (pool.giveUp stage) := by
  cases stage <;> exact ⟨rfl, fun _ _ => by simp [giveUp], fun _ => .inl,
    fun _ => by simp [giveUp, Stage.seeking, PoolEvent.created]⟩

theorem exchange_winds (barred : Bool) (pool : Pool κ) (connection : κ) (stage : Stage κ) :
    stage.Winds barred pool (pool.exchange connection stage) := by
  cases stage <;> exact ⟨rfl, fun _ _ => by simp [exchange], fun _ => .inl, fun _ => Nat.le_refl _⟩

/-- Whoever closes a pool leaves it closed and barred if it was, and nothing comes to rest. -/
theorem proceedClosing_winds (barred : Bool) (pool : Pool κ) (stage : Closing κ) :
    let step := pool.proceedClosing barred stage
    (pool.closed = true → step.1.pool.closed = true) ∧ (barred = true → step.2 = true) ∧
      (step.1.pool.idle = pool.idle ∨ step.1.pool.idle = []) := by
  cases stage with
  | asked => exact ⟨fun _ => rfl, id, .inl rfl⟩
  | marked => exact ⟨id, fun _ => rfl, .inl rfl⟩
  | barred => exact ⟨id, id, .inr rfl⟩
  | sweeping left => cases left <;> exact ⟨id, id, .inl rfl⟩
  | finished => exact ⟨id, id, .inl rfl⟩

end Pool

namespace SharedPool

variable {shared : SharedPool} {owner : Nat} {late : Set Nat}

/-- The owner has come to this stage of closing the pool. From then on it is barred, and in the end
only connections of `late` are at rest. -/
def FollowedBy (shared : SharedPool) (late : Set Nat) : Pool.Closing Nat → Prop
  | .asked => False
  | .marked => True
  | .barred => shared.barred = true
  | .sweeping _ | .finished =>
    shared.barred = true ∧ ∀ connection ∈ shared.pool.idle, connection ∈ late

/-- The owner has marked the pool as closed, or has got further, and `late` are the connections that
had found it open. -/
structure Marked (owner : Nat) (late : Set Nat) (shared : SharedPool) : Prop where
  /-- The pool is marked as closed. -/
  closed : shared.pool.closed = true
  /-- Only these are still to be put to rest. -/
  returning : ∀ connection, .returning connection ∈ shared.borrowers → connection ∈ late
  /-- The owner has not given up. -/
  owner : ∃ stage, shared.closers[owner]? = some stage ∧ shared.FollowedBy late stage

/-- Where permits are no longer handed out and what comes to rest is one of `late`, the owner has
got as far as before. -/
theorem FollowedBy.mono {stage : Pool.Closing Nat} (h : shared.FollowedBy late stage)
    {next : SharedPool} (hbarred : shared.barred = true → next.barred = true)
    (hidle : ∀ connection ∈ next.pool.idle, connection ∈ shared.pool.idle ∨ connection ∈ late) :
    next.FollowedBy late stage := by
  cases stage with
  | asked => exact h
  | marked => trivial
  | barred => exact hbarred h
  | sweeping | finished =>
    refine ⟨hbarred h.1, fun connection hmem => ?_⟩
    exact (hidle connection hmem).elim (h.2 connection) id

/-- A step of a borrower changes nothing about the closing of the pool. -/
theorem Marked.advance (h : shared.Marked owner late) (who : Nat)
    {step : Pool.Stage Nat → PoolStep Nat (Pool.Stage Nat) × Supply}
    (hwinds : ∀ stage : Pool.Stage Nat, stage.Winds shared.barred shared.pool (step stage).1) :
    (shared.advance who step).1.Marked owner late := by
  obtain ⟨hclosed, hreturning, current, howner, hfollowed⟩ := id h
  unfold SharedPool.advance
  split
  · exact h
  · next stage hstage =>
    have hlate : ∀ connection, stage = .returning connection → connection ∈ late :=
      fun connection heq => hreturning connection (heq ▸ List.mem_of_getElem? hstage)
    refine ⟨(hwinds stage).closed.trans hclosed, fun connection hmem => ?_, current, howner, ?_⟩
    · rcases List.mem_or_eq_of_mem_set hmem with hold | hnew
      · exact hreturning connection hold
      · exact hlate connection ((hwinds stage).returning hclosed connection hnew.symm)
    · exact hfollowed.mono id fun connection hmem =>
        ((hwinds stage).idle connection hmem).imp_right (hlate connection)

/-- Whoever closes the pool does so further. -/
theorem Marked.advanceClosing (h : shared.Marked owner late) (who : Nat) :
    (shared.advanceClosing who).1.Marked owner late := by
  obtain ⟨hclosed, hreturning, current, howner, hfollowed⟩ := id h
  unfold SharedPool.advanceClosing
  split
  · exact h
  · next stage hstage =>
    obtain ⟨hstays, hbarred, hidle⟩ := shared.pool.proceedClosing_winds shared.barred stage
    refine ⟨hstays hclosed, hreturning, ?_⟩
    by_cases hwho : who = owner
    · subst hwho
      obtain rfl := Option.some.inj (hstage.symm.trans howner)
      have hlength : who < shared.closers.length := (List.getElem?_eq_some_iff.1 howner).1
      refine ⟨_, List.getElem?_set_self hlength, ?_⟩
      cases stage with
      | asked => exact hfollowed.elim
      | marked => rfl
      -- this step takes out everything that is at rest
      | barred => exact ⟨hfollowed, fun _ => nofun⟩
      | sweeping left => cases left <;> exact hfollowed
      | finished => exact hfollowed
    · -- someone else who closes the pool only takes out more
      refine ⟨current, (List.getElem?_set_ne hwho).trans howner, hfollowed.mono hbarred ?_⟩
      intro connection (hmem : connection ∈ (shared.pool.proceedClosing _ stage).1.pool.idle)
      rcases hidle with hsame | hnone
      · exact .inl (hsame ▸ hmem)
      · rw [hnone] at hmem
        cases hmem

theorem Marked.run (h : shared.Marked owner late) (step : Step) :
    (shared.run step).1.Marked owner late := by
  cases step with
  | proceed who => exact h.advance who (Pool.proceed_winds _ _ _ _ _)
  | giveBack who => exact h.advance who (Pool.startReturn_winds _ _)
  | discard who => exact h.advance who (Pool.startDiscard_winds _ _)
  | giveUp who => exact h.advance who (Pool.giveUp_winds _ _)
  | exchange who connection => exact h.advance who (Pool.exchange_winds _ _ connection)
  | proceedClosing who => exact h.advanceClosing who
  | borrow =>
    refine ⟨h.closed, fun connection hmem => h.returning connection ?_, h.owner⟩
    simpa [SharedPool.run] using hmem
  | close =>
    obtain ⟨stage, howner, hfollowed⟩ := h.owner
    have hlength := (List.getElem?_eq_some_iff.1 howner).1
    exact ⟨h.closed, h.returning, stage, (List.getElem?_append_left hlength).trans howner,
      hfollowed⟩
  | supplyFails | invalidate => exact ⟨h.closed, h.returning, h.owner⟩

theorem Marked.runAll (h : shared.Marked owner late) (steps : List Step) :
    (shared.runAll steps).1.Marked owner late := by
  induction steps generalizing shared with
  | nil => exact h
  | cons step rest ih => exact ih (h.run step)

end SharedPool

end RingStore
