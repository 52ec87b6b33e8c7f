import Mathlib
import RingStore.Pool.Stages

/-!
# Steps at a pool

A borrower that nobody interrupts goes through its stages to what `Pool.borrow` gives it, and on the
way back to what `Pool.giveBack` and `Pool.discard` leave; so does someone who closes the pool.

Whoever takes a step, no connection is lost and none appears from nowhere: those in the hands of
that one and those at rest are the same before and after it, except for one that is opened and one
that is destroyed. Neither is a permit.

## Main results

* `Pool.proceedTimes_eq_borrow`, `Pool.startReturn_eq_giveBack`, `Pool.startDiscard_eq_discard`,
  `Pool.proceedClosingTimes_eq_close`: the steps taken one after the other.
* `Pool.Stage.Keeps`: where the connections of a step have gone.
* `Pool.proceed_keeps` and the like: every step keeps connections and permits.
-/

namespace RingStore

/-- What stands in a list in which an entry was set is that entry, or it stood there before. -/
theorem eq_or_getElem?_of_set {α : Type} {entries : List α} {position other : Nat} {new entry : α}
    (h : (entries.set position new)[other]? = some entry) :
    position = other ∧ entry = new ∨ position ≠ other ∧ entries[other]? = some entry := by
  by_cases hne : position = other
  · subst hne
    have hlength : position < entries.length := by
      simpa using (List.getElem?_eq_some_iff.1 h).1
    exact .inl ⟨rfl, (Option.some.inj ((List.getElem?_set_self hlength).symm.trans h)).symm⟩
  · exact .inr ⟨hne, (List.getElem?_set_ne hne).symm.trans h⟩

/-- What the entries of a list have together changes as one of them does. -/
theorem perm_flatMap_set {α β : Type} {entries : List α} {position : Nat} {old : α}
    (h : entries[position]? = some old) (new : α) (parts : α → List β) :
    (parts old ++ (entries.set position new).flatMap parts).Perm
      (parts new ++ entries.flatMap parts) := by
  obtain ⟨hposition, rfl⟩ := List.getElem?_eq_some_iff.1 h
  -- either list is the entry in question and all others, in some order
  have hnew := (List.set_perm_cons_eraseIdx hposition new).flatMap_right parts
  have hold := (List.getElem_cons_eraseIdx_perm hposition).flatMap_right parts
  exact ((hnew.append_left _).trans (List.perm_append_comm_assoc ..)).trans (hold.append_left _)

/-- So does the sum of a number that each of them has. -/
theorem sum_map_set {α : Type} {entries : List α} {position : Nat} {old : α}
    (h : entries[position]? = some old) (new : α) (number : α → Nat) :
    number old + ((entries.set position new).map number).sum =
      number new + (entries.map number).sum := by
  obtain ⟨hposition, rfl⟩ := List.getElem?_eq_some_iff.1 h
  have hnew := ((List.set_perm_cons_eraseIdx hposition new).map number).sum_eq
  have hold := ((List.getElem_cons_eraseIdx_perm hposition).map number).sum_eq
  rw [List.map_cons, List.sum_cons] at hnew hold
  omega

namespace PoolEvent

variable {κ : Type}

/-- The connections that are opened. -/
def created (events : List (PoolEvent κ)) : List κ :=
  events.filterMap fun
    | create connection => some connection
    | _ => none

/-- The connections that are destroyed, as often as that happens. -/
def destroyed (events : List (PoolEvent κ)) : List κ :=
  events.filterMap fun
    | destroy connection => some connection
    | _ => none

@[simp]
theorem created_append (front back : List (PoolEvent κ)) :
    created (front ++ back) = created front ++ created back :=
  List.filterMap_append ..

@[simp]
theorem destroyed_append (front back : List (PoolEvent κ)) :
    destroyed (front ++ back) = destroyed front ++ destroyed back :=
  List.filterMap_append ..

end PoolEvent

namespace Pool

variable {κ σ : Type} {barred : Bool} {isValid : κ → Bool}
  {create : σ → Except Failure κ × σ} {pool : Pool κ}

/-! ### Without interruption -/

/-- Several steps of a borrower with nobody in between. -/
def proceedTimes (barred : Bool) (isValid : κ → Bool) (create : σ → Except Failure κ × σ) :
    Nat → σ → Pool κ → Stage κ → PoolStep κ (Stage κ) × σ
  | 0, state, pool, stage => (⟨pool, [], stage⟩, state)
  | times + 1, state, pool, stage =>
    let (first, next) := pool.proceed barred isValid create state stage
    let (rest, last) := proceedTimes barred isValid create times next first.pool first.result
    (⟨rest.pool, first.events ++ rest.events, rest.result⟩, last)

/-- Several steps of someone who closes a pool, with nobody in between. -/
def proceedClosingTimes : Nat → Bool → Pool κ → Closing κ → PoolStep κ (Closing κ) × Bool
  | 0, barred, pool, stage => (⟨pool, [], stage⟩, barred)
  | times + 1, barred, pool, stage =>
    let (first, next) := pool.proceedClosing barred stage
    let (rest, last) := proceedClosingTimes times next first.pool first.result
    (⟨rest.pool, first.events ++ rest.events, rest.result⟩, last)

end Pool

/-- The stage of a borrower that has asked for a connection. -/
def Loan.stage {κ : Type} : Loan κ → Pool.Stage κ
  | wait => .waiting
  | refused error => .refused error
  | granted connection => .holding connection

namespace Pool

variable {κ σ : Type} {barred : Bool} {isValid : κ → Bool}
  {create : σ → Except Failure κ × σ} {pool : Pool κ}

variable (barred isValid create) in
/-- A borrower with a permit searches through what is at rest, and opens a connection if it finds
none. -/
theorem proceedTimes_eq_checkOut (state : σ) (pool : Pool κ) : ∃ times,
    proceedTimes barred isValid create times state pool .searching =
      let (step, next) := pool.checkOut isValid create state
      (⟨step.pool, step.events, step.result.stage⟩, next) := by
  obtain ⟨maxIdle, permits, idle, closed⟩ := pool
  induction idle with
  | nil =>
    -- one step finds that nothing is at rest, and the next one opens a connection
    refine ⟨2, ?_⟩
    rcases hcreate : create state with ⟨_ | connection, next⟩ <;>
      simp [proceedTimes, proceed, checkOut, takeIdle, hcreate, Loan.stage]
  | cons connection rest ih =>
    by_cases hvalid : isValid connection = true
    · exact ⟨2, by simp [proceedTimes, proceed, checkOut, takeIdle, hvalid, Loan.stage]⟩
    · -- an invalid one is destroyed, and the search goes on among the others
      obtain ⟨times, htimes⟩ := ih
      refine ⟨times + 2, ?_⟩
      simp only [proceedTimes, proceed, hvalid, htimes, Bool.false_eq_true, if_false]
      simp only [checkOut, takeIdle, hvalid, Bool.false_eq_true, if_false]
      generalize takeIdle isValid rest = search
      obtain ⟨events, found, left⟩ := search
      obtain _ | found := found
      · rcases create state with ⟨_ | opened, next⟩ <;> simp
      · simp

/-- A borrower that nobody interrupts gets what it gets when it asks for a connection at once. -/
theorem proceedTimes_eq_borrow (state : σ) (pool : Pool κ) : ∃ times,
    proceedTimes pool.closed isValid create times state pool .waiting =
      let (step, next) := pool.borrow isValid create state
      (⟨step.pool, step.events, step.result.stage⟩, next) := by
  unfold borrow
  by_cases hclosed : pool.closed = true
  · exact ⟨1, by simp [proceedTimes, proceed, hclosed, Loan.stage]⟩
  by_cases hpermits : pool.permits = 0
  · exact ⟨1, by simp [proceedTimes, proceed, hclosed, hpermits, Loan.stage]⟩
  · obtain ⟨times, htimes⟩ := proceedTimes_eq_checkOut pool.closed isValid create state
      { pool with permits := pool.permits - 1 }
    refine ⟨times + 1, ?_⟩
    simp only [proceedTimes, proceed, hclosed, hpermits, Bool.false_eq_true, if_false] at htimes ⊢
    rw [htimes]
    rfl

/-- A connection that comes back without interruption is given back at once. -/
theorem startReturn_eq_giveBack (state : σ) (pool : Pool κ) (connection : κ) :
    let first := pool.startReturn (.holding connection)
    let (rest, last) := proceedTimes barred isValid create 2 state first.pool first.result
    rest.pool = (pool.giveBack connection).pool ∧ rest.result = .gone ∧
      first.events ++ rest.events = (pool.giveBack connection).events ∧ last = state := by
  unfold giveBack
  by_cases hclosed : pool.closed = true
  · simp [startReturn, proceedTimes, proceed, hclosed]
  · by_cases hroom : pool.idle.length < pool.maxIdle <;>
      simp [startReturn, proceedTimes, proceed, hclosed, hroom]

/-- A connection that is found useless is destroyed, and its permit is free. -/
theorem startDiscard_eq_discard (state : σ) (pool : Pool κ) (connection : κ) :
    let first := pool.startDiscard (.holding connection)
    let (rest, last) := proceedTimes barred isValid create 1 state first.pool first.result
    rest.pool = (pool.discard connection).pool ∧ rest.result = .gone ∧
      first.events ++ rest.events = (pool.discard connection).events ∧ last = state :=
  ⟨rfl, rfl, rfl, rfl⟩

/-- What has been taken out of a pool is destroyed one by one. -/
theorem proceedClosingTimes_sweeping (barred : Bool) (pool : Pool κ) (left : List κ) :
    proceedClosingTimes (left.length + 1) barred pool (.sweeping left) =
      (⟨pool, left.map .destroy, .finished⟩, barred) := by
  induction left with
  | nil => rfl
  | cons connection rest ih =>
    rw [List.length_cons, proceedClosingTimes]
    simp only [proceedClosing, ih]
    rfl

/-- A pool that is closed without interruption is closed at once. -/
theorem proceedClosingTimes_eq_close (barred : Bool) (pool : Pool κ) :
    proceedClosingTimes (pool.idle.length + 4) barred pool .asked =
      (⟨pool.close.pool, pool.close.events, .finished⟩, true) := by
  have hsweep := proceedClosingTimes_sweeping true { pool with idle := [], closed := true }
    pool.idle.reverse
  rw [List.length_reverse] at hsweep
  -- three steps take out what is at rest
  have hsteps : proceedClosingTimes (pool.idle.length + 4) barred pool .asked =
      proceedClosingTimes (pool.idle.length + 1) true { pool with idle := [], closed := true }
        (.sweeping pool.idle.reverse) := rfl
  rw [hsteps, hsweep]
  rfl

/-! ### Where connections and permits go -/

/-- The number of permits of a borrower. -/
def Stage.permits : Stage κ → Nat
  | waiting | refused _ | gone => 0
  | searching | checking _ | opening | holding _ | returning _ | leaving => 1

theorem Stage.permits_le_one (stage : Stage κ) : stage.permits ≤ 1 := by
  cases stage <;> simp [permits]

/-- A step from one stage to another keeps connections and permits: apart from those opened and
destroyed, the connections in hand and at rest are the same, and so is the number of permits. -/
structure Stage.Keeps (pool : Pool κ) (stage : Stage κ) (step : PoolStep κ (Stage κ)) : Prop where
  /-- No connection is lost. -/
  connections : (PoolEvent.created step.events ++ stage.connections ++ pool.idle).Perm
    (PoolEvent.destroyed step.events ++ step.result.connections ++ step.pool.idle)
  /-- No permit is lost. -/
  permits : step.result.permits + step.pool.permits = stage.permits + pool.permits

theorem proceed_keeps (state : σ) (pool : Pool κ) (stage : Stage κ) :
    stage.Keeps pool (pool.proceed barred isValid create state stage).1 := by
  -- a connection moves between hand, rest and the events; only three steps move a permit
  cases stage with
  | waiting =>
    simp only [proceed]
    split
    · exact ⟨.refl _, rfl⟩
    split
    · exact ⟨.refl _, rfl⟩
    · exact ⟨.refl _, by simp only [Stage.permits]; omega⟩
  | searching =>
    simp only [proceed]
    split
    · exact ⟨.refl _, rfl⟩
    · next connection rest hidle => exact ⟨by rw [hidle]; exact .refl _, rfl⟩
  | checking connection =>
    simp only [proceed]
    split
    · exact ⟨.refl _, rfl⟩
    · exact ⟨.refl _, rfl⟩
  | opening =>
    simp only [proceed]
    split
    · exact ⟨.refl _, rfl⟩
    · exact ⟨.refl _, by simp only [Stage.permits]; omega⟩
  | returning connection =>
    simp only [proceed]
    split
    · exact ⟨.refl _, rfl⟩
    · exact ⟨.refl _, rfl⟩
  | leaving =>
    simp only [proceed]
    exact ⟨.refl _, by simp only [Stage.permits]; omega⟩
  | holding | refused | gone => exact ⟨.refl _, rfl⟩

theorem startReturn_keeps (pool : Pool κ) (stage : Stage κ) :
    stage.Keeps pool (pool.startReturn stage) := by
  cases stage with
  | holding connection =>
    simp only [startReturn]
    split
    · exact ⟨.refl _, rfl⟩
    · exact ⟨.refl _, rfl⟩
  | _ => exact ⟨.refl _, rfl⟩

theorem startDiscard_keeps (pool : Pool κ) (stage : Stage κ) :
    stage.Keeps pool (pool.startDiscard stage) := by
  cases stage <;> exact ⟨.refl _, rfl⟩

theorem giveUp_keeps (pool : Pool κ) (stage : Stage κ) :
    stage.Keeps pool (pool.giveUp stage) := by
  cases stage with
  | opening =>
    simp only [giveUp]
    exact ⟨.refl _, by simp only [Stage.permits]; omega⟩
  | _ => exact ⟨.refl _, rfl⟩

/-! ### What is opened -/

variable (barred isValid create) in
/-- Only a borrower for which a connection is being opened opens one. -/
theorem created_proceed (state : σ) (pool : Pool κ) {stage : Stage κ} (h : stage ≠ .opening) :
    PoolEvent.created (pool.proceed barred isValid create state stage).1.events = [] ∧
      (pool.proceed barred isValid create state stage).2 = state := by
  cases stage with
  | opening => exact absurd rfl h
  | waiting =>
    simp only [proceed]
    split
    · exact ⟨rfl, rfl⟩
    split <;> exact ⟨rfl, rfl⟩
  | searching | checking | returning =>
    simp only [proceed]
    split <;> exact ⟨rfl, rfl⟩
  | holding | leaving | refused | gone => exact ⟨rfl, rfl⟩

theorem created_startReturn (pool : Pool κ) (stage : Stage κ) :
    PoolEvent.created (pool.startReturn stage).events = [] := by
  cases stage with
  | holding connection =>
    simp only [startReturn]
    split <;> rfl
  | _ => rfl

theorem created_startDiscard (pool : Pool κ) (stage : Stage κ) :
    PoolEvent.created (pool.startDiscard stage).events = [] := by
  cases stage <;> rfl

theorem created_giveUp (pool : Pool κ) (stage : Stage κ) :
    PoolEvent.created (pool.giveUp stage).events = [] := by
  cases stage <;> rfl

/-- Closing a pool has nothing to do with permits, and puts nothing to rest. -/
theorem permits_proceedClosing (barred : Bool) (pool : Pool κ) (stage : Closing κ) :
    let step := (pool.proceedClosing barred stage).1
    step.pool.permits = pool.permits ∧ step.pool.idle ⊆ pool.idle := by
  cases stage with
  | sweeping left => cases left <;> exact ⟨rfl, List.Subset.refl _⟩
  | barred => exact ⟨rfl, List.nil_subset _⟩
  | _ => exact ⟨rfl, List.Subset.refl _⟩

/-- Closing a pool opens no connection and loses none. -/
theorem proceedClosing_keeps (barred : Bool) (pool : Pool κ) (stage : Closing κ) :
    let step := (pool.proceedClosing barred stage).1
    PoolEvent.created step.events = [] ∧
      (stage.connections ++ pool.idle).Perm
        (PoolEvent.destroyed step.events ++ step.result.connections ++ step.pool.idle) := by
  cases stage with
  | barred =>
    refine ⟨rfl, ?_⟩
    show pool.idle.Perm (pool.idle.reverse ++ [])
    rw [List.append_nil]
    exact (List.reverse_perm _).symm
  | sweeping left => cases left <;> exact ⟨rfl, .refl _⟩
  | _ => exact ⟨rfl, .refl _⟩

end Pool

end RingStore
