import Mathlib.Logic.Function.Basic
import RingStore.Pool.Borrowers

/-!
# Where pooled connections are

Every connection that a pool has ever had is in one place: a borrower has it, or it is idle, or it
has been destroyed. The events of one connection tell that place, since each of them moves it from
the place where it is to the next one. The places are no part of a pool. They are chosen along the
way, as a *ledger* that is kept next to it.

## Main definitions

* `PoolEvent.life`, `PoolEvent.endings`: what can happen to one connection.
* `Ledger`: where each connection is, in agreement with all events so far.
* `Pool.Balanced`: a pool that agrees with a ledger and with its options.

## Main results

* `Ledger.move`: one connection changes its place.
* `Pool.Balanced.borrow`, `Pool.Balanced.giveBack`, `Pool.Balanced.discard`,
  `Pool.Balanced.close`: what can be done to a pool keeps it balanced.
-/

namespace RingStore

namespace PoolEvent

/-- The connection that something is done to. -/
def connection {κ : Type} : PoolEvent κ → κ
  | create connection => connection
  | validate connection => connection
  | activate connection => connection
  | passivate connection => connection
  | destroy connection => connection

/-- What happens to a connection that is opened, lent, and then so many times put to rest and lent
again. -/
def life {κ : Type} (connection : κ) : (rounds : Nat) → List (PoolEvent κ)
  | 0 => [create connection, activate connection]
  | rounds + 1 => life connection rounds ++
      [passivate connection, validate connection, activate connection]

/-- What can happen to a connection after it has been lent for the last time: it is destroyed as it
comes back, or there is no room for it, or the pool is closed while it is at rest, which looks the
same, or it is found invalid when it is to be lent again. -/
def endings {κ : Type} (connection : κ) : List (List (PoolEvent κ)) :=
  [[destroy connection], [passivate connection, destroy connection],
    [passivate connection, validate connection, destroy connection]]

/-- The events of one connection. -/
def ofConnection (connection : Nat) (events : List (PoolEvent Nat)) : List (PoolEvent Nat) :=
  events.filter fun event => event.connection = connection

theorem ofConnection_append (connection : Nat) (front back : List (PoolEvent Nat)) :
    ofConnection connection (front ++ back) =
      ofConnection connection front ++ ofConnection connection back :=
  List.filter_append ..

/-- Whether an event occurs is seen among the events of its connection. -/
theorem count_ofConnection (event : PoolEvent Nat) (events : List (PoolEvent Nat)) :
    (ofConnection event.connection events).count event = events.count event :=
  List.count_filter (by simp)

theorem count_destroy_life (connection rounds : Nat) :
    (life connection rounds).count (destroy connection) = 0 := by
  induction rounds with
  | zero => simp [life]
  | succ rounds ih => simp [life, ih]

theorem create_mem_life (connection rounds : Nat) :
    create connection ∈ life connection rounds := by
  induction rounds with
  | zero => exact List.mem_cons_self
  | succ rounds ih => exact List.mem_append_left _ ih

end PoolEvent

/-- Where a connection is. -/
inductive Whereabouts where
  /-- It has not been opened yet. -/
  | unopened
  /-- A borrower has it. -/
  | lent
  /-- It is at rest. -/
  | idle
  /-- It has been closed for good. -/
  | destroyed
  deriving DecidableEq

open PoolEvent in
/-- The events of a connection have led it to where it is. -/
def Whereabouts.ReachedBy (connection : Nat) (events : List (PoolEvent Nat)) : Whereabouts → Prop
  | unopened => events = []
  | lent => ∃ rounds, events = life connection rounds
  | idle => ∃ rounds, events = life connection rounds ++ [passivate connection]
  | destroyed => ∃ rounds, ∃ ending ∈ endings connection, events = life connection rounds ++ ending

namespace Whereabouts

variable {connection : Nat} {events : List (PoolEvent Nat)} {place : Whereabouts}

/-- Wherever a connection is, what has happened to it is the beginning of a whole life. -/
theorem ReachedBy.isPrefix (h : place.ReachedBy connection events) :
    ∃ rounds, ∃ ending ∈ PoolEvent.endings connection,
      events <+: PoolEvent.life connection rounds ++ ending := by
  cases place with
  | unopened =>
    obtain rfl := h
    exact ⟨0, _, .head _, List.nil_prefix⟩
  | lent =>
    obtain ⟨rounds, rfl⟩ := h
    exact ⟨rounds, _, .head _, List.prefix_append ..⟩
  | idle =>
    obtain ⟨rounds, rfl⟩ := h
    exact ⟨rounds, _, .tail _ (.head _), [.destroy connection], by simp⟩
  | destroyed =>
    obtain ⟨rounds, ending, hending, rfl⟩ := h
    exact ⟨rounds, ending, hending, List.prefix_refl _⟩

/-- It has been opened unless it is still to be. -/
theorem ReachedBy.create_mem_iff (h : place.ReachedBy connection events) :
    .create connection ∈ events ↔ place ≠ unopened := by
  have hlife := PoolEvent.create_mem_life connection
  cases place with
  | unopened =>
    obtain rfl := h
    simp
  | lent =>
    obtain ⟨rounds, rfl⟩ := h
    simp [hlife rounds]
  | idle =>
    obtain ⟨rounds, rfl⟩ := h
    simp [hlife rounds]
  | destroyed =>
    obtain ⟨rounds, ending, -, rfl⟩ := h
    simp [hlife rounds]

/-- It has been destroyed once if it has been destroyed. -/
theorem ReachedBy.count_destroy (h : place.ReachedBy connection events) :
    events.count (.destroy connection) = if place = destroyed then 1 else 0 := by
  have hlife := PoolEvent.count_destroy_life connection
  cases place with
  | unopened =>
    obtain rfl := h
    rfl
  | lent =>
    obtain ⟨rounds, rfl⟩ := h
    exact hlife rounds
  | idle =>
    obtain ⟨rounds, rfl⟩ := h
    simp [hlife rounds]
  | destroyed =>
    obtain ⟨rounds, ending, hending, rfl⟩ := h
    rw [List.count_append, hlife rounds, Nat.zero_add, if_pos rfl]
    simp only [PoolEvent.endings, List.mem_cons, List.not_mem_nil, or_false] at hending
    rcases hending with rfl | rfl | rfl <;> simp

end Whereabouts

/-- Where every connection is: those lent and those idle occur once there and nowhere else, those
opened are numbered from one, and the events of each have led it to its place. -/
structure Ledger (places : Nat → Whereabouts) (lent idle : List Nat) (opened : Nat)
    (events : List (PoolEvent Nat)) : Prop where
  /-- The events of a connection have led it to its place. -/
  reached : ∀ connection,
    (places connection).ReachedBy connection (PoolEvent.ofConnection connection events)
  /-- Connections that borrowers have. -/
  lent : ∀ connection, lent.count connection = if places connection = .lent then 1 else 0
  /-- Connections at rest. -/
  idle : ∀ connection, idle.count connection = if places connection = .idle then 1 else 0
  /-- Connections are numbered as they are opened. -/
  opened : ∀ connection, places connection ≠ .unopened ↔ 0 < connection ∧ connection ≤ opened

namespace Ledger

variable {places : Nat → Whereabouts} {lent idle : List Nat} {opened connection : Nat}
  {events : List (PoolEvent Nat)}

/-- Before anything has happened. -/
theorem start : Ledger (fun _ => .unopened) [] [] 0 [] where
  reached _ := rfl
  lent _ := rfl
  idle _ := rfl
  opened connection := by
    simp only [ne_eq, not_true_eq_false, false_iff]
    omega

theorem perm (h : Ledger places lent idle opened events) {others : List Nat}
    (hperm : lent.Perm others) : Ledger places others idle opened events :=
  { h with lent := fun connection => (hperm.count_eq connection).symm.trans (h.lent connection) }

theorem permIdle (h : Ledger places lent idle opened events) {others : List Nat}
    (hperm : idle.Perm others) : Ledger places lent others opened events :=
  { h with idle := fun connection => (hperm.count_eq connection).symm.trans (h.idle connection) }

/-- What is known of a connection that a borrower has. -/
theorem of_lent (h : Ledger places (connection :: lent) idle opened events) :
    (∃ rounds, PoolEvent.ofConnection connection events = PoolEvent.life connection rounds) ∧
      lent.count connection = 0 ∧ idle.count connection = 0 ∧
      0 < connection ∧ connection ≤ opened := by
  have hlent := h.lent connection
  rw [List.count_cons_self] at hlent
  have hplace : places connection = .lent := by
    by_contra hplace
    rw [if_neg hplace] at hlent
    cases hlent
  have hreached := h.reached connection
  have hidle := h.idle connection
  rw [hplace] at hreached hlent hidle
  exact ⟨hreached, Nat.succ.inj hlent, hidle, (h.opened connection).1 (hplace ▸ nofun)⟩

/-- What is known of a connection at rest. -/
theorem of_idle (h : Ledger places lent (connection :: idle) opened events) :
    (∃ rounds, PoolEvent.ofConnection connection events =
        PoolEvent.life connection rounds ++ [.passivate connection]) ∧
      lent.count connection = 0 ∧ idle.count connection = 0 ∧
      0 < connection ∧ connection ≤ opened := by
  have hidle := h.idle connection
  rw [List.count_cons_self] at hidle
  have hplace : places connection = .idle := by
    by_contra hplace
    rw [if_neg hplace] at hidle
    cases hidle
  have hreached := h.reached connection
  have hlent := h.lent connection
  rw [hplace] at hreached hlent hidle
  exact ⟨hreached, hlent, Nat.succ.inj hidle, (h.opened connection).1 (hplace ▸ nofun)⟩

/-- One connection changes its place, by events of its own; all others stay where they are. -/
theorem move (h : Ledger places lent idle opened events) (connection : Nat) (place : Whereabouts)
    {more : List (PoolEvent Nat)} {lent' idle' : List Nat} {opened' : Nat}
    (hreached : place.ReachedBy connection (PoolEvent.ofConnection connection events ++ more))
    (hmore : ∀ event ∈ more, event.connection = connection)
    (hlent : lent'.count connection = if place = .lent then 1 else 0)
    (hlents : ∀ other ≠ connection, lent'.count other = lent.count other)
    (hidle : idle'.count connection = if place = .idle then 1 else 0)
    (hidles : ∀ other ≠ connection, idle'.count other = idle.count other)
    (hplace : place ≠ .unopened) (hopened : 0 < connection ∧ connection ≤ opened')
    (hopeneds : ∀ other ≠ connection,
      (0 < other ∧ other ≤ opened ↔ 0 < other ∧ other ≤ opened')) :
    Ledger (Function.update places connection place) lent' idle' opened' (events ++ more) := by
  have hevents : ∀ other, PoolEvent.ofConnection other more =
      if other = connection then more else [] := by
    intro other
    split
    · next heq =>
      exact List.filter_eq_self.2 fun event hevent =>
        decide_eq_true ((hmore event hevent).trans heq.symm)
    · next hne =>
      exact List.filter_eq_nil_iff.2 fun event hevent hother =>
        hne ((of_decide_eq_true hother).symm.trans (hmore event hevent))
  -- each of the four clauses is given for the connection itself and carried over for the others
  constructor
  case reached =>
    intro other
    by_cases heq : other = connection
    · subst heq
      rwa [PoolEvent.ofConnection_append, hevents, if_pos rfl, Function.update_self]
    · rw [PoolEvent.ofConnection_append, hevents, if_neg heq, List.append_nil,
        Function.update_of_ne heq]
      exact h.reached other
  case lent =>
    intro other
    by_cases heq : other = connection
    · subst heq
      rwa [Function.update_self]
    · rw [Function.update_of_ne heq, hlents other heq]
      exact h.lent other
  case idle =>
    intro other
    by_cases heq : other = connection
    · subst heq
      rwa [Function.update_self]
    · rw [Function.update_of_ne heq, hidles other heq]
      exact h.idle other
  case opened =>
    intro other
    by_cases heq : other = connection
    · subst heq
      rw [Function.update_self]
      exact iff_of_true hplace hopened
    · rw [Function.update_of_ne heq]
      exact (h.opened other).trans (hopeneds other heq)

/-- A connection is opened for a borrower. -/
theorem create (h : Ledger places lent idle opened events) :
    ∃ places', Ledger places' ((opened + 1) :: lent) idle (opened + 1)
      (events ++ [.create (opened + 1), .activate (opened + 1)]) := by
  have hnew : places (opened + 1) = .unopened := by
    by_contra hplace
    have := (h.opened _).1 hplace
    omega
  have hreached := h.reached (opened + 1)
  have hlent := h.lent (opened + 1)
  have hidle := h.idle (opened + 1)
  rw [hnew] at hreached hlent hidle
  refine ⟨_, h.move (opened + 1) .lent ⟨0, ?_⟩ (by simp [PoolEvent.connection]) ?_
    (fun other hne => List.count_cons_of_ne (Ne.symm hne)) hidle (fun _ _ => rfl) nofun
    (by omega) fun other hne => by omega⟩
  · rw [show PoolEvent.ofConnection (opened + 1) events = [] from hreached]
    rfl
  · rw [List.count_cons_self, hlent]
    rfl

/-- A connection that a borrower has is put to rest. -/
theorem rest (h : Ledger places (connection :: lent) idle opened events) :
    ∃ places', Ledger places' lent (connection :: idle) opened
      (events ++ [.passivate connection]) := by
  obtain ⟨⟨rounds, hlife⟩, hlent, hidle, hopened⟩ := h.of_lent
  refine ⟨_, h.move connection .idle ⟨rounds, by rw [hlife]⟩ (by simp [PoolEvent.connection]) hlent
    (fun other hne => (List.count_cons_of_ne (Ne.symm hne)).symm) ?_
    (fun other hne => List.count_cons_of_ne (Ne.symm hne)) nofun hopened fun _ _ => .rfl⟩
  rw [List.count_cons_self, hidle]
  rfl

/-- A connection that a borrower has is destroyed, whether it has been put to rest before or not. -/
theorem destroy (h : Ledger places (connection :: lent) idle opened events)
    {more : List (PoolEvent Nat)}
    (hmore : more ∈ [[.destroy connection], [.passivate connection, .destroy connection]]) :
    ∃ places', Ledger places' lent idle opened (events ++ more) := by
  obtain ⟨⟨rounds, hlife⟩, hlent, hidle, hopened⟩ := h.of_lent
  have hending : more ∈ PoolEvent.endings connection := List.mem_of_mem_take (i := 2) hmore
  refine ⟨_, h.move connection .destroyed ⟨rounds, more, hending, by rw [hlife]⟩ ?_ hlent
    (fun other hne => (List.count_cons_of_ne (Ne.symm hne)).symm) hidle (fun _ _ => rfl) nofun
    hopened fun _ _ => .rfl⟩
  simp only [List.mem_cons, List.not_mem_nil, or_false] at hmore
  rcases hmore with rfl | rfl <;> simp [PoolEvent.connection]

/-- A connection at rest is found valid and goes to a borrower. -/
theorem lend (h : Ledger places lent (connection :: idle) opened events) :
    ∃ places', Ledger places' (connection :: lent) idle opened
      (events ++ [.validate connection, .activate connection]) := by
  obtain ⟨⟨rounds, hlife⟩, hlent, hidle, hopened⟩ := h.of_idle
  refine ⟨_, h.move connection .lent ⟨rounds + 1, ?_⟩ (by simp [PoolEvent.connection]) ?_
    (fun other hne => List.count_cons_of_ne (Ne.symm hne)) hidle
    (fun other hne => (List.count_cons_of_ne (Ne.symm hne)).symm) nofun hopened fun _ _ => .rfl⟩
  · rw [hlife, PoolEvent.life, List.append_assoc]
    rfl
  · rw [List.count_cons_self, hlent]
    rfl

/-- A connection at rest is destroyed, whether it has been found invalid or not. -/
theorem drop (h : Ledger places lent (connection :: idle) opened events)
    (more : List (PoolEvent Nat))
    (hmore : more ∈ [[.destroy connection], [.validate connection, .destroy connection]]) :
    ∃ places', Ledger places' lent idle opened (events ++ more) := by
  obtain ⟨⟨rounds, hlife⟩, hlent, hidle, hopened⟩ := h.of_idle
  -- with the rest that came before it this is one of the endings
  have hending : .passivate connection :: more ∈ PoolEvent.endings connection :=
    List.mem_of_mem_drop (i := 1) (List.mem_map_of_mem (f := (.passivate connection :: ·)) hmore)
  have hevents : PoolEvent.ofConnection connection events ++ more =
      PoolEvent.life connection rounds ++ .passivate connection :: more := by
    rw [hlife, List.append_assoc]
    rfl
  refine ⟨_, h.move connection .destroyed ⟨rounds, _, hending, hevents⟩ ?_ hlent (fun _ _ => rfl)
    hidle (fun other hne => (List.count_cons_of_ne (Ne.symm hne)).symm) nofun hopened
    fun _ _ => .rfl⟩
  simp only [List.mem_cons, List.not_mem_nil, or_false] at hmore
  rcases hmore with rfl | rfl <;> simp [PoolEvent.connection]

/-- All connections at rest are destroyed, in any order. -/
theorem dropAll (h : Ledger places lent idle opened events) :
    ∃ places', Ledger places' lent [] opened (events ++ idle.map .destroy) := by
  induction idle generalizing places events with
  | nil => exact ⟨places, by rwa [List.map_nil, List.append_nil]⟩
  | cons connection idle ih =>
    obtain ⟨next, hnext⟩ := h.drop [.destroy connection] (.head _)
    obtain ⟨last, hlast⟩ := ih hnext
    refine ⟨last, ?_⟩
    rwa [List.append_assoc] at hlast

/-- A search for a valid connection at rest leads to one that can be lent, or to the end of all. -/
theorem takeIdle (h : Ledger places lent idle opened events) (isValid : Nat → Bool)
    {more : List (PoolEvent Nat)} {found : Option Nat} {left : List Nat}
    (hsearch : Pool.takeIdle isValid idle = (more, found, left)) :
    left.length ≤ idle.length ∧
      match found with
      | some connection => ∃ before places', more = before ++ [.validate connection] ∧
          Ledger places' lent (connection :: left) opened (events ++ before)
      | none => ∃ places', Ledger places' lent left opened (events ++ more) := by
  induction idle generalizing places events more with
  | nil =>
    cases hsearch
    exact ⟨Nat.le_refl _, places, by rwa [List.append_nil]⟩
  | cons connection idle ih =>
    rw [Pool.takeIdle] at hsearch
    split at hsearch
    · cases hsearch
      exact ⟨Nat.le_succ _, [], places, rfl, by rwa [List.append_nil]⟩
    · -- an invalid one is destroyed, and the search goes on among the others
      obtain ⟨next, hnext⟩ :=
        h.drop [.validate connection, .destroy connection] (.tail _ (.head _))
      generalize hrest : Pool.takeIdle isValid idle = rest at hsearch
      obtain ⟨later, found', left'⟩ := rest
      cases hsearch
      obtain ⟨hlength, hfound⟩ := ih hnext hrest
      refine ⟨Nat.le_succ_of_le hlength, ?_⟩
      cases found with
      | some taken =>
        obtain ⟨before, places', rfl, hledger⟩ := hfound
        refine ⟨.validate connection :: .destroy connection :: before, places', rfl, ?_⟩
        rwa [List.append_assoc] at hledger
      | none =>
        obtain ⟨places', hledger⟩ := hfound
        exact ⟨places', by rwa [List.append_assoc] at hledger⟩

end Ledger

/-- The connection that a borrower gets, if it gets one. -/
def Loan.connections : Loan Nat → List Nat
  | wait => []
  | refused _ => []
  | granted connection => [connection]

/-- The books of a pool are balanced: a permit is taken for every connection that is lent, idle
connections have room, and every connection is where its events have led it. -/
structure Pool.Balanced (options : PoolOptions) (lent : List Nat) (pool : Pool Nat) (opened : Nat)
    (events : List (PoolEvent Nat)) : Prop where
  /-- A permit is taken for every connection that is lent. -/
  permits : pool.permits + lent.length = capacity options
  /-- The room for idle connections is what has been configured. -/
  maxIdle : pool.maxIdle = options.maxIdle
  /-- Idle connections have room. -/
  room : pool.idle.length ≤ options.maxIdle
  /-- Every connection is where its events have led it. -/
  ledger : ∃ places, Ledger places lent pool.idle opened events

namespace Pool.Balanced

variable {options : PoolOptions} {lent : List Nat} {pool : Pool Nat} {opened connection : Nat}
  {events : List (PoolEvent Nat)}

theorem perm (h : pool.Balanced options lent opened events) {others : List Nat}
    (hperm : lent.Perm others) : pool.Balanced options others opened events where
  permits := hperm.length_eq ▸ h.permits
  maxIdle := h.maxIdle
  room := h.room
  ledger := h.ledger.imp fun _ hledger => hledger.perm hperm

/-- A borrower gives a connection back: it is put to rest, or there is no room for it, or the pool
has been closed. -/
theorem giveBack (h : pool.Balanced options (connection :: lent) opened events) :
    (pool.giveBack connection).pool.Balanced options lent opened
      (events ++ (pool.giveBack connection).events) := by
  obtain ⟨hpermits, hmaxIdle, hroom, places, hledger⟩ := h
  have hpermits' : pool.permits + 1 + lent.length = capacity options := by
    rw [List.length_cons] at hpermits
    omega
  unfold Pool.giveBack
  split
  · exact ⟨hpermits', hmaxIdle, hroom, hledger.destroy (.head _)⟩
  · split
    · next hless =>
      exact ⟨hpermits', hmaxIdle, hmaxIdle ▸ hless, hledger.rest⟩
    · exact ⟨hpermits', hmaxIdle, hroom, hledger.destroy (.tail _ (.head _))⟩

/-- A borrower has a connection destroyed. -/
theorem discard (h : pool.Balanced options (connection :: lent) opened events) :
    (pool.discard connection).pool.Balanced options lent opened
      (events ++ (pool.discard connection).events) := by
  obtain ⟨hpermits, hmaxIdle, hroom, places, hledger⟩ := h
  refine ⟨?_, hmaxIdle, hroom, hledger.destroy (.head _)⟩
  rw [List.length_cons] at hpermits
  show pool.permits + 1 + lent.length = capacity options
  omega

/-- The pool is closed. -/
theorem close (h : pool.Balanced options lent opened events) :
    pool.close.pool.Balanced options lent opened (events ++ pool.close.events) := by
  obtain ⟨hpermits, hmaxIdle, hroom, places, hledger⟩ := h
  refine ⟨hpermits, hmaxIdle, Nat.zero_le _, ?_⟩
  exact (hledger.permIdle (List.reverse_perm _).symm).dropAll

/-- A borrower that asks for a connection gets one that nobody else has, or none. -/
theorem borrow {supply : Supply} (h : pool.Balanced options lent supply.opened events)
    {step : PoolStep Nat (Loan Nat)} {next : Supply}
    (hborrow : pool.borrow supply.isValid Supply.create supply = (step, next)) :
    step.pool.Balanced options (step.result.connections ++ lent) next.opened
      (events ++ step.events) := by
  obtain ⟨hpermits, hmaxIdle, hroom, places, hledger⟩ := id h
  unfold Pool.borrow at hborrow
  split at hborrow
  · cases hborrow
    rwa [List.append_nil]
  split at hborrow
  · cases hborrow
    rwa [List.append_nil]
  · next hpermit =>
    simp only [checkOut] at hborrow
    generalize hsearch : takeIdle supply.isValid pool.idle = search at hborrow
    obtain ⟨more, found, left⟩ := search
    obtain ⟨hlength, hfound⟩ := hledger.takeIdle _ hsearch
    have hroom' := Nat.le_trans hlength hroom
    have hlend : pool.permits - 1 + (lent.length + 1) = capacity options := by omega
    cases found with
    | some connection =>
      cases hborrow
      -- the search ends with the check of the one it finds
      obtain ⟨before, places', rfl, hledger'⟩ := hfound
      have hevents : events ++ (before ++ [.validate connection] ++ [.activate connection]) =
          events ++ before ++ [.validate connection, .activate connection] := by simp
      refine ⟨hlend, hmaxIdle, hroom', ?_⟩
      show ∃ places, Ledger places (connection :: lent) left supply.opened
        (events ++ (before ++ [.validate connection] ++ [.activate connection]))
      rw [hevents]
      exact hledger'.lend
    | none =>
      obtain ⟨places', hledger'⟩ := hfound
      cases hfailing : supply.failing with
      | some failure =>
        simp only [Supply.create, hfailing] at hborrow
        cases hborrow
        refine ⟨?_, hmaxIdle, hroom', places', hledger'⟩
        -- the permit is given up again
        show pool.permits - 1 + 1 + lent.length = capacity options
        omega
      | none =>
        simp only [Supply.create, hfailing] at hborrow
        cases hborrow
        refine ⟨hlend, hmaxIdle, hroom', ?_⟩
        rw [← List.append_assoc]
        exact hledger'.create

end Pool.Balanced

end RingStore
