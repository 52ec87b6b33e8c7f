import Mathlib.Data.List.Nodup
import RingStore.Proofs.Pool.Ledger

/-!
# The life of a pooled connection

Borrowers come, wait, give up and go, connections become invalid or cannot be opened, the pool is
closed: whatever happens, every connection that was ever opened is in one place, and what has been
done to it is the beginning of one life.

## Main definitions

* `Borrowers.Reachable`: what a pool with its borrowers can come to.
* `Borrowers.Balanced`: the pool is balanced, and nobody holds two connections.

## Main results

* `Borrowers.Reachable.runAll`: every run is reachable.
* `Borrowers.Balanced.apply`, `Borrowers.Balanced.serveOne`: what a single step preserves.
* `Borrowers.connections_conserved`: where connections are, and what has been done to them.
-/

namespace RingStore

namespace Borrowers

/-- Someone who holds a connection takes another one for it, which no pool has lent. -/
def Step.Exchanges : Step → Prop
  | exchange _ _ => True
  | _ => False

/-- Who holds a connection holds no other one. -/
theorem held_perm {held : List (String × Nat)} (hnodup : (held.map Prod.fst).Nodup) {who : String}
    {connection : Nat} (h : held.lookup who = some connection) :
    held.Perm ((who, connection) :: held.filter fun entry => entry.1 ≠ who) := by
  -- the entry that is found is the only one of its holder, so that the filter takes no other
  obtain ⟨front, back, rfl, -⟩ := List.lookup_eq_some_iff.1 h
  rw [List.map_append, List.map_cons, List.nodup_middle, List.nodup_cons, List.mem_append,
    not_or] at hnodup
  have hkeep : ∀ entries : List (String × Nat), who ∉ entries.map Prod.fst →
      (entries.filter fun entry => entry.1 ≠ who) = entries := fun entries hentries =>
    List.filter_eq_self.2 fun entry hentry =>
      decide_eq_true fun heq => hentries (heq ▸ List.mem_map_of_mem hentry)
  rw [List.filter_append, List.filter_cons_of_neg (by simp), hkeep _ hnodup.1.1,
    hkeep _ hnodup.1.2]
  exact List.perm_middle

/-- Who else waits makes no difference to someone who is looked after. -/
theorem serveOne_waiting (borrowers : Borrowers) (who : String) :
    ∃ more, (borrowers.serveOne who).1.waiting = borrowers.waiting ++ more ∧
      ∀ waiting, { borrowers with waiting }.serveOne who =
        ({ (borrowers.serveOne who).1 with waiting := waiting ++ more },
          (borrowers.serveOne who).2) := by
  obtain ⟨pool, supply, held, waiting⟩ := borrowers
  simp only [serveOne]
  generalize pool.borrow supply.isValid Supply.create supply = lent
  obtain ⟨⟨pool, events, result⟩, supply⟩ := lent
  cases result with
  | wait => exact ⟨[who], rfl, fun _ => rfl⟩
  | refused error => exact ⟨[], (List.append_nil _).symm, fun _ => by rw [List.append_nil]⟩
  | granted connection =>
    refine ⟨[], ?_, fun others => ?_⟩ <;> simp only [release, List.append_nil] <;> split <;> rfl

/-- Several steps, with everything that is done to connections. -/
def runAll (borrowers : Borrowers) : List Step → Borrowers × List (PoolEvent Nat)
  | [] => (borrowers, [])
  | step :: rest =>
    let (next, report) := borrowers.run step
    let (last, events) := next.runAll rest
    (last, report.events ++ events)

/-- What a pool with those who use it can come to if no connection is ever exchanged for another
one, and everything that has been done to connections by then. Those who wait are looked after at
any time and in any order. -/
inductive Reachable (options : PoolOptions) : Borrowers → List (PoolEvent Nat) → Prop where
  /-- Nobody has used the pool yet. -/
  | start : Reachable options (start options) []
  /-- Something happens. -/
  | apply {borrowers : Borrowers} {events : List (PoolEvent Nat)} {step : Step}
      (before : Reachable options borrowers events) (keeps : ¬step.Exchanges) :
      Reachable options (borrowers.apply step).1 (events ++ (borrowers.apply step).2)
  /-- Someone else is to be looked after first. -/
  | reorder {borrowers : Borrowers} {events : List (PoolEvent Nat)} (waiting : List String)
      (before : Reachable options borrowers events) (perm : borrowers.waiting.Perm waiting) :
      Reachable options { borrowers with waiting } events
  /-- The first one who waits is looked after. -/
  | serve {borrowers : Borrowers} {events : List (PoolEvent Nat)} {who : String}
      {waiting : List String} (before : Reachable options borrowers events)
      (first : borrowers.waiting = who :: waiting) :
      Reachable options ({ borrowers with waiting }.serveOne who).1
        (events ++ ({ borrowers with waiting }.serveOne who).2.events)

namespace Reachable

variable {options : PoolOptions} {borrowers : Borrowers} {events : List (PoolEvent Nat)}

/-- Looking after several who wait, one after the other. -/
theorem serveEach (borrowers : Borrowers) {queue : List String}
    (h : Reachable options { borrowers with waiting := borrowers.waiting ++ queue } events) :
    Reachable options (borrowers.serveEach queue).1
      (events ++ (borrowers.serveEach queue).2.events) := by
  induction queue generalizing borrowers events with
  | nil => simpa [Borrowers.serveEach, Report.nothing] using h
  | cons who rest ih =>
    -- the first of them is looked after; whoever keeps waiting does so behind the others
    have hfirst : Reachable options
        { borrowers with waiting := who :: (borrowers.waiting ++ rest) } events :=
      h.reorder _ List.perm_middle
    have hserved := hfirst.serve rfl
    obtain ⟨more, hmore, hwaiting⟩ := borrowers.serveOne_waiting who
    rw [hwaiting] at hserved
    have hnext := hserved.reorder ((borrowers.serveOne who).1.waiting ++ rest) <| by
      show (borrowers.waiting ++ rest ++ more).Perm _
      rw [hmore, List.append_assoc, List.append_assoc]
      exact List.perm_append_comm.append_left _
    have hfinished := @ih _ (borrowers.serveOne who).1 hnext
    rw [List.append_assoc] at hfinished
    exact hfinished

/-- A step after which everyone who waits is looked after. -/
theorem run (h : Reachable options borrowers events) {step : Step} (hkeeps : ¬step.Exchanges) :
    Reachable options (borrowers.run step).1 (events ++ (borrowers.run step).2.events) := by
  have hserved := serveEach { (borrowers.apply step).1 with waiting := [] } (h.apply hkeeps)
  rw [List.append_assoc] at hserved
  exact hserved

/-- Several such steps. -/
theorem runAll {steps : List Step} (h : Reachable options borrowers events)
    (hkeeps : ∀ step ∈ steps, ¬step.Exchanges) :
    Reachable options (borrowers.runAll steps).1 (events ++ (borrowers.runAll steps).2) := by
  induction steps generalizing borrowers events with
  | nil =>
    rw [Borrowers.runAll, List.append_nil]
    exact h
  | cons step rest ih =>
    obtain ⟨hstep, hrest⟩ := List.forall_mem_cons.1 hkeeps
    have hfinished := ih (h.run hstep) hrest
    rw [List.append_assoc] at hfinished
    exact hfinished

end Reachable

/-- The books of the pool are balanced, and nobody holds two connections. -/
structure Balanced (options : PoolOptions) (borrowers : Borrowers)
    (events : List (PoolEvent Nat)) : Prop where
  /-- Nobody holds two connections. -/
  holders : (borrowers.held.map Prod.fst).Nodup
  /-- The books of the pool are balanced. -/
  pool : borrowers.pool.Balanced options (borrowers.held.map Prod.snd) borrowers.supply.opened
    events

/-- A way of letting go of a connection that keeps the books of a pool balanced. -/
def Settles (how : Pool Nat → Nat → PoolStep Nat Unit) : Prop :=
  ∀ {options : PoolOptions} {lent : List Nat} {pool : Pool Nat} {opened connection : Nat}
    {events : List (PoolEvent Nat)}, pool.Balanced options (connection :: lent) opened events →
      (how pool connection).pool.Balanced options lent opened
        (events ++ (how pool connection).events)

section Steps

variable {options : PoolOptions} {borrowers : Borrowers} {events : List (PoolEvent Nat)}

/-- Someone lets go of a connection while others are lent that nobody has got yet. -/
theorem balanced_release (borrowers : Borrowers) {how : Pool Nat → Nat → PoolStep Nat Unit}
    (hhow : Settles how) (hholders : (borrowers.held.map Prod.fst).Nodup) (lent : List Nat)
    (h : borrowers.pool.Balanced options (lent ++ borrowers.held.map Prod.snd)
      borrowers.supply.opened events) (who : String) :
    let released := borrowers.release how who
    (who :: released.1.held.map Prod.fst).Nodup ∧
      released.1.pool.Balanced options (lent ++ released.1.held.map Prod.snd)
        released.1.supply.opened (events ++ released.2) := by
  intro released
  cases hheld : borrowers.held.lookup who with
  | none =>
    have hreleased : released = (borrowers, []) := by
      simp only [released, release, hheld]
    have hnot : who ∉ borrowers.held.map Prod.fst := by
      intro hmem
      obtain ⟨entry, hentry, rfl⟩ := List.mem_map.1 hmem
      have := List.lookup_eq_none_iff.1 hheld entry hentry
      simp at this
    rw [hreleased, List.append_nil]
    exact ⟨List.nodup_cons.2 ⟨hnot, hholders⟩, h⟩
  | some connection =>
    have hreleased : released = ({ borrowers with
        pool := (how borrowers.pool connection).pool
        held := borrowers.held.filter fun entry => entry.1 ≠ who },
        (how borrowers.pool connection).events) := by
      simp only [released, release, hheld]
    have hperm := held_perm hholders hheld
    rw [hreleased]
    refine ⟨(hperm.map Prod.fst).nodup_iff.1 hholders, hhow (h.perm ?_)⟩
    -- the connection that is let go stands before those that are kept, whoever has them
    exact ((hperm.map Prod.snd).append_left lent).trans List.perm_middle

/-- Someone who waits is looked after. -/
theorem Balanced.serveOne {borrowers : Borrowers} (h : borrowers.Balanced options events)
    (who : String) :
    (borrowers.serveOne who).1.Balanced options (events ++ (borrowers.serveOne who).2.events) := by
  obtain ⟨hholders, hpool⟩ := h
  generalize hborrow : borrowers.pool.borrow borrowers.supply.isValid Supply.create
    borrowers.supply = lent
  obtain ⟨⟨pool, more, result⟩, supply⟩ := lent
  have hlent := hpool.borrow hborrow
  simp only [Borrowers.serveOne, hborrow]
  cases result with
  | wait => exact ⟨hholders, hlent⟩
  | refused error => exact ⟨hholders, hlent⟩
  | granted connection =>
    -- the new connection is lent before an old one of the same borrower comes back
    obtain ⟨hnodup, hbalanced⟩ := balanced_release { borrowers with pool, supply }
      Pool.Balanced.giveBack hholders [connection] hlent who
    rw [List.append_assoc] at hbalanced
    exact ⟨hnodup, hbalanced⟩

/-- Something happens that exchanges no connection for another one. -/
theorem Balanced.apply (h : borrowers.Balanced options events) {step : Step}
    (hkeeps : ¬step.Exchanges) :
    (borrowers.apply step).1.Balanced options (events ++ (borrowers.apply step).2) := by
  obtain ⟨hholders, hpool⟩ := id h
  cases step with
  | giveBack who =>
    obtain ⟨hnodup, hbalanced⟩ :=
      balanced_release _ Pool.Balanced.giveBack hholders [] hpool who
    exact ⟨(List.nodup_cons.1 hnodup).2, hbalanced⟩
  | discard who =>
    obtain ⟨hnodup, hbalanced⟩ :=
      balanced_release _ Pool.Balanced.discard hholders [] hpool who
    exact ⟨(List.nodup_cons.1 hnodup).2, hbalanced⟩
  | close => exact ⟨hholders, hpool.close⟩
  | exchange who connection => exact absurd trivial hkeeps
  | borrow | cancel | supplyFails | invalidate =>
    -- the books do not know who waits, nor what the supply will do
    rw [← List.append_nil events] at hpool
    exact ⟨hholders, hpool⟩

/-- Whatever a pool comes to, its books are balanced. -/
theorem Reachable.balanced (h : Reachable options borrowers events) :
    borrowers.Balanced options events := by
  -- the order in which borrowers wait is no part of the books
  induction h with
  | start => exact ⟨List.nodup_nil, Nat.add_zero _, rfl, Nat.zero_le _, _, .start⟩
  | apply before keeps ih => exact ih.apply keeps
  | reorder waiting before perm ih => exact ⟨ih.holders, ih.pool⟩
  | @serve borrowers events who waiting before first ih =>
    have hsame : Balanced options { borrowers with waiting } events := ⟨ih.holders, ih.pool⟩
    exact hsame.serveOne who

end Steps

/-- However a pool is used, as long as nobody exchanges a connection for another one, every
connection that has been opened is in one place: one borrower holds it, or it is idle, or it has
been destroyed once. Not more connections are held, and not more are idle, than has been configured.
What has been done to a connection is the beginning of one life: it is opened and lent, then put to
rest, found valid and lent again any number of times, and in the end destroyed. -/
theorem connections_conserved {options : PoolOptions} {borrowers : Borrowers}
    {events : List (PoolEvent Nat)} (h : Reachable options borrowers events) :
    borrowers.held.length ≤ max 1 options.maxActive ∧
      borrowers.pool.idle.length ≤ options.maxIdle ∧
      ∀ connection,
        (borrowers.held.map Prod.snd).count connection + borrowers.pool.idle.count connection +
            events.count (.destroy connection) =
          (if .create connection ∈ events then 1 else 0) ∧
        ∃ rounds, ∃ ending ∈ PoolEvent.endings connection,
          PoolEvent.ofConnection connection events <+:
            PoolEvent.life connection rounds ++ ending := by
  obtain ⟨-, hpermits, -, hroom, places, hledger⟩ := h.balanced
  refine ⟨?_, hroom, fun connection => ⟨?_, (hledger.reached connection).isPrefix⟩⟩
  · rw [List.length_map, Pool.capacity] at hpermits
    omega
  · have hreached := hledger.reached connection
    have hcreate : .create connection ∈ events ↔ places connection ≠ .unopened := by
      rw [← hreached.create_mem_iff, PoolEvent.ofConnection, List.mem_filter]
      simp [PoolEvent.connection]
    have hdestroy := PoolEvent.count_ofConnection (.destroy connection) events
    rw [show (PoolEvent.destroy connection).connection = connection from rfl,
      hreached.count_destroy] at hdestroy
    rw [hledger.lent, hledger.idle, ← hdestroy]
    -- each place counts for one of the three, and the first one for none
    simp only [hcreate]
    cases places connection <;> rfl

/-- Someone waits for the only connection there may be and gets it when it comes back. It is then
found invalid, and the connection that takes its place comes back to a closed pool. -/
theorem connections_conserved_of_reuse :
    let options : PoolOptions := ⟨1, 1⟩
    let used := (start options).runAll [.borrow "first", .borrow "second", .giveBack "first",
      .giveBack "second", .invalidate [1], .borrow "first", .close, .giveBack "first"]
    Reachable options used.1 used.2 ∧ used.1.held.length ≤ 1 ∧ used.1.pool.idle.length ≤ 1 ∧
      .create 1 ∈ used.2 ∧
      (used.1.held.map Prod.snd).count 1 + used.1.pool.idle.count 1 + used.2.count (.destroy 1) =
        1 ∧
      PoolEvent.ofConnection 1 used.2 =
        PoolEvent.life 1 1 ++ [.passivate 1, .validate 1, .destroy 1] := by
  intro options used
  have hreachable : Reachable options used.1 used.2 :=
    Reachable.start.runAll (by simp [Step.Exchanges])
  have hcreate : .create 1 ∈ used.2 := by decide +kernel
  obtain ⟨hheld, hidle, hplaces⟩ := connections_conserved hreachable
  obtain ⟨hplace, -⟩ := hplaces 1
  rw [if_pos hcreate] at hplace
  exact ⟨hreachable, hheld, hidle, hcreate, hplace, by decide +kernel⟩

end Borrowers

end RingStore
