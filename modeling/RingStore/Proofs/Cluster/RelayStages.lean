import RingStore.Cluster.RelayStages
import RingStore.Proofs.Pool
import RingStore.Proofs.Pool.Stages

/-!
# Relays step by step

A relay that takes its steps with nobody in between ends with the reply that `PeerAccess.relay`
gives, and leaves what that leaves: it gets a connection as `Pool.borrow` lends it, has its
conversation, and lets go of the connection as `PeerAccess.putBack` does.

Whatever others do in between, each step brings a relay closer to its end, except when it has to
wait for a permit.

## Main definitions

* `PeerAccess.Lawful`: the pool is kept apart from everything else.
* `PeerAccess.advanceTimes`: several steps of one relay.
* `Relaying.rank`: how many steps a relay has before it at most.

## Main results

* `PeerAccess.advanceTimes_eq_relay`: all steps of one relay.
* `PeerAccess.rank_advance`: one step, or a relay that waits.
-/

namespace RingStore

namespace PeerAccess

variable {σ κ : Type}

/-- The pool of the peer is kept apart: a new one takes its place, and neither opening a connection
nor talking to the peer has anything to do with that. -/
structure Lawful (access : PeerAccess σ κ) : Prop where
  /-- The pool that was put there last is there. -/
  pool_setPool : ∀ state pool, access.pool? (access.setPool state pool) = some pool
  /-- It takes the place of the one before. -/
  setPool_setPool : ∀ state first second,
    access.setPool (access.setPool state first) second = access.setPool state second
  /-- Opening a connection does not depend on the pool. -/
  connect_setPool : ∀ state pool, access.connect (access.setPool state pool) =
    ((access.connect state).1, access.setPool (access.connect state).2 pool)
  /-- The pool is still there when the peer has been asked. -/
  pool_ask : ∀ state connection line, access.pool? state ≠ none →
    access.pool? (access.ask state connection line).2.2 ≠ none

/-- Several steps of a relay with nobody in between. -/
def advanceTimes (access : PeerAccess σ κ) (barred : Bool) :
    Nat → σ → Relaying κ → Relaying.Advance σ κ
  | 0, state, relaying => ⟨relaying, [], state⟩
  | times + 1, state, relaying =>
    let first := access.advance barred state relaying
    let rest := advanceTimes access barred times first.state first.relaying
    ⟨rest.relaying, first.events ++ rest.events, rest.state⟩

variable {access : PeerAccess σ κ} {barred : Bool} {session : Session} {line : CommandLine}

/-- A relay that has no connection in hand takes its step at the pool. -/
theorem advance_of_not_holding (access : PeerAccess σ κ) (barred : Bool) (state : σ)
    {relaying : Relaying κ} (h : ∀ connection, relaying.stage ≠ .holding connection) :
    access.advance barred state relaying = access.advanceAtPool state relaying fun pool =>
      pool.proceed barred (fun _ => true) access.connect state := by
  obtain ⟨session, line, stage, talk⟩ := relaying
  cases stage with
  | holding connection => exact absurd rfl (h connection)
  | _ => rfl

theorem advanceTimes_add (first second : Nat) (state : σ) (relaying : Relaying κ) :
    access.advanceTimes barred (first + second) state relaying =
      let before := access.advanceTimes barred first state relaying
      let after := access.advanceTimes barred second before.state before.relaying
      ⟨after.relaying, before.events ++ after.events, after.state⟩ := by
  induction first generalizing state relaying with
  | zero => simp [advanceTimes]
  | succ first ih =>
    rw [Nat.add_right_comm, advanceTimes]
    simp only [ih, advanceTimes, List.append_assoc]

/-- A relay that has a connection and its reply lets go of the connection. -/
theorem advanceTimes_ended (h : access.Lawful) {state : σ} (hpool : access.pool? state ≠ none)
    (connection : κ) (reply : Value) (whole : Bool) :
    let ended := access.advanceTimes barred 3 state
      ⟨session, line, .holding connection, .ended reply whole⟩
    access.reply? ended.relaying = some reply ∧ ended.state =
      access.putBack state (if whole then .whole connection else .broken connection) := by
  obtain ⟨pool, hpool⟩ := Option.ne_none_iff_exists'.1 hpool
  -- to discard a connection takes a step less than to give it back, and a relay that is gone stays so
  cases whole with
  | false =>
    simp [advanceTimes, advance, advanceAtPool, putBack, hpool, h.pool_setPool, h.setPool_setPool,
      Pool.startDiscard, Pool.proceed, Pool.discard, reply?]
  | true =>
    by_cases hclosed : pool.closed = true
    · simp [advanceTimes, advance, advanceAtPool, putBack, hpool, h.pool_setPool,
        h.setPool_setPool, Pool.startReturn, Pool.proceed, Pool.giveBack, hclosed, reply?]
    · by_cases hroom : pool.idle.length < pool.maxIdle <;>
        simp [advanceTimes, advance, advanceAtPool, putBack, hpool, h.pool_setPool,
          h.setPool_setPool, Pool.startReturn, Pool.proceed, Pool.giveBack, hclosed, hroom, reply?]

variable (barred session line) in
/-- A relay that has a connection talks to the peer and lets go of the connection. -/
theorem advanceTimes_holding (h : access.Lawful) {state : σ} (hpool : access.pool? state ≠ none)
    (connection : κ) : ∃ times,
    let ended := access.advanceTimes barred times state
      ⟨session, line, .holding connection, .unasked⟩
    let (reply, after, next) := access.converse state connection session line
    access.reply? ended.relaying = some reply ∧ ended.state = access.putBack next after := by
  have hselected := h.pool_ask state connection (selection session) hpool
  rcases hselect : access.ask state connection (selection session) with
    ⟨failure | selected, after, next⟩
  · -- the selection failed
    rw [hselect] at hselected
    refine ⟨1 + 3, ?_⟩
    rw [advanceTimes_add]
    simp only [advanceTimes, advance, advanceSelection, converse, hselect]
    exact advanceTimes_ended h hselected after _ false
  rw [hselect] at hselected
  cases hrefused : selected.isError with
  | true =>
    -- the peer refuses the selection, and the command line is not sent
    refine ⟨1 + 3, ?_⟩
    rw [advanceTimes_add]
    simp only [advanceTimes, advance, advanceSelection, converse, hselect, hrefused, if_true]
    exact advanceTimes_ended h hselected after selected true
  | false =>
    have hanswered := h.pool_ask next after line hselected
    rcases hline : access.ask next after line with ⟨failure | answer, last, final⟩
    · rw [hline] at hanswered
      refine ⟨2 + 3, ?_⟩
      rw [advanceTimes_add]
      simp only [advanceTimes, advance, advanceSelection, advanceLine, converse, hselect, hrefused,
        hline, Bool.false_eq_true, if_false]
      exact advanceTimes_ended h hanswered last _ false
    · rw [hline] at hanswered
      refine ⟨2 + 3, ?_⟩
      rw [advanceTimes_add]
      simp only [advanceTimes, advance, advanceSelection, advanceLine, converse, hselect, hrefused,
        hline, Bool.false_eq_true, if_false]
      exact advanceTimes_ended h hanswered last answer true

/-- A relay that takes its steps with nobody in between gives the reply that it gives at once, and
leaves the same behind, unless there is no permit for it to go on with. -/
theorem advanceTimes_eq_relay (h : access.Lawful) {state : σ} {pool : Pool κ}
    (hpool : access.pool? state = some pool) (hpermit : pool.closed = true ∨ pool.permits ≠ 0) :
    ∃ times,
      let ended := access.advanceTimes pool.closed times state (begin session line)
      access.reply? ended.relaying = some (access.relay state session line).1 ∧
        ended.state = (access.relay state session line).2 := by
  obtain ⟨maxIdle, permits, idle, closed⟩ := pool
  cases closed with
  | true =>
    -- nobody gets a permit at a closed pool, whether one is free or not
    refine ⟨1, ?_⟩
    simp [advanceTimes, advance, advanceAtPool, begin, hpool, Pool.proceed, reply?, relay,
      Pool.borrow]
  | false =>
    have hfree : permits ≠ 0 := hpermit.resolve_left Bool.false_ne_true
    cases idle with
    | cons connection rest =>
      -- the connection given back last is checked and handed out
      have hlent : access.pool? (access.setPool state ⟨maxIdle, permits - 1, rest, false⟩) ≠ none :=
        by simp [h.pool_setPool]
      obtain ⟨times, htimes⟩ := advanceTimes_holding false session line h hlent connection
      have hborrow : (Pool.mk maxIdle permits (connection :: rest) false).borrow (fun _ => true)
          access.connect state = _ :=
        Pool.borrow_of_idle rfl hfree rfl
      refine ⟨3 + times, ?_⟩
      rw [advanceTimes_add]
      simp only [relay, hpool, hborrow]
      simpa [advanceTimes, advance, advanceAtPool, begin, hpool, h.pool_setPool,
        h.setPool_setPool, Pool.proceed, hfree] using htimes
    | nil =>
      rcases hconnect : access.connect state with ⟨failure | connection, next⟩
      · -- none can be opened, and the permit is free again
        have hback : permits - 1 + 1 = permits := Nat.sub_add_cancel (Nat.pos_of_ne_zero hfree)
        have hborrow : (Pool.mk maxIdle permits [] false).borrow (fun _ => true) access.connect
            state = _ :=
          Pool.borrow_of_create_error rfl hfree rfl hconnect
        refine ⟨3, ?_⟩
        simp only [relay, hpool, hborrow]
        simp [advanceTimes, advance, advanceAtPool, begin, hpool, h.pool_setPool,
          h.setPool_setPool, h.connect_setPool, Pool.proceed, hfree, hconnect, hback, reply?]
      · -- the one that is opened is handed out
        have hlent : access.pool? (access.setPool next ⟨maxIdle, permits - 1, [], false⟩) ≠ none :=
          by simp [h.pool_setPool]
        obtain ⟨times, htimes⟩ := advanceTimes_holding false session line h hlent connection
        have hborrow : (Pool.mk maxIdle permits [] false).borrow (fun _ => true) access.connect
            state = _ :=
          Pool.borrow_of_create_ok rfl hfree rfl hconnect
        refine ⟨3 + times, ?_⟩
        rw [advanceTimes_add]
        simp only [relay, hpool, hborrow]
        simpa [advanceTimes, advance, advanceAtPool, begin, hpool, h.pool_setPool,
          h.setPool_setPool, h.connect_setPool, Pool.proceed, hfree, hconnect] using htimes

end PeerAccess

variable {σ κ : Type}

/-- Every request of a relay so far was answered. -/
def Talk.whole : Talk → Bool
  | ended _ whole => whole
  | _ => true

/-- How many requests a relay still has to make at most. -/
def Talk.left : Talk → Nat
  | unasked => 2
  | selected => 1
  | ended _ _ => 0

theorem Talk.left_le (talk : Talk) : talk.left ≤ 2 := by
  cases talk <;> simp [left]

/-- How many steps a relay has before it at most, not counting those in which it waits. -/
def Relaying.rank (relaying : Relaying κ) : Nat :=
  match relaying.stage with
  | .waiting => 8
  | .searching => 7
  | .checking _ | .opening => 6
  | .holding _ => 3 + relaying.talk.left
  | .returning _ => 2
  | .leaving => 1
  | .refused _ | .gone => 0

/-- A relay gets closer to its end with every step, unless it is done with the pool or has to wait
for a permit. -/
theorem PeerAccess.rank_advance (access : PeerAccess σ κ) (barred : Bool) {state : σ}
    {pool : Pool κ} (hpool : access.pool? state = some pool) (relaying : Relaying κ) :
    (access.advance barred state relaying).relaying.rank < relaying.rank ∨
      relaying.rank = 0 ∨
      relaying.stage = .waiting ∧ barred = false ∧ pool.permits = 0 := by
  obtain ⟨session, line, stage, talk⟩ := relaying
  -- with a connection in hand at most two requests and three other steps are left
  have htalk : 3 + talk.left < 6 := Nat.add_lt_add_left (Nat.lt_succ_of_le talk.left_le) 3
  cases stage with
  | refused | gone => exact .inr (.inl rfl)
  | waiting =>
    cases barred with
    | true =>
      refine .inl ?_
      simp [advance, advanceAtPool, hpool, Pool.proceed, Relaying.rank]
    | false =>
      by_cases hpermits : pool.permits = 0
      · exact .inr (.inr ⟨rfl, rfl, hpermits⟩)
      · refine .inl ?_
        simp [advance, advanceAtPool, hpool, Pool.proceed, hpermits, Relaying.rank]
  | holding connection =>
    refine .inl ?_
    cases talk with
    | unasked =>
      simp only [advance, advanceSelection]
      split
      · simp [Relaying.rank, Talk.left]
      · next selected _ _ _ => cases selected.isError <;> simp [Relaying.rank, Talk.left]
    | selected =>
      simp only [advance, advanceLine]
      split <;> simp [Relaying.rank, Talk.left]
    | ended reply whole =>
      cases whole
      · simp [advance, advanceAtPool, hpool, Pool.startDiscard, Relaying.rank, Talk.left]
      · simp only [advance, advanceAtPool, hpool, Pool.startReturn]
        split <;> simp [Relaying.rank, Talk.left]
  | searching | opening | returning =>
    refine .inl ?_
    simp only [advance, advanceAtPool, hpool, Pool.proceed]
    split <;> simp [Relaying.rank, htalk]
  | checking | leaving =>
    refine .inl ?_
    simp [advance, advanceAtPool, hpool, Pool.proceed, Relaying.rank, htalk]

end RingStore
