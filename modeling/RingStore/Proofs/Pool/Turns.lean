import RingStore.Proofs.Pool
import RingStore.Proofs.Pool.Lifecycle

/-!
# Turns at a pool

Whoever asks a pool for a connection while every permit is taken waits in line. A permit comes back
when a connection is given back or destroyed, and when none could be opened for the borrower that
had taken the permit. It then goes to the first one in line. So nobody overtakes anyone, nobody
waits while a permit is left, and no permit is ever lost: as soon as connections can be opened, as
many borrowers get one as have been configured, whatever has gone wrong before.

## Main definitions

* `Borrowers.arrivals`, `Borrowers.ended`, `Borrowers.quitters`: who has come, whose request has
  ended, and who has given up waiting.
* `Borrowers.InLine`: whoever waits does so for want of a permit.

## Main results

* `Borrowers.InLine.serveOne`: looking after one borrower keeps the line.
* `Borrowers.turns_run`, `Borrowers.turns_runAll`: those whose requests end leave the front of the
  line, in one step and in many.
* `Borrowers.permits_run_borrow`: a borrower for which a connection can be opened takes a permit.
* `Borrowers.first_come_first_served`: turns, and permits, after any steps.
-/

namespace RingStore

namespace Borrowers

/-- Who asks for a connection in the course of several steps, in order of arrival. -/
def arrivals : List Step → List String
  | [] => []
  | .borrow who :: rest => who :: arrivals rest
  | _ :: rest => arrivals rest

/-- The requests for a connection that end in the course of several steps, in order. -/
def ended (borrowers : Borrowers) : List Step → List (String × Except PoolError Nat)
  | [] => []
  | step :: rest => (borrowers.run step).2.done ++ (borrowers.run step).1.ended rest

/-- Those who give up waiting in one step. -/
def quitting (borrowers : Borrowers) : Step → List String
  | .cancel who => borrowers.waiting.filter (· = who)
  | _ => []

/-- Those who give up waiting in the course of several steps. -/
def quitters (borrowers : Borrowers) : List Step → List String
  | [] => []
  | step :: rest => borrowers.quitting step ++ (borrowers.run step).1.quitters rest

/-- Whoever waits does so for want of a permit: the pool is open, and every permit is taken. -/
def InLine (borrowers : Borrowers) : Prop :=
  borrowers.waiting ≠ [] → borrowers.pool.closed = false ∧ borrowers.pool.permits = 0

@[simp]
theorem waiting_release (how : Pool Nat → Nat → PoolStep Nat Unit) (who : String)
    (borrowers : Borrowers) : (borrowers.release how who).1.waiting = borrowers.waiting := by
  unfold release
  split <;> rfl

section Turns

variable {borrowers : Borrowers}

/-- Nobody waits while a permit is left. -/
theorem InLine.waiting_eq_nil (h : borrowers.InLine) (hpermits : borrowers.pool.permits ≠ 0) :
    borrowers.waiting = [] :=
  Classical.byContradiction fun hwaiting => hpermits (h hwaiting).2

/-- Someone who is looked after waits behind all others, or nobody else waits and the request
ends. -/
theorem InLine.serveOne (h : borrowers.InLine) (who : String) :
    (borrowers.serveOne who).1.InLine ∧
      (borrowers.serveOne who).2.done.map Prod.fst ++ (borrowers.serveOne who).1.waiting =
        borrowers.waiting ++ [who] := by
  rcases borrowers.pool.borrow_cases borrowers.supply.isValid Supply.create borrowers.supply with
    ⟨hclosed, hborrow⟩ | ⟨hopen, hpermits, hborrow⟩ |
    ⟨-, hpermits, idle, events, ⟨failure, next, -, hborrow⟩ | ⟨connection, next, -, hborrow⟩⟩
  · -- nobody waits at a closed pool
    have hnone : borrowers.waiting = [] := by
      by_contra hwaiting
      rw [(h hwaiting).1] at hclosed
      cases hclosed
    simp only [Borrowers.serveOne, hborrow, hnone]
    exact ⟨fun hwaiting => absurd rfl hwaiting, rfl⟩
  · simp only [Borrowers.serveOne, hborrow]
    exact ⟨fun _ => ⟨hopen, hpermits⟩, rfl⟩
  · simp only [Borrowers.serveOne, hborrow, h.waiting_eq_nil hpermits]
    exact ⟨fun hwaiting => absurd rfl hwaiting, rfl⟩
  · simp only [Borrowers.serveOne, hborrow, InLine, waiting_release, h.waiting_eq_nil hpermits]
    exact ⟨fun hwaiting => absurd rfl hwaiting, rfl⟩

/-- Of several who are looked after in order, the first ones leave the line. -/
theorem InLine.serveEach (h : borrowers.InLine) (queue : List String) :
    (borrowers.serveEach queue).1.InLine ∧
      (borrowers.serveEach queue).2.done.map Prod.fst ++ (borrowers.serveEach queue).1.waiting =
        borrowers.waiting ++ queue := by
  induction queue generalizing borrowers with
  | nil => exact ⟨h, (List.append_nil _).symm⟩
  | cons who rest ih =>
    obtain ⟨hserved, hfirst⟩ := h.serveOne who
    obtain ⟨hfinished, hrest⟩ := ih hserved
    refine ⟨hfinished, ?_⟩
    calc
      _ = (borrowers.serveOne who).2.done.map Prod.fst ++
            (((borrowers.serveOne who).1.serveEach rest).2.done.map Prod.fst ++
              ((borrowers.serveOne who).1.serveEach rest).1.waiting) := by
        simp only [Borrowers.serveEach, Report.append, List.map_append, List.append_assoc]
      _ = borrowers.waiting ++ who :: rest := by
        rw [hrest, ← List.append_assoc, hfirst, List.append_assoc]
        rfl

/-- While every permit is taken, whoever is looked after goes on waiting. -/
theorem serveEach_of_taken (borrowers : Borrowers) (hopen : borrowers.pool.closed = false)
    (hpermits : borrowers.pool.permits = 0) (queue : List String) :
    borrowers.serveEach queue =
      ({ borrowers with waiting := borrowers.waiting ++ queue }, .nothing) := by
  induction queue generalizing borrowers with
  | nil => rw [Borrowers.serveEach, List.append_nil]
  | cons who rest ih =>
    have hserved : borrowers.serveOne who =
        ({ borrowers with waiting := borrowers.waiting ++ [who] }, .nothing) := by
      rw [Borrowers.serveOne, Pool.borrow, if_neg (by simp [hopen]), if_pos hpermits]
      rfl
    simp only [Borrowers.serveEach, hserved]
    rw [ih { borrowers with waiting := borrowers.waiting ++ [who] } hopen hpermits,
      List.append_assoc]
    rfl

/-- Looking after those who wait for want of a permit changes nothing. -/
theorem InLine.serveAll (h : borrowers.InLine) : borrowers.serveAll = (borrowers, .nothing) := by
  unfold Borrowers.serveAll
  by_cases hwaiting : borrowers.waiting = []
  · rw [hwaiting, Borrowers.serveEach, ← hwaiting]
  · obtain ⟨hopen, hpermits⟩ := h hwaiting
    exact serveEach_of_taken { borrowers with waiting := [] } hopen hpermits _

variable (borrowers)

/-- After a step, those whose requests have ended have left the front of the line. -/
theorem turns_run (step : Step) :
    (borrowers.run step).1.InLine ∧
      (borrowers.run step).2.done.map Prod.fst ++ (borrowers.run step).1.waiting =
        (borrowers.apply step).1.waiting := by
  -- the line is empty before the first one is looked after, whatever the step has changed
  have hempty : InLine { (borrowers.apply step).1 with waiting := [] } :=
    fun hwaiting => absurd rfl hwaiting
  exact hempty.serveEach (borrowers.apply step).1.waiting

theorem inLine_runAll {borrowers : Borrowers} (h : borrowers.InLine) (steps : List Step) :
    (borrowers.runAll steps).1.InLine := by
  induction steps generalizing borrowers with
  | nil => exact h
  | cons step rest ih => exact ih (borrowers.turns_run step).1

/-- Who waits once a step has been taken: those who waited before and did not give up, and then
whoever has come. -/
theorem waiting_apply (step : Step) :
    (borrowers.apply step).1.waiting.Sublist (borrowers.waiting ++ arrivals [step]) ∧
      (borrowers.waiting ++ arrivals [step]).Perm
        ((borrowers.apply step).1.waiting ++ borrowers.quitting step) := by
  cases step with
  | borrow who => exact ⟨.refl _, .of_eq (List.append_nil _).symm⟩
  | cancel who =>
    simp only [apply, arrivals, quitting, List.append_nil]
    refine ⟨List.filter_sublist, ?_⟩
    have hdivided := List.filter_append_perm (fun other => decide (other ≠ who)) borrowers.waiting
    simpa using hdivided.symm
  | giveBack | discard | exchange | supplyFails | invalidate | close =>
    simp only [apply, arrivals, quitting, List.append_nil, waiting_release]
    exact ⟨.refl _, .refl _⟩

theorem arrivals_cons (step : Step) (rest : List Step) :
    arrivals (step :: rest) = arrivals [step] ++ arrivals rest := by
  cases step <;> rfl

/-- Requests end in the order in which they came, and those that came last wait; only those that
were given up are missing. -/
theorem turns_runAll (steps : List Step) :
    let now := (borrowers.runAll steps).1
    let inTurn := (borrowers.ended steps).map Prod.fst ++ now.waiting
    inTurn.Sublist (borrowers.waiting ++ arrivals steps) ∧
      (borrowers.waiting ++ arrivals steps).Perm (inTurn ++ borrowers.quitters steps) := by
  induction steps generalizing borrowers with
  | nil => simp [runAll, ended, quitters, arrivals]
  | cons step rest ih =>
    obtain ⟨-, hstep⟩ := borrowers.turns_run step
    obtain ⟨hkept, hcome⟩ := borrowers.waiting_apply step
    obtain ⟨hsublist, hperm⟩ := ih (borrowers.run step).1
    intro now inTurn
    -- the step's own requests stand in front of those that end later
    have hinTurn : inTurn = (borrowers.run step).2.done.map Prod.fst ++
        (((borrowers.run step).1.ended rest).map Prod.fst ++ now.waiting) := by
      simp only [inTurn, ended, List.map_append, List.append_assoc]
    have hline : (borrowers.run step).2.done.map Prod.fst ++
        ((borrowers.run step).1.waiting ++ arrivals rest) =
          (borrowers.apply step).1.waiting ++ arrivals rest := by
      rw [← List.append_assoc, hstep]
    rw [hinTurn, arrivals_cons, ← List.append_assoc borrowers.waiting]
    constructor
    · refine (hsublist.append_left _).trans ?_
      rw [hline]
      exact hkept.append_right _
    · -- everyone has as many requests on the one side as on the other
      refine List.perm_iff_count.2 fun who => ?_
      have hnow := congrArg (List.count who) hline
      have hfirst := hcome.count_eq who
      have hlater := hperm.count_eq who
      simp only [now, runAll, quitters, List.count_append] at hnow hfirst hlater ⊢
      omega

end Turns

/-- A borrower for which a connection can be opened takes a permit if one is left. -/
theorem permits_run_borrow {borrowers : Borrowers} (h : borrowers.InLine)
    (hopen : borrowers.pool.closed = false) (hsupply : borrowers.supply.failing = none)
    {who : String} (hwho : who ∉ borrowers.held.map Prod.fst) :
    let next := (borrowers.run (.borrow who)).1
    next.pool.closed = false ∧ next.supply.failing = none ∧
      next.pool.permits = borrowers.pool.permits - 1 ∧
      next.held.map Prod.fst ⊆ who :: borrowers.held.map Prod.fst := by
  intro next
  by_cases hpermits : borrowers.pool.permits = 0
  · -- the newcomer waits with all others
    have hline : InLine { borrowers with waiting := borrowers.waiting ++ [who] } :=
      fun _ => ⟨hopen, hpermits⟩
    have hnext : next = { borrowers with waiting := borrowers.waiting ++ [who] } :=
      congrArg Prod.fst hline.serveAll
    rw [hnext]
    exact ⟨hopen, hsupply, by rw [hpermits], List.subset_cons_self ..⟩
  · -- while a permit is left nobody waits, so that the newcomer alone is served
    have halone : next = ({ borrowers with waiting := [] }.serveOne who).1 := by
      simp only [next, run, apply, h.waiting_eq_nil hpermits]
      rfl
    rcases borrowers.pool.borrow_cases borrowers.supply.isValid Supply.create borrowers.supply with
      ⟨hclosed, -⟩ | ⟨-, hnone, -⟩ |
      ⟨-, -, idle, events, ⟨failure, after, hcreate, -⟩ | ⟨connection, after, hafter, hborrow⟩⟩
    · rw [hopen] at hclosed
      cases hclosed
    · exact absurd hnone hpermits
    · simp only [Supply.create, hsupply] at hcreate
      cases hcreate
    · -- it has no connection that it would have to give back first
      have hlookup : borrowers.held.lookup who = none := by
        refine List.lookup_eq_none_iff.2 fun entry hentry => ?_
        simp only [bne_iff_ne, ne_eq]
        exact fun heq => hwho (heq ▸ List.mem_map_of_mem hentry)
      have hafter' : after.failing = none := by
        rcases hafter with rfl | hcreate
        · exact hsupply
        · simp only [Supply.create, hsupply] at hcreate
          cases hcreate
          rfl
      have hnext : next = { borrowers with
          pool := { borrowers.pool with permits := borrowers.pool.permits - 1, idle }
          supply := after
          held := (who, connection) :: borrowers.held
          waiting := [] } := by
        rw [halone]
        simp only [serveOne, hborrow, release, hlookup]
      rw [hnext]
      exact ⟨hopen, hafter', rfl, List.Subset.refl _⟩

/-- When opening connections starts to fail or works again, nobody in line gets a turn. -/
theorem run_supplyFails {borrowers : Borrowers} (h : borrowers.InLine) (failing : Option Failure) :
    (borrowers.run (.supplyFails failing)).1 =
      { borrowers with supply := { borrowers.supply with failing } } := by
  have hline : InLine { borrowers with supply := { borrowers.supply with failing } } := h
  exact congrArg Prod.fst hline.serveAll

/-- Borrowers for which connections can be opened take as many permits as are left. -/
theorem permits_runAll_borrow (borrowers : Borrowers) (h : borrowers.InLine)
    (hopen : borrowers.pool.closed = false) (hsupply : borrowers.supply.failing = none)
    {others : List String} (hnodup : others.Nodup)
    (hothers : ∀ who ∈ others, who ∉ borrowers.held.map Prod.fst) :
    (borrowers.runAll (others.map .borrow)).1.pool.permits =
      borrowers.pool.permits - others.length := by
  induction others generalizing borrowers with
  | nil => rfl
  | cons who rest ih =>
    obtain ⟨hwho, hrest⟩ := List.nodup_cons.1 hnodup
    obtain ⟨hopen', hsupply', hpermits, hheld⟩ :=
      permits_run_borrow h hopen hsupply (hothers who List.mem_cons_self)
    -- the others are still no holders, since they are not the one who has just come
    have hfresh : ∀ other ∈ rest,
        other ∉ (borrowers.run (.borrow who)).1.held.map Prod.fst := by
      intro other hother hmem
      rcases List.mem_cons.1 (hheld hmem) with rfl | hold
      · exact hwho hother
      · exact hothers other (List.mem_cons_of_mem _ hother) hold
    have hlater := ih _ (borrowers.turns_run _).1 hopen' hsupply' hrest hfresh
    rw [hpermits] at hlater
    show ((borrowers.run (.borrow who)).1.runAll (rest.map .borrow)).1.pool.permits = _
    rw [hlater, List.length_cons]
    omega

/-- No permit is lost: when connections can be opened, as many get one as there is room for. -/
theorem Reachable.held_runAll_borrow {options : PoolOptions} {borrowers : Borrowers}
    {events : List (PoolEvent Nat)} (h : Reachable options borrowers events)
    (hline : borrowers.InLine) (hopen : borrowers.pool.closed = false) {others : List String}
    (hnodup : others.Nodup) (hothers : ∀ who ∈ others, who ∉ borrowers.held.map Prod.fst) :
    (borrowers.runAll (.supplyFails none :: others.map .borrow)).1.held.length =
      min (max 1 options.maxActive) (borrowers.held.length + others.length) := by
  have hkeeps : ∀ step ∈ Step.supplyFails none :: others.map Step.borrow, ¬step.Exchanges := by
    simp [Step.Exchanges]
  have hbefore := h.balanced.pool.permits
  have hafter := (h.runAll hkeeps).balanced.pool.permits
  have htaken : (borrowers.runAll (.supplyFails none :: others.map .borrow)).1.pool.permits =
      borrowers.pool.permits - others.length := by
    show ((borrowers.run (.supplyFails none)).1.runAll (others.map .borrow)).1.pool.permits = _
    rw [run_supplyFails hline]
    exact permits_runAll_borrow
      { borrowers with supply := { borrowers.supply with failing := none } } hline hopen rfl hnodup
      hothers
  -- before and after, the permits left and the connections held make up what is configured
  rw [List.length_map, Pool.capacity] at hbefore hafter
  omega

/-- However a pool is used, as long as nobody exchanges a connection for another one, requests end
in the order in which they came, those that were given up while they waited left out, and those that
came last wait. While someone waits, as many connections are held as may be. Whatever has happened,
no permit is lost: if the pool is open and connections can be opened, then of any others who ask as
many get one as there is room for. -/
theorem first_come_first_served {options : PoolOptions} {steps : List Step}
    (hkeeps : ∀ step ∈ steps, ¬step.Exchanges) :
    let now := ((start options).runAll steps).1
    let inTurn := ((start options).ended steps).map Prod.fst ++ now.waiting
    inTurn.Sublist (arrivals steps) ∧
      (arrivals steps).Perm (inTurn ++ (start options).quitters steps) ∧
      (now.waiting ≠ [] → now.held.length = max 1 options.maxActive) ∧
      (now.pool.closed = false → ∀ others : List String, others.Nodup →
        (∀ who ∈ others, who ∉ now.held.map Prod.fst) →
          (now.runAll (.supplyFails none :: others.map .borrow)).1.held.length =
            min (max 1 options.maxActive) (now.held.length + others.length)) := by
  intro now inTurn
  obtain ⟨hsublist, hperm⟩ := (start options).turns_runAll steps
  have hline : now.InLine := inLine_runAll (fun hwaiting => absurd rfl hwaiting) steps
  have hreachable : Reachable options now _ := Reachable.start.runAll hkeeps
  refine ⟨hsublist, hperm, fun hwaiting => ?_, fun hopen others hnodup hothers => ?_⟩
  · -- no permit is left, so that all of them are with those who hold a connection
    have hpermits : now.pool.permits + (now.held.map Prod.snd).length = Pool.capacity options :=
      hreachable.balanced.pool.permits
    rw [(hline hwaiting).2, List.length_map, Pool.capacity] at hpermits
    omega
  · exact hreachable.held_runAll_borrow hline hopen hnodup hothers

/-- Two borrowers hold a connection, two wait, and one of these gives up. While no connection can be
opened, the one that comes back is found invalid; then the other one that waits gets none, and the
last connection is destroyed. Both permits are there for the next three who come. -/
theorem first_come_first_served_of_failures :
    let options : PoolOptions := ⟨2, 1⟩
    let queued : List Step :=
      [.borrow "first", .borrow "second", .borrow "third", .borrow "fourth", .cancel "third"]
    let failed : List Step := queued ++
      [.supplyFails (some ⟨.connectionRefused, "refused"⟩), .invalidate [1, 2], .giveBack "first",
        .discard "second"]
    let now := ((start options).runAll failed).1
    (∀ step ∈ failed, ¬step.Exchanges) ∧
      ((start options).runAll queued).1.waiting = ["fourth"] ∧
      ((start options).runAll queued).1.held.length = 2 ∧
      ((start options).ended failed).map Prod.fst = ["first", "second", "fourth"] ∧
      (((start options).ended failed).map Prod.fst ++ now.waiting).Sublist (arrivals failed) ∧
      (now.runAll
        [.supplyFails none, .borrow "fifth", .borrow "sixth", .borrow "seventh"]).1.held.length =
          2 := by
  intro options queued failed now
  have hkeeps : ∀ step ∈ failed, ¬step.Exchanges := by simp [failed, queued, Step.Exchanges]
  have hwaiting : ((start options).runAll queued).1.waiting = ["fourth"] := by decide +kernel
  obtain ⟨-, -, hfull, -⟩ := @first_come_first_served options queued
    fun step hstep => hkeeps step (List.mem_append_left _ hstep)
  obtain ⟨hturns, -, -, hroom⟩ := @first_come_first_served options failed hkeeps
  have hheld : now.held = [] := by decide +kernel
  refine ⟨hkeeps, hwaiting, hfull (by simp [hwaiting]), by decide +kernel, hturns, ?_⟩
  have hserved := hroom (by decide +kernel) ["fifth", "sixth", "seventh"] (by decide) <| by
    rw [show ((start options).runAll failed).1.held = [] from hheld]
    exact fun _ _ => List.not_mem_nil
  rw [show ((start options).runAll failed).1.held = [] from hheld] at hserved
  exact hserved

end Borrowers

end RingStore
