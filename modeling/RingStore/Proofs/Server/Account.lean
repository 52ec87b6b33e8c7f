import Mathlib.Data.List.Basic
import RingStore.Proofs.Journal.Recovery
import RingStore.Proofs.Server.Telling

/-!
# The account of a run

An *account* of a run of a server lists the command lines executed so far. They lead from the node
that was opened to the node there is now, and the clients were told of nothing else. As long as no
operation on the journal's file fails, their records are what the recorder has promised.

## Main definitions

* `Server.Advances`: everything that one event can come to.
* `Server.executions`: the command lines executed in a run.
* `Server.Accounts`: the invariant of a run.
* `Server.HasPromised`: the invariant of a run in which the file does not fail.

## Main results

* `Server.advances_step`: every event comes to one of these things.
* `Server.Accounts.run`: a run has the account of its executions.
* `Server.HasPromised.run`: what the recorder has promised in the end.
-/

namespace RingStore

open Journal

namespace ServerStage

/-- The server has told its recorder to end. -/
def isClosed : ServerStage → Bool
  | accepting => false
  | draining => false
  | closing => true
  | stopped => true

/-- How a server has left its recorder. -/
def Suits (recorder : Recorder) : ServerStage → Prop
  | accepting => recorder.IsOpen
  | draining => recorder.IsOpen
  | closing => recorder.IsEnding
  | stopped => recorder.IsEnding ∧ recorder.phase = .stopped

theorem Suits.isOpen {recorder : Recorder} {stage : ServerStage} (h : stage.Suits recorder)
    (hstage : stage.isClosed = false) : recorder.IsOpen := by
  cases stage <;> first | exact h | cases hstage

theorem suits_of_isOpen {recorder : Recorder} {stage : ServerStage} (h : recorder.IsOpen)
    (hstage : stage.isClosed = false) : stage.Suits recorder := by
  cases stage <;> first | exact h | cases hstage

theorem Suits.step {recorder : Recorder} {stage : ServerStage} (h : stage.Suits recorder)
    (glance : Recorder.Glance) : stage.Suits (recorder.step journalChecksum glance) := by
  cases stage with
  | accepting => exact Recorder.IsOpen.step journalChecksum h glance
  | draining => exact Recorder.IsOpen.step journalChecksum h glance
  | closing => exact Recorder.IsEnding.step journalChecksum h glance
  | stopped =>
    refine ⟨h.1.step journalChecksum glance, ?_⟩
    rw [Recorder.step, Recorder.stepOn_of_stopped journalChecksum h.2]
    exact h.2

end ServerStage

namespace Server

/-- The execution that an event brings about, if it brings one about. -/
def execution? (server : Server) : Event → Option Execution
  | .answer index =>
    server.tasks[index]?.bind fun task =>
      task.request?.map fun line => ⟨index, task.session, line, server.journaled.node⟩
  | _ => none

/-- The executions that events bring about, oldest first. -/
def executions (server : Server) : List Event → List Execution
  | [] => []
  | event :: later => (server.execution? event).toList ++ (server.step event).executions later

/-- What an event can come to, with the execution that it brings about, when some operations on the
journal's file fail. -/
inductive Advances (server : Server) (failures : FileFailures) :
    Option Execution → Server → Prop where
  /-- Nothing happens. -/
  | stays : server.Advances failures none server
  /-- A client gets a task. -/
  | accepts (hstage : server.stage = .accepting) :
      server.Advances failures none { server with tasks := server.tasks ++ [.start] }
  /-- A task goes on without having anything executed. -/
  | goesOn {index : Nat} {task next : ClientTask} (htask : server.tasks[index]? = some task)
      (hnext : task.GoesOn next) :
      server.Advances failures none { server with tasks := server.tasks.set index next }
  /-- A task has a command line executed, and may owe its client the reply. -/
  | executes {index : Nat} {task next : ClientTask} {line : CommandLine}
      (htask : server.tasks[index]? = some task) (hended : task.hasEnded = false)
      (hsent : next.sent = task.sent)
      (hdue : next.due = none ∨
        next.due = some (server.journaled.exec task.session line).reply) :
      server.Advances failures (some ⟨index, task.session, line, server.journaled.node⟩)
        { server with
          journaled := (server.journaled.exec task.session line).state
          tasks := server.tasks.set index next }
  /-- A shutdown is signalled. -/
  | signals : server.Advances failures none { server with signalled := true }
  /-- The accept loop ends. -/
  | drains (hstage : server.stage = .accepting) :
      server.Advances failures none { server with stage := .draining }
  /-- The recorder takes a step. -/
  | records (glance : Recorder.Glance) :
      server.Advances failures none
        (server.changeRecorder (·.stepOn failures journalChecksum glance))
  /-- The recorder is told to end, all tasks having ended. -/
  | closes (hstage : server.stage = .draining) (hidle : server.isIdle = true) :
      server.Advances failures none
        { server.changeRecorder (·.send .shutdown) with stage := .closing }
  /-- The server stops, the recorder having ended. -/
  | stops (hstage : server.stage = .closing) (hended : server.recorderEnded = true) :
      server.Advances failures none { server with stage := .stopped }

variable {server next : Server} {failures : FileFailures} {brought : Option Execution}

theorem advances_changeTask (server : Server) (index : Nat) {change : ClientTask → ClientTask}
    (hchange : ∀ task : ClientTask, task.GoesOn (change task)) :
    server.Advances failures none (server.changeTask index change) := by
  rw [changeTask, List.modify_eq_set_getElem?]
  cases htask : server.tasks[index]? with
  | none => exact .stays
  | some task => exact .goesOn htask (hchange task)

theorem advances_answer (server : Server) (index : Nat) :
    server.Advances failures (server.execution? (.answer index)) (server.answer index) := by
  cases htask : server.tasks[index]? with
  | none =>
    simp only [answer, execution?, htask]
    exact .stays
  | some task =>
    cases hrequest : task.request? with
    | none =>
      obtain ⟨next, hanswer, hnext⟩ :=
        ClientTask.answer_of_request?_eq_none hrequest server.journaled
      simp only [answer, execution?, htask, hanswer, Option.bind_some, hrequest, Option.map_none]
      exact .goesOn htask hnext
    | some line =>
      obtain ⟨next, hanswer, hsent, hdue⟩ :=
        ClientTask.answer_of_request?_eq_some hrequest server.journaled
      -- a task that has ended takes no more requests
      have hended : task.hasEnded = false := by
        refine Bool.eq_false_iff.2 fun hended => ?_
        rw [ClientTask.request?_of_hasEnded hended] at hrequest
        cases hrequest
      simp only [answer, execution?, htask, hanswer, Option.bind_some, hrequest, Option.map_some]
      exact .executes htask hended hsent hdue

/-- Every event comes to one of these things. -/
theorem advances_step (server : Server) (event : Event) :
    server.Advances event.failures (server.execution? event) (server.step event) := by
  -- an event whose time has not come, or is over, leaves the server as it is
  cases event with
  | answer index => exact server.advances_answer index
  | accept =>
    rw [step]
    split
    · next hstage => exact .accepts hstage
    · exact .stays
  | reply index => exact server.advances_changeTask index ClientTask.goesOn_reply
  | loseReply index failure =>
    exact server.advances_changeTask index fun task => task.goesOn_loseReply failure
  | receive index chunk =>
    rw [step]
    split
    · exact .stays
    · exact server.advances_changeTask index fun task => task.goesOn_receive chunk
  | failRead index failure =>
    rw [step]
    split
    · exact .stays
    · exact server.advances_changeTask index fun task => task.goesOn_failRead failure
  | leave index =>
    rw [step]
    split
    · exact server.advances_changeTask index ClientTask.goesOn_leave
    · exact .stays
  | signal => exact .signals
  | stopAccepting =>
    rw [step]
    split
    · next hstage => exact .drains hstage.2
    · exact .stays
  | record failures glance => exact .records glance
  | close =>
    rw [step]
    split
    · next hstage => exact .closes hstage.1 hstage.2
    · exact .stays
  | stop =>
    rw [step]
    split
    · next hstage => exact .stops hstage.1 hstage.2
    · exact .stays

/-- The account of a run: the executions so far, on a node that was opened. -/
structure Accounts [Machine] (server : Server) (opened : Node) (executions : List Execution) :
    Prop where
  /-- They have led from the opened node to this one. -/
  lead : Execution.Lead opened executions server.journaled.node
  /-- The databases carry their numbers and hand over their changes. -/
  regular : server.journaled.node.Regular true
  /-- They did so at every execution. -/
  before : ∀ execution ∈ executions, execution.before.Regular true
  /-- Clients were told of executions for their own tasks, in their order. -/
  tasks : ∀ (index : Nat) (task : ClientTask), server.tasks[index]? = some task →
    task.Tells (executions.filter fun execution => execution.task = index)
  /-- The server is closed only after every task has ended. -/
  idle : server.stage.isClosed = true → server.isIdle = true

/-- The recorder has promised the records of all executions, behind what was found in the file. -/
def HasPromised (server : Server) (found : Bytes) (executions : List Execution) : Prop :=
  ∃ recorder, server.journaled.recorder = some recorder ∧ server.stage.Suits recorder ∧
    recorder.promised journalChecksum =
      found ++ Record.encodeAll journalChecksum (executions.flatMap Execution.records)

variable {opened : Node} {found : Bytes} {executions : List Execution}

theorem hasEnded_of_isIdle (h : server.isIdle = true) {index : Nat} {task : ClientTask}
    (htask : server.tasks[index]? = some task) : task.hasEnded = true :=
  List.all_eq_true.1 h task (List.mem_of_getElem? htask)

/-- What the tasks tell after one of them has changed. -/
theorem Accounts.tells_set [Machine] (h : server.Accounts opened executions) {index : Nat}
    {task next : ClientTask} (htask : server.tasks[index]? = some task) {more : List Execution}
    (hnext : next.Tells ((executions ++ more).filter fun execution => execution.task = index))
    (number : Nat) (other : ClientTask)
    (hother : (server.tasks.set index next)[number]? = some other) :
    other.Tells ((executions ++ more).filter fun execution => execution.task = number) := by
  rw [List.getElem?_set] at hother
  split at hother
  · next hsame =>
    subst hsame
    rw [if_pos (List.getElem?_eq_some_iff.1 htask).1] at hother
    cases hother
    exact hnext
  · -- another task may be told of more executions, but was told of none of them
    rw [List.filter_append]
    exact (h.tasks number other hother).append _

/-- A client that connects has been told nothing. -/
theorem Accounts.accept [Machine] (h : server.Accounts opened executions)
    (hstage : server.stage = .accepting) :
    Accounts { server with tasks := server.tasks ++ [.start] } opened executions where
  lead := h.lead
  regular := h.regular
  before := h.before
  tasks number task htask := by
    rw [List.getElem?_append] at htask
    split at htask
    · exact h.tasks number task htask
    · obtain rfl := List.mem_singleton.1 (List.mem_of_getElem? htask)
      exact ClientTask.tells_start _
  idle hclosed := by
    rw [hstage] at hclosed
    cases hclosed

/-- What becomes of the recorder does not matter to the account. -/
theorem Accounts.changeRecorder [Machine] (h : server.Accounts opened executions)
    (change : Recorder → Recorder) : (server.changeRecorder change).Accounts opened executions :=
  ⟨h.lead, h.regular, h.before, h.tasks, h.idle⟩

theorem Accounts.signal [Machine] (h : server.Accounts opened executions) :
    Accounts { server with signalled := true } opened executions :=
  ⟨h.lead, h.regular, h.before, h.tasks, h.idle⟩

/-- The server may get to its next stage when every task has ended, if that stage is a closed
one. -/
theorem Accounts.enter [Machine] (h : server.Accounts opened executions) (stage : ServerStage)
    (hidle : stage.isClosed = true → server.isIdle = true) :
    Accounts { server with stage } opened executions :=
  ⟨h.lead, h.regular, h.before, h.tasks, hidle⟩

/-- A task that goes on without having anything executed keeps the account. -/
theorem Accounts.goOn [Machine] (h : server.Accounts opened executions) {index : Nat}
    {task next : ClientTask} (htask : server.tasks[index]? = some task) (hnext : task.GoesOn next) :
    Accounts { server with tasks := server.tasks.set index next } opened executions where
  lead := h.lead
  regular := h.regular
  before := h.before
  tasks := by
    rw [← List.append_nil executions]
    refine h.tells_set htask (hnext.tells _ ?_)
    rw [List.append_nil]
    exact h.tasks index task htask
  idle hclosed := by
    -- in a closed server this task has ended, too, so that nothing has changed
    have hidle := h.idle hclosed
    obtain ⟨hlt, rfl⟩ := List.getElem?_eq_some_iff.1 htask
    rwa [hnext.ended (hasEnded_of_isIdle hidle htask), List.set_getElem_self hlt]

/-- A server with a task that has not ended is not closed. -/
theorem Accounts.isClosed_eq_false [Machine] (h : server.Accounts opened executions) {index : Nat}
    {task : ClientTask} (htask : server.tasks[index]? = some task)
    (hended : task.hasEnded = false) : server.stage.isClosed = false := by
  refine Bool.eq_false_iff.2 fun hclosed => ?_
  rw [hasEnded_of_isIdle (h.idle hclosed) htask] at hended
  cases hended

/-- An execution leads on. -/
theorem Accounts.execute [Machine] (h : server.Accounts opened executions) {index : Nat}
    {task next : ClientTask} {line : CommandLine} (htask : server.tasks[index]? = some task)
    (hended : task.hasEnded = false) (hsent : next.sent = task.sent)
    (hdue : next.due = none ∨ next.due = some (server.journaled.exec task.session line).reply) :
    Accounts
      { server with
        journaled := (server.journaled.exec task.session line).state
        tasks := server.tasks.set index next }
      opened (executions ++ [⟨index, task.session, line, server.journaled.node⟩]) := by
  set execution : Execution := ⟨index, task.session, line, server.journaled.node⟩ with hexecution
  constructor
  case lead => exact Execution.Lead.concat h.lead
  case regular => exact h.regular.exec _ _
  case before =>
    intro other hmem
    rcases List.mem_append.1 hmem with hold | hnew
    · exact h.before other hold
    · obtain rfl := List.mem_singleton.1 hnew
      exact h.regular
  case tasks =>
    refine h.tells_set htask ?_
    have hown : [execution].filter (fun execution => execution.task = index) = [execution] := by
      simp [hexecution]
    rw [List.filter_append, hown]
    -- a reply is due from now on, unless there is none to send
    rcases hdue with hdue | hdue
    · exact (h.tasks index task htask).owing hsent none hdue (List.nil_sublist _)
    · exact (h.tasks index task htask).owing hsent (some (.reply execution)) hdue
        (List.Sublist.refl _)
  case idle =>
    intro hclosed
    rw [h.isClosed_eq_false htask hended] at hclosed
    cases hclosed

/-- Whatever an event comes to keeps the account, with the execution that it brings about. -/
theorem Accounts.advance [Machine] (h : server.Accounts opened executions)
    (hadvances : server.Advances failures brought next) :
    next.Accounts opened (executions ++ brought.toList) := by
  cases hadvances with
  | executes htask hended hsent hdue => exact h.execute htask hended hsent hdue
  | stays => simpa using h
  | accepts hstage => simpa using h.accept hstage
  | goesOn htask hnext => simpa using h.goOn htask hnext
  | signals => simpa using h.signal
  | drains hstage => simpa using h.enter .draining nofun
  | records glance => simpa using h.changeRecorder _
  | closes hstage hidle =>
    simpa using (h.changeRecorder (·.send .shutdown)).enter .closing fun _ => hidle
  | stops hstage hended =>
    simpa using h.enter .stopped fun _ => h.idle (by rw [hstage]; rfl)

/-- A run has the account of all executions that it brings about. -/
theorem Accounts.run [Machine] (h : server.Accounts opened executions) (events : List Event) :
    (server.run events).Accounts opened (executions ++ server.executions events) := by
  induction events generalizing server executions with
  | nil => rwa [Server.executions, List.append_nil]
  | cons event later ih =>
    rw [Server.executions, ← List.append_assoc]
    exact ih (h.advance (server.advances_step event))

/-- A step of the recorder leaves what it has promised. -/
theorem HasPromised.record (h : server.HasPromised found executions) (glance : Recorder.Glance) :
    (server.changeRecorder (·.step journalChecksum glance)).HasPromised found executions := by
  obtain ⟨recorder, hrecorder, hsuits, hpromised⟩ := h
  refine ⟨_, ?_, hsuits.step glance,
    (Recorder.promised_step journalChecksum recorder glance).trans hpromised⟩
  simp only [changeRecorder, hrecorder, Option.map_some]

/-- The message to end comes behind all records. -/
theorem HasPromised.close (h : server.HasPromised found executions)
    (hstage : server.stage = .draining) :
    HasPromised { server.changeRecorder (·.send .shutdown) with stage := .closing } found
      executions := by
  obtain ⟨recorder, hrecorder, hsuits, hpromised⟩ := h
  have hopen : recorder.IsOpen := hsuits.isOpen (by rw [hstage]; rfl)
  refine ⟨recorder.send .shutdown, ?_, hopen.isEnding_send,
    (Recorder.promised_send_shutdown journalChecksum hopen).trans hpromised⟩
  simp only [changeRecorder, hrecorder, Option.map_some]

theorem HasPromised.stop (h : server.HasPromised found executions)
    (hstage : server.stage = .closing) (hended : server.recorderEnded = true) :
    HasPromised { server with stage := .stopped } found executions := by
  obtain ⟨recorder, hrecorder, hsuits, hpromised⟩ := h
  rw [hstage] at hsuits
  simp only [recorderEnded, hrecorder, decide_eq_true_eq] at hended
  exact ⟨recorder, hrecorder, ⟨hsuits, hended⟩, hpromised⟩

/-- The records of an execution are promised behind all others. -/
theorem HasPromised.execute (h : server.HasPromised found executions)
    (hstage : server.stage.isClosed = false) (index : Nat) (task next : ClientTask)
    (line : CommandLine) :
    HasPromised
      { server with
        journaled := (server.journaled.exec task.session line).state
        tasks := server.tasks.set index next }
      found (executions ++ [⟨index, task.session, line, server.journaled.node⟩]) := by
  obtain ⟨recorder, hrecorder, hsuits, hpromised⟩ := h
  obtain ⟨hopen, hgrows⟩ := Recorder.promised_foldl_enqueue journalChecksum
    (hsuits.isOpen hstage)
    (Execution.records ⟨index, task.session, line, server.journaled.node⟩)
  refine ⟨_, ?_, ServerStage.suits_of_isOpen hopen hstage, ?_⟩
  · simp only [JournaledNode.exec, hrecorder, Option.map_some]
    rfl
  · rw [hgrows, hpromised, List.flatMap_append, Record.encodeAll_append, List.append_assoc,
      List.flatMap_singleton]

/-- Whatever an event comes to that meets no failing file, the recorder has promised the records of
the execution that it brings about, too. -/
theorem HasPromised.advance [Machine] (h : server.HasPromised found executions)
    (haccounts : server.Accounts opened executions)
    (hadvances : server.Advances .none brought next) :
    next.HasPromised found (executions ++ brought.toList) := by
  cases hadvances with
  | executes htask hended hsent hdue =>
    -- a task that still executes keeps the server from being closed, so that the recorder is open
    exact h.execute (haccounts.isClosed_eq_false htask hended) _ _ _ _
  | drains hstage =>
    obtain ⟨recorder, hrecorder, hsuits, hpromised⟩ := h
    rw [Option.toList_none, List.append_nil]
    exact ⟨recorder, hrecorder, hsuits.isOpen (by rw [hstage]; rfl), hpromised⟩
  | records glance =>
    rw [Option.toList_none, List.append_nil]
    exact h.record glance
  | closes hstage hidle => simpa using h.close hstage
  | stops hstage hended => simpa using h.stop hstage hended
  | _ => rwa [Option.toList_none, List.append_nil]

/-- In a run that meets no failing file the recorder promises the records of all executions. -/
theorem HasPromised.run [Machine] (h : server.HasPromised found executions)
    (haccounts : server.Accounts opened executions) {events : List Event}
    (hsound : ∀ event ∈ events, event.failures = .none) :
    (server.run events).HasPromised found (executions ++ server.executions events) := by
  induction events generalizing server executions with
  | nil => rwa [Server.executions, List.append_nil]
  | cons event later ih =>
    obtain ⟨hevent, hlater⟩ := List.forall_mem_cons.1 hsound
    have hadvances := server.advances_step event
    rw [Server.executions, ← List.append_assoc]
    exact ih (h.advance haccounts (hevent ▸ hadvances)) (haccounts.advance hadvances) hlater

end Server

end RingStore
