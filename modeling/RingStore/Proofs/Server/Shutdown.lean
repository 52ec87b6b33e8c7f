import RingStore.Proofs.Server.Account

/-!
# A shutdown loses nothing

A server ends in an order of its own: it accepts no more clients, waits until every task has ended,
tells the recorder to end, and waits for that. Whatever happens in between and in whatever order,
the message to end comes behind all that was ever put into the recorder's queue. So the file of a
server that has stopped, if it never failed, holds what every executed command line logged, in the
order of execution, and with it what every line logged of which a client has seen the reply.

## Main results

* `Server.Advances.stage`: a server goes through its stages in their order.
* `Server.shutdown_loses_nothing`: what a shutdown comes to, at every moment of every run.
-/

namespace RingStore

open Journal

namespace ServerStage

/-- The stages in their order. -/
inductive Next : ServerStage → ServerStage → Prop where
  /-- The server sees the signal. -/
  | drain : Next .accepting .draining
  /-- Every task has ended. -/
  | close : Next .draining .closing
  /-- The recorder has ended. -/
  | stop : Next .closing .stopped

theorem Next.ne_accepting {stage next : ServerStage} (h : stage.Next next) : next ≠ .accepting := by
  cases h <;> exact nofun

theorem Next.isClosed {stage next : ServerStage} (h : stage.Next next)
    (hclosed : stage.isClosed = true) : next.isClosed = true := by
  cases h <;> first | rfl | cases hclosed

end ServerStage

namespace Server

variable {server next : Server} {failures : FileFailures} {brought : Option Execution}
  {opened : Node} {found : Bytes} {executions : List Execution}

/-- An event takes a server to its next stage at most. -/
theorem Advances.stage (h : server.Advances failures brought next) :
    next.stage = server.stage ∨ server.stage.Next next.stage := by
  cases h with
  | drains hstage => exact .inr (hstage ▸ .drain)
  | closes hstage hidle => exact .inr (hstage ▸ .close)
  | stops hstage hended => exact .inr (hstage ▸ .stop)
  | _ => exact .inl rfl

theorem Advances.stage_ne_accepting (h : server.Advances failures brought next)
    (hstage : server.stage ≠ .accepting) : next.stage ≠ .accepting := by
  rcases h.stage with hsame | hnext
  · rwa [hsame]
  · exact hnext.ne_accepting

theorem Advances.isClosed_stage (h : server.Advances failures brought next)
    (hclosed : server.stage.isClosed = true) : next.stage.isClosed = true := by
  rcases h.stage with hsame | hnext
  · rwa [hsame]
  · exact hnext.isClosed hclosed

/-- Without accepting clients the number of tasks stays the same. -/
theorem Advances.length_tasks (h : server.Advances failures brought next)
    (hstage : server.stage ≠ .accepting) : next.tasks.length = server.tasks.length := by
  cases h with
  | accepts haccepting => exact absurd haccepting hstage
  | goesOn htask hnext => exact List.length_set
  | executes htask hended hsent hdue => exact List.length_set
  | _ => rfl

/-- A server that has stopped accepting clients accepts no other one. -/
theorem length_tasks_run (h : server.stage ≠ .accepting) (events : List Event) :
    (server.run events).tasks.length = server.tasks.length := by
  -- what carries the induction is that no event leads back to accepting clients
  induction events generalizing server with
  | nil => rfl
  | cons event later ih =>
    have hadvances := server.advances_step event
    exact (ih (hadvances.stage_ne_accepting h)).trans (hadvances.length_tasks h)

/-- Once every task has ended, nothing is executed. -/
theorem Advances.eq_none_of_isIdle (h : server.Advances failures brought next)
    (hidle : server.isIdle = true) : brought = none := by
  cases h with
  | executes htask hended hsent hdue =>
    rw [hasEnded_of_isIdle hidle htask] at hended
    cases hended
  | _ => rfl

/-- A closed server executes nothing. -/
theorem Accounts.executions_eq_nil [Machine] (h : server.Accounts opened executions)
    (hclosed : server.stage.isClosed = true) (events : List Event) :
    server.executions events = [] := by
  -- the account goes along, since it says that every task of a closed server has ended
  induction events generalizing server executions with
  | nil => rfl
  | cons event later ih =>
    have hadvances := server.advances_step event
    rw [Server.executions, hadvances.eq_none_of_isIdle (h.idle hclosed),
      ih (h.advance hadvances) (hadvances.isClosed_stage hclosed)]
    rfl

/-- What a stopped server leaves in its file. -/
theorem HasPromised.place_of_stopped (h : server.HasPromised found executions)
    (hstopped : server.stage = .stopped) (place : Place) :
    server.journaled.place place =
      .file (found ++ Record.encodeAll journalChecksum (executions.flatMap Execution.records)) := by
  obtain ⟨recorder, hrecorder, hsuits, hpromised⟩ := h
  rw [hstopped] at hsuits
  rw [JournaledNode.place, hrecorder, ← hpromised,
    Recorder.promised_of_stopped journalChecksum hsuits.1 hsuits.2]

/-- A server on a node that was opened starts with an empty account, and its recorder has promised
what the file holds. -/
theorem exists_accounts_start [Machine] {databases : Nat} {policy : SyncPolicy} {place : Place}
    {journaled : JournaledNode}
    (h : JournaledNode.openAt databases ⟨true, policy⟩ place = .ok journaled) :
    ∃ found, journaled.place place = .file found ∧
      (start journaled).Accounts journaled.node [] ∧ (start journaled).HasPromised found [] := by
  obtain ⟨records, found, rfl⟩ := JournaledNode.eq_of_openAt h
  refine ⟨found, rfl, ⟨rfl, ?_, nofun, nofun, nofun⟩, _, rfl, Recorder.isOpen_start _, ?_⟩
  · exact ((Node.regular_empty databases).replay records).journaled_true
  · rw [Recorder.promised_start]
    exact (List.append_nil _).symm

/-- At every moment of every run of a server, whatever happens and in whatever order:

* Once the accept loop has seen the signal, no other client gets a task.
* Once the recorder has been told to end, every task has ended, and nothing is ever executed again.
* The executions so far lead from the opened node to the node there is now. What each one hands to
  the journal is what the database that it is for has logged.
* Whatever a client was sent are replies to executions for its own task, in their order, and
  complaints about bytes of which nothing was executed.
* When the server has stopped, and no operation on the file has failed, the file holds the records
  of all executions in their order, behind what it held when the node was opened. -/
theorem shutdown_loses_nothing [Machine] {databases : Nat} {policy : SyncPolicy} {place : Place}
    {journaled : JournaledNode}
    (hopened : JournaledNode.openAt databases ⟨true, policy⟩ place = .ok journaled)
    (events : List Event) :
    let server := (start journaled).run events
    let executions := (start journaled).executions events
    (server.stage ≠ .accepting →
      ∀ later, (server.run later).tasks.length = server.tasks.length) ∧
    (server.stage.isClosed = true →
      server.isIdle = true ∧ ∀ later, server.executions later = []) ∧
    Execution.Lead journaled.node executions server.journaled.node ∧
    (∀ execution ∈ executions, execution.answer.writes =
      match execution.before.target? execution.session execution.line with
      | some index =>
        ((execution.before.keyspaceAt index).logged execution.line).map fun line => ⟨index, line⟩
      | none => []) ∧
    (∀ (index : Nat) (task : ClientTask), server.tasks[index]? = some task → ∃ told : List Told,
      task.sent = told.flatMap (fun one => one.value.encode) ∧
        (told.filterMap Told.execution?).Sublist
          (executions.filter fun execution => execution.task = index)) ∧
    ((∀ event ∈ events, event.failures = .none) → server.stage = .stopped →
      ∃ found, journaled.place place = .file found ∧
        server.journaled.place place =
          .file (found ++ Record.encodeAll journalChecksum
            (executions.flatMap Execution.records))) := by
  intro server executions
  obtain ⟨found, hfound, hstart, hstarts⟩ := exists_accounts_start hopened
  have h : server.Accounts journaled.node executions := hstart.run events
  refine ⟨length_tasks_run, fun hclosed => ⟨h.idle hclosed, h.executions_eq_nil hclosed⟩, h.lead,
    fun execution hmem => Node.writes_exec (h.before execution hmem) _ _, ?_, fun hsound hstopped =>
      ⟨found, hfound, (hstarts.run hstart hsound).place_of_stopped hstopped place⟩⟩
  intro index task htask
  -- what is still owed to the client stands behind everything told
  obtain ⟨told, owed, hsent, -, hsublist⟩ := h.tasks index task htask
  rw [List.filterMap_append] at hsublist
  exact ⟨told, hsent, (List.sublist_append_left _ _).trans hsublist⟩

/-- Two clients store a value under one key, and the reply to the second one is lost. A shutdown is
signalled; one more client connects before the accept loop sees the signal, and one after that. -/
def busyShutdown : List Event :=
  let line := fun value => encodeCommandLine (["SET", "k", value].map Text.toBytes)
  [.accept, .accept, .answer 0, .answer 1, .receive 1 (line "w"), .receive 0 (line "v"), .answer 0,
    .answer 1, .reply 0, .signal, .accept, .stopAccepting, .accept,
    .loseReply 1 Connection.resetByPeer, .answer 0, .answer 2, .close, .leave 0, .leave 2,
    .close] ++
    List.replicate 4 (.record .none .prompt) ++ [.stop]

/-- Both values are in the file, and the client whose reply was not lost has been told so. -/
theorem shutdown_loses_nothing_of_busyShutdown :
    ∃ journaled, JournaledNode.openAt 1 ⟨true, .everySecond⟩ .vacant = .ok journaled ∧
      let server := (start journaled).run busyShutdown
      server.stage = .stopped ∧
        server.tasks.map ClientTask.sent = [Text.toBytes "+OK\r\n", [], []] ∧
        server.executions [.answer 0] = [] ∧
        server.journaled.place .vacant = .file (Record.encodeAll journalChecksum
          [⟨0, ["set", "k", "v"].map Text.toBytes⟩, ⟨0, ["set", "k", "w"].map Text.toBytes⟩]) := by
  have hopened : JournaledNode.openAt 1 ⟨true, .everySecond⟩ .vacant = .ok _ := rfl
  refine ⟨_, hopened, ?_⟩
  obtain ⟨-, hclosed, -, -, -, hplace⟩ := shutdown_loses_nothing hopened busyShutdown
  intro server
  have hstopped : server.stage = .stopped := by decide +kernel
  obtain ⟨found, hfound, hplace⟩ := hplace (by decide) hstopped
  cases hfound
  refine ⟨hstopped, by decide +kernel, (hclosed (hstopped ▸ rfl)).2 _, hplace.trans ?_⟩
  refine congrArg (fun records => Place.file (Record.encodeAll journalChecksum records)) ?_
  decide +kernel

end Server

end RingStore
