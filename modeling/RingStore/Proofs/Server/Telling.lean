import RingStore.Proofs.Connection
import RingStore.Server

/-!
# What a client is told

Everything that a task sends to its client is the reply to a command line that it had the node
execute, or the reason for which it did not have something executed. What a task has sent, and what
it is about to send, are kept together: a reply that is lost was due, but the client was not told.

## Main definitions

* `Execution`: a command line that a task has the node execute.
* `Told`: what a client is told.
* `ClientTask.Tells`: what was sent are replies to executed lines, and complaints.
* `ClientTask.GoesOn`: what a task may become without having anything executed.

## Main results

* `ClientTask.goesOn_reply` and others: what a task does without having anything executed.
* `ClientTask.answer_of_request?_eq_some`: what it does when it has a line executed.
-/

namespace RingStore

/-- A command line that a task has the node execute. -/
structure Execution where
  /-- The position of the task. -/
  task : Nat
  /-- The session for which the line is executed. -/
  session : Session
  /-- The command line. -/
  line : CommandLine
  /-- The node on which the line is executed. -/
  before : Node

namespace Execution

/-- What the execution does. -/
def answer (execution : Execution) : Answer Node :=
  execution.before.exec execution.session execution.line

/-- The records of what it logs. -/
def records (execution : Execution) : List Record :=
  execution.answer.writes.map Record.ofWrite

/-- Executions one after the other lead from one node to another. -/
def Lead (first : Node) : List Execution → Node → Prop
  | [], last => last = first
  | execution :: rest, last => execution.before = first ∧ Lead execution.answer.state rest last

theorem Lead.concat {first : Node} {executions : List Execution} {execution : Execution}
    (h : Lead first executions execution.before) :
    Lead first (executions ++ [execution]) execution.answer.state := by
  induction executions generalizing first with
  | nil => exact ⟨h, rfl⟩
  | cons _ _ ih => exact ⟨h.1, ih h.2⟩

end Execution

/-- What a client is told. -/
inductive Told where
  /-- The reply to a command line. -/
  | reply (execution : Execution)
  /-- What it has sent is malformed. -/
  | malformed (reason : Malformed)
  /-- What it has sent is no command line. -/
  | notACommand
  /-- It has sent too much without completing a request. -/
  | tooLong

namespace Told

/-- What is sent. -/
def value : Told → Value
  | .reply execution => execution.answer.reply
  | .malformed reason => (Refusal.protocol reason).reply
  | .notACommand => Refusal.notACommand.reply
  | .tooLong => Refusal.queryTooLong.reply

/-- The execution that is replied to. -/
def execution? : Told → Option Execution
  | .reply execution => some execution
  | _ => none

end Told

namespace ClientTask

/-- The reply that the task has to send. -/
def due (task : ClientTask) : Option Value :=
  match task.phase with
  | .replying reply _ => some reply
  | _ => none

/-- The command line that the task will have executed when it looks for a request. -/
def request? (task : ClientTask) : Option CommandLine :=
  match task.phase, Wire.read task.buffer with
  | .looking, .done frame _ => frame.commandLine?
  | _, _ => none

/-- Everything that was sent to the client, and what is due, is the reply to one of the executions,
in their order, or tells the client why nothing is executed. -/
def Tells (task : ClientTask) (executions : List Execution) : Prop :=
  ∃ (told : List Told) (owed : Option Told),
    task.sent = told.flatMap (fun one => one.value.encode) ∧ task.due = owed.map Told.value ∧
      ((told ++ owed.toList).filterMap Told.execution?).Sublist executions

variable {task next : ClientTask} {executions : List Execution}

theorem tells_start (executions : List Execution) : start.Tells executions :=
  ⟨[], none, rfl, rfl, List.nil_sublist _⟩

/-- A task that has sent nothing more may owe its client something else. -/
theorem Tells.owing (h : task.Tells executions) (hsent : next.sent = task.sent) (owed : Option Told)
    (hdue : next.due = owed.map Told.value) {more : List Execution}
    (howed : (owed.toList.filterMap Told.execution?).Sublist more) :
    next.Tells (executions ++ more) := by
  obtain ⟨told, _, hbytes, -, hsublist⟩ := h
  refine ⟨told, owed, hsent.trans hbytes, hdue, ?_⟩
  rw [List.filterMap_append] at hsublist ⊢
  exact ((List.sublist_append_left _ _).trans hsublist).append howed

theorem Tells.append (h : task.Tells executions) (more : List Execution) :
    task.Tells (executions ++ more) := by
  obtain ⟨told, owed, hsent, hdue, hsublist⟩ := h
  exact ⟨told, owed, hsent, hdue, hsublist.trans (List.sublist_append_left _ _)⟩

/-- What a task may become without having anything executed: it does not come back when it has
ended, and its client is told of no other executions. -/
structure GoesOn (task next : ClientTask) : Prop where
  /-- A task that has ended stays as it is. -/
  ended : task.hasEnded = true → next = task
  /-- The client is told of the same executions. -/
  tells : ∀ executions, task.Tells executions → next.Tells executions

theorem GoesOn.refl (task : ClientTask) : task.GoesOn task :=
  ⟨fun _ => rfl, fun _ h => h⟩

/-- A task that has not ended may owe its client something other than a reply. -/
theorem goesOn_of_due (hended : task.hasEnded = false) (hsent : next.sent = task.sent)
    (owed : Option Told) (hdue : next.due = owed.map Told.value)
    (howed : owed.toList.filterMap Told.execution? = []) : task.GoesOn next where
  ended h := by
    rw [hended] at h
    cases h
  tells executions h := by
    rw [← List.append_nil executions]
    exact h.owing hsent owed hdue (howed ▸ List.Sublist.refl _)

/-- A reply that reaches the client was due. -/
theorem goesOn_reply (task : ClientTask) : task.GoesOn task.reply := by
  obtain ⟨session, buffer, sent, phase⟩ := task
  cases phase with
  | looking => exact .refl _
  | waiting => exact .refl _
  | ended failure => exact .refl _
  | replying reply last =>
    refine ⟨nofun, fun executions h => ?_⟩
    obtain ⟨told, owed, hsent, hdue, hsublist⟩ := h
    cases owed with
    | none => cases hdue
    | some one =>
      -- what was due becomes the last thing told
      obtain rfl : reply = one.value := Option.some.inj hdue
      have htold : sent ++ one.value.encode =
          (told ++ [one]).flatMap fun one => one.value.encode := by
        rw [List.flatMap_append, ← hsent, List.flatMap_singleton]
      refine ⟨told ++ [one], none, ?_, ?_, ?_⟩
      · cases last <;> exact htold
      · cases last <;> rfl
      · simpa using hsublist

theorem goesOn_loseReply (task : ClientTask) (failure : Failure) :
    task.GoesOn (task.loseReply failure) := by
  obtain ⟨session, buffer, sent, phase⟩ := task
  cases phase with
  | replying reply last => exact goesOn_of_due rfl rfl none rfl rfl
  | _ => exact .refl _

theorem goesOn_receive (task : ClientTask) (chunk : Bytes) : task.GoesOn (task.receive chunk) := by
  obtain ⟨session, buffer, sent, phase⟩ := task
  cases phase with
  | waiting =>
    simp only [receive]
    split
    · exact goesOn_of_due rfl rfl (some .tooLong) rfl rfl
    · split <;> exact goesOn_of_due rfl rfl none rfl rfl
  | _ => exact .refl _

theorem goesOn_failRead (task : ClientTask) (failure : Failure) :
    task.GoesOn (task.failRead failure) := by
  obtain ⟨session, buffer, sent, phase⟩ := task
  cases phase with
  | waiting => exact goesOn_of_due rfl rfl none rfl rfl
  | _ => exact .refl _

theorem goesOn_leave (task : ClientTask) : task.GoesOn task.leave := by
  obtain ⟨session, buffer, sent, phase⟩ := task
  cases phase with
  | waiting => exact goesOn_of_due rfl rfl none rfl rfl
  | _ => exact .refl _

/-- A task that has ended has nothing executed any more. -/
theorem request?_of_hasEnded (h : task.hasEnded = true) : task.request? = none := by
  obtain ⟨session, buffer, sent, phase⟩ := task
  cases phase <;> first | rfl | cases h

/-- A task that finds no command line has nothing executed. -/
theorem answer_of_request?_eq_none (h : task.request? = none) (journaled : JournaledNode) :
    ∃ next, task.answer JournaledNode.serve journaled = (next, journaled) ∧ task.GoesOn next := by
  obtain ⟨session, buffer, sent, phase⟩ := task
  cases phase with
  | looking =>
    simp only [answer]
    split
    · exact ⟨_, rfl, goesOn_of_due rfl rfl none rfl rfl⟩
    · next reason _ => exact ⟨_, rfl, goesOn_of_due rfl rfl (some (.malformed reason)) rfl rfl⟩
    · next frame rest hread =>
      have hframe : frame.commandLine? = none := by simpa only [request?, hread] using h
      -- an empty array is passed over, anything else that is no command line gets a complaint
      by_cases hempty : frame = .array []
      · subst hempty
        exact ⟨_, rfl, goesOn_of_due rfl rfl none rfl rfl⟩
      · rw [Connection.answerFrame_of_not_command _ _ hframe hempty]
        exact ⟨_, rfl, goesOn_of_due rfl rfl (some .notACommand) rfl rfl⟩
  | _ => exact ⟨_, rfl, .refl _⟩

/-- A task that finds a command line has it executed, and then the reply is due unless it is
silent. -/
theorem answer_of_request?_eq_some {line : CommandLine} (h : task.request? = some line)
    (journaled : JournaledNode) :
    let answer := journaled.exec task.session line
    ∃ answered, task.answer JournaledNode.serve journaled = (answered, answer.state) ∧
      answered.sent = task.sent ∧ (answered.due = none ∨ answered.due = some answer.reply) := by
  intro answer
  obtain ⟨session, buffer, sent, phase⟩ := task
  cases phase with
  | replying reply last => cases h
  | waiting => cases h
  | ended failure => cases h
  | looking =>
    simp only [request?] at h
    split at h
    · next frame rest _ hread =>
      simp only [ClientTask.answer, hread, Connection.answerFrame, h]
      split
      · next reply hreply =>
        obtain rfl : answer.reply = reply := by
          split at hreply
          · cases hreply
          · exact Option.some.inj hreply
        exact ⟨_, rfl, rfl, .inr rfl⟩
      · exact ⟨_, rfl, rfl, .inl rfl⟩
    · cases h

end ClientTask

end RingStore
