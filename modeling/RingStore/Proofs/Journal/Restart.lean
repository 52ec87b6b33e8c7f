import Mathlib.Logic.Function.Basic
import RingStore.Proofs.Journal.Recovery

/-!
# Restarts

A node with a journal runs, is closed, and is opened again on the file that it left. During a run
any number of clients, each with a session of its own, give command lines in any order, and the
recorder takes its steps in between as it likes. Whatever the runs before were, the node that is
opened next holds in every database what that database would hold if all runs had been one.

The invariant of a run relates three things: what the databases hold, what they would hold if the
file that the recorder has promised were executed again, and what the lines executed so far lead to.

## Main definitions

* `Run`, `Run.perform`, `Run.performAll`: one life of a node, and several on one file.
* `Database.executeAll`: a database that executed command lines one after the other.

## Main results

* `Run.State.Sound.step`: every event of a run keeps the invariant.
* `Run.openAt_performAll`: what a node holds when it is opened after any runs.
-/

namespace RingStore

open Journal

/-- The database of a number, without keys at first, after command lines executed in order. -/
def Database.executeAll [Machine] (index : Nat) (lines : List CommandLine) : Database :=
  lines.foldl (fun database line => (database.exec Catalogue.registry line).database)
    (Database.empty index)

theorem Database.keyspace_executeAll [Machine] (index : Nat) (lines : List CommandLine) :
    (executeAll index lines).keyspace =
      lines.foldl Keyspace.after (.empty Keyspace.usualStripes) := by
  have hfold : ∀ database : Database,
      (lines.foldl (fun database line => (database.exec Catalogue.registry line).database)
        database).keyspace = lines.foldl Keyspace.after database.keyspace := by
    induction lines with
    | nil => exact fun _ => rfl
    | cons line rest ih =>
      intro database
      rw [List.foldl_cons, List.foldl_cons, ih, database_exec]
  exact hfold (Database.empty index)

namespace JournaledNode

/-- Ends the recorder after everything that was logged, while it takes steps of its own. -/
def closeAfter (journaled : JournaledNode) (glances : List Recorder.Glance) : JournaledNode :=
  { journaled with
    recorder := journaled.recorder.map (Recorder.closeAfter journalChecksum glances) }

/-- Lets the recorder take one step. -/
def record (journaled : JournaledNode) (glance : Recorder.Glance) : JournaledNode :=
  { journaled with recorder := journaled.recorder.map (·.step journalChecksum glance) }

/-- A running node whose databases hand over their changes, and whose recorder has promised the
bytes of records. -/
structure Promises [Machine] (journaled : JournaledNode) (records : List Record) : Prop where
  /-- The databases carry their numbers and hand over their changes. -/
  regular : journaled.node.Regular true
  /-- The recorder has promised the bytes of the records. -/
  recorder : ∃ recorder, journaled.recorder = some recorder ∧ recorder.IsOpen ∧
    recorder.promised journalChecksum = Record.encodeAll journalChecksum records

variable {journaled : JournaledNode} {records : List Record}

/-- What the execution of a line hands over is promised after all that was. -/
theorem Promises.exec [Machine] (h : journaled.Promises records) (session : Session)
    (line : CommandLine) :
    (journaled.exec session line).state.Promises
      (records ++ (journaled.exec session line).writes.map Record.ofWrite) where
  regular := h.regular.exec session line
  recorder := by
    obtain ⟨recorder, hrecorder, hopen, hpromised⟩ := h.recorder
    obtain ⟨hopen', hpromised'⟩ := Recorder.promised_foldl_enqueue journalChecksum hopen
      ((journaled.exec session line).writes.map Record.ofWrite)
    refine ⟨_, ?_, hopen', ?_⟩
    · simp only [JournaledNode.exec, hrecorder, Option.map_some]
    · rw [hpromised', hpromised, Record.encodeAll_append]

/-- The recorder's steps leave what it has promised. -/
theorem Promises.record [Machine] (h : journaled.Promises records) (glance : Recorder.Glance) :
    (journaled.record glance).Promises records where
  regular := h.regular
  recorder := by
    obtain ⟨recorder, hrecorder, hopen, hpromised⟩ := h.recorder
    refine ⟨_, ?_, hopen.step journalChecksum glance,
      (Recorder.promised_step journalChecksum recorder glance).trans hpromised⟩
    rw [JournaledNode.record, hrecorder]
    rfl

/-- A closed node leaves a file of the records that were promised. -/
theorem Promises.place_closeAfter [Machine] (h : journaled.Promises records)
    (glances : List Recorder.Glance) (before : Place) :
    (journaled.closeAfter glances).place before =
      .file (Record.encodeAll journalChecksum records) := by
  obtain ⟨recorder, hrecorder, hopen, hpromised⟩ := h.recorder
  rw [place, closeAfter, hrecorder, ← hpromised, ← Recorder.content_closeAfter _ hopen glances]
  rfl

/-- What a node holds when it is opened on records that were found: every database has executed the
records of its number, in order. The recorder has promised to keep them. -/
theorem exists_openAt [Machine] {place left : Place}
    (hrecover : recover place = .ok (records, left))
    (hleft : left.openToAppend = .ok (Record.encodeAll journalChecksum records)) (databases : Nat)
    (policy : SyncPolicy) :
    ∃ opened, openAt databases ⟨true, policy⟩ place = .ok opened ∧ opened.Promises records ∧
      opened.node.count = (if databases = 0 then Node.usualDatabases else databases) ∧
      opened.recorder =
        some (.start (.ofContent policy (Record.encodeAll journalChecksum records))) ∧
      ∀ index < opened.node.count, opened.node.keyspaceAt index =
        (Database.executeAll index (linesFor index (records.map Record.entry))).keyspace := by
  have hempty := Node.regular_empty databases
  refine ⟨_, openAt_of_recover hrecover hleft databases policy, ?_, ?_, rfl, fun index hindex => ?_⟩
  · exact ⟨(hempty.replay records).journaled_true, _, rfl, Recorder.isOpen_start _,
      Recorder.promised_start _ _ _⟩
  · rw [Node.count_journaled, Node.count_replay, Node.count_empty]
  · rw [Node.count_journaled, Node.count_replay] at hindex
    rw [Node.keyspaceAt_journaled, Node.keyspaceAt_replay hempty records hindex,
      Node.keyspaceAt_empty, Database.keyspace_executeAll]

end JournaledNode

/-- Something that happens while a node runs. -/
inductive Run.Event where
  /-- A client gives a command line. -/
  | command (client : Nat) (line : CommandLine)
  /-- The recorder takes a step. -/
  | record (glance : Recorder.Glance)

/-- One life of a node with a journal. -/
structure Run where
  /-- The configured number of databases. -/
  databases : Nat
  /-- When commits wait for the storage device. -/
  policy : SyncPolicy
  /-- What happens, in order. -/
  events : List Run.Event
  /-- What the recorder sees during the steps that it takes while the node is closed. -/
  closing : List Recorder.Glance

namespace Run

/-- The journal can keep what happens. -/
def Event.Fits : Event → Prop
  | .command _ line => line.Loggable
  | .record _ => True

instance : (event : Event) → Decidable event.Fits
  | .command _ line => inferInstanceAs (Decidable line.Loggable)
  | .record _ => inferInstanceAs (Decidable True)

/-- The number of databases and all command lines fit the journal. -/
structure Fits (run : Run) : Prop where
  /-- Numbers of databases fit in four bytes. -/
  databases : run.databases < Bytes.capacity 4
  /-- Command lines fit. -/
  events : ∀ event ∈ run.events, event.Fits

/-- A running node, the sessions of its clients, and the command lines executed on its file so far,
each with the number of the database that executed it. -/
structure State where
  /-- The node. -/
  journaled : JournaledNode
  /-- The sessions of all clients. -/
  sessions : Nat → Session
  /-- The executed lines, oldest first. -/
  history : List (Nat × CommandLine)

instance (run : Run) : Decidable run.Fits :=
  decidable_of_iff (run.databases < Bytes.capacity 4 ∧ ∀ event ∈ run.events, event.Fits)
    ⟨fun h => ⟨h.1, h.2⟩, fun h => ⟨h.databases, h.events⟩⟩

namespace State

/-- One event. -/
def step (state : State) : Event → State
  | .command client line =>
    let session := state.sessions client
    let answer := state.journaled.exec session line
    ⟨answer.state, Function.update state.sessions client answer.session,
      state.history ++ ((state.journaled.node.target? session line).map (·, line)).toList⟩
  | .record glance => { state with journaled := state.journaled.record glance }

end State

/-- The node of a run when it is opened, before any client has come. -/
def begin [Machine] (run : Run) (place : Place) : Except Failure JournaledNode :=
  JournaledNode.openAt run.databases ⟨true, run.policy⟩ place

/-- A whole run on what lies at the journal's path, with the lines executed by earlier runs: what
lies there afterwards, and the lines executed by then. -/
def perform [Machine] (before : Place × List (Nat × CommandLine)) (run : Run) :
    Except Failure (Place × List (Nat × CommandLine)) := do
  let opened ← run.begin before.1
  let ended := run.events.foldl State.step ⟨opened, fun _ => .start, before.2⟩
  return ((ended.journaled.closeAfter run.closing).place before.1, ended.history)

/-- Runs one after the other, where there was no file at first. -/
def performAll [Machine] (runs : List Run) : Except Failure (Place × List (Nat × CommandLine)) :=
  runs.foldlM perform (.vacant, [])

/-- What the lines executed so far lead to in one database. -/
def expected [Machine] (history : List (Nat × CommandLine)) (index : Nat) : Keyspace :=
  (linesFor index history).foldl Keyspace.after (.empty Keyspace.usualStripes)

theorem expected_append_of_ne [Machine] (history : List (Nat × CommandLine)) {index number : Nat}
    (h : number ≠ index) (line : CommandLine) :
    expected (history ++ [(number, line)]) index = expected history index := by
  rw [expected, linesFor_append, linesFor_cons, if_neg h, linesFor_nil, List.append_nil]
  rfl

theorem expected_append_self [Machine] (history : List (Nat × CommandLine)) (index : Nat)
    (line : CommandLine) :
    expected (history ++ [(index, line)]) index = (expected history index).after line := by
  rw [expected, linesFor_append, linesFor_cons, if_pos rfl, linesFor_nil, List.foldl_append]
  rfl

/-- The records on file, executed again in order, lead every database to where the executed lines
did. -/
structure Records [Machine] (history : List (Nat × CommandLine)) (records : List Record) :
    Prop where
  /-- Every record can be read back. -/
  fits : ∀ record ∈ records, record.line.Fits
  /-- The records of a number lead where the lines of that number do. -/
  redone : ∀ index, (expected (records.map Record.entry) index).Agrees (expected history index)

/-- The invariant of a run, where `records` are those on file and those still to be written. -/
structure State.Sound [Machine] (state : State) (records : List Record) : Prop where
  /-- The records are promised. -/
  promises : state.journaled.Promises records
  /-- Numbers of databases fit in four bytes. -/
  count : state.journaled.node.count ≤ Bytes.capacity 4
  /-- The databases hold what the executed lines lead to. -/
  live : ∀ index < state.journaled.node.count,
    (state.journaled.node.keyspaceAt index).Agrees (expected state.history index)
  /-- So would they after the records were executed again. -/
  records : Records state.history records

variable {state : State} {records : List Record}

theorem Records.nil [Machine] : Records [] [] where
  fits := fun _ hmem => nomatch hmem
  redone := fun _ => .refl _

/-- What a line logs, executed again, leads from what the earlier lines led to on. -/
theorem Records.append [Machine] {history : List (Nat × CommandLine)} (h : Records history records)
    {index : Nat} (hindex : index < Bytes.capacity 4) {keyspace : Keyspace}
    (hlive : keyspace.Agrees (expected history index)) {line : CommandLine}
    (hfits : line.Loggable) :
    Records (history ++ [(index, line)])
      (records ++ (keyspace.logged line).map fun logged => Record.ofWrite ⟨index, logged⟩) where
  fits := by
    intro record hmem
    rcases List.mem_append.1 hmem with hold | hnew
    · exact h.fits record hold
    · obtain ⟨logged, hlogged, rfl⟩ := List.mem_map.1 hnew
      obtain ⟨word, name, hname, arguments, rfl, rfl⟩ :=
        Keyspace.exists_call_of_mem_logged hlogged
      exact hfits.call hname
  redone := by
    intro other
    have hnumber : (index.toUInt32).toNat = index := UInt32.toNat_ofNat_of_lt' hindex
    have hentries : ((keyspace.logged line).map fun logged => Record.ofWrite ⟨index, logged⟩).map
        Record.entry = (keyspace.logged line).map fun logged => (index, logged) := by
      rw [List.map_map]
      refine List.map_congr_left fun logged _ => ?_
      simp only [Function.comp_apply, Record.entry, Record.ofWrite, hnumber]
    rw [expected, List.map_append, hentries, linesFor_append, linesFor_map_mk, List.foldl_append]
    -- what is logged leads on like the line itself, in its own database and in no other
    by_cases hsame : index = other
    · subst hsame
      rw [if_pos rfl, expected_append_self]
      have hredone := (h.redone index).trans hlive.symm
      exact ((hredone.foldl_after _).trans (keyspace.foldl_after_logged line)).trans
        (hlive.after line)
    · rw [if_neg hsame, List.foldl_nil, expected_append_of_ne history hsame]
      exact h.redone other

/-- A line that no database executes changes nothing but its client's session. -/
theorem State.Sound.command_of_target?_eq_none [Machine] (h : state.Sound records) {client : Nat}
    {line : CommandLine}
    (htarget : state.journaled.node.target? (state.sessions client) line = none) :
    (state.step (.command client line)).Sound records := by
  obtain ⟨hnode, hwrites⟩ := Node.exec_of_target?_eq_none htarget
  have hstate : (state.step (.command client line)).journaled = state.journaled := by
    simp only [State.step, JournaledNode.exec, hnode, hwrites, List.map_nil, List.foldl_nil,
      Option.map_id']
  have hhistory : (state.step (.command client line)).history = state.history := by
    simp only [State.step, htarget, Option.map_none, Option.toList_none, List.append_nil]
  constructor
  case promises => exact hstate ▸ h.promises
  case count => exact hstate ▸ h.count
  case live =>
    rw [hstate, hhistory]
    exact h.live
  case records => exact hhistory ▸ h.records

/-- A line that a database executes changes that database, and what it logs is promised. -/
theorem State.Sound.command_of_target?_eq_some [Machine] (h : state.Sound records) {client : Nat}
    {line : CommandLine} (hfits : line.Loggable) {index : Nat}
    (htarget : state.journaled.node.target? (state.sessions client) line = some index) :
    (state.step (.command client line)).Sound (records ++
      ((state.journaled.node.keyspaceAt index).logged line).map
        fun logged => Record.ofWrite ⟨index, logged⟩) := by
  obtain ⟨hlt, -⟩ := Node.lt_of_target?_eq_some htarget
  have hwrites : (state.journaled.exec (state.sessions client) line).writes =
      ((state.journaled.node.keyspaceAt index).logged line).map fun logged => ⟨index, logged⟩ := by
    have := Node.writes_exec h.promises.regular (state.sessions client) line
    rwa [htarget] at this
  have hnode : (state.step (.command client line)).journaled.node =
      (state.journaled.node.exec (state.sessions client) line).state := rfl
  have hhistory :
      (state.step (.command client line)).history = state.history ++ [(index, line)] := by
    simp only [State.step, htarget]
    rfl
  constructor
  case promises =>
    have hpromises := h.promises.exec (state.sessions client) line
    rw [hwrites, List.map_map] at hpromises
    exact hpromises
  case count =>
    rw [hnode, Node.count_exec]
    exact h.count
  case live =>
    intro other hother
    rw [hnode, Node.count_exec] at hother
    rw [hnode, Node.keyspaceAt_exec h.promises.regular.registry, htarget, hhistory]
    -- one more line is expected of the database that has executed it, and nothing new of the others
    by_cases hsame : index = other
    · subst hsame
      rw [if_pos rfl, expected_append_self]
      exact (h.live index hlt).after line
    · rw [if_neg fun heq => hsame (Option.some.inj heq), expected_append_of_ne _ hsame]
      exact h.live other hother
  case records =>
    rw [hhistory]
    exact h.records.append (Nat.lt_of_lt_of_le hlt h.count) (h.live index hlt) hfits

/-- Every event keeps the invariant, and may add records. -/
theorem State.Sound.step [Machine] (h : state.Sound records) {event : Event} (hfits : event.Fits) :
    ∃ more, (state.step event).Sound more := by
  cases event with
  | record glance =>
    exact ⟨records, h.promises.record glance, h.count, h.live, h.records⟩
  | command client line =>
    cases htarget : state.journaled.node.target? (state.sessions client) line with
    | none => exact ⟨_, h.command_of_target?_eq_none htarget⟩
    | some index => exact ⟨_, h.command_of_target?_eq_some hfits htarget⟩

/-- All events of a run keep the invariant. -/
theorem State.Sound.foldl_step [Machine] {events : List Event}
    (hfits : ∀ event ∈ events, event.Fits)
    (h : state.Sound records) : ∃ more, (events.foldl State.step state).Sound more := by
  induction events generalizing state records with
  | nil => exact ⟨records, h⟩
  | cons event rest ih =>
    obtain ⟨hevent, hrest⟩ := List.forall_mem_cons.1 hfits
    obtain ⟨more, hmore⟩ := h.step hevent
    exact ih hrest hmore

/-- What a node holds when it is opened on records that lead where the executed lines did. -/
theorem Records.openAt [Machine] {history : List (Nat × CommandLine)} (h : Records history records)
    {place : Place} (hplace : JournaledNode.Holds place records) (databases : Nat)
    (policy : SyncPolicy) :
    ∃ opened, JournaledNode.openAt databases ⟨true, policy⟩ place = .ok opened ∧
      opened.Promises records ∧
      opened.node.count = (if databases = 0 then Node.usualDatabases else databases) ∧
      opened.recorder =
        some (.start (.ofContent policy (Record.encodeAll journalChecksum records))) ∧
      ∀ index < opened.node.count,
        (opened.node.keyspaceAt index).Agrees (expected history index) := by
  obtain ⟨opened, hopened, hpromises, hcount, hrecorder, hkeys⟩ :=
    JournaledNode.exists_openAt (hplace.recover h.fits) hplace.openToAppend databases policy
  refine ⟨opened, hopened, hpromises, hcount, hrecorder, fun index hindex => ?_⟩
  rw [hkeys index hindex, Database.keyspace_executeAll]
  exact h.redone index

/-- A closed run leaves records that lead where all lines executed so far did. -/
theorem exists_perform [Machine] {run : Run} (hrun : run.Fits) {history : List (Nat × CommandLine)}
    (h : Records history records) {place : Place} (hplace : JournaledNode.Holds place records) :
    ∃ after history' more, run.perform (place, history) = .ok (after, history') ∧
      Records history' more ∧ JournaledNode.Holds after more := by
  obtain ⟨opened, hopened, hpromises, hcount, -, hlive⟩ :=
    h.openAt hplace run.databases run.policy
  have hsound : State.Sound ⟨opened, fun _ => .start, history⟩ records := by
    refine ⟨hpromises, ?_, hlive, h⟩
    show opened.node.count ≤ _
    rw [hcount]
    split
    · decide
    · exact Nat.le_of_lt hrun.databases
  obtain ⟨more, hmore⟩ := hsound.foldl_step hrun.events
  refine ⟨.file (Record.encodeAll journalChecksum more), _, more, ?_, hmore.records, .file more⟩
  rw [perform, begin, hopened]
  exact congrArg (fun after => Except.ok (after, _))
    (hmore.promises.place_closeAfter run.closing place)

/-- Any runs can be performed one after the other. -/
theorem exists_performAll [Machine] {runs : List Run} (hruns : ∀ run ∈ runs, run.Fits) :
    ∃ place history records, performAll runs = .ok (place, history) ∧
      Records history records ∧ JournaledNode.Holds place records := by
  suffices hfrom : ∀ (place : Place) (history : List (Nat × CommandLine)) (records : List Record),
      Records history records → JournaledNode.Holds place records →
      ∃ after history' more, runs.foldlM perform (place, history) = .ok (after, history') ∧
        Records history' more ∧ JournaledNode.Holds after more from
    hfrom .vacant [] [] .nil .vacant
  induction runs with
  | nil => exact fun place history records h hplace => ⟨place, history, records, rfl, h, hplace⟩
  | cons run rest ih =>
    intro place history records h hplace
    obtain ⟨hrun, hrest⟩ := List.forall_mem_cons.1 hruns
    obtain ⟨after, history', more, hperform, hrecords, hafter⟩ := exists_perform hrun h hplace
    obtain ⟨last, history'', all, hrestOk, hlast⟩ := ih hrest after history' more hrecords hafter
    refine ⟨last, history'', all, ?_, hlast⟩
    rw [List.foldlM_cons, hperform]
    exact hrestOk

/-- A node that is opened after any runs on one file holds in every database exactly what that
database would hold after all lines that it executed during those runs, in order. Opening the node
leaves the file as it was. -/
theorem openAt_performAll [Machine] (runs : List Run) (hruns : ∀ run ∈ runs, run.Fits)
    (databases : Nat) (policy : SyncPolicy) :
    ∃ place history opened content,
      performAll runs = .ok (place, history) ∧
      JournaledNode.openAt databases ⟨true, policy⟩ place = .ok opened ∧
      opened.node.count = (if databases = 0 then Node.usualDatabases else databases) ∧
      (∀ index < opened.node.count, ∀ key, (opened.node.keyspaceAt index).get? key =
        (Database.executeAll index (linesFor index history)).keyspace.get? key) ∧
      place.openToAppend = .ok content ∧
      opened.recorder = some (.start (.ofContent policy content)) := by
  obtain ⟨place, history, records, hperform, hrecords, hplace⟩ := exists_performAll hruns
  obtain ⟨opened, hopened, -, hcount, hrecorder, hlive⟩ := hrecords.openAt hplace databases policy
  refine ⟨place, history, opened, _, hperform, hopened, hcount, fun index hindex key => ?_,
    hplace.openToAppend, hrecorder⟩
  rw [Database.keyspace_executeAll]
  exact hlive index hindex key

/-- Two runs. The first stores a key in the second of its databases and then one in the first. The
next has one database only, in which it renames the key onto itself. -/
def renamingRuns : List Run :=
  let line := List.map Text.toBytes
  [⟨2, .always, [.command 0 (line ["SELECT", "1"]), .command 0 (line ["SET", "k", "v"]),
      .record .prompt, .command 1 (line ["SETNX", "a", "b"])], []⟩,
    ⟨1, .no, [.command 0 (line ["RENAME", "a", "a"])], [.prompt]⟩]

/-- A key of a database that the run in between did not have is still there. -/
theorem openAt_performAll_renamingRuns :
    (∀ run ∈ renamingRuns, run.Fits) ∧
    ∃ place history opened,
      performAll renamingRuns = .ok (place, history) ∧
      JournaledNode.openAt 2 ⟨true, .everySecond⟩ place = .ok opened ∧
      (opened.node.keyspaceAt 1).get? (Text.toBytes "k") = some ⟨Text.toBytes "v"⟩ ∧
      (opened.node.keyspaceAt 0).get? (Text.toBytes "a") = some ⟨Text.toBytes "b"⟩ := by
  have hfits : ∀ run ∈ renamingRuns, run.Fits := by decide +kernel
  have hhistory : (performAll renamingRuns).toOption.map Prod.snd =
      some [(1, ["SET", "k", "v"].map Text.toBytes), (0, ["SETNX", "a", "b"].map Text.toBytes),
        (0, ["RENAME", "a", "a"].map Text.toBytes)] := by decide +kernel
  obtain ⟨place, history, opened, _, hperform, hopened, hcount, hkeys, -, -⟩ :=
    openAt_performAll renamingRuns hfits 2 .everySecond
  rw [if_neg (by decide)] at hcount
  refine ⟨hfits, place, history, opened, hperform, hopened, ?_⟩
  rw [hperform] at hhistory
  obtain rfl := Option.some.inj hhistory
  rw [hkeys 1 (by omega), hkeys 0 (by omega)]
  decide +kernel

end Run

end RingStore
