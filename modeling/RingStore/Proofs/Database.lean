import RingStore.Proofs.Command.Errors

/-!
# What a database hands to its journal

A database that is joined to a journal hands over at most one command line for each that it
executes, under its own number. The line handed over stands for the executed one: executed in its
place it does the same and is handed over again. Nothing is handed over for exactly those lines
that are answered by an error, only read, remove keys of which none occurs, or are to store under a
key only if it does not occur, although it does. None of these changes anything.

## Main definitions

* `Command.Idle`: a command finds nothing to do.
* `Catalogue.writings`: the commands that may change something.
* `Database.Unrecorded`: the command lines for which nothing is handed over.

## Main results

* `Catalogue.logsCall_of_mem_writings`: a command that may change something logs a call of one that
  does the same.
* `Catalogue.logged_eq_nil_iff`: when a command logs nothing.
* `Keyspace.logged_cases`: what is logged for a command line.
* `Database.recording_exact`: what is handed over, and what it leads to.
-/

namespace RingStore

/-- A command that is run with arguments finds nothing to do. -/
inductive Command.Idle (command : Command) (keyspace : Keyspace)
    (arguments : List Bytes) : Prop where
  /-- It only reads. -/
  | reads (hreads : command.isWrite = false)
  /-- It removes keys, but none of them occurs. -/
  | removesNone (hcommand : command = Catalogue.del)
      (hnone : ∀ key ∈ arguments, keyspace.get? key = none)
  /-- It is to store under a key only if that does not occur, and answers that nothing was done. -/
  | keeps (hcommand : command = Catalogue.setNx ∨ command = Catalogue.renameNx)
      (hzero : (command.run keyspace arguments).outcome = .reply (.count 0))

namespace Catalogue

/-- The commands that may change something. -/
def writings : List Command :=
  [flushDb, del, rename, renameNx, set, setNx, getSet]

/-- The marks of the commands tell those that only read from the others. -/
theorem mem_reads_or_mem_writings [Machine] : ∀ command ∈ all,
    command ∈ reads ∧ command.isWrite = false ∨ command ∈ writings ∧ command.isWrite = true := by
  simp only [all, List.forall_mem_cons]
  simp [reads, writings, ping, flushDb, dbSize, del, existsKeys, type, rename, renameNx, keys,
    randomKey, set, setNx, get, getSet, strLen]

/-- A command that may change something logs a call of one that does the same. -/
theorem logsCall_of_mem_writings [Machine] : ∀ command ∈ writings,
    ∃ name redoer, command.LogsCall name redoer := by
  simp only [writings, List.forall_mem_cons]
  exact ⟨⟨_, _, logsCall_flushDb⟩, ⟨_, _, logsCall_del⟩, ⟨_, _, logsCall_rename⟩,
    ⟨_, _, logsCall_renameNx⟩, ⟨_, _, logsCall_set⟩, ⟨_, _, logsCall_setNx⟩,
    ⟨_, _, logsCall_getSet⟩, by simp⟩

section Unlogged

variable {keyspace : Keyspace} {arguments : List Bytes}

/-- A removal logs nothing exactly if there is nothing to be removed. -/
theorem logged_del_eq_nil_iff : (del.run keyspace arguments).logged = [] ↔
    ∀ key ∈ arguments, keyspace.get? key = none := by
  rw [← Keyspace.eraseAll_fst_eq_zero_iff]
  simp [del, Nat.pos_iff_ne_zero]

/-- Where nothing keeps a command from storing, it logs nothing only if it is refused. -/
theorem isError_of_logged_eq_nil {command : Command}
    (hcommand : command = rename ∨ command = set ∨ command = getSet)
    (h : (command.run keyspace arguments).logged = []) :
    (command.run keyspace arguments).outcome.toReply.isError = true := by
  match arguments with
  | [] | [_] => rcases hcommand with rfl | rfl | rfl <;> rfl
  | source :: target :: _ =>
    rcases hcommand with rfl | rfl | rfl
    · simp only [rename] at h ⊢
      split at h
      · rfl
      · cases h
    · cases h
    · cases h

/-- To store under a key only if it does not occur logs nothing exactly if that is refused, or the
key occurs. -/
theorem logged_eq_nil_iff_of_guarded {command : Command}
    (hcommand : command = setNx ∨ command = renameNx) :
    (command.run keyspace arguments).logged = [] ↔
      (command.run keyspace arguments).outcome.toReply.isError = true ∨
        (command.run keyspace arguments).outcome = .reply (.count 0) := by
  -- to answer that a key was stored is neither
  have hdone : ¬((Outcome.reply (.count 1)).toReply.isError = true ∨
      Outcome.reply (.count 1) = .reply (.count 0)) := by
    simp [Outcome.toReply, Value.count, Value.isError]
  match arguments with
  | [] | [_] => rcases hcommand with rfl | rfl <;> exact iff_of_true rfl (.inl rfl)
  | source :: target :: _ =>
    rcases hcommand with rfl | rfl
    · simp only [setNx]
      split
      · exact iff_of_false (List.cons_ne_nil _ _) hdone
      · exact iff_of_true rfl (.inr rfl)
    · simp only [renameNx]
      split
      · exact iff_of_true rfl (.inl rfl)
      · split
        · exact iff_of_true rfl (.inr rfl)
        · exact iff_of_false (List.cons_ne_nil _ _) hdone

/-- Given as many arguments as it takes, a command that answers an error logs nothing. -/
theorem logged_of_isError [Machine] {command : Command} (hmem : command ∈ all)
    (harity : command.arity.allows arguments.length = true)
    (herror : (command.run keyspace arguments).outcome.toReply.isError = true) :
    (command.run keyspace arguments).logged = [] := by
  obtain ⟨hrenames, source, target, rfl, hmissing⟩ := exists_missing_of_isError hmem harity herror
  rw [run_of_mem_renamings hrenames hmissing]
  rfl

/-- A command of the catalogue that is given as many arguments as it takes logs nothing exactly if
it answers an error or finds nothing to do. -/
theorem logged_eq_nil_iff [Machine] {command : Command} (hmem : command ∈ all)
    (harity : command.arity.allows arguments.length = true) :
    (command.run keyspace arguments).logged = [] ↔
      (command.run keyspace arguments).outcome.toReply.isError = true ∨
        command.Idle keyspace arguments := by
  constructor
  · intro h
    rcases mem_reads_or_mem_writings command hmem with ⟨-, hreads⟩ | ⟨hwrites, -⟩
    · exact .inr (.reads hreads)
    simp only [writings, List.mem_cons, List.not_mem_nil, or_false] at hwrites
    -- of those that write, one always logs, three log unless they refuse, three look first
    rcases hwrites with rfl | rfl | rfl | rfl | rfl | rfl | rfl
    · exact (List.cons_ne_nil _ _ h).elim
    · exact .inr (.removesNone rfl (logged_del_eq_nil_iff.1 h))
    · exact .inl (isError_of_logged_eq_nil (.inl rfl) h)
    · exact ((logged_eq_nil_iff_of_guarded (.inr rfl)).1 h).imp_right (.keeps (.inr rfl))
    · exact .inl (isError_of_logged_eq_nil (.inr (.inl rfl)) h)
    · exact ((logged_eq_nil_iff_of_guarded (.inl rfl)).1 h).imp_right (.keeps (.inl rfl))
    · exact .inl (isError_of_logged_eq_nil (.inr (.inr rfl)) h)
  · rintro (herror | hreads | ⟨rfl, hnone⟩ | ⟨hcommand, hzero⟩)
    · exact logged_of_isError hmem harity herror
    · rcases mem_reads_or_mem_writings command hmem with ⟨hmem, -⟩ | ⟨-, hwrites⟩
      · exact (run_of_mem_reads hmem _ _).2
      · rw [hreads] at hwrites
        cases hwrites
    · exact logged_del_eq_nil_iff.2 hnone
    · exact (logged_eq_nil_iff_of_guarded hcommand).2 (.inr hzero)

end Unlogged

end Catalogue

namespace Keyspace

/-- A command line logs nothing and leaves the map as it is, or it logs one line, which leads to the
same and logs itself. -/
theorem logged_cases [Machine] (keyspace : Keyspace) (line : CommandLine) :
    keyspace.logged line = [] ∧ (keyspace.after line).Agrees keyspace ∨
      ∃ record, keyspace.logged line = [record] ∧
        keyspace.after record = keyspace.after line ∧ keyspace.logged record = [record] := by
  cases hresolve : Catalogue.registry.resolve line with
  | error refusal =>
    simp only [logged, after, hresolve]
    exact .inl ⟨trivial, .refl _⟩
  | ok run =>
    obtain ⟨command, arguments⟩ := run
    obtain ⟨_, -, hfind, harity⟩ := Registry.resolve_eq_ok_iff.1 hresolve
    simp only [logged, after, hresolve]
    rcases Catalogue.mem_reads_or_mem_writings command (Catalogue.mem_all_of_find? hfind) with
      ⟨hreads, -⟩ | ⟨hwrites, -⟩
    · obtain ⟨hkeyspace, hlogged⟩ := Catalogue.run_of_mem_reads hreads keyspace arguments
      rw [hkeyspace, hlogged]
      exact .inl ⟨rfl, .refl _⟩
    · obtain ⟨name, redoer, hcall⟩ := Catalogue.logsCall_of_mem_writings command hwrites
      refine (hcall.effect keyspace arguments).imp id ?_
      rintro ⟨hlogged, hkeyspace, hagain⟩
      -- the logged call has the arguments of the line, and so it is not refused for their number
      have hredo : Catalogue.registry.resolve (Catalogue.call name arguments) =
          .ok (redoer, arguments) := Catalogue.resolve_call hcall.find (hcall.arity ▸ harity)
      refine ⟨Catalogue.call name arguments, hlogged, ?_, ?_⟩
      · simp only [hredo, hkeyspace]
      · simp only [hredo, hagain, hlogged]

end Keyspace

namespace Database

/-- The command lines for which a database hands nothing to its journal. -/
inductive Unrecorded [Machine] (database : Database) (line : CommandLine) : Prop where
  /-- The line is answered by an error. -/
  | error (herror : (database.exec Catalogue.registry line).outcome.toReply.isError = true)
  /-- It runs a command that finds nothing to do. -/
  | idle {command : Command} {arguments : List Bytes}
      (hresolve : Catalogue.registry.resolve line = .ok (command, arguments))
      (hidle : command.Idle database.keyspace arguments)

variable {database : Database} {line : CommandLine}

/-- Nothing is handed over exactly for the lines that are `Unrecorded`. -/
theorem writes_eq_nil_iff [Machine] (hjournaled : database.journaled = true) :
    (database.exec Catalogue.registry line).writes = [] ↔ database.Unrecorded line := by
  rw [writes_exec hjournaled, List.map_eq_nil_iff]
  cases hresolve : Catalogue.registry.resolve line with
  | error refusal =>
    -- a line that runs no command is refused, which is an error
    have herror : (database.exec Catalogue.registry line).outcome.toReply.isError = true := by
      rw [exec_eq, hresolve]
      rfl
    exact iff_of_true (by rw [Keyspace.logged, hresolve]) (.error herror)
  | ok run =>
    obtain ⟨command, arguments⟩ := run
    obtain ⟨_, -, hfind, harity⟩ := Registry.resolve_eq_ok_iff.1 hresolve
    have hlogged : database.keyspace.logged line =
        (command.run database.keyspace arguments).logged := by rw [Keyspace.logged, hresolve]
    have houtcome : (database.exec Catalogue.registry line).outcome =
        (command.run database.keyspace arguments).outcome := by
      rw [exec_eq, hresolve]
      rfl
    rw [hlogged, Catalogue.logged_eq_nil_iff (Catalogue.mem_all_of_find? hfind) harity, ← houtcome]
    constructor
    · exact fun h => h.elim .error (.idle hresolve)
    · rintro (herror | ⟨hother, hidle⟩)
      · exact .inl herror
      · rw [hresolve] at hother
        cases hother
        exact .inr hidle

/-- A journaled database hands over at most one line for each that it executes, under its own
number, and exactly one if what is stored changes. Executed in place of the line, the one handed
over leads to the same database and is handed over again. Nothing is handed over for exactly the
lines that are `Unrecorded`. -/
theorem recording_exact [Machine] (hjournaled : database.journaled = true) (line : CommandLine) :
    let execution := database.exec Catalogue.registry line
    execution.writes.length ≤ 1 ∧
    ((∃ key, execution.database.keyspace.get? key ≠ database.keyspace.get? key) →
      execution.writes.length = 1) ∧
    (∀ write ∈ execution.writes, write.database = database.index ∧
      (database.exec Catalogue.registry write.line).database = execution.database ∧
      (database.exec Catalogue.registry write.line).writes = [write]) ∧
    (execution.writes = [] ↔ database.Unrecorded line) := by
  intro execution
  have hwrites : execution.writes =
      (database.keyspace.logged line).map (Write.mk database.index) := writes_exec hjournaled line
  -- what is handed over is what the line logs, with the number of the database put to it
  rcases database.keyspace.logged_cases line with ⟨hnone, hsame⟩ | ⟨record, hone, hafter, hagain⟩
  · rw [hnone, List.map_nil] at hwrites
    refine ⟨by simp [hwrites], ?_, by simp [hwrites], writes_eq_nil_iff hjournaled⟩
    rintro ⟨key, hchanged⟩
    rw [database_exec] at hchanged
    exact absurd (hsame key) hchanged
  · rw [hone, List.map_singleton] at hwrites
    refine ⟨by simp [hwrites], fun _ => by simp [hwrites], ?_, writes_eq_nil_iff hjournaled⟩
    intro write hwrite
    obtain rfl : write = ⟨database.index, record⟩ := by simpa [hwrites] using hwrite
    refine ⟨rfl, ?_, ?_⟩
    · rw [database_exec, hafter]
      exact (database_exec database line).symm
    · rw [writes_exec hjournaled, hagain, List.map_singleton]

/-- A database where something is stored under `k`. -/
def keptBefore : Database :=
  ⟨3, ((Keyspace.empty 4).put (Text.toBytes "k") ⟨Text.toBytes "old"⟩).2, true⟩

theorem recording_exact_of_exchange : keptBefore.journaled = true ∧
    let exchange := Catalogue.call "GetSet" [Text.toBytes "k", Text.toBytes "new"]
    let store := Catalogue.call "set" [Text.toBytes "k", Text.toBytes "new"]
    (keptBefore.exec Catalogue.registry exchange).writes = [⟨3, store⟩] ∧
      (keptBefore.exec Catalogue.registry store).database =
        (keptBefore.exec Catalogue.registry exchange).database ∧
      (keptBefore.exec Catalogue.registry store).writes = [⟨3, store⟩] := by
  have hjournaled : keptBefore.journaled = true := rfl
  refine ⟨hjournaled, ?_⟩
  intro exchange store
  have hwrites : (keptBefore.exec Catalogue.registry exchange).writes = [⟨3, store⟩] := by
    decide +kernel
  have ⟨_, _, hredo, _⟩ := recording_exact hjournaled exchange
  have hmem : ⟨3, store⟩ ∈ (keptBefore.exec Catalogue.registry exchange).writes := by
    rw [hwrites]
    exact List.mem_singleton_self _
  have ⟨_, hdatabase, hagain⟩ := hredo ⟨3, store⟩ hmem
  exact ⟨hwrites, hdatabase, hagain⟩

end Database

end RingStore
