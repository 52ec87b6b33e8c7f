import RingStore.Proofs.Command.Lookup
import RingStore.Proofs.Keyspace.KeySet

/-!
# Redoing what was logged

A database hands a command line to the journal for every change. Here the commands of the catalogue
are shown to log lines that *redo* the change: executed on a keyspace that agrees with the one
before the command, they lead to a keyspace that agrees with the one after it. A command that logs
nothing has changed nothing.

## Main definitions

* `Registry.resolve`: the command that a line runs with its arguments, or why it is refused.
* `Keyspace.after`: the keyspace after a command line was executed on it.
* `Keyspace.logged`: the lines logged by a command line.
* `Command.LogsCall`: a command logs a call of one that does the same, or nothing.

## Main results

* `Agrees.after`: a command line takes agreeing keyspaces to agreeing ones.
* `foldl_after_logged`: the logged lines redo the change.
* `exists_call_of_mem_logged`: a logged line carries the arguments of the executed one.
-/

namespace RingStore

namespace Registry

/-- The command that a command line runs, with its arguments, or why the line is refused. -/
def resolve (registry : Registry) : CommandLine → Except Refusal (Command × List Bytes)
  | [] => .error .emptyCommand
  | name :: arguments =>
    let small := Text.lowercase (Text.ofBytes name)
    match registry.find? small with
    | none => .error (.unknownCommand small)
    | some command =>
      if command.arity.allows arguments.length then .ok (command, arguments)
      else .error (.wrongArity small)

/-- A line that runs a command carries its arguments, and as many as the command takes. -/
theorem resolve_eq_ok_iff {registry : Registry} {line : CommandLine} {command : Command}
    {arguments : List Bytes} :
    registry.resolve line = .ok (command, arguments) ↔
      ∃ name, line = name :: arguments ∧
        registry.find? (Text.lowercase (Text.ofBytes name)) = some command ∧
        command.arity.allows arguments.length := by
  cases line with
  | nil => simp [resolve]
  | cons name given =>
    cases hfind : registry.find? (Text.lowercase (Text.ofBytes name)) with
    | none => simp [resolve, hfind]
    | some found =>
      by_cases harity : found.arity.allows given.length
      · simp only [resolve, hfind, harity, if_true, Except.ok.injEq, Prod.mk.injEq]
        constructor
        · rintro ⟨rfl, rfl⟩
          exact ⟨name, rfl, hfind, harity⟩
        · rintro ⟨_, hline, hother, _⟩
          cases hline
          rw [hfind] at hother
          exact ⟨Option.some.inj hother, rfl⟩
      · simp only [resolve, hfind, harity]
        constructor
        · intro h
          cases h
        · rintro ⟨_, hline, hother, hallows⟩
          cases hline
          rw [hfind] at hother
          exact absurd (Option.some.inj hother ▸ hallows) harity

end Registry

/-- A database runs the command that a line resolves to, or refuses the line. -/
theorem Database.exec_eq (registry : Registry) (database : Database) (line : CommandLine) :
    database.exec registry line =
      match registry.resolve line with
      | .ok (command, arguments) => database.run command arguments
      | .error refusal => database.refuse refusal := by
  cases line with
  | nil => rfl
  | cons name arguments =>
    simp only [exec, Registry.resolve]
    cases registry.find? (Text.lowercase (Text.ofBytes name)) with
    | none => rfl
    | some command =>
      by_cases harity : command.arity.allows arguments.length <;> simp [harity]

namespace Catalogue

/-- The names under which changes are logged. -/
def loggedNames : List String :=
  ["flushdb", "del", "rename", "renamenx", "set", "setnx"]

theorem find?_of_mem_loggedNames [Machine] {name : String} (h : name ∈ loggedNames) :
    registry.find? (Text.lowercase name) = table.lookup name := by
  have hsubset : loggedNames ⊆ smallNames := by decide
  rw [lowercase_of_mem_smallNames name (hsubset h), find?_of_mem_smallNames (hsubset h)]

end Catalogue

namespace Keyspace

/-- The keyspace after a command line of the catalogue was executed on it. -/
def after [Machine] (keyspace : Keyspace) (line : CommandLine) : Keyspace :=
  match Catalogue.registry.resolve line with
  | .ok (command, arguments) => (command.run keyspace arguments).keyspace
  | .error _ => keyspace

/-- The command lines logged when a command line of the catalogue is executed. -/
def logged [Machine] (keyspace : Keyspace) (line : CommandLine) : List CommandLine :=
  match Catalogue.registry.resolve line with
  | .ok (command, arguments) => (command.run keyspace arguments).logged
  | .error _ => []

end Keyspace

/-- Calling a command by a name that resolves to it runs the command. -/
theorem Catalogue.resolve_call [Machine] {name : String} {command : Command}
    {arguments : List Bytes} (hfind : registry.find? (Text.lowercase name) = some command)
    (harity : command.arity.allows arguments.length) :
    registry.resolve (call name arguments) = .ok (command, arguments) :=
  Registry.resolve_eq_ok_iff.2 ⟨_, rfl, by rw [Text.ofBytes_toBytes, hfind], harity⟩

/-- A command logs nothing where it changes nothing. Otherwise it logs one line, which calls a
command, perhaps itself, that does the same and logs the same line. -/
structure Command.LogsCall [Machine] (command : Command) (name : String) (redoer : Command) :
    Prop where
  /-- The name is one under which changes are logged. -/
  mem : name ∈ Catalogue.loggedNames
  /-- It is that of the command that is called. -/
  find : Catalogue.registry.find? (Text.lowercase name) = some redoer
  /-- The command that is called takes as many arguments. -/
  arity : redoer.arity = command.arity
  /-- What the command does and logs. -/
  effect : ∀ (keyspace : Keyspace) (arguments : List Bytes),
    (command.run keyspace arguments).logged = [] ∧
        (command.run keyspace arguments).keyspace.Agrees keyspace ∨
      (command.run keyspace arguments).logged = [Catalogue.call name arguments] ∧
        (redoer.run keyspace arguments).keyspace = (command.run keyspace arguments).keyspace ∧
        (redoer.run keyspace arguments).logged = (command.run keyspace arguments).logged

/-- A command that logs itself. -/
theorem Command.LogsCall.of_self [Machine] {command : Command} {name : String}
    (hmem : name ∈ Catalogue.loggedNames)
    (hfind : Catalogue.table.lookup name = some command)
    (heffect : ∀ (keyspace : Keyspace) (arguments : List Bytes),
      (command.run keyspace arguments).logged = [] ∧
          (command.run keyspace arguments).keyspace.Agrees keyspace ∨
        (command.run keyspace arguments).logged = [Catalogue.call name arguments]) :
    command.LogsCall name command where
  mem := hmem
  find := (Catalogue.find?_of_mem_loggedNames hmem).trans hfind
  arity := rfl
  effect keyspace arguments :=
    (heffect keyspace arguments).imp_right fun hlogged => ⟨hlogged, rfl, rfl⟩

/-- What a command must satisfy for its changes to be recovered from what it logged. -/
structure Command.Redoable [Machine] (command : Command) : Prop where
  /-- The command sees of a keyspace only the map that it holds. -/
  agrees : ∀ {left right : Keyspace} (arguments : List Bytes), left.Agrees right →
    (command.run left arguments).keyspace.Agrees (command.run right arguments).keyspace
  /-- It logs its own arguments under a name of the catalogue. -/
  calls : ∀ (keyspace : Keyspace) (arguments : List Bytes),
    ∀ line ∈ (command.run keyspace arguments).logged,
      ∃ name ∈ Catalogue.loggedNames, line = Catalogue.call name arguments
  /-- What it logged leads to the same map. -/
  redoes : ∀ (keyspace : Keyspace) (arguments : List Bytes),
    command.arity.allows arguments.length →
    ((command.run keyspace arguments).logged.foldl Keyspace.after keyspace).Agrees
      (command.run keyspace arguments).keyspace

namespace Catalogue

/-- A command that changes nothing and logs nothing has nothing to be redone. -/
theorem redoable_of_pure [Machine] {command : Command}
    (h : ∀ keyspace arguments, (command.run keyspace arguments).keyspace = keyspace ∧
      (command.run keyspace arguments).logged = []) : command.Redoable where
  agrees arguments hagree := by
    rw [(h _ arguments).1, (h _ arguments).1]
    exact hagree
  calls keyspace arguments line hline := by
    rw [(h keyspace arguments).2] at hline
    cases hline
  redoes keyspace arguments _ := by
    rw [(h keyspace arguments).1, (h keyspace arguments).2]
    exact .refl keyspace

theorem logsCall_flushDb [Machine] : flushDb.LogsCall "flushdb" flushDb :=
  .of_self (by decide) rfl fun _ _ => .inr rfl

theorem logsCall_del [Machine] : del.LogsCall "del" del := by
  refine .of_self (by decide) rfl fun keyspace arguments => ?_
  simp only [del]
  split
  · exact .inr rfl
  · next hcount =>
    exact .inl ⟨rfl, Keyspace.eraseAll_agrees_of_count_eq_zero (Nat.eq_zero_of_not_pos hcount)⟩

theorem logsCall_rename [Machine] : rename.LogsCall "rename" rename := by
  refine .of_self (by decide) rfl fun keyspace arguments => ?_
  match arguments with
  | [] | [_] => exact .inl ⟨rfl, .refl _⟩
  | source :: target :: _ =>
    simp only [rename]
    split
    · exact .inl ⟨rfl, .refl _⟩
    · exact .inr rfl

theorem logsCall_renameNx [Machine] : renameNx.LogsCall "renamenx" renameNx := by
  refine .of_self (by decide) rfl fun keyspace arguments => ?_
  match arguments with
  | [] | [_] => exact .inl ⟨rfl, .refl _⟩
  | source :: target :: _ =>
    simp only [renameNx]
    split
    · exact .inl ⟨rfl, .refl _⟩
    · split
      · exact .inl ⟨rfl, .refl _⟩
      · exact .inr rfl

theorem logsCall_set [Machine] : set.LogsCall "set" set := by
  refine .of_self (by decide) rfl fun keyspace arguments => ?_
  match arguments with
  | [] | [_] => exact .inl ⟨rfl, .refl _⟩
  | _ :: _ :: _ => exact .inr rfl

theorem logsCall_setNx [Machine] : setNx.LogsCall "setnx" setNx := by
  refine .of_self (by decide) rfl fun keyspace arguments => ?_
  match arguments with
  | [] | [_] => exact .inl ⟨rfl, .refl _⟩
  | _ :: _ :: _ =>
    simp only [setNx]
    split
    · exact .inr rfl
    · exact .inl ⟨rfl, .refl _⟩

/-- An exchange of values is logged as storing the new one. -/
theorem logsCall_getSet [Machine] : getSet.LogsCall "set" set where
  mem := by decide
  find := find?_of_mem_loggedNames (by decide)
  arity := rfl
  effect keyspace arguments := by
    match arguments with
    | [] | [_] => exact .inl ⟨rfl, .refl _⟩
    | _ :: _ :: _ => exact .inr ⟨rfl, rfl, rfl⟩

/-- A command that logs a call of one that does the same can be redone. -/
theorem redoable_of_logsCall [Machine] {command : Command} {name : String} {redoer : Command}
    (h : command.LogsCall name redoer)
    (hagrees : ∀ {left right : Keyspace} (arguments : List Bytes), left.Agrees right →
      (command.run left arguments).keyspace.Agrees (command.run right arguments).keyspace) :
    command.Redoable where
  agrees := hagrees
  calls keyspace arguments line hline := by
    rcases h.effect keyspace arguments with ⟨hlogged, _⟩ | ⟨hlogged, _⟩
    · rw [hlogged] at hline
      cases hline
    · rw [hlogged, List.mem_singleton] at hline
      exact ⟨name, h.mem, hline⟩
  redoes keyspace arguments hallows := by
    rcases h.effect keyspace arguments with ⟨hlogged, hkeyspace⟩ | ⟨hlogged, hkeyspace, _⟩
    · rw [hlogged]
      exact hkeyspace.symm
    · have hresolve : registry.resolve (call name arguments) = .ok (redoer, arguments) :=
        resolve_call h.find (h.arity ▸ hallows)
      rw [hlogged, List.foldl_cons, List.foldl_nil, ← hkeyspace]
      simp only [Keyspace.after, hresolve]
      exact .refl _

theorem redoable_flushDb [Machine] : flushDb.Redoable :=
  redoable_of_logsCall logsCall_flushDb fun _ _ => .clear _ _

theorem redoable_del [Machine] : del.Redoable :=
  redoable_of_logsCall logsCall_del fun arguments hagree => hagree.eraseAll arguments

theorem redoable_rename [Machine] : rename.Redoable := by
  refine redoable_of_logsCall logsCall_rename ?_
  intro left right arguments hagree
  match arguments with
  | [] | [_] => exact hagree
  | source :: target :: _ =>
    simp only [rename, hagree source]
    split
    · exact hagree
    · next entity _ =>
      have hstored := hagree.put target entity
      by_cases hsame : source = target
      · simpa only [hsame, if_true] using hstored
      · simpa only [hsame, if_false] using hstored.erase source

theorem redoable_renameNx [Machine] : renameNx.Redoable := by
  refine redoable_of_logsCall logsCall_renameNx ?_
  intro left right arguments hagree
  match arguments with
  | [] | [_] => exact hagree
  | source :: target :: _ =>
    simp only [renameNx, hagree source]
    split
    · exact hagree
    · next entity _ =>
      have hsame := hagree.contains target
      cases hoccurs : right.contains target with
      | true =>
        rw [hoccurs] at hsame
        simp only [Keyspace.putIfAbsent_of_contains hsame,
          Keyspace.putIfAbsent_of_contains hoccurs]
        exact hagree
      | false =>
        rw [hoccurs] at hsame
        simpa only [Keyspace.putIfAbsent_of_not_contains hsame,
          Keyspace.putIfAbsent_of_not_contains hoccurs]
          using (hagree.put target entity).erase source

theorem redoable_set [Machine] : set.Redoable := by
  refine redoable_of_logsCall logsCall_set ?_
  intro left right arguments hagree
  match arguments with
  | [] | [_] => exact hagree
  | key :: value :: _ => exact hagree.put key ⟨value⟩

theorem redoable_setNx [Machine] : setNx.Redoable := by
  refine redoable_of_logsCall logsCall_setNx ?_
  intro left right arguments hagree
  match arguments with
  | [] | [_] => exact hagree
  | key :: value :: _ =>
    have hsame := hagree.contains key
    cases hoccurs : right.contains key with
    | true =>
      rw [hoccurs] at hsame
      simp only [setNx, Keyspace.putIfAbsent_of_contains hsame,
        Keyspace.putIfAbsent_of_contains hoccurs]
      exact hagree
    | false =>
      rw [hoccurs] at hsame
      simpa only [setNx, Keyspace.putIfAbsent_of_not_contains hsame,
        Keyspace.putIfAbsent_of_not_contains hoccurs] using hagree.put key ⟨value⟩

/-- An exchange of values is redone by storing the new one. -/
theorem redoable_getSet [Machine] : getSet.Redoable := by
  refine redoable_of_logsCall logsCall_getSet ?_
  intro left right arguments hagree
  match arguments with
  | [] | [_] => exact hagree
  | key :: value :: _ => exact hagree.put key ⟨value⟩

/-- The commands that only read. -/
def reads [Machine] : List Command :=
  [ping, dbSize, existsKeys, type, keys, randomKey, get, strLen]

/-- A command that only reads changes nothing and logs nothing. -/
theorem run_of_mem_reads [Machine] {command : Command} (hmem : command ∈ reads)
    (keyspace : Keyspace) (arguments : List Bytes) :
    (command.run keyspace arguments).keyspace = keyspace ∧
      (command.run keyspace arguments).logged = [] := by
  simp only [reads, List.mem_cons, List.not_mem_nil, or_false] at hmem
  rcases hmem with rfl | rfl | rfl | rfl | rfl | rfl | rfl | rfl
  case inl | inr.inl | inr.inr.inl => exact ⟨rfl, rfl⟩
  case inr.inr.inr.inr.inr.inl =>
    simp only [randomKey]
    split <;> exact ⟨rfl, rfl⟩
  all_goals
    cases arguments <;> exact ⟨rfl, rfl⟩

theorem redoable_of_mem_reads [Machine] {command : Command} (hmem : command ∈ reads) :
    command.Redoable :=
  redoable_of_pure (run_of_mem_reads hmem)

/-- Every command of the catalogue can be redone from its log. -/
theorem redoable_of_mem_all [Machine] : ∀ command ∈ all, command.Redoable := by
  simp only [all, List.forall_mem_cons]
  have hread : ∀ command ∈ reads, command.Redoable := fun _ => redoable_of_mem_reads
  simp only [reads, List.forall_mem_cons] at hread
  obtain ⟨hping, hdbSize, hexists, htype, hkeys, hrandomKey, hget, hstrLen, -⟩ := hread
  exact ⟨hping, redoable_flushDb, hdbSize, redoable_del, hexists, htype, redoable_rename,
    redoable_renameNx, hkeys, hrandomKey, redoable_set, redoable_setNx, hget, redoable_getSet,
    hstrLen, fun _ h => nomatch h⟩

/-- A command that a line resolves to can be redone from its log. -/
theorem redoable_of_resolve [Machine] {line : CommandLine} {command : Command}
    {arguments : List Bytes}
    (h : registry.resolve line = .ok (command, arguments)) : command.Redoable := by
  obtain ⟨_, _, hfind, _⟩ := Registry.resolve_eq_ok_iff.1 h
  exact redoable_of_mem_all command (mem_all_of_find? hfind)

end Catalogue

namespace Keyspace

/-- A command line takes agreeing keyspaces to agreeing ones. -/
theorem Agrees.after [Machine] {left right : Keyspace} (h : left.Agrees right)
    (line : CommandLine) :
    (left.after line).Agrees (right.after line) := by
  cases hresolve : Catalogue.registry.resolve line with
  | error refusal => simpa only [Keyspace.after, hresolve] using h
  | ok run => simpa only [Keyspace.after, hresolve]
      using (Catalogue.redoable_of_resolve hresolve).agrees run.2 h

theorem Agrees.foldl_after [Machine] {left right : Keyspace} (h : left.Agrees right)
    (lines : List CommandLine) :
    (lines.foldl Keyspace.after left).Agrees (lines.foldl Keyspace.after right) := by
  induction lines generalizing left right with
  | nil => exact h
  | cons line rest ih => exact ih (h.after line)

/-- The logged lines redo the change. -/
theorem foldl_after_logged [Machine] (keyspace : Keyspace) (line : CommandLine) :
    ((keyspace.logged line).foldl Keyspace.after keyspace).Agrees (keyspace.after line) := by
  cases hresolve : Catalogue.registry.resolve line with
  | error refusal =>
    simp only [logged, after, hresolve]
    exact .refl keyspace
  | ok run =>
    obtain ⟨_, _, _, harity⟩ := Registry.resolve_eq_ok_iff.1 hresolve
    simp only [logged, after, hresolve]
    exact (Catalogue.redoable_of_resolve hresolve).redoes keyspace run.2 harity

/-- A logged line calls a command of the catalogue with the arguments of the executed line. -/
theorem exists_call_of_mem_logged [Machine] {keyspace : Keyspace} {line record : CommandLine}
    (h : record ∈ keyspace.logged line) :
    ∃ word, ∃ name ∈ Catalogue.loggedNames, ∃ arguments,
      line = word :: arguments ∧ record = Catalogue.call name arguments := by
  cases hresolve : Catalogue.registry.resolve line with
  | error refusal => simp [logged, hresolve] at h
  | ok run =>
    obtain ⟨word, hline, _, _⟩ := Registry.resolve_eq_ok_iff.1 hresolve
    simp only [logged, hresolve] at h
    obtain ⟨name, hname, hrecord⟩ :=
      (Catalogue.redoable_of_resolve hresolve).calls keyspace run.2 record h
    exact ⟨word, name, hname, run.2, hline, hrecord⟩

end Keyspace

namespace Database

/-- Executing a command line on a database changes its keyspace only. -/
theorem database_exec [Machine] (database : Database) (line : CommandLine) :
    (database.exec Catalogue.registry line).database =
      { database with keyspace := database.keyspace.after line } := by
  rw [exec_eq, Keyspace.after]
  cases Catalogue.registry.resolve line <;> rfl

/-- A journaled database hands over every logged line under its own number. -/
theorem writes_exec [Machine] {database : Database} (hjournaled : database.journaled = true)
    (line : CommandLine) :
    (database.exec Catalogue.registry line).writes =
      (database.keyspace.logged line).map fun logged => ⟨database.index, logged⟩ := by
  rw [exec_eq, Keyspace.logged]
  cases Catalogue.registry.resolve line with
  | error refusal => rfl
  | ok run =>
    show (run.1.run database.keyspace run.2).logged.flatMap database.record = _
    have hrecord : database.record = fun logged => [⟨database.index, logged⟩] := by
      funext logged
      rw [record, if_pos hjournaled]
    rw [hrecord, ← List.map_eq_flatMap]

end Database

end RingStore
