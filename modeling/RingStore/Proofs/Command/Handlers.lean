import RingStore.Proofs.Command.Accounting
import RingStore.Proofs.Glob.Positions

/-!
# How commands are carried out

A command is carried out by a handler, which takes its arguments out of a list by their positions,
counts in words, and scans patterns by positions. If it indexes beyond the end or counts further
than a word can, it is stopped. Here the handlers of the catalogue are written out so. Given as many
arguments as a command takes, its handler is never stopped, and does what the command does: it only
indexes arguments that the arity promises, and only adds numbers of things that are held in memory.

## Main definitions

* `Handler`, `Handler.table`: how the commands of the catalogue are carried out.
* `Handler.Fits`: words are large enough for what a handler works on.
* `Handler.Carries`: a handler is never stopped, and does what its command does.
* `Command.guarded`, `Registry.guarded`: commands as their handlers carry them out.

## Main results

* `Handler.exists_named?`: every command has a handler that carries it out.
* `Database.exec_guarded`: a database executes by handlers what it executes by commands.
-/

namespace RingStore

open Guarded

/-- How a command is carried out, where words hold numbers up to the first argument. -/
abbrev Handler :=
  Nat → Keyspace → List Bytes → Guarded Effect

namespace Handler

variable (greatest : Nat)

/-- The line that is logged for a command. Room is made for its name and the arguments. -/
def logged (name : String) (arguments : List Bytes) : Guarded CommandLine := do
  let _ ← add greatest arguments.length 1
  return Catalogue.call name arguments

/-- The number of keys, added up over the stripes. -/
def countKeys (keyspace : Keyspace) : Guarded Nat :=
  sum greatest 0 (keyspace.stripes.toList.map Table.size)

/-- Removes keys one after the other, and adds those that were there to a total. -/
def removeAll (total : Nat) (keyspace : Keyspace) : List Bytes → Guarded (Nat × Keyspace)
  | [] => .ok (total, keyspace)
  | key :: rest => do
    let next ← add greatest total (keyspace.erase key).1.toNat
    removeAll next (keyspace.erase key).2 rest

/-! ### The handlers

Each handler takes out its arguments one after the other, before it does anything else. -/

def ping : Handler := fun _ keyspace _ =>
  .ok (.answer keyspace (.simple "PONG"))

def flushDb : Handler := fun greatest keyspace arguments => do
  return ⟨keyspace.clear, [← logged greatest "flushdb" arguments], .reply .ok⟩

def dbSize : Handler := fun greatest keyspace _ => do
  return .answer keyspace (.count (← countKeys greatest keyspace))

def del : Handler := fun greatest keyspace arguments => do
  let (count, remaining) ← removeAll greatest 0 keyspace arguments
  if 0 < count then
    return ⟨remaining, [← logged greatest "del" arguments], .reply (.count count)⟩
  else return ⟨remaining, [], .reply (.count count)⟩

def existsKeys : Handler := fun greatest keyspace arguments => do
  let found := arguments.map fun key => (keyspace.contains key).toNat
  return .answer keyspace (.count (← sum greatest 0 found))

def type : Handler := fun _ keyspace arguments => do
  let key ← item arguments 0
  return .answer keyspace (.simple (((keyspace.get? key).map Entity.typeName).getD "none"))

def rename : Handler := fun greatest keyspace arguments => do
  let source ← item arguments 0
  let target ← item arguments 1
  match keyspace.get? source with
  | none => return .refuse keyspace .noSuchKey
  | some entity =>
    let stored := (keyspace.put target entity).2
    return ⟨if source = target then stored else (stored.erase source).2,
      [← logged greatest "rename" arguments], .reply .ok⟩

def renameNx : Handler := fun greatest keyspace arguments => do
  let source ← item arguments 0
  let target ← item arguments 1
  match keyspace.get? source with
  | none => return .refuse keyspace .noSuchKey
  | some entity =>
    match keyspace.putIfAbsent target entity with
    | (false, _) => return .answer keyspace (.count 0)
    | (true, stored) =>
      return ⟨(stored.erase source).2, [← logged greatest "renamenx" arguments],
        .reply (.count 1)⟩

def keys : Handler := fun greatest keyspace arguments => do
  let pattern ← item arguments 0
  let listed ← filter (Glob.scan greatest pattern) keyspace.keys
  return .answer keyspace (.array (listed.map .bulk))

/-- Room is made for all keys before one of them is chosen. -/
def randomKey [Machine] : Handler := fun greatest keyspace _ => do
  let _ ← countKeys greatest keyspace
  match keyspace.sample [Machine.draw keyspace.keys] with
  | key :: _ => return .answer keyspace (.bulk key)
  | [] => return .answer keyspace .null

def set : Handler := fun greatest keyspace arguments => do
  let key ← item arguments 0
  let value ← item arguments 1
  return ⟨(keyspace.put key ⟨value⟩).2, [← logged greatest "set" arguments], .reply .ok⟩

def setNx : Handler := fun greatest keyspace arguments => do
  let key ← item arguments 0
  let value ← item arguments 1
  match keyspace.putIfAbsent key ⟨value⟩ with
  | (true, stored) => return ⟨stored, [← logged greatest "setnx" arguments], .reply (.count 1)⟩
  | (false, _) => return .answer keyspace (.count 0)

def get : Handler := fun _ keyspace arguments => do
  let key ← item arguments 0
  return .answer keyspace (((keyspace.get? key).map fun entity => .bulk entity.data).getD .null)

def getSet : Handler := fun greatest keyspace arguments => do
  let key ← item arguments 0
  let value ← item arguments 1
  return ⟨(keyspace.put key ⟨value⟩).2, [← logged greatest "set" arguments],
    .reply (((keyspace.get? key).map fun entity => .bulk entity.data).getD .null)⟩

def strLen : Handler := fun _ keyspace arguments => do
  let key ← item arguments 0
  return .answer keyspace (.count (((keyspace.get? key).map (·.data.length)).getD 0))

/-- Words hold the number of keys and the length of each of them, and more than the number of
arguments and the length of each of those. -/
structure Fits (greatest : Nat) (keyspace : Keyspace) (arguments : List Bytes) : Prop where
  /-- There are not too many keys. -/
  size_le : keyspace.size ≤ greatest
  /-- No key is too long. -/
  key_le : ∀ key ∈ keyspace.keys, key.length ≤ greatest
  /-- There are not too many arguments. -/
  arguments_lt : arguments.length < greatest
  /-- No argument is too long. -/
  argument_lt : ∀ argument ∈ arguments, argument.length < greatest

/-- Given as many arguments as its command takes, the handler is not stopped, and does what the
command does. -/
def Carries (handler : Handler) (command : Command) : Prop :=
  ∀ {greatest keyspace arguments}, command.arity.allows arguments.length = true →
    Fits greatest keyspace arguments →
      handler greatest keyspace arguments = .ok (command.run keyspace arguments)

theorem carries_of_one {handler : Handler} {command : Command} (harity : command.arity = .exactly 1)
    (h : ∀ {greatest keyspace key}, Fits greatest keyspace [key] →
      handler greatest keyspace [key] = .ok (command.run keyspace [key])) :
    handler.Carries command := by
  intro greatest keyspace arguments hallows hfits
  rw [harity] at hallows
  match arguments with
  | [key] => exact h hfits
  | [] | _ :: _ :: _ => simp [Arity.allows] at hallows

theorem carries_of_two {handler : Handler} {command : Command} (harity : command.arity = .exactly 2)
    (h : ∀ {greatest keyspace first second}, Fits greatest keyspace [first, second] →
      handler greatest keyspace [first, second] = .ok (command.run keyspace [first, second])) :
    handler.Carries command := by
  intro greatest keyspace arguments hallows hfits
  rw [harity] at hallows
  match arguments with
  | [first, second] => exact h hfits
  | [] | [_] | _ :: _ :: _ :: _ => simp [Arity.allows] at hallows

section Counting

variable {greatest : Nat} {keyspace : Keyspace} {arguments : List Bytes}
  (hfits : Fits greatest keyspace arguments)

include hfits

theorem Fits.logged (name : String) :
    Handler.logged greatest name arguments = .ok (Catalogue.call name arguments) := by
  rw [Handler.logged, add_of_le hfits.arguments_lt]
  rfl

theorem Fits.countKeys : Handler.countKeys greatest keyspace = .ok keyspace.size := by
  -- the sum over some of the stripes is never greater than the sum over all of them
  have hsum : (keyspace.stripes.toList.map Table.size).sum = keyspace.size := by
    rw [Keyspace.size, ← Array.foldl_toList, List.sum_eq_foldl, List.foldl_map]
  have hle : 0 + (keyspace.stripes.toList.map Table.size).sum ≤ greatest := by
    rw [Nat.zero_add, hsum]
    exact hfits.size_le
  rw [Handler.countKeys, sum_of_le hle, Nat.zero_add, hsum]

end Counting

theorem removeAll_of_le {greatest total : Nat} {keyspace : Keyspace} {keys : List Bytes}
    (h : total + keys.length ≤ greatest) :
    removeAll greatest total keyspace keys =
      .ok (total + (keyspace.eraseAll keys).1, (keyspace.eraseAll keys).2) := by
  induction keys generalizing total keyspace with
  | nil => rfl
  | cons key rest ih =>
    -- each key adds one at most, so that the total stays below the number of keys given
    have hone : (keyspace.erase key).1.toNat ≤ 1 := Bool.toNat_le _
    rw [List.length_cons] at h
    rw [removeAll, add_of_le (by omega), ok_bind, ih (by omega)]
    simp only [Keyspace.eraseAll]
    rw [Nat.add_assoc, Nat.add_comm (keyspace.erase key).1.toNat]

theorem sum_contains (keyspace : Keyspace) (arguments : List Bytes) :
    (arguments.map fun key => (keyspace.contains key).toNat).sum =
      arguments.countP keyspace.contains := by
  induction arguments with
  | nil => rfl
  | cons key rest ih =>
    rw [List.map_cons, List.sum_cons, ih, List.countP_cons, Nat.add_comm]
    cases keyspace.contains key <;> rfl

theorem carries_del : del.Carries Catalogue.del := by
  intro greatest keyspace arguments _ hfits
  -- no more keys are removed than are given, also if one is given twice
  have hle : 0 + arguments.length ≤ greatest := by
    rw [Nat.zero_add]
    exact Nat.le_of_lt hfits.arguments_lt
  rw [del, removeAll_of_le hle, ok_bind, Nat.zero_add, hfits.logged]
  simp only [Catalogue.del]
  split <;> rfl

theorem carries_existsKeys : existsKeys.Carries Catalogue.existsKeys := by
  intro greatest keyspace arguments _ hfits
  have hcount := sum_contains keyspace arguments
  have hle : 0 + (arguments.map fun key => (keyspace.contains key).toNat).sum ≤ greatest := by
    rw [Nat.zero_add, hcount]
    exact Nat.le_trans List.countP_le_length (Nat.le_of_lt hfits.arguments_lt)
  rw [existsKeys, sum_of_le hle, Nat.zero_add, hcount]
  rfl

theorem carries_rename : rename.Carries Catalogue.rename := by
  refine carries_of_two rfl fun {greatest keyspace source target} hfits => ?_
  simp only [rename, item_zero, item_one, ok_bind, hfits.logged, Catalogue.rename]
  cases keyspace.get? source <;> rfl

theorem carries_renameNx : renameNx.Carries Catalogue.renameNx := by
  refine carries_of_two rfl fun {greatest keyspace source target} hfits => ?_
  simp only [renameNx, item_zero, item_one, ok_bind, hfits.logged, Catalogue.renameNx]
  cases keyspace.get? source with
  | none => rfl
  | some entity =>
    dsimp only
    rcases keyspace.putIfAbsent target entity with ⟨_ | _, stored⟩ <;> rfl

theorem carries_setNx : setNx.Carries Catalogue.setNx := by
  refine carries_of_two rfl fun {greatest keyspace key value} hfits => ?_
  simp only [setNx, item_zero, item_one, ok_bind, hfits.logged, Catalogue.setNx]
  rcases keyspace.putIfAbsent key ⟨value⟩ with ⟨_ | _, stored⟩ <;> rfl

theorem carries_keys : keys.Carries Catalogue.keys := by
  refine carries_of_one rfl fun {greatest keyspace pattern} hfits => ?_
  -- every key is scanned, and no scan goes wrong
  have hfilter : filter (Glob.scan greatest pattern) keyspace.keys =
      .ok (keyspace.keys.filter (Glob.covers pattern)) :=
    filter_of_forall fun key hkey =>
      Glob.scan_eq (hfits.argument_lt pattern List.mem_cons_self) (hfits.key_le key hkey)
  rw [keys, item_zero, ok_bind, hfilter]
  rfl

theorem carries_randomKey [Machine] : randomKey.Carries Catalogue.randomKey := by
  intro greatest keyspace arguments _ hfits
  rw [randomKey, hfits.countKeys, ok_bind]
  simp only [Catalogue.randomKey]
  cases keyspace.sample [Machine.draw keyspace.keys] <;> rfl

theorem carries_dbSize : dbSize.Carries Catalogue.dbSize := by
  intro greatest keyspace arguments _ hfits
  rw [dbSize, hfits.countKeys]
  rfl

theorem carries_flushDb : flushDb.Carries Catalogue.flushDb := by
  intro greatest keyspace arguments _ hfits
  rw [flushDb, hfits.logged]
  rfl

theorem carries_set : set.Carries Catalogue.set := by
  refine carries_of_two rfl fun {greatest keyspace key value} hfits => ?_
  rw [set, item_zero, ok_bind, item_one, ok_bind, hfits.logged]
  rfl

theorem carries_getSet : getSet.Carries Catalogue.getSet := by
  refine carries_of_two rfl fun {greatest keyspace key value} hfits => ?_
  rw [getSet, item_zero, ok_bind, item_one, ok_bind, hfits.logged]
  rfl

/-- The commands of the catalogue with their handlers. -/
def table [Machine] : List (Command × Handler) :=
  [(Catalogue.ping, ping), (Catalogue.flushDb, flushDb), (Catalogue.dbSize, dbSize),
    (Catalogue.del, del), (Catalogue.existsKeys, existsKeys), (Catalogue.type, type),
    (Catalogue.rename, rename), (Catalogue.renameNx, renameNx), (Catalogue.keys, keys),
    (Catalogue.randomKey, randomKey), (Catalogue.set, set), (Catalogue.setNx, setNx),
    (Catalogue.get, get), (Catalogue.getSet, getSet), (Catalogue.strLen, strLen)]

/-- The handler of the command of a name. -/
def named? [Machine] (name : String) : Option Handler :=
  (table.find? fun entry => entry.1.name = name).map Prod.snd

/-- Every command of the catalogue has a handler, which is never stopped and does what the command
does. -/
theorem exists_named? [Machine] : ∀ command ∈ Catalogue.all,
    ∃ handler, named? command.name = some handler ∧ handler.Carries command := by
  simp only [Catalogue.all, List.forall_mem_cons]
  exact ⟨⟨ping, rfl, fun _ _ => rfl⟩, ⟨flushDb, rfl, carries_flushDb⟩,
    ⟨dbSize, rfl, carries_dbSize⟩, ⟨del, rfl, carries_del⟩, ⟨existsKeys, rfl, carries_existsKeys⟩,
    ⟨type, rfl, carries_of_one rfl fun _ => rfl⟩, ⟨rename, rfl, carries_rename⟩,
    ⟨renameNx, rfl, carries_renameNx⟩, ⟨keys, rfl, carries_keys⟩,
    ⟨randomKey, rfl, carries_randomKey⟩, ⟨set, rfl, carries_set⟩, ⟨setNx, rfl, carries_setNx⟩,
    ⟨get, rfl, carries_of_one rfl fun _ => rfl⟩, ⟨getSet, rfl, carries_getSet⟩,
    ⟨strLen, rfl, carries_of_one rfl fun _ => rfl⟩, by simp⟩

-- a handler that is given too few arguments would be stopped
example (keyspace : Keyspace) : set 9 keyspace [[107]] = .error .outOfRange := by
  rfl

end Handler

namespace Command

variable {greatest : Nat} {command : Command}

/-- The command as its handler carries it out. It faults if the handler is stopped. -/
def guarded [Machine] (greatest : Nat) (command : Command) : Command :=
  match Handler.named? command.name with
  | none => command
  | some handler =>
    { command with
      run := fun keyspace arguments =>
        match handler greatest keyspace arguments with
        | .ok effect => effect
        | .error _ => .fault keyspace }

theorem arity_guarded [Machine] : (command.guarded greatest).arity = command.arity := by
  unfold guarded
  split <;> rfl

/-- A command that is given as many arguments as it takes is carried out by its handler. -/
theorem run_guarded [Machine] (hmem : command ∈ Catalogue.all) {keyspace : Keyspace}
    {arguments : List Bytes} (harity : command.arity.allows arguments.length = true)
    (hfits : Handler.Fits greatest keyspace arguments) :
    (command.guarded greatest).run keyspace arguments = command.run keyspace arguments := by
  obtain ⟨handler, hnamed, hcarries⟩ := Handler.exists_named? command hmem
  simp only [guarded, hnamed, hcarries harity hfits]

end Command

namespace Registry

/-- The registry whose commands are carried out by their handlers. -/
def guarded [Machine] (greatest : Nat) (registry : Registry) : Registry :=
  ⟨registry.commands.map fun entry => (entry.1, entry.2.guarded greatest)⟩

theorem find?_guarded [Machine] (greatest : Nat) (registry : Registry) (name : String) :
    (registry.guarded greatest).find? name =
      (registry.find? name).map (Command.guarded greatest) := by
  simp only [find?, guarded, List.find?_map, Option.map_map]
  rfl

end Registry

/-- What fits into words is executed by the handlers as by the commands. -/
theorem Database.exec_guarded [Machine] {greatest : Nat} {database : Database} {line : CommandLine}
    (hfits : Handler.Fits greatest database.keyspace line.tail) :
    database.exec (Catalogue.registry.guarded greatest) line =
      database.exec Catalogue.registry line := by
  match line with
  | [] => rfl
  | name :: arguments =>
    simp only [exec, Registry.find?_guarded]
    cases hfind : Catalogue.registry.find? (Text.lowercase (Text.ofBytes name)) with
    | none => rfl
    | some command =>
      simp only [Option.map_some, Command.arity_guarded]
      -- the handler runs only if the arity allows the number of arguments
      split
      · next harity =>
        have hrun := Command.run_guarded (Catalogue.mem_all_of_find? hfind) harity hfits
        simp only [run, hrun]
      · rfl

end RingStore
