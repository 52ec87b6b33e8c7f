import Mathlib.Algebra.BigOperators.Group.Finset.Basic
import RingStore.Node
import RingStore.Proofs.Command.Local
import RingStore.Proofs.Glob

/-!
# Keeping account of the keys

What the commands of a database tell about its keys goes together. `DBSIZE` answers how many keys
`KEYS *` lists, and these are the keys for which `EXISTS` answers one. A command that removes or
renames keys changes that number by what it says, and leaves all other keys alone. This holds of
every database, whatever it has executed: the number of keys is that of a finite set, and each
command is compared with what it does to the set.

## Main definitions

* `CommandLine.Calls`: the command that a line calls, and its arguments.
* `Database.Accounts`: what the commands of a database tell goes together.

## Main results

* `Keyspace.size_run_rename`: how renaming a key changes the number of keys.
* `Database.accounts`: every database keeps account of its keys.
-/

namespace RingStore

/-- The line calls a command of the catalogue with arguments. -/
def CommandLine.Calls [Machine] (line : CommandLine) (command : Command)
    (arguments : List Bytes) : Prop :=
  Catalogue.registry.resolve line = .ok (command, arguments)

namespace Keyspace

section Renaming

variable {keyspace : Keyspace} {source target : Bytes} {entity : Entity}
  (hfound : keyspace.get? source = some entity)

include hfound

/-- After a key is renamed to another one, that one occurs in its place. -/
theorem keySet_run_rename (hne : source ≠ target) :
    (Catalogue.rename.run keyspace [source, target]).keyspace.keySet =
      insert target (keyspace.keySet.erase source) := by
  ext key
  rw [Finset.mem_insert, Finset.mem_erase, mem_keySet_iff, mem_keySet_iff, contains, contains,
    Catalogue.get?_run_rename, hfound]
  by_cases htarget : key = target
  · simp [htarget]
  · by_cases hsource : key = source
    · simp [hsource, hne]
    · simp [htarget, hsource]

/-- To rename a key to another one lowers the number of keys by one exactly if that one occurs. -/
theorem size_run_rename (hne : source ≠ target) :
    (Catalogue.rename.run keyspace [source, target]).keyspace.size +
      (if keyspace.contains target = true then 1 else 0) = keyspace.size := by
  have hsource : source ∈ keyspace.keySet := mem_keySet_iff.2 (by rw [contains, hfound]; rfl)
  have herase := Finset.card_erase_add_one hsource
  rw [← card_keySet, ← card_keySet, keySet_run_rename hfound hne]
  by_cases htarget : keyspace.contains target = true
  · have hmem : target ∈ keyspace.keySet.erase source :=
      Finset.mem_erase.2 ⟨hne.symm, mem_keySet_iff.2 htarget⟩
    rw [Finset.insert_eq_of_mem hmem, if_pos htarget, herase]
  · have hmem : target ∉ keyspace.keySet.erase source := fun hin =>
      htarget (mem_keySet_iff.1 (Finset.mem_of_mem_erase hin))
    rw [Finset.card_insert_of_notMem hmem, if_neg htarget, Nat.add_zero, herase]

end Renaming

end Keyspace

namespace Database

/-- What a database of the catalogue replies to a command line. -/
def replyTo [Machine] (database : Database) (line : CommandLine) : Value :=
  (database.exec Catalogue.registry line).outcome.toReply

/-- What a command line leaves of a database of the catalogue. -/
def after [Machine] (database : Database) (line : CommandLine) : Database :=
  (database.exec Catalogue.registry line).database

/-- What the commands of a database tell about its keys goes together, and each command changes what
it says. -/
structure Accounts [Machine] (database : Database) : Prop where
  /-- `DBSIZE` answers the number of keys. -/
  dbSize : ∀ line, line.Calls Catalogue.dbSize [] →
    database.replyTo line = .count database.keyspace.size
  /-- `KEYS *` lists that many, all of those that occur, each once. -/
  keys : ∀ line, line.Calls Catalogue.keys [[42]] → ∃ listed : List Bytes,
    database.replyTo line = .array (listed.map .bulk) ∧ listed.Nodup ∧
      listed.length = database.keyspace.size ∧
      ∀ key, key ∈ listed ↔ database.keyspace.contains key = true
  /-- `EXISTS` answers one exactly for the keys that occur. -/
  existsOne : ∀ line key, line.Calls Catalogue.existsKeys [key] →
    (database.replyTo line = .count 1 ↔ database.keyspace.contains key = true)
  /-- Given several keys, it counts each that occurs as often as it is given. -/
  existsMany : ∀ line keys, line.Calls Catalogue.existsKeys keys → database.replyTo line =
    .count (∑ key ∈ keys.toFinset with database.keyspace.contains key = true, keys.count key)
  /-- `DEL` answers how many different keys among those given occurred. So many keys less there are
  afterwards: those given are gone, and all others are left as they were. -/
  del : ∀ line keys, line.Calls Catalogue.del keys → ∃ removed : Finset Bytes,
    (∀ key, key ∈ removed ↔ key ∈ keys ∧ database.keyspace.contains key = true) ∧
      database.replyTo line = .count removed.card ∧
      (database.after line).keyspace.size + removed.card = database.keyspace.size ∧
      ∀ key, (database.after line).keyspace.get? key =
        if key ∈ keys then none else database.keyspace.get? key
  /-- `RENAME` puts what is stored under a key under another one, and removes the key. All others
  are left as they were. There is one key less exactly if the other one occurred. -/
  rename : ∀ line source target entity, line.Calls Catalogue.rename [source, target] →
    source ≠ target → database.keyspace.get? source = some entity →
      database.replyTo line = .ok ∧
      (database.after line).keyspace.get? target = some entity ∧
      (database.after line).keyspace.get? source = none ∧
      (∀ key, key ≠ source → key ≠ target →
        (database.after line).keyspace.get? key = database.keyspace.get? key) ∧
      (database.after line).keyspace.size +
        (if database.keyspace.contains target = true then 1 else 0) = database.keyspace.size
  /-- A key that does not occur is not renamed. -/
  renameMissing : ∀ line source target, line.Calls Catalogue.rename [source, target] →
    database.keyspace.get? source = none →
      database.replyTo line = Refusal.noSuchKey.reply ∧ database.after line = database
  /-- To rename a key to itself changes nothing. -/
  renameSelf : ∀ line key, line.Calls Catalogue.rename [key, key] →
    (∀ other, (database.after line).keyspace.get? other = database.keyspace.get? other) ∧
      (database.after line).keyspace.size = database.keyspace.size
  /-- `SETNX` changes no key that occurs. -/
  setNx : ∀ line key value, line.Calls Catalogue.setNx [key, value] →
    ∀ other, database.keyspace.contains other = true →
      (database.after line).keyspace.get? other = database.keyspace.get? other
  /-- `RENAMENX` changes nothing if the key that is to be the new one occurs. -/
  renameNx : ∀ line source target, line.Calls Catalogue.renameNx [source, target] →
    database.keyspace.contains target = true → database.after line = database

section Calls

variable [Machine] {database : Database} {line : CommandLine} {command : Command}
  {arguments : List Bytes}
  (h : line.Calls command arguments)

include h

/-- A line that calls a command runs it. -/
theorem exec_of_calls :
    database.exec Catalogue.registry line = database.run command arguments := by
  rw [exec_eq, h]

theorem replyTo_of_calls :
    database.replyTo line = (command.run database.keyspace arguments).outcome.toReply := by
  rw [replyTo, exec_of_calls h]
  rfl

theorem after_of_calls : database.after line =
    { database with keyspace := (command.run database.keyspace arguments).keyspace } := by
  rw [after, exec_of_calls h]
  rfl

end Calls

/-- The pattern of one star matches every key. -/
theorem covers_star (key : Bytes) : Glob.covers [42] key = true := by
  rw [Glob.covers_iff_matches, ← List.append_nil key]
  exact .star key .nil

/-- Every database keeps account of its keys. -/
theorem accounts [Machine] (database : Database) : database.Accounts where
  dbSize line h := by
    rw [replyTo_of_calls h]
    rfl
  keys line h := by
    refine ⟨database.keyspace.keys, ?_, database.keyspace.nodup_keys, ?_, fun key => ?_⟩
    · have hall : database.keyspace.keys.filter (Glob.covers [42]) = database.keyspace.keys :=
        List.filter_eq_self.2 fun key _ => covers_star key
      rw [replyTo_of_calls h]
      show Value.array ((database.keyspace.keys.filter (Glob.covers [42])).map .bulk) = _
      rw [hall]
    · exact (Keyspace.size_eq_length_keys _).symm
    · rw [Keyspace.mem_keys_iff, Keyspace.contains]
  existsOne line key h := by
    rw [replyTo_of_calls h]
    show Value.count (List.countP database.keyspace.contains [key]) = .count 1 ↔ _
    cases hkey : database.keyspace.contains key with
    | true => simp [hkey]
    | false => simp [hkey, Value.count]
  existsMany line keys h := by
    -- each key that occurs is counted as often as the arguments repeat it
    have hsum := Finset.sum_filter_count_eq_countP (database.keyspace.contains · = true) keys
    simp only [Bool.decide_eq_true] at hsum
    rw [replyTo_of_calls h]
    show Value.count (keys.countP database.keyspace.contains) = _
    rw [← hsum]
    congr! 4
  del line keys h := by
    -- the keys that are removed are those in common
    have hcount := database.keyspace.eraseAll_fst_eq_card keys
    refine ⟨database.keyspace.keySet ∩ keys.toFinset, fun key => ?_, ?_, ?_, fun key => ?_⟩
    · rw [Finset.mem_inter, Keyspace.mem_keySet_iff, List.mem_toFinset, and_comm]
    · rw [replyTo_of_calls h, ← hcount]
      rfl
    · rw [after_of_calls h, ← hcount]
      exact database.keyspace.size_eraseAll_add keys
    · rw [after_of_calls h]
      exact database.keyspace.get?_eraseAll keys key
  rename line source target entity h hne hfound := by
    have hafter : ∀ key,
        (Catalogue.rename.run database.keyspace [source, target]).keyspace.get? key =
        if key = target then some entity else if key = source then none
        else database.keyspace.get? key := fun key => by
      rw [Catalogue.get?_run_rename, hfound]
    rw [replyTo_of_calls h, after_of_calls h]
    refine ⟨?_, ?_, ?_, fun key hsource htarget => ?_, Keyspace.size_run_rename hfound hne⟩
    · simp only [Catalogue.rename, hfound, Outcome.toReply]
    · rw [hafter, if_pos rfl]
    · rw [hafter, if_neg hne, if_pos rfl]
    · rw [hafter, if_neg htarget, if_neg hsource]
  renameMissing line source target h hmissing := by
    rw [replyTo_of_calls h, after_of_calls h]
    simp only [Catalogue.rename, hmissing]
    exact ⟨rfl, rfl⟩
  renameSelf line key h := by
    -- what is stored under the key is stored there again
    have hafter : ∀ other,
        (Catalogue.rename.run database.keyspace [key, key]).keyspace.get? other =
        database.keyspace.get? other := by
      intro other
      rw [Catalogue.get?_run_rename]
      cases hfound : database.keyspace.get? key with
      | none => rfl
      | some entity => by_cases hother : other = key <;> simp [hother, hfound]
    rw [after_of_calls h]
    refine ⟨hafter, Keyspace.size_eq_of_contains_eq fun other => ?_⟩
    rw [Keyspace.contains, Keyspace.contains, hafter]
  setNx line key value h other hother := by
    -- the only key that could change is the one given, and that occurs
    rw [after_of_calls h]
    show (Catalogue.setNx.run database.keyspace [key, value]).keyspace.get? other = _
    rw [Catalogue.get?_run_setNx, if_neg]
    rintro ⟨rfl, habsent⟩
    exact habsent hother
  renameNx line source target h htarget := by
    rw [after_of_calls h]
    simp only [Catalogue.renameNx, Keyspace.putIfAbsent_of_contains htarget]
    split <;> rfl

end Database

end RingStore
