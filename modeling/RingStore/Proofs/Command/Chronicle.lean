import RingStore.Proofs.Command.Accounting
import RingStore.Proofs.Database

/-!
# What a database remembers

A chronicle is a database together with the command lines that it has executed and the replies that
it gave. What is stored under a key can be told from the past alone: it is the value that was last
stored under the key, or moved to it from another key under which it was stored, unless the key was
removed or moved away since. A reply tells whether a command that stores or moves something under a
condition has done so.

## Main definitions

* `Chronicle`, `Chronicle.afterAll`: a database with its past, and how it goes on.
* `Deed`, `Deed.of`: what a command line did to the keys, as told by the line and its reply.
* `Remembers`: the past tells what is stored under a key.

## Main results

* `Catalogue.tells_of_mem_all`: a command does to the keys what is told of it.
* `remembers_iff_last`: what is remembered comes from the last deed that touched the key.
* `Chronicle.Faithful.afterAll`: a database stores exactly what its past tells.
* `Chronicle.key_accounting`: whatever a database has executed, it keeps account of its keys, and
  `GET` answers what is remembered.
-/

namespace RingStore

/-- The value stored under a key. -/
def Keyspace.value? (keyspace : Keyspace) (key : Bytes) : Option Bytes :=
  (keyspace.get? key).map Entity.data

/-- What a command line did to the keys. -/
inductive Deed where
  /-- It stored a value under a key. -/
  | stores (key value : Bytes)
  /-- It moved what was stored under one key to another. -/
  | moves (source target : Bytes)
  /-- It removed keys. -/
  | removes (keys : List Bytes)
  /-- It removed all keys. -/
  | clears
  /-- It did nothing. -/
  | leaves

/-- What running a command with arguments did, if it was answered by the reply. -/
def Command.deed (command : Command) (arguments : List Bytes) (reply : Value) : Deed :=
  -- where a command acts under a condition, its reply tells whether it has acted
  match command.name, arguments with
  | "SET", [key, value] => .stores key value
  | "GETSET", [key, value] => .stores key value
  | "SETNX", [key, value] => if reply.integer? = some 1 then .stores key value else .leaves
  | "RENAME", [source, target] => if reply.isOk then .moves source target else .leaves
  | "RENAMENX", [source, target] =>
    if reply.integer? = some 1 then .moves source target else .leaves
  | "DEL", keys => .removes keys
  | "FLUSHDB", _ => .clears
  | _, _ => .leaves

namespace Deed

/-- What a command line of the catalogue did, if it was answered by the reply. -/
def of [Machine] (line : CommandLine) (reply : Value) : Deed :=
  match Catalogue.registry.resolve line with
  | .ok (command, arguments) => command.deed arguments reply
  | .error _ => .leaves

/-- What is stored under a key afterwards depends on the deed. -/
def Touches : Deed → Bytes → Prop
  | stores key _, other => other = key
  | moves source target, other => other = source ∨ other = target
  | removes keys, other => other ∈ keys
  | clears, _ => True
  | leaves, _ => False

/-- What is stored under each key after the deed, from what was before it. -/
def apply : Deed → (Bytes → Option Bytes) → Bytes → Option Bytes
  | stores key value, before, other => if other = key then some value else before other
  | moves source target, before, other =>
    if other = target then before source else if other = source then none else before other
  | removes keys, before, other => if other ∈ keys then none else before other
  | clears, _, _ => none
  | leaves, before, other => before other

/-- A deed leaves what it does not touch. -/
theorem apply_of_not_touches {deed : Deed} {key : Bytes} (h : ¬deed.Touches key)
    (before : Bytes → Option Bytes) : deed.apply before key = before key := by
  cases deed with
  | stores stored value => exact if_neg h
  | moves source target =>
    have hne : key ≠ source ∧ key ≠ target := not_or.1 h
    rw [apply, if_neg hne.2, if_neg hne.1]
  | removes keys => exact if_neg h
  | clears => exact absurd trivial h
  | leaves => rfl

/-- What is stored under a key that a deed touches comes from the deed. -/
theorem apply_eq_some_iff_of_touches {deed : Deed} {key value : Bytes} (h : deed.Touches key)
    {before : Bytes → Option Bytes} : deed.apply before key = some value ↔
      deed = stores key value ∨ ∃ source, deed = moves source key ∧ before source = some value := by
  cases deed with
  | stores stored other =>
    obtain rfl : key = stored := h
    simp [apply]
  | moves source target =>
    by_cases htarget : key = target
    · simp [apply, htarget]
    · have hsource : key = source := h.resolve_right htarget
      have hne : target ≠ key := fun heq => htarget heq.symm
      simp [apply, htarget, hsource.symm, hne]
  | removes keys => simp [apply, show key ∈ keys from h]
  | clears => simp [apply]
  | leaves => exact absurd h id

end Deed

/-- The past, most recent first, tells that a value is stored under a key. -/
inductive Remembers [Machine] : List (CommandLine × Value) → Bytes → Bytes → Prop
  /-- The value has just been stored. -/
  | stored {entry past key value} (hdeed : Deed.of entry.1 entry.2 = .stores key value) :
      Remembers (entry :: past) key value
  /-- It was stored under another key, or under the same one, and has just been moved. -/
  | moved {entry past source key value} (hdeed : Deed.of entry.1 entry.2 = .moves source key)
      (hsource : Remembers past source value) : Remembers (entry :: past) key value
  /-- It was stored, and what came next has left it. -/
  | kept {entry past key value} (hdeed : ¬(Deed.of entry.1 entry.2).Touches key)
      (hkey : Remembers past key value) : Remembers (entry :: past) key value

/-- If the past tells what is stored, it still does after one more deed. -/
theorem remembers_cons_iff [Machine] {past : List (CommandLine × Value)}
    {before : Bytes → Option Bytes}
    (h : ∀ key value, Remembers past key value ↔ before key = some value)
    (entry : CommandLine × Value) (key value : Bytes) :
    Remembers (entry :: past) key value ↔
      (Deed.of entry.1 entry.2).apply before key = some value := by
  by_cases htouches : (Deed.of entry.1 entry.2).Touches key
  · rw [Deed.apply_eq_some_iff_of_touches htouches]
    constructor
    · intro hremembers
      -- a deed that touches the key is not one that the value was kept through
      cases hremembers with
      | stored hdeed => exact .inl hdeed
      | moved hdeed hsource => exact .inr ⟨_, hdeed, (h _ _).1 hsource⟩
      | kept hdeed => exact absurd htouches hdeed
    · rintro (hdeed | ⟨source, hdeed, hsource⟩)
      · exact .stored hdeed
      · exact .moved hdeed ((h _ _).2 hsource)
  · rw [Deed.apply_of_not_touches htouches, ← h]
    constructor
    · intro hremembers
      cases hremembers with
      | stored hdeed => exact absurd (by rw [hdeed]; exact rfl) htouches
      | moved hdeed => exact absurd (by rw [hdeed]; exact .inr rfl) htouches
      | kept _ hkey => exact hkey
    · exact .kept htouches

/-- What is remembered comes from the last deed that touched the key: it stored the value, or moved
it from a key under which it was remembered at that time. -/
theorem remembers_iff_last [Machine] {past : List (CommandLine × Value)} {key value : Bytes} :
    Remembers past key value ↔ ∃ later entry earlier, past = later ++ entry :: earlier ∧
      (∀ other ∈ later, ¬(Deed.of other.1 other.2).Touches key) ∧
      (Deed.of entry.1 entry.2 = .stores key value ∨
        ∃ source, Deed.of entry.1 entry.2 = .moves source key ∧
          Remembers earlier source value) := by
  constructor
  · intro h
    induction h with
    | stored hdeed => exact ⟨[], _, _, rfl, by simp, .inl hdeed⟩
    | moved hdeed hsource => exact ⟨[], _, _, rfl, by simp, .inr ⟨_, hdeed, hsource⟩⟩
    | @kept entry past key value hdeed _ ih =>
      obtain ⟨later, last, earlier, rfl, hlater, hlast⟩ := ih
      exact ⟨entry :: later, last, earlier, rfl, List.forall_mem_cons.2 ⟨hdeed, hlater⟩, hlast⟩
  · rintro ⟨later, entry, earlier, rfl, hlater, hlast⟩
    -- the induction is on what came later, through which the value was kept
    induction later with
    | nil =>
      rcases hlast with hdeed | ⟨source, hdeed, hsource⟩
      · exact .stored hdeed
      · exact .moved hdeed hsource
    | cons next rest ih =>
      rw [List.forall_mem_cons] at hlater
      exact .kept hlater.1 (ih hlater.2)

/-- Running a command does to the keys what is told of it. -/
def Command.Tells (command : Command) : Prop :=
  ∀ keyspace arguments, command.arity.allows arguments.length = true → ∀ key,
    (command.run keyspace arguments).keyspace.value? key =
      (command.deed arguments (command.run keyspace arguments).outcome.toReply).apply
        keyspace.value? key

namespace Catalogue

/-- Nothing is told of a command that only reads. -/
theorem deed_of_mem_reads [Machine] {command : Command} (hmem : command ∈ reads)
    (arguments : List Bytes) (reply : Value) : command.deed arguments reply = .leaves := by
  simp only [reads, List.mem_cons, List.not_mem_nil, or_false] at hmem
  rcases hmem with rfl | rfl | rfl | rfl | rfl | rfl | rfl | rfl <;> rfl

theorem tells_of_mem_reads [Machine] {command : Command} (hmem : command ∈ reads) :
    command.Tells := by
  intro keyspace arguments _ key
  rw [deed_of_mem_reads hmem, (run_of_mem_reads hmem keyspace arguments).1]
  rfl

theorem tells_of_two {command : Command} (harity : command.arity = .exactly 2)
    (h : ∀ keyspace first second key,
      (command.run keyspace [first, second]).keyspace.value? key =
        (command.deed [first, second]
          (command.run keyspace [first, second]).outcome.toReply).apply keyspace.value? key) :
    command.Tells := by
  intro keyspace arguments hallows
  rw [harity] at hallows
  match arguments with
  | [first, second] => exact h keyspace first second
  | [] | [_] | _ :: _ :: _ :: _ => simp [Arity.allows] at hallows

theorem value?_put (keyspace : Keyspace) (key value other : Bytes) :
    (keyspace.put key ⟨value⟩).2.value? other =
      if other = key then some value else keyspace.value? other := by
  rw [Keyspace.value?, Keyspace.get?_put]
  split <;> rfl

theorem tells_set : set.Tells :=
  tells_of_two rfl fun keyspace key value other => value?_put keyspace key value other

theorem tells_getSet : getSet.Tells :=
  tells_of_two rfl fun keyspace key value other => value?_put keyspace key value other

theorem tells_setNx : setNx.Tells := by
  refine tells_of_two rfl fun keyspace key value other => ?_
  cases hcontains : keyspace.contains key with
  | true =>
    have hrun : setNx.run keyspace [key, value] = .answer keyspace (.count 0) := by
      simp only [setNx, Keyspace.putIfAbsent_of_contains hcontains]
    rw [hrun]
    rfl
  | false =>
    have hrun : setNx.run keyspace [key, value] =
        ⟨(keyspace.put key ⟨value⟩).2, [call "setnx" [key, value]], .reply (.count 1)⟩ := by
      simp only [setNx, Keyspace.putIfAbsent_of_not_contains hcontains]
    rw [hrun]
    exact value?_put keyspace key value other

theorem tells_rename : rename.Tells := by
  refine tells_of_two rfl fun keyspace source target other => ?_
  have hafter := get?_run_rename keyspace source target [] other
  cases hfound : keyspace.get? source with
  | none =>
    have hrun : rename.run keyspace [source, target] = .refuse keyspace .noSuchKey := by
      simp only [rename, hfound]
    rw [hrun]
    rfl
  | some entity =>
    -- the reply tells that the entity was moved, also where source and target are the same
    have hreply : (rename.run keyspace [source, target]).outcome = .reply .ok := by
      simp only [rename, hfound]
    rw [Keyspace.value?, hafter, hfound, hreply]
    show Option.map Entity.data (if other = target then some entity
      else if other = source then none else keyspace.get? other) =
      if other = target then keyspace.value? source
      else if other = source then none else keyspace.value? other
    rw [apply_ite (Option.map Entity.data), apply_ite (Option.map Entity.data), Keyspace.value?,
      hfound]
    rfl

theorem tells_renameNx : renameNx.Tells := by
  refine tells_of_two rfl fun keyspace source target other => ?_
  cases hfound : keyspace.get? source with
  | none =>
    have hrun : renameNx.run keyspace [source, target] = .refuse keyspace .noSuchKey := by
      simp only [renameNx, hfound]
    rw [hrun]
    rfl
  | some entity =>
    cases hcontains : keyspace.contains target with
    | true =>
      have hrun : renameNx.run keyspace [source, target] = .answer keyspace (.count 0) := by
        simp only [renameNx, hfound, Keyspace.putIfAbsent_of_contains hcontains]
      rw [hrun]
      rfl
    | false =>
      have hreply : (renameNx.run keyspace [source, target]).outcome = .reply (.count 1) := by
        simp only [renameNx, hfound, Keyspace.putIfAbsent_of_not_contains hcontains]
      -- the target is another key, as it does not occur
      have hne : source ≠ target := by
        rintro rfl
        rw [Keyspace.contains, hfound] at hcontains
        cases hcontains
      rw [Keyspace.value?, get?_run_renameNx, hfound, hcontains, hreply]
      show Option.map Entity.data (if other = source then none
        else if other = target then some entity else keyspace.get? other) =
        if other = target then keyspace.value? source
        else if other = source then none else keyspace.value? other
      by_cases htarget : other = target
      · rw [if_neg (htarget ▸ hne.symm), if_pos htarget, if_pos htarget, Keyspace.value?, hfound]
      · rw [if_neg htarget, if_neg htarget, apply_ite (Option.map Entity.data)]
        rfl

theorem tells_del : del.Tells := by
  intro keyspace keys _ other
  show (keyspace.eraseAll keys).2.value? other =
    if other ∈ keys then none else keyspace.value? other
  rw [Keyspace.value?, Keyspace.get?_eraseAll, apply_ite (Option.map Entity.data)]
  rfl

theorem tells_flushDb : flushDb.Tells := by
  intro keyspace arguments _ other
  show keyspace.clear.value? other = none
  rw [Keyspace.value?, Keyspace.get?_clear, Option.map_none]

theorem tells_of_mem_writings : ∀ command ∈ writings, command.Tells := by
  simp only [writings, List.forall_mem_cons]
  exact ⟨tells_flushDb, tells_del, tells_rename, tells_renameNx, tells_set, tells_setNx,
    tells_getSet, by simp⟩

/-- Every command of the catalogue does to the keys what is told of it. -/
theorem tells_of_mem_all [Machine] {command : Command} (hmem : command ∈ all) : command.Tells := by
  rcases mem_reads_or_mem_writings command hmem with ⟨hreads, -⟩ | ⟨hwrites, -⟩
  · exact tells_of_mem_reads hreads
  · exact tells_of_mem_writings command hwrites

/-- `GET` answers the value stored under its key. -/
theorem reply_run_get (keyspace : Keyspace) (key : Bytes) :
    (get.run keyspace [key]).outcome.toReply = ((keyspace.value? key).map .bulk).getD .null := by
  rw [Keyspace.value?, Option.map_map]
  rfl

end Catalogue

namespace Database

/-- A command line does to the keys what its reply tells. -/
theorem value?_after [Machine] (database : Database) (line : CommandLine) (key : Bytes) :
    (database.after line).keyspace.value? key =
      (Deed.of line (database.replyTo line)).apply database.keyspace.value? key := by
  cases hresolve : Catalogue.registry.resolve line with
  | error refusal =>
    rw [after, exec_eq, Deed.of]
    simp only [hresolve]
    rfl
  | ok run =>
    obtain ⟨_, _, hfind, harity⟩ := Registry.resolve_eq_ok_iff.1 hresolve
    have hmem : run.1 ∈ Catalogue.all := Catalogue.mem_all_of_find? hfind
    have hdeed : Deed.of line (database.replyTo line) =
        run.1.deed run.2 (run.1.run database.keyspace run.2).outcome.toReply := by
      rw [replyTo_of_calls hresolve, Deed.of]
      simp only [hresolve]
    rw [hdeed, after_of_calls hresolve]
    exact Catalogue.tells_of_mem_all hmem database.keyspace run.2 harity key

/-- `GET` answers a value exactly if it is stored under the key, and nothing exactly if no value
is. -/
theorem replyTo_get [Machine] (database : Database) {line : CommandLine} {key : Bytes}
    (h : line.Calls Catalogue.get [key]) :
    (∀ value, database.replyTo line = .bulk value ↔ database.keyspace.value? key = some value) ∧
      (database.replyTo line = .null ↔ database.keyspace.value? key = none) := by
  rw [replyTo_of_calls h, Catalogue.reply_run_get]
  cases database.keyspace.value? key <;> simp

end Database

/-- A database with what it has executed and replied, most recent first. -/
structure Chronicle where
  /-- The database. -/
  database : Database
  /-- The command lines, each with its reply. -/
  past : List (CommandLine × Value)

namespace Chronicle

/-- A database without keys and without a past, for a requested number of stripes. -/
def begin (index stripes : Nat) (journaled : Bool) : Chronicle :=
  ⟨⟨index, .empty stripes, journaled⟩, []⟩

/-- The chronicle goes on with a command line. -/
def after [Machine] (chronicle : Chronicle) (line : CommandLine) : Chronicle :=
  ⟨chronicle.database.after line,
    (line, chronicle.database.replyTo line) :: chronicle.past⟩

/-- The chronicle goes on with command lines in order. -/
def afterAll [Machine] (chronicle : Chronicle) (lines : List CommandLine) : Chronicle :=
  lines.foldl after chronicle

/-- The database stores exactly what the past tells. -/
def Faithful [Machine] (chronicle : Chronicle) : Prop :=
  ∀ key value, Remembers chronicle.past key value ↔
    chronicle.database.keyspace.value? key = some value

theorem faithful_begin [Machine] (index stripes : Nat) (journaled : Bool) :
    (begin index stripes journaled).Faithful := by
  intro key value
  -- without a past nothing is remembered, and nothing is stored
  show Remembers [] key value ↔ (Keyspace.empty stripes).value? key = some value
  rw [Keyspace.value?, Keyspace.get?_empty]
  constructor
  · intro hremembers
    cases hremembers
  · intro hstored
    cases hstored

variable {chronicle : Chronicle}

theorem Faithful.after [Machine] (h : chronicle.Faithful) (line : CommandLine) :
    (chronicle.after line).Faithful := by
  intro key value
  show Remembers ((line, chronicle.database.replyTo line) :: chronicle.past) key value ↔
    (chronicle.database.after line).keyspace.value? key = some value
  rw [remembers_cons_iff h, Database.value?_after]

theorem Faithful.afterAll [Machine] (h : chronicle.Faithful) (lines : List CommandLine) :
    (chronicle.afterAll lines).Faithful := by
  induction lines generalizing chronicle with
  | nil => exact h
  | cons line rest ih => exact ih (h.after line)

/-- Whatever a database has executed, the commands that tell about its keys go together, and `GET`
answers what was last stored under its key or moved to it, if that was not removed since. -/
theorem key_accounting [Machine] (index stripes : Nat) (journaled : Bool)
    (lines : List CommandLine) :
    let now := (begin index stripes journaled).afterAll lines
    now.database.Accounts ∧
      ∀ line key, line.Calls Catalogue.get [key] →
        (∀ value, now.database.replyTo line = .bulk value ↔ Remembers now.past key value) ∧
          (now.database.replyTo line = .null ↔ ∀ value, ¬Remembers now.past key value) := by
  intro now
  have hfaithful : now.Faithful := (faithful_begin index stripes journaled).afterAll lines
  refine ⟨now.database.accounts, fun line key hcalls => ?_⟩
  obtain ⟨hvalue, hnull⟩ := now.database.replyTo_get hcalls
  refine ⟨fun value => ?_, ?_⟩
  · rw [hvalue, hfaithful]
  · rw [hnull, Option.eq_none_iff_forall_ne_some]
    exact forall_congr' fun value => not_congr (hfaithful key value).symm

-- a value that was moved away and back
open Catalogue in
example : ((begin 0 3 true).afterAll [call "set" [[97], [1]], call "rename" [[97], [98]],
    call "RENAMENX" [[98], [97]]]).database.replyTo (call "get" [[97]]) = .bulk [1] := by
  with_unfolding_all rfl

end Chronicle

end RingStore
