import Mathlib.Tactic.ByContra
import RingStore.Node
import RingStore.Proofs.Command.Redo

/-!
# Commands that answer an error

Given as many arguments as they take, the commands of the catalogue answer no error, except those
that rename a key when the key does not occur. These look it up before they change or log anything.

## Main definitions

* `Command.NeverRefuses`: a command never answers an error.
* `Catalogue.renamings`: the commands that rename a key.

## Main results

* `Catalogue.neverRefuses_of_mem_all`: all other commands never answer an error.
* `Catalogue.exists_missing_of_isError`: when a command answers an error.
-/

namespace RingStore

/-- Given as many arguments as it takes, the command answers no error. -/
def Command.NeverRefuses (command : Command) : Prop :=
  ∀ keyspace arguments, command.arity.allows arguments.length = true →
    (command.run keyspace arguments).outcome.toReply.isError = false

namespace Catalogue

theorem neverRefuses_of_one {command : Command} (harity : command.arity = .exactly 1)
    (h : ∀ keyspace key, (command.run keyspace [key]).outcome.toReply.isError = false) :
    command.NeverRefuses := by
  intro keyspace arguments hallows
  rw [harity] at hallows
  match arguments with
  | [key] => exact h keyspace key
  | [] | _ :: _ :: _ => simp [Arity.allows] at hallows

theorem neverRefuses_of_two {command : Command} (harity : command.arity = .exactly 2)
    (h : ∀ keyspace key value,
      (command.run keyspace [key, value]).outcome.toReply.isError = false) :
    command.NeverRefuses := by
  intro keyspace arguments hallows
  rw [harity] at hallows
  match arguments with
  | [key, value] => exact h keyspace key value
  | [] | [_] | _ :: _ :: _ :: _ => simp [Arity.allows] at hallows

theorem isError_found (found : Option Entity) :
    ((found.map fun entity => Value.bulk entity.data).getD .null).isError = false := by
  cases found <;> rfl

theorem neverRefuses_randomKey [Machine] : randomKey.NeverRefuses := by
  intro keyspace arguments _
  simp only [randomKey]
  split <;> rfl

theorem neverRefuses_setNx : setNx.NeverRefuses := by
  refine neverRefuses_of_two rfl fun keyspace key value => ?_
  simp only [setNx]
  split <;> rfl

/-- The commands that rename a key. -/
def renamings : List Command :=
  [rename, renameNx]

/-- No command answers an error but those that rename a key. -/
theorem neverRefuses_of_mem_all [Machine] :
    ∀ command ∈ all, command ∉ renamings → command.NeverRefuses := by
  simp only [all, List.forall_mem_cons]
  exact ⟨fun _ _ _ _ => rfl, fun _ _ _ _ => rfl, fun _ _ _ _ => rfl, fun _ _ _ _ => rfl,
    fun _ _ _ _ => rfl, fun _ => neverRefuses_of_one rfl fun _ _ => rfl,
    fun h => absurd (by simp [renamings]) h, fun h => absurd (by simp [renamings]) h,
    fun _ => neverRefuses_of_one rfl fun _ _ => rfl, fun _ => neverRefuses_randomKey,
    fun _ => neverRefuses_of_two rfl fun _ _ _ => rfl, fun _ => neverRefuses_setNx,
    fun _ => neverRefuses_of_one rfl fun _ _ => isError_found _,
    fun _ => neverRefuses_of_two rfl fun _ _ _ => isError_found _,
    fun _ => neverRefuses_of_one rfl fun _ _ => rfl, by simp⟩

/-- A command that renames a key refuses to do so if the key does not occur, and before it has
changed anything. -/
theorem run_of_mem_renamings {command : Command} (h : command ∈ renamings) {keyspace : Keyspace}
    {source : Bytes} (hmissing : keyspace.get? source = none) (target : Bytes) :
    command.run keyspace [source, target] = .refuse keyspace .noSuchKey := by
  simp only [renamings, List.mem_cons, List.not_mem_nil, or_false] at h
  rcases h with rfl | rfl <;> simp only [rename, renameNx, hmissing]

/-- Given as many arguments as it takes, a command answers no other error. -/
theorem exists_missing_of_isError [Machine] {command : Command} (hmem : command ∈ all)
    {keyspace : Keyspace}
    {arguments : List Bytes} (harity : command.arity.allows arguments.length = true)
    (herror : (command.run keyspace arguments).outcome.toReply.isError = true) :
    command ∈ renamings ∧
      ∃ source target, arguments = [source, target] ∧ keyspace.get? source = none := by
  -- the only errors left are those of the commands that look a key up before they change anything
  have hrenames : command ∈ renamings := by
    by_contra hother
    rw [neverRefuses_of_mem_all command hmem hother keyspace arguments harity] at herror
    cases herror
  have hcases : command = rename ∨ command = renameNx := by simpa [renamings] using hrenames
  have htwo : command.arity = .exactly 2 := by rcases hcases with rfl | rfl <;> rfl
  rw [htwo] at harity
  match arguments with
  | [] | [_] | _ :: _ :: _ :: _ => simp [Arity.allows] at harity
  | [source, target] =>
    refine ⟨hrenames, source, target, rfl, ?_⟩
    by_contra hfound
    obtain ⟨entity, hfound⟩ := Option.ne_none_iff_exists'.1 hfound
    rcases hcases with rfl | rfl
    · simp only [rename, hfound] at herror
      cases herror
    · simp only [renameNx, hfound] at herror
      split at herror <;> cases herror

end Catalogue

end RingStore
