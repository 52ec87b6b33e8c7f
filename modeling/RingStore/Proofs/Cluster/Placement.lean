import RingStore.Proofs.Cluster.Division
import RingStore.Proofs.Cluster.Errands

/-!
# Which keys a member stores

What a coordinator leaves to its own node stores no key of another member. A command that is sent to
the owner of its keys stores nothing but these keys. A command that every member executes stores no
key at all. The remaining ones change nothing.

## Main results

* `Command.LocalTo.mem_keys_after`: a command stores only keys that it is local to.
* `Coordinator.owner_of_mem_keys_after`: what the own node stores belongs to it.
-/

namespace RingStore

section Found

variable {name : Bytes} {arguments : List Bytes} {keyspace : Keyspace} {key : Bytes}

/-- A command stores only keys that it is local to. -/
theorem Command.LocalTo.mem_keys_after [Machine] {command : Command}
    {keysOf : List Bytes → List Bytes} (h : command.LocalTo keysOf)
    (hfind : Catalogue.registry.find? (Text.lowercase (Text.ofBytes name)) = some command)
    (hkey : key ∈ (keyspace.after (name :: arguments)).keys) :
    key ∈ keyspace.keys ∨ key ∈ keysOf arguments := by
  rw [Keyspace.after_call_eq hfind] at hkey
  split at hkey
  · by_cases hlocal : key ∈ keysOf arguments
    · exact .inr hlocal
    · rw [Keyspace.mem_keys_iff, h.outside keyspace arguments key hlocal,
        ← Keyspace.mem_keys_iff] at hkey
      exact .inl hkey
  · exact .inl hkey

/-- A command that every member executes stores no key. -/
theorem Catalogue.mem_keys_of_broadcast [Machine] {merge : Merge}
    (hroute : route? (Text.lowercase (Text.ofBytes name)) = some (.broadcast merge))
    (hkey : key ∈ (keyspace.after (name :: arguments)).keys) : key ∈ keyspace.keys := by
  rcases broadcast_command hroute with ⟨-, -, hfind⟩ | ⟨-, -, hfind⟩ | ⟨-, -, hfind⟩ <;>
    rw [Keyspace.after_call_eq hfind] at hkey <;> split at hkey
  · -- nothing is left after all keys have been removed
    rw [Keyspace.mem_keys_iff] at hkey
    simp [flushDb] at hkey
  · exact hkey
  · exact hkey
  · exact hkey
  · cases arguments <;> exact hkey
  · exact hkey

/-- A command that the asked member itself executes, whatever the arguments, stores no key. -/
theorem Catalogue.mem_keys_of_here [Machine]
    (hroute : route? (Text.lowercase (Text.ofBytes name)) = some .here)
    (hkey : key ∈ (keyspace.after (name :: arguments)).keys) : key ∈ keyspace.keys := by
  by_cases hname : Text.lowercase (Text.ofBytes name) = "randomkey"
  · have hfind : registry.find? (Text.lowercase (Text.ofBytes name)) = some randomKey := by
      rw [hname]
      exact find?_of_mem_smallNames (by decide)
    rw [Keyspace.after_call_eq hfind] at hkey
    split at hkey
    · simp only [randomKey] at hkey
      split at hkey <;> exact hkey
    · exact hkey
  · rwa [(Keyspace.idle_of_here hroute hname arguments).1] at hkey

end Found

namespace Coordinator

/-- What a coordinator leaves to its own node stores no key of another member. -/
theorem owner_of_mem_keys_after [Machine] {coordinator : Coordinator} {line : CommandLine}
    {errand : Errand}
    (h : errand ∈ coordinator.errands line) (hself : errand.member = coordinator.self)
    {keyspace : Keyspace} {key : Bytes} (hkey : key ∈ (keyspace.after errand.line).keys) :
    key ∈ keyspace.keys ∨ coordinator.owner key = coordinator.self := by
  cases entrusts_of_mem_errands h with
  | here route => exact .inl (Catalogue.mem_keys_of_here route hkey)
  | forwarded _ inner => exact .inl (Catalogue.mem_keys_of_broadcast inner hkey)
  | broadcast route =>
    -- a member that asks itself needs no marker
    rw [lineFor, if_pos hself] at hkey
    exact .inl (Catalogue.mem_keys_of_broadcast route hkey)
  | firstKey route =>
    obtain ⟨command, hfind, hlocal, -⟩ := Catalogue.firstKey_command route
    refine (hlocal.mem_keys_after hfind hkey).imp_right fun hfirst => ?_
    rw [List.mem_singleton.1 hfirst]
    exact hself
  | splitKeys route _ _ owns =>
    obtain ⟨command, -, hfind, hlocal, -, -⟩ := Catalogue.splitKeys_command route
    exact (hlocal.mem_keys_after hfind hkey).imp_right fun hpart => (owns key hpart).trans hself
  | sameOwner route owners =>
    obtain ⟨command, hfind, hlocal, -⟩ := Catalogue.sameOwner_command route
    refine (hlocal.mem_keys_after hfind hkey).imp_right fun hboth => ?_
    rcases List.mem_cons.1 hboth with rfl | htarget
    · exact hself
    · rw [List.mem_singleton.1 htarget, ← owners]
      exact hself

end Coordinator

end RingStore
