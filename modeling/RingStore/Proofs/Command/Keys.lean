import RingStore.Proofs.Command.Redo
import RingStore.Proofs.Glob
import RingStore.Proofs.Keyspace.Share

/-!
# Listing the keys that a pattern matches

`KEYS` answers the keys of its database that a pattern matches, each of them once, and changes
nothing.

## Main results

* `Catalogue.keys_lists_matches`: the answer to `KEYS`, for every database and pattern.
-/

namespace RingStore.Catalogue

/-- A database that is asked for the keys that a pattern matches answers a list of them, in which
each stored key that the pattern matches stands once and no other, and stays as it is. -/
theorem keys_lists_matches [Machine] (database : Database) {name : Bytes}
    (hname : Text.lowercase (Text.ofBytes name) = "keys") (pattern : Bytes) :
    ∃ found : List Bytes,
      database.exec registry [name, pattern] =
        ⟨database, [], .reply (.array (found.map .bulk))⟩ ∧
      found.Nodup ∧
      ∀ key, key ∈ found ↔ (database.keyspace.get? key).isSome ∧ Glob.Matches pattern key := by
  have hresolve : registry.resolve [name, pattern] = .ok (keys, [pattern]) :=
    Registry.resolve_eq_ok_iff.2
      ⟨name, rfl, by rw [hname]; exact find?_of_mem_smallNames (by decide), rfl⟩
  refine ⟨database.keyspace.keys.filter (Glob.covers pattern), ?_, ?_, fun key => ?_⟩
  · rw [Database.exec_eq, hresolve]
    rfl
  · exact database.keyspace.nodup_keys.filter _
  · rw [List.mem_filter, Keyspace.mem_keys_iff, Glob.covers_iff_matches]

/-- Of three keys, a pattern with two stars, a negated class and a range from high to low matches
the one that it goes with at a later place only than the first. -/
theorem keys_lists_matches_of_stars :
    let stored := ["b-x-y", "a-xy", "b"].map Text.toBytes
    let database : Database :=
      ⟨0, stored.foldl (fun keyspace key => (keyspace.put key ⟨[]⟩).2) (.empty 2), false⟩
    let name := Text.toBytes "KeYs"
    let pattern := Text.toBytes "[^a]*[z-w]*\\y"
    Text.lowercase (Text.ofBytes name) = "keys" ∧
      ∃ found : List Bytes,
        (database.exec registry [name, pattern]).outcome = .reply (.array (found.map .bulk)) ∧
        Text.toBytes "b-x-y" ∈ found ∧ Text.toBytes "a-xy" ∉ found ∧
        Text.toBytes "b" ∉ found := by
  have hcovers : Glob.Matches (Text.toBytes "[^a]*[z-w]*\\y") (Text.toBytes "b-x-y") :=
    (Glob.covers_iff_matches _ _).1 (by cbv)
  have hclass : ¬Glob.Matches (Text.toBytes "[^a]*[z-w]*\\y") (Text.toBytes "a-xy") :=
    mt (Glob.covers_iff_matches _ _).2 (Bool.eq_false_iff.1 (by cbv))
  have hshort : ¬Glob.Matches (Text.toBytes "[^a]*[z-w]*\\y") (Text.toBytes "b") :=
    mt (Glob.covers_iff_matches _ _).2 (Bool.eq_false_iff.1 (by cbv))
  intro stored database name pattern
  have hname : Text.lowercase (Text.ofBytes name) = "keys" := by decide +kernel
  have hstored : (database.keyspace.get? (Text.toBytes "b-x-y")).isSome := by decide +kernel
  obtain ⟨found, hexec, -, hfound⟩ := keys_lists_matches database hname pattern
  exact ⟨hname, found, by rw [hexec], (hfound _).2 ⟨hstored, hcovers⟩,
    fun h => hclass ((hfound _).1 h).2, fun h => hshort ((hfound _).1 h).2⟩

end RingStore.Catalogue
