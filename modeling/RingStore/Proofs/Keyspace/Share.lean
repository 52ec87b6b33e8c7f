import Mathlib.Algebra.GroupWithZero.Nat
import RingStore.Proofs.Keyspace.KeySet

/-!
# Shares of a keyspace

A keyspace can be divided among several, each of which holds the keys that it owns. If every key has
one owner, the keys of the whole are those of all shares put together, each once, and so the sizes
add up.

## Main definitions

* `Keyspace.IsShare`: a keyspace holds exactly what it owns of another one.

## Main results

* `Keyspace.keys_perm_flatMap`, `Keyspace.size_eq_sum`: the keys of all shares.
-/

namespace RingStore.Keyspace

/-- A keyspace holds exactly what it owns of another one. -/
def IsShare (part whole : Keyspace) (owns : Bytes → Prop) : Prop :=
  ∀ key, (owns key → part.get? key = whole.get? key) ∧ (¬owns key → part.get? key = none)

variable {part whole : Keyspace} {owns : Bytes → Prop}

/-- Without keys, everything is a share of everything else. -/
theorem isShare_of_forall_none (hpart : ∀ key, part.get? key = none)
    (hwhole : ∀ key, whole.get? key = none) : part.IsShare whole owns :=
  fun key => ⟨fun _ => (hpart key).trans (hwhole key).symm, fun _ => hpart key⟩

/-- A share is one of every keyspace that holds the same map. -/
theorem IsShare.trans_agrees {other : Keyspace} (h : part.IsShare whole owns)
    (hagrees : whole.Agrees other) : part.IsShare other owns :=
  fun key => ⟨fun howns => ((h key).1 howns).trans (hagrees key), (h key).2⟩

theorem IsShare.mem_keys_iff (h : part.IsShare whole owns) {key : Bytes} :
    key ∈ part.keys ↔ owns key ∧ key ∈ whole.keys := by
  rw [Keyspace.mem_keys_iff, Keyspace.mem_keys_iff]
  by_cases howns : owns key
  · rw [(h key).1 howns]
    exact ⟨fun hkey => ⟨howns, hkey⟩, And.right⟩
  · rw [(h key).2 howns]
    exact ⟨nofun, fun hkey => absurd hkey.1 howns⟩

section Division

variable {α : Type} {members : List α} {parts : α → Keyspace} {owner : Bytes → α}

/-- The keys of the whole are those of all shares put together. -/
theorem keys_perm_flatMap (hnodup : members.Nodup) (howner : ∀ key, owner key ∈ members)
    (h : ∀ member ∈ members, (parts member).IsShare whole fun key => owner key = member) :
    whole.keys.Perm (members.flatMap fun member => (parts member).keys) := by
  have hparts : (members.flatMap fun member => (parts member).keys).Nodup := by
    refine List.pairwise_flatMap.2 ⟨fun member _ => nodup_keys _, ?_⟩
    refine List.Pairwise.imp_of_mem ?_ hnodup
    intro member other hmember hother hne key hkey _ hkey' rfl
    exact hne (((h member hmember).mem_keys_iff.1 hkey).1.symm.trans
      ((h other hother).mem_keys_iff.1 hkey').1)
  refine (List.perm_ext_iff_of_nodup whole.nodup_keys hparts).2 fun key => ?_
  rw [List.mem_flatMap]
  constructor
  · intro hkey
    exact ⟨owner key, howner key, (h _ (howner key)).mem_keys_iff.2 ⟨rfl, hkey⟩⟩
  · rintro ⟨member, hmember, hkey⟩
    exact ((h member hmember).mem_keys_iff.1 hkey).2

/-- The sizes of all shares add up. -/
theorem size_eq_sum (hnodup : members.Nodup) (howner : ∀ key, owner key ∈ members)
    (h : ∀ member ∈ members, (parts member).IsShare whole fun key => owner key = member) :
    whole.size = (members.map fun member => (parts member).size).sum := by
  rw [size_eq_length_keys, (keys_perm_flatMap hnodup howner h).length_eq, List.length_flatMap]
  simp only [size_eq_length_keys]

end Division

end RingStore.Keyspace
