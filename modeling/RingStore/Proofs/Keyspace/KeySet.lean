import Mathlib.Data.Finset.Card
import RingStore.Proofs.Keyspace.Agreement

/-!
# The keys of a keyspace

The keys that occur in a keyspace form a finite set. The list of the keys holds each of them once,
and their number is the size of the set, however they are spread over stripes. Removing keys takes
them out of the set and counts those that the two have in common, so it matters neither in which
order nor how often a key is given.

## Main definitions

* `Keyspace.keySet`: the keys that occur.

## Main results

* `Keyspace.nodup_keys`, `Keyspace.size_eq_length_keys`, `Keyspace.card_keySet`: listing and
  counting the keys.
* `Keyspace.keySet_eraseAll`, `Keyspace.eraseAll_fst_eq_card`: removing several keys.
* `Keyspace.eraseAll_append`, `Keyspace.eraseAll_fst_perm`: dividing a removal.
* `Keyspace.eraseAll_fst_le`, `Keyspace.eraseAll_fst_congr`, `Keyspace.eraseAll_fst_eq_zero_iff`:
  what a removal counts.
-/

namespace RingStore.Keyspace

section Listing

variable (keyspace : Keyspace)

/-- No key is listed twice. -/
theorem nodup_keys : keyspace.keys.Nodup := by
  have hkeys : keyspace.keys = keyspace.stripes.toList.flatMap Table.keys := by
    simp only [keys, entries, List.map_flatMap]
    rfl
  rw [hkeys]
  refine List.pairwise_flatMap.2 ⟨fun table _ => table.nodup, ?_⟩
  -- a key of two stripes would be placed twice
  rw [List.pairwise_iff_getElem]
  intro index other hindex hother hlt key hkey _ hkey' rfl
  rw [Array.length_toList] at hindex hother
  rw [Table.mem_keys_iff] at hkey hkey'
  have hplace := keyspace.placed index hindex key hkey
  have hplace' := keyspace.placed other hother key hkey'
  omega

/-- The number of keys is that of the keys listed. -/
theorem size_eq_length_keys : keyspace.size = keyspace.keys.length := by
  have hfold : ∀ (tables : List Table) (total : Nat),
      tables.foldl (fun total table => total + table.size) total =
        total + (tables.flatMap Table.entries).length := by
    intro tables
    induction tables with
    | nil => exact fun _ => rfl
    | cons table rest ih =>
      intro total
      rw [List.foldl_cons, ih, List.flatMap_cons, List.length_append, Table.size, Nat.add_assoc]
  rw [size, keys, List.length_map, entries, ← Array.foldl_toList, hfold, Nat.zero_add]

end Listing

/-- The keys that occur. -/
def keySet (keyspace : Keyspace) : Finset Bytes :=
  keyspace.keys.toFinset

variable {keyspace left right : Keyspace} {key : Bytes}

theorem mem_keySet_iff : key ∈ keyspace.keySet ↔ keyspace.contains key = true := by
  rw [keySet, List.mem_toFinset, mem_keys_iff, contains]

theorem card_keySet (keyspace : Keyspace) : keyspace.keySet.card = keyspace.size := by
  rw [keySet, List.toFinset_card_of_nodup keyspace.nodup_keys, size_eq_length_keys]

/-- Keyspaces in which the same keys occur have the same number of them. -/
theorem size_eq_of_contains_eq (h : ∀ key, left.contains key = right.contains key) :
    left.size = right.size := by
  have hsame : left.keySet = right.keySet := by
    ext key
    rw [mem_keySet_iff, mem_keySet_iff, h key]
  rw [← card_keySet, ← card_keySet, hsame]

section Removal

variable (keyspace : Keyspace)

theorem contains_erase (key other : Bytes) :
    (keyspace.erase key).2.contains other = (other != key && keyspace.contains other) := by
  rw [contains, get?_erase]
  by_cases heq : other = key
  · simp [heq]
  · simp [heq, contains]

theorem keySet_erase (key : Bytes) :
    (keyspace.erase key).2.keySet = keyspace.keySet.erase key := by
  ext other
  rw [Finset.mem_erase, mem_keySet_iff, mem_keySet_iff, contains_erase]
  simp

/-- Of several keys that are removed, those are missing afterwards. -/
theorem keySet_eraseAll (keys : List Bytes) :
    (keyspace.eraseAll keys).2.keySet = keyspace.keySet \ keys.toFinset := by
  ext other
  rw [Finset.mem_sdiff, mem_keySet_iff, mem_keySet_iff, List.mem_toFinset, contains, contains,
    get?_eraseAll]
  by_cases hother : other ∈ keys <;> simp [hother]

/-- A removal counts the keys that occur, each of them once. -/
theorem eraseAll_fst_eq_card (keys : List Bytes) :
    (keyspace.eraseAll keys).1 = (keyspace.keySet ∩ keys.toFinset).card := by
  induction keys generalizing keyspace with
  | nil => simp [eraseAll]
  | cons key rest ih =>
    show ((keyspace.erase key).2.eraseAll rest).1 + (keyspace.contains key).toNat = _
    rw [ih, keySet_erase, List.toFinset_cons]
    -- a repetition of the key in the rest no longer occurs once the key is removed
    have hrest : keyspace.keySet.erase key ∩ rest.toFinset =
        (keyspace.keySet ∩ insert key rest.toFinset).erase key := by
      ext other
      simp only [Finset.mem_inter, Finset.mem_erase, Finset.mem_insert]
      tauto
    rw [hrest]
    cases hkey : keyspace.contains key with
    | true =>
      have hmem : key ∈ keyspace.keySet ∩ insert key rest.toFinset :=
        Finset.mem_inter.2 ⟨mem_keySet_iff.2 hkey, Finset.mem_insert_self key _⟩
      exact Finset.card_erase_add_one hmem
    | false =>
      have hmem : key ∉ keyspace.keySet ∩ insert key rest.toFinset := fun hin => by
        rw [Finset.mem_inter, mem_keySet_iff, hkey] at hin
        cases hin.1
      rw [Finset.erase_eq_of_notMem hmem]
      rfl

/-- What a removal counts is what the number of keys drops by. -/
theorem size_eraseAll_add (keys : List Bytes) :
    (keyspace.eraseAll keys).2.size + (keyspace.eraseAll keys).1 = keyspace.size := by
  rw [← card_keySet, ← card_keySet, keySet_eraseAll, eraseAll_fst_eq_card]
  exact Finset.card_sdiff_add_card_inter _ _

/-- Removing some keys and then others counts them all. -/
theorem eraseAll_append (front back : List Bytes) :
    keyspace.eraseAll (front ++ back) =
      ((keyspace.eraseAll front).1 + ((keyspace.eraseAll front).2.eraseAll back).1,
        ((keyspace.eraseAll front).2.eraseAll back).2) := by
  induction front generalizing keyspace with
  | nil => simp [eraseAll]
  | cons key rest ih =>
    simp only [List.cons_append, eraseAll, ih]
    congr 1
    omega

/-- Not more keys are removed than are given. -/
theorem eraseAll_fst_le (keys : List Bytes) : (keyspace.eraseAll keys).1 ≤ keys.length :=
  calc (keyspace.eraseAll keys).1
    _ = (keyspace.keySet ∩ keys.toFinset).card := eraseAll_fst_eq_card keyspace keys
    _ ≤ keys.toFinset.card := Finset.card_le_card Finset.inter_subset_right
    _ ≤ keys.length := List.toFinset_card_le keys

/-- The order in which keys are removed does not matter. -/
theorem eraseAll_fst_perm {keys others : List Bytes} (h : keys.Perm others) :
    (keyspace.eraseAll keys).1 = (keyspace.eraseAll others).1 := by
  rw [eraseAll_fst_eq_card, eraseAll_fst_eq_card, List.toFinset_eq_of_perm _ _ h]

end Removal

/-- Removing several keys counts the same where the same is stored under these keys. -/
theorem eraseAll_fst_congr {keys : List Bytes} (h : ∀ key ∈ keys, left.get? key = right.get? key) :
    (left.eraseAll keys).1 = (right.eraseAll keys).1 := by
  have hcommon : left.keySet ∩ keys.toFinset = right.keySet ∩ keys.toFinset := by
    ext key
    rw [Finset.mem_inter, Finset.mem_inter, mem_keySet_iff, mem_keySet_iff, List.mem_toFinset]
    exact and_congr_left fun hkey => by rw [contains_congr (h key hkey)]
  rw [eraseAll_fst_eq_card, eraseAll_fst_eq_card, hcommon]

/-- A removal of several keys finds nothing exactly if none of them occurs. -/
theorem eraseAll_fst_eq_zero_iff {keys : List Bytes} :
    (keyspace.eraseAll keys).1 = 0 ↔ ∀ key ∈ keys, keyspace.get? key = none := by
  have habsent : ∀ key, key ∉ keyspace.keySet ↔ keyspace.get? key = none := by
    intro key
    rw [mem_keySet_iff, contains, Option.not_isSome_iff_eq_none]
  rw [eraseAll_fst_eq_card, Finset.card_eq_zero, ← Finset.disjoint_iff_inter_eq_empty,
    Finset.disjoint_right]
  simp only [List.mem_toFinset, habsent]

/-- Where nothing was there to be removed, nothing changed. -/
theorem eraseAll_agrees_of_count_eq_zero {keys : List Bytes} (h : (keyspace.eraseAll keys).1 = 0) :
    (keyspace.eraseAll keys).2.Agrees keyspace := by
  intro other
  rw [get?_eraseAll]
  split
  · next hother => exact (eraseAll_fst_eq_zero_iff.1 h other hother).symm
  · rfl

end RingStore.Keyspace
