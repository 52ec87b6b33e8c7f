import RingStore.Hash.SipHash
import RingStore.Keyspace.Table
import RingStore.Machine

/-!
# Striped keyspaces

The keyspace of a database is a fixed array of tables, the *stripes*. A hash of the key names the
stripe that the key lives in, so an operation on one key touches one stripe only. The number of
stripes is a power of two. Seen from outside, a keyspace is one finite map.

## Main definitions

* `Keyspace`: stripes together with the invariant that each key lives in its own stripe.
* `Keyspace.get?`: the look-up through which a keyspace is seen as a finite map.

## Main results

* `get?_put`, `get?_putIfAbsent`, `get?_putIfPresent`, `get?_erase`, `get?_clear`: what an operation
  does to the map.
* `mem_keys_iff`: the keys listed are those that a look-up finds.
-/

namespace RingStore

/-- The stripe, among a number of stripes, that a key lives in. The hash takes in the key's length
and its bytes under a key of its own. -/
def stripeIndex (count : Nat) (key : Bytes) : Nat :=
  (Hash.sipHash 0x9e3779b97f4a7c15 0xc2b2ae3d27d4eb4f
    (Bytes.littleEndian 8 key.length ++ key)).toNat % count

/-- A keyspace: at least one stripe, and every key in the stripe that its hash names. -/
structure Keyspace where
  /-- The stripes. -/
  stripes : Array Table
  /-- There is a stripe for every key. -/
  size_pos : 0 < stripes.size
  /-- A key is found in its own stripe only. -/
  placed : ∀ (index : Nat) (h : index < stripes.size) (key : Bytes),
    stripes[index].contains key → stripeIndex stripes.size key = index

namespace Keyspace

/-- The number of stripes made for a requested number: the least power of two that reaches it. -/
def stripeCount (requested : Nat) : Nat :=
  (max requested 1).nextPowerOfTwo

/-- A keyspace without keys, for a requested number of stripes. -/
def empty (requested : Nat) : Keyspace where
  stripes := Array.replicate (stripeCount requested) Table.empty
  size_pos := by
    rw [Array.size_replicate]
    exact Nat.pos_of_isPowerOfTwo (Nat.isPowerOfTwo_nextPowerOfTwo _)
  placed index h key hkey := by
    simp [Table.contains] at hkey

/-- The number of stripes that a database has: four for each core, and at least sixteen. -/
def usualStripes [Machine] : Nat :=
  max (4 * Machine.cores) 16

instance : Inhabited Keyspace :=
  ⟨empty 1⟩

/-- The stripe that a key lives in. -/
def stripeOf (keyspace : Keyspace) (key : Bytes) : Nat :=
  stripeIndex keyspace.stripes.size key

theorem stripeOf_lt (keyspace : Keyspace) (key : Bytes) :
    keyspace.stripeOf key < keyspace.stripes.size :=
  Nat.mod_lt _ keyspace.size_pos

/-- The table of the stripe that a key lives in. -/
def tableOf (keyspace : Keyspace) (key : Bytes) : Table :=
  have := keyspace.stripeOf_lt key
  keyspace.stripes[keyspace.stripeOf key]

/-- The entity stored under a key. -/
def get? (keyspace : Keyspace) (key : Bytes) : Option Entity :=
  (keyspace.tableOf key).find? key

/-- The key occurs. -/
def contains (keyspace : Keyspace) (key : Bytes) : Bool :=
  (keyspace.get? key).isSome

/-- The number of keys. -/
def size (keyspace : Keyspace) : Nat :=
  keyspace.stripes.foldl (fun total table => total + table.size) 0

/-- There is no key. -/
def isEmpty (keyspace : Keyspace) : Bool :=
  keyspace.size == 0

/-- The keys with their entities, stripe by stripe. -/
def entries (keyspace : Keyspace) : List (Bytes × Entity) :=
  keyspace.stripes.toList.flatMap Table.entries

/-- The keys, stripe by stripe. -/
def keys (keyspace : Keyspace) : List Bytes :=
  keyspace.entries.map Prod.fst

/-- Changes the table of the stripe that `key` lives in, by a change that adds no other key. -/
def change (keyspace : Keyspace) (key : Bytes) (table : Table)
    (adds : ∀ other, table.contains other →
      other = key ∨ (keyspace.tableOf key).contains other) : Keyspace where
  stripes := keyspace.stripes.set (keyspace.stripeOf key) table (keyspace.stripeOf_lt key)
  size_pos := by rw [Array.size_set]; exact keyspace.size_pos
  placed index h other hother := by
    simp only [Array.size_set] at h ⊢
    rw [Array.getElem_set] at hother
    split at hother
    · next heq =>
      cases adds other hother with
      | inl hkey => rw [hkey, ← heq]; rfl
      | inr hin => rw [← heq]; exact keyspace.placed _ (keyspace.stripeOf_lt key) other hin
    · exact keyspace.placed index h other hother

/-- Stores an entity under a key, whatever was there; tells whether the key is new. -/
def put (keyspace : Keyspace) (key : Bytes) (entity : Entity) : Bool × Keyspace :=
  (!keyspace.contains key,
    keyspace.change key ((keyspace.tableOf key).insert key entity) fun other h => by
      rw [Table.contains, Table.find?_insert] at h
      split at h
      · exact .inl ‹_›
      · exact .inr h)

/-- Stores an entity under a key unless the key occurs; tells whether it was stored. -/
def putIfAbsent (keyspace : Keyspace) (key : Bytes) (entity : Entity) : Bool × Keyspace :=
  if keyspace.contains key then (false, keyspace) else (true, (keyspace.put key entity).2)

/-- Stores an entity under a key only if the key occurs; tells whether it was stored. -/
def putIfPresent (keyspace : Keyspace) (key : Bytes) (entity : Entity) : Bool × Keyspace :=
  if keyspace.contains key then (true, (keyspace.put key entity).2) else (false, keyspace)

/-- Removes a key; tells whether it was there. -/
def erase (keyspace : Keyspace) (key : Bytes) : Bool × Keyspace :=
  (keyspace.contains key,
    keyspace.change key ((keyspace.tableOf key).erase key) fun other h => by
      rw [Table.contains, Table.find?_erase] at h
      split at h
      · cases h
      · exact .inr h)

/-- Removes keys one after the other; tells how many were there. -/
def eraseAll (keyspace : Keyspace) : List Bytes → Nat × Keyspace
  | [] => (0, keyspace)
  | key :: rest =>
    let (found, afterOne) := keyspace.erase key
    let (count, afterAll) := afterOne.eraseAll rest
    (count + found.toNat, afterAll)

/-- Removes all keys. -/
def clear (keyspace : Keyspace) : Keyspace where
  stripes := keyspace.stripes.map fun _ => Table.empty
  size_pos := by rw [Array.size_map]; exact keyspace.size_pos
  placed index h key hkey := by
    simp [Table.contains] at hkey

/-- Shows entries to a visitor until it declines to go on. -/
def visitEntries {σ : Type} (visitor : σ → Bytes → Entity → σ × Bool) (state : σ) :
    List (Bytes × Entity) → σ
  | [] => state
  | (key, entity) :: rest =>
    let (next, goesOn) := visitor state key entity
    if goesOn then visitEntries visitor next rest else next

/-- Shows the entries to a visitor, stripe by stripe, until it declines to go on. -/
def visit {σ : Type} (keyspace : Keyspace) (visitor : σ → Bytes → Entity → σ × Bool) (state : σ) :
    σ :=
  visitEntries visitor state keyspace.entries

/-- The keys that draws name, where a draw is a number taken modulo the number of keys. Nothing is
drawn from a keyspace without keys. -/
def sample (keyspace : Keyspace) (draws : List Nat) : List Bytes :=
  let keys := keyspace.keys
  let count := keys.length
  draws.filterMap fun draw => keys[draw % count]?

/-- Distinct keys, as many as asked for if there are so many. -/
def sampleDistinct (keyspace : Keyspace) (limit : Nat) : List Bytes :=
  keyspace.keys.take limit

theorem tableOf_change {keyspace : Keyspace} {key other : Bytes} {table : Table} {adds} :
    (keyspace.change key table adds).tableOf other =
      if keyspace.stripeOf other = keyspace.stripeOf key then table
      else keyspace.tableOf other := by
  have hstripe : (keyspace.change key table adds).stripeOf other = keyspace.stripeOf other := by
    simp [stripeOf, change]
  simp only [tableOf, hstripe]
  simp only [change, Array.getElem_set, eq_comm]

theorem get?_put (keyspace : Keyspace) (key other : Bytes) (entity : Entity) :
    (keyspace.put key entity).2.get? other =
      if other = key then some entity else keyspace.get? other := by
  simp only [put, get?, tableOf_change]
  split
  · next h =>
    rw [Table.find?_insert]
    split
    · rfl
    · simp only [tableOf, h]
  · next h =>
    rw [if_neg (fun heq => h (by rw [heq]))]

theorem get?_putIfAbsent (keyspace : Keyspace) (key other : Bytes) (entity : Entity) :
    (keyspace.putIfAbsent key entity).2.get? other =
      if other = key ∧ ¬keyspace.contains key then some entity else keyspace.get? other := by
  unfold putIfAbsent
  split <;> simp_all [get?_put]

theorem get?_putIfPresent (keyspace : Keyspace) (key other : Bytes) (entity : Entity) :
    (keyspace.putIfPresent key entity).2.get? other =
      if other = key ∧ keyspace.contains key then some entity else keyspace.get? other := by
  unfold putIfPresent
  split <;> simp_all [get?_put]

theorem get?_erase (keyspace : Keyspace) (key other : Bytes) :
    (keyspace.erase key).2.get? other = if other = key then none else keyspace.get? other := by
  simp only [erase, get?, tableOf_change]
  split
  · next h =>
    rw [Table.find?_erase]
    split
    · rfl
    · simp only [tableOf, h]
  · next h =>
    rw [if_neg (fun heq => h (by rw [heq]))]

@[simp]
theorem get?_clear (keyspace : Keyspace) (key : Bytes) : keyspace.clear.get? key = none := by
  simp [get?, tableOf, clear]

@[simp]
theorem get?_empty (requested : Nat) (key : Bytes) : (empty requested).get? key = none := by
  simp [get?, tableOf, empty]

theorem mem_keys_iff {keyspace : Keyspace} {key : Bytes} :
    key ∈ keyspace.keys ↔ (keyspace.get? key).isSome := by
  have hflat : key ∈ keyspace.keys ↔ ∃ table ∈ keyspace.stripes.toList, key ∈ table.keys := by
    simp only [keys, entries, List.map_flatMap, List.mem_flatMap, Table.keys]
  rw [hflat]
  constructor
  · rintro ⟨table, htable, hkey⟩
    obtain ⟨index, hindex, rfl⟩ := List.getElem_of_mem htable
    have hlt : index < keyspace.stripes.size := by simpa using hindex
    rw [Table.mem_keys_iff] at hkey
    have hplace := keyspace.placed index hlt key (by simpa [Table.contains] using hkey)
    simpa [get?, tableOf, stripeOf, hplace] using hkey
  · intro h
    exact ⟨keyspace.tableOf key, by simp [tableOf], Table.mem_keys_iff.2 h⟩

end Keyspace

end RingStore
