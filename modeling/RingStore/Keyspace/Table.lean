import RingStore.Bytes

/-!
# Finite maps from keys to entities

A `Table` holds each key at most once, with the entity stored under it. It is both one stripe of a
keyspace and the plain finite map that a whole keyspace behaves like.

## Main results

* `find?_insert`, `find?_erase`, `find?_empty`: what an operation does to a look-up.
* `size_insert`, `size_erase`: what it does to the number of keys.
* `mem_keys_iff`: the keys are those that a look-up finds.
-/

namespace RingStore

/-- What is stored under a key. -/
structure Entity where
  /-- The stored bytes. -/
  data : Bytes
  deriving DecidableEq, Inhabited

/-- The name of an entity's type, as clients are told. -/
def Entity.typeName (_ : Entity) : String :=
  "string"

/-- A finite map from keys to entities. -/
structure Table where
  /-- The keys with their entities. -/
  entries : List (Bytes × Entity)
  /-- No key occurs twice. -/
  nodup : (entries.map Prod.fst).Nodup

namespace Table

/-- The map without keys. -/
def empty : Table :=
  ⟨[], List.nodup_nil⟩

instance : Inhabited Table :=
  ⟨empty⟩

/-- The entity that the first entry with the key holds. -/
def lookupIn (key : Bytes) : List (Bytes × Entity) → Option Entity
  | [] => none
  | entry :: rest => if entry.1 = key then some entry.2 else lookupIn key rest

/-- The entity stored under a key. -/
def find? (table : Table) (key : Bytes) : Option Entity :=
  lookupIn key table.entries

/-- The number of keys. -/
def size (table : Table) : Nat :=
  table.entries.length

/-- The keys, each once. -/
def keys (table : Table) : List Bytes :=
  table.entries.map Prod.fst

/-- Stores an entity under a key: in place where the key occurs, at the end otherwise. -/
def insertInto (key : Bytes) (entity : Entity) : List (Bytes × Entity) → List (Bytes × Entity)
  | [] => [(key, entity)]
  | entry :: rest =>
    if entry.1 = key then (key, entity) :: rest else entry :: insertInto key entity rest

theorem mem_keys_insertInto {key other : Bytes} {entity : Entity}
    {entries : List (Bytes × Entity)} :
    other ∈ (insertInto key entity entries).map Prod.fst ↔
      other = key ∨ other ∈ entries.map Prod.fst := by
  induction entries with
  | nil => simp [insertInto]
  | cons entry rest ih =>
    unfold insertInto
    split
    · next h => simp [h]
    · simp only [List.map_cons, List.mem_cons, ih]
      exact or_left_comm

theorem nodup_insertInto {key : Bytes} {entity : Entity} {entries : List (Bytes × Entity)}
    (h : (entries.map Prod.fst).Nodup) : ((insertInto key entity entries).map Prod.fst).Nodup := by
  induction entries with
  | nil => simp [insertInto]
  | cons entry rest ih =>
    rw [List.map_cons, List.nodup_cons] at h
    unfold insertInto
    split
    · next heq => rw [List.map_cons, List.nodup_cons]; exact ⟨heq ▸ h.1, h.2⟩
    · next hne =>
      rw [List.map_cons, List.nodup_cons, mem_keys_insertInto]
      exact ⟨fun hor => hor.elim hne h.1, ih h.2⟩

/-- Stores an entity under a key, whatever was there. -/
def insert (table : Table) (key : Bytes) (entity : Entity) : Table :=
  ⟨insertInto key entity table.entries, nodup_insertInto table.nodup⟩

/-- Removes a key. -/
def erase (table : Table) (key : Bytes) : Table :=
  ⟨table.entries.filter fun entry => entry.1 ≠ key,
    (List.filter_sublist.map Prod.fst).nodup table.nodup⟩

/-- The key occurs. -/
def contains (table : Table) (key : Bytes) : Bool :=
  (table.find? key).isSome

theorem lookupIn_insertInto (key other : Bytes) (entity : Entity)
    (entries : List (Bytes × Entity)) :
    lookupIn other (insertInto key entity entries) =
      if other = key then some entity else lookupIn other entries := by
  induction entries with
  | nil => grind [insertInto, lookupIn]
  | cons entry rest ih => grind [insertInto, lookupIn]

theorem lookupIn_filter (key other : Bytes) (entries : List (Bytes × Entity)) :
    lookupIn other (entries.filter fun entry => entry.1 ≠ key) =
      if other = key then none else lookupIn other entries := by
  induction entries with
  | nil => simp [lookupIn]
  | cons entry rest ih => by_cases h : entry.1 = key <;> grind [lookupIn]

theorem isSome_lookupIn {key : Bytes} {entries : List (Bytes × Entity)} :
    (lookupIn key entries).isSome ↔ key ∈ entries.map Prod.fst := by
  induction entries with
  | nil => simp [lookupIn]
  | cons entry rest ih => grind [lookupIn]

theorem length_insertInto (key : Bytes) (entity : Entity) (entries : List (Bytes × Entity)) :
    (insertInto key entity entries).length =
      if (lookupIn key entries).isSome then entries.length else entries.length + 1 := by
  induction entries with
  | nil => simp [insertInto, lookupIn]
  | cons entry rest ih => grind [insertInto, lookupIn]

theorem length_filter {key : Bytes} {entries : List (Bytes × Entity)}
    (nodup : (entries.map Prod.fst).Nodup) :
    (entries.filter fun entry => entry.1 ≠ key).length =
      if (lookupIn key entries).isSome then entries.length - 1 else entries.length := by
  induction entries with
  | nil => simp [lookupIn]
  | cons entry rest ih =>
    rw [List.map_cons, List.nodup_cons] at nodup
    have ih := ih nodup.2
    by_cases h : entry.1 = key
    · subst h
      have hnone : ¬ (lookupIn entry.1 rest).isSome :=
        fun hsome => nodup.1 (isSome_lookupIn.1 hsome)
      rw [if_neg hnone] at ih
      rw [List.filter_cons_of_neg (by simp), ih]
      simp [lookupIn]
    · have hpos : (lookupIn key rest).isSome → 0 < rest.length := by
        cases rest <;> simp [lookupIn]
      rw [List.filter_cons_of_pos (by simpa using h), List.length_cons, ih]
      simp only [lookupIn, if_neg h, List.length_cons]
      split
      · next hsome => have := hpos hsome; omega
      · rfl

@[simp]
theorem find?_empty (key : Bytes) : empty.find? key = none :=
  rfl

theorem find?_insert (table : Table) (key other : Bytes) (entity : Entity) :
    (table.insert key entity).find? other =
      if other = key then some entity else table.find? other :=
  lookupIn_insertInto key other entity table.entries

theorem find?_erase (table : Table) (key other : Bytes) :
    (table.erase key).find? other = if other = key then none else table.find? other :=
  lookupIn_filter key other table.entries

theorem mem_keys_iff {table : Table} {key : Bytes} :
    key ∈ table.keys ↔ (table.find? key).isSome :=
  isSome_lookupIn.symm

theorem size_insert (table : Table) (key : Bytes) (entity : Entity) :
    (table.insert key entity).size = if table.contains key then table.size else table.size + 1 :=
  length_insertInto key entity table.entries

theorem size_erase (table : Table) (key : Bytes) :
    (table.erase key).size = if table.contains key then table.size - 1 else table.size :=
  length_filter table.nodup

end Table

end RingStore
