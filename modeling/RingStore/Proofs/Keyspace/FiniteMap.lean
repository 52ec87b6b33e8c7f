import Mathlib.Data.Finmap
import RingStore.Proofs.Keyspace.KeySet

/-!
# Keyspaces are finite maps

However many stripes a keyspace has, whoever uses it through its operations cannot tell it from one
finite map: every result is one that the map would give. Only the order in which keys are listed and
entries are visited is left open, and even then each stands exactly once.

A keyspace is compared with a finite map by look-ups alone. Every operation keeps the two in step,
because a key is only ever stored in the stripe that its hash names; so an operation on one key
reads and changes what the map holds under that key, and an operation on all keys finds each of
them in one stripe.

## Main definitions

* `Keyspace.Operation`, `Keyspace.perform`: what can be asked of a keyspace.
* `Keyspace.Answers`, `Keyspace.AnswersAll`: what a finite map may answer.
* `Keyspace.Shown`: the entries that a visitor is shown.
* `Keyspace.Holds`: a keyspace holds a finite map.

## Main results

* `Keyspace.Holds.eraseAll_fst`: how many keys a removal of several removes.
* `Keyspace.exists_shown_entries`: what any visitor of a list of entries is shown.
* `Keyspace.Holds.perform`: every operation keeps a keyspace in step with a finite map.
* `Keyspace.performs_as_finite_map`: any operations on a keyspace without keys at first.
-/

namespace RingStore

/-- A finite map from keys to entities. -/
abbrev EntityMap := Finmap fun _ : Bytes => Entity

namespace EntityMap

variable (map : EntityMap) (key other : Bytes) (entity : Entity)

theorem lookup_insert_eq :
    (map.insert key entity).lookup other =
      if other = key then some entity else map.lookup other := by
  split
  · next h => rw [h, Finmap.lookup_insert]
  · next h => rw [Finmap.lookup_insert_of_ne map h]

theorem lookup_erase_eq :
    (map.erase key).lookup other = if other = key then none else map.lookup other := by
  split
  · next h => rw [h, Finmap.lookup_erase]
  · next h => rw [Finmap.lookup_erase_ne h]

end EntityMap

/-- An entry of a table is what is found under its key. -/
theorem Table.find?_of_mem_entries {table : Table} {entry : Bytes × Entity}
    (h : entry ∈ table.entries) : table.find? entry.1 = some entry.2 := by
  obtain ⟨entries, nodup⟩ := table
  show lookupIn entry.1 entries = some entry.2
  induction entries with
  | nil => cases h
  | cons first rest ih =>
    rw [List.map_cons, List.nodup_cons] at nodup
    rcases List.mem_cons.1 h with rfl | hrest
    · rw [lookupIn, if_pos rfl]
    · -- the key of a later entry is not that of the first one
      have hne : first.1 ≠ entry.1 := fun heq => nodup.1 (heq ▸ List.mem_map_of_mem hrest)
      rw [lookupIn, if_neg hne]
      exact ih nodup.2 hrest

namespace Keyspace

/-- What can be asked of a keyspace. -/
inductive Operation : Type 1 where
  /-- The entity stored under a key. -/
  | get (key : Bytes)
  /-- Storing an entity under a key, whatever was there. -/
  | put (key : Bytes) (entity : Entity)
  /-- Storing an entity under a key that does not occur. -/
  | putIfAbsent (key : Bytes) (entity : Entity)
  /-- Storing an entity under a key that occurs. -/
  | putIfPresent (key : Bytes) (entity : Entity)
  /-- Removing a key. -/
  | erase (key : Bytes)
  /-- Removing keys one after the other. -/
  | eraseAll (keys : List Bytes)
  /-- Removing all keys. -/
  | clear
  /-- The number of keys. -/
  | size
  /-- All keys. -/
  | keys
  /-- Showing the entries to a visitor until it declines to go on. -/
  | visit {σ : Type} (visitor : σ → Bytes → Entity → σ × Bool) (state : σ)

/-- What is answered. -/
inductive Result : Type 1 where
  /-- What is stored under a key. -/
  | found (entity : Option Entity)
  /-- A number of keys. -/
  | count (number : Nat)
  /-- Nothing. -/
  | done
  /-- A list of keys. -/
  | listed (keys : List Bytes)
  /-- The state that a visitor is left in. -/
  | left {σ : Type} (state : σ)

/-- The result of an operation and the keyspace after it. An operation on one key counts the keys
for which it did something. -/
def perform (keyspace : Keyspace) : Operation → Result × Keyspace
  | .get key => (.found (keyspace.get? key), keyspace)
  | .put key entity =>
    let (isNew, after) := keyspace.put key entity
    (.count isNew.toNat, after)
  | .putIfAbsent key entity =>
    let (stored, after) := keyspace.putIfAbsent key entity
    (.count stored.toNat, after)
  | .putIfPresent key entity =>
    let (stored, after) := keyspace.putIfPresent key entity
    (.count stored.toNat, after)
  | .erase key =>
    let (found, after) := keyspace.erase key
    (.count found.toNat, after)
  | .eraseAll keys =>
    let (count, after) := keyspace.eraseAll keys
    (.count count, after)
  | .clear => (.done, keyspace.clear)
  | .size => (.count keyspace.size, keyspace)
  | .keys => (.listed keyspace.keys, keyspace)
  | .visit visitor state => (.left (keyspace.visit visitor state), keyspace)

/-- The results of operations, in order, and the keyspace after them. -/
def performAll (keyspace : Keyspace) : List Operation → List Result × Keyspace
  | [] => ([], keyspace)
  | operation :: rest =>
    let (result, next) := keyspace.perform operation
    let (results, last) := next.performAll rest
    (result :: results, last)

section Visitor

variable {σ : Type} (visitor : σ → Bytes → Entity → σ × Bool)

/-- The state of a visitor after it was shown an entry. -/
def tell (state : σ) (entry : Bytes × Entity) : σ :=
  (visitor state entry.1 entry.2).1

/-- A visitor goes on after it was shown an entry. -/
def goesOn (state : σ) (entry : Bytes × Entity) : Bool :=
  (visitor state entry.1 entry.2).2

/-- The entries of a finite map that a visitor is shown, in order, when it starts in a state. -/
structure Shown (map : EntityMap) (state : σ) (shown : List (Bytes × Entity)) : Prop where
  /-- No entry is shown twice. -/
  nodup : (shown.map Prod.fst).Nodup
  /-- Each is one of the map. -/
  current : ∀ entry ∈ shown, map.lookup entry.1 = some entry.2
  /-- Nothing more is shown after the visitor has declined to go on. -/
  stops : ∀ front entry after, shown = front ++ entry :: after → after ≠ [] →
    goesOn visitor (front.foldl (tell visitor) state) entry = true
  /-- Unless it declines, it is shown all of them. -/
  complete : (∃ front entry, shown = front ++ [entry] ∧
      goesOn visitor (front.foldl (tell visitor) state) entry = false) ∨
    ∀ key ∈ map, key ∈ shown.map Prod.fst

end Visitor

/-- What a finite map may answer to an operation, and the map after it. -/
inductive Answers (map : EntityMap) : Operation → Result → EntityMap → Prop where
  /-- What is stored under a key. -/
  | get (key : Bytes) : Answers map (.get key) (.found (map.lookup key)) map
  /-- A key that is stored counts if it is new. -/
  | put (key : Bytes) (entity : Entity) :
      Answers map (.put key entity) (.count (if key ∈ map then 0 else 1)) (map.insert key entity)
  /-- Only a new key is stored. -/
  | putIfAbsent (key : Bytes) (entity : Entity) :
      Answers map (.putIfAbsent key entity) (.count (if key ∈ map then 0 else 1))
        (if key ∈ map then map else map.insert key entity)
  /-- Only under a key that occurs something is stored. -/
  | putIfPresent (key : Bytes) (entity : Entity) :
      Answers map (.putIfPresent key entity) (.count (if key ∈ map then 1 else 0))
        (if key ∈ map then map.insert key entity else map)
  /-- A key that is removed counts if it occurred. -/
  | erase (key : Bytes) :
      Answers map (.erase key) (.count (if key ∈ map then 1 else 0)) (map.erase key)
  /-- Of several keys each that occurred counts once. -/
  | eraseAll (keys : List Bytes) :
      Answers map (.eraseAll keys) (.count (map.keys.filter (· ∈ keys)).card)
        (keys.foldl (fun left key => left.erase key) map)
  /-- Nothing is left. -/
  | clear : Answers map .clear .done ∅
  /-- The number of keys. -/
  | size : Answers map .size (.count map.keys.card) map
  /-- The keys in any order, each once. -/
  | keys {listed : List Bytes} (nodup : listed.Nodup) (complete : ∀ key, key ∈ listed ↔ key ∈ map) :
      Answers map .keys (.listed listed) map
  /-- The state of a visitor that was shown entries in any order. -/
  | visit {σ : Type} {visitor : σ → Bytes → Entity → σ × Bool} {state : σ}
      {shown : List (Bytes × Entity)} (h : Shown visitor map state shown) :
      Answers map (.visit visitor state) (.left (shown.foldl (tell visitor) state)) map

/-- What a finite map may answer to operations, in order, and the map after them. -/
inductive AnswersAll : EntityMap → List Operation → List Result → EntityMap → Prop where
  /-- Nothing is asked. -/
  | nil (map : EntityMap) : AnswersAll map [] [] map
  /-- The first operation is answered, and the map after it answers the others. -/
  | cons {map next last : EntityMap} {operation : Operation} {result : Result}
      {operations : List Operation} {results : List Result} (h : Answers map operation result next)
      (hrest : AnswersAll next operations results last) :
      AnswersAll map (operation :: operations) (result :: results) last

/-- A keyspace holds a finite map. -/
def Holds (keyspace : Keyspace) (map : EntityMap) : Prop :=
  ∀ key, keyspace.get? key = map.lookup key

variable {keyspace : Keyspace} {map : EntityMap}

theorem holds_empty (requested : Nat) : (empty requested).Holds ∅ := by
  intro key
  rw [get?_empty, Finmap.lookup_empty]

namespace Holds

variable (h : keyspace.Holds map)

include h

theorem contains_eq (key : Bytes) : keyspace.contains key = decide (key ∈ map) := by
  rw [contains, h key, Bool.eq_iff_iff, decide_eq_true_iff]
  exact Finmap.lookup_isSome

theorem mem_keys_iff (key : Bytes) : key ∈ keyspace.keys ↔ key ∈ map := by
  rw [Keyspace.mem_keys_iff, h key]
  exact Finmap.lookup_isSome

theorem keySet_eq : keyspace.keySet = map.keys := by
  ext key
  rw [mem_keySet_iff, h.contains_eq, decide_eq_true_iff, Finmap.mem_keys]

theorem size_eq : keyspace.size = map.keys.card := by
  rw [← card_keySet, h.keySet_eq]

theorem put (key : Bytes) (entity : Entity) :
    (keyspace.put key entity).2.Holds (map.insert key entity) := by
  intro other
  rw [get?_put, EntityMap.lookup_insert_eq, h other]

theorem put_fst (key : Bytes) (entity : Entity) :
    (keyspace.put key entity).1.toNat = if key ∈ map then 0 else 1 := by
  show (!keyspace.contains key).toNat = _
  rw [h.contains_eq]
  by_cases hkey : key ∈ map <;> simp [hkey]

theorem putIfAbsent (key : Bytes) (entity : Entity) :
    (keyspace.putIfAbsent key entity).1.toNat = (if key ∈ map then 0 else 1) ∧
      (keyspace.putIfAbsent key entity).2.Holds
        (if key ∈ map then map else map.insert key entity) := by
  have hcontains := h.contains_eq key
  by_cases hkey : key ∈ map
  · rw [decide_eq_true hkey] at hcontains
    rw [putIfAbsent_of_contains hcontains, if_pos hkey, if_pos hkey]
    exact ⟨rfl, h⟩
  · rw [decide_eq_false hkey] at hcontains
    rw [putIfAbsent_of_not_contains hcontains, if_neg hkey, if_neg hkey]
    exact ⟨rfl, h.put key entity⟩

theorem putIfPresent (key : Bytes) (entity : Entity) :
    (keyspace.putIfPresent key entity).1.toNat = (if key ∈ map then 1 else 0) ∧
      (keyspace.putIfPresent key entity).2.Holds
        (if key ∈ map then map.insert key entity else map) := by
  rw [Keyspace.putIfPresent, h.contains_eq]
  by_cases hkey : key ∈ map
  · rw [decide_eq_true hkey, if_pos rfl, if_pos hkey, if_pos hkey]
    exact ⟨rfl, h.put key entity⟩
  · rw [decide_eq_false hkey, if_neg Bool.false_ne_true, if_neg hkey, if_neg hkey]
    exact ⟨rfl, h⟩

theorem erase (key : Bytes) : (keyspace.erase key).2.Holds (map.erase key) := by
  intro other
  rw [get?_erase, EntityMap.lookup_erase_eq, h other]

theorem erase_fst (key : Bytes) :
    (keyspace.erase key).1.toNat = if key ∈ map then 1 else 0 := by
  show (keyspace.contains key).toNat = _
  rw [h.contains_eq]
  by_cases hkey : key ∈ map <;> simp [hkey]

theorem eraseAll (keys : List Bytes) :
    (keyspace.eraseAll keys).2.Holds (keys.foldl (fun left key => left.erase key) map) := by
  induction keys generalizing keyspace map with
  | nil => exact h
  | cons key rest ih => exact ih (h.erase key)

/-- Removing several keys counts each of them once that occurs. -/
theorem eraseAll_fst (keys : List Bytes) :
    (keyspace.eraseAll keys).1 = (map.keys.filter (· ∈ keys)).card := by
  have hcommon : map.keys ∩ keys.toFinset = map.keys.filter (· ∈ keys) := by
    ext key
    rw [Finset.mem_inter, Finset.mem_filter, List.mem_toFinset]
  rw [eraseAll_fst_eq_card, h.keySet_eq, hcommon]

end Holds

/-- An entry of a keyspace is what is stored under its key. -/
theorem get?_of_mem_entries {entry : Bytes × Entity} (h : entry ∈ keyspace.entries) :
    keyspace.get? entry.1 = some entry.2 := by
  obtain ⟨table, htable, hentry⟩ := List.mem_flatMap.1 h
  obtain ⟨index, hindex, rfl⟩ := List.getElem_of_mem htable
  have hlt : index < keyspace.stripes.size := by simpa using hindex
  have hfound : keyspace.stripes[index].find? entry.1 = some entry.2 :=
    Table.find?_of_mem_entries hentry
  -- the stripe in which the entry was met is the one in which its key is looked up
  have hplace := keyspace.placed index hlt entry.1 (by rw [Table.contains, hfound]; rfl)
  simpa only [get?, tableOf, stripeOf, hplace] using hfound

section Visitor

variable {σ : Type} (visitor : σ → Bytes → Entity → σ × Bool)

/-- A visitor of entries is shown the first ones of them: those up to the first after which it
declines to go on, or all. -/
theorem exists_shown_entries (state : σ) (entries : List (Bytes × Entity)) :
    ∃ shown, shown <+: entries ∧
      visitEntries visitor state entries = shown.foldl (tell visitor) state ∧
      (∀ front entry after, shown = front ++ entry :: after → after ≠ [] →
        goesOn visitor (front.foldl (tell visitor) state) entry = true) ∧
      ((∃ front entry, shown = front ++ [entry] ∧
        goesOn visitor (front.foldl (tell visitor) state) entry = false) ∨ shown = entries) := by
  induction entries generalizing state with
  | nil => exact ⟨[], List.prefix_rfl, rfl, by simp, .inr rfl⟩
  | cons first rest ih =>
    cases hfirst : goesOn visitor state first with
    | false =>
      -- the entry after which it declines is the last that it is shown
      have hvisit : visitEntries visitor state (first :: rest) = tell visitor state first :=
        if_neg (Bool.eq_false_iff.1 hfirst)
      refine ⟨[first], ⟨rest, rfl⟩, hvisit, ?_, .inl ⟨[], first, rfl, hfirst⟩⟩
      intro front entry after heq hafter
      cases front with
      | nil => exact absurd (List.cons.inj heq).2.symm hafter
      | cons _ _ => simp at heq
    | true =>
      obtain ⟨shown, hfront, hvisit, hstops, hends⟩ := ih (tell visitor state first)
      have hstep : visitEntries visitor state (first :: rest) =
          visitEntries visitor (tell visitor state first) rest := if_pos hfirst
      refine ⟨first :: shown, (List.prefix_cons_inj first).2 hfront, hstep.trans hvisit, ?_, ?_⟩
      · intro front entry after heq hafter
        cases front with
        | nil =>
          obtain ⟨rfl, -⟩ := List.cons.inj heq
          exact hfirst
        | cons _ front =>
          obtain ⟨rfl, hshown⟩ := List.cons.inj heq
          exact hstops front entry after hshown hafter
      · refine hends.imp ?_ (congrArg (first :: ·))
        rintro ⟨front, entry, rfl, hdeclines⟩
        exact ⟨first :: front, entry, rfl, hdeclines⟩

/-- What a visitor of a keyspace is shown. -/
theorem Holds.exists_shown (h : keyspace.Holds map) (state : σ) :
    ∃ shown, Shown visitor map state shown ∧
      keyspace.visit visitor state = shown.foldl (tell visitor) state := by
  obtain ⟨shown, hfront, hvisit, hstops, hends⟩ :=
    exists_shown_entries visitor state keyspace.entries
  refine ⟨shown, ⟨?_, ?_, hstops, ?_⟩, hvisit⟩
  · exact (hfront.sublist.map Prod.fst).nodup keyspace.nodup_keys
  · intro entry hentry
    rw [← h, get?_of_mem_entries (hfront.subset hentry)]
  · refine hends.imp id ?_
    rintro rfl key hkey
    exact (h.mem_keys_iff key).2 hkey

end Visitor

/-- Whatever is asked of a keyspace that holds a finite map, the result is one that the map may
give, and the keyspace goes on holding the map. -/
theorem Holds.perform (h : keyspace.Holds map) (operation : Operation) :
    ∃ next, Answers map operation (keyspace.perform operation).1 next ∧
      (keyspace.perform operation).2.Holds next := by
  -- each operation has one lemma for what it counts and one for what it leaves
  cases operation with
  | get key =>
    refine ⟨map, ?_, h⟩
    show Answers map _ (.found (keyspace.get? key)) map
    rw [h key]
    exact .get key
  | put key entity =>
    refine ⟨_, ?_, h.put key entity⟩
    show Answers map _ (.count (keyspace.put key entity).1.toNat) _
    rw [h.put_fst]
    exact .put key entity
  | putIfAbsent key entity =>
    obtain ⟨hcount, hnext⟩ := h.putIfAbsent key entity
    refine ⟨_, ?_, hnext⟩
    show Answers map _ (.count (keyspace.putIfAbsent key entity).1.toNat) _
    rw [hcount]
    exact .putIfAbsent key entity
  | putIfPresent key entity =>
    obtain ⟨hcount, hnext⟩ := h.putIfPresent key entity
    refine ⟨_, ?_, hnext⟩
    show Answers map _ (.count (keyspace.putIfPresent key entity).1.toNat) _
    rw [hcount]
    exact .putIfPresent key entity
  | erase key =>
    refine ⟨_, ?_, h.erase key⟩
    show Answers map _ (.count (keyspace.erase key).1.toNat) _
    rw [h.erase_fst]
    exact .erase key
  | eraseAll keys =>
    refine ⟨_, ?_, h.eraseAll keys⟩
    show Answers map _ (.count (keyspace.eraseAll keys).1) _
    rw [h.eraseAll_fst]
    exact .eraseAll keys
  | clear =>
    refine ⟨∅, .clear, fun key => ?_⟩
    show keyspace.clear.get? key = _
    rw [get?_clear, Finmap.lookup_empty]
  | size =>
    refine ⟨map, ?_, h⟩
    show Answers map _ (.count keyspace.size) map
    rw [h.size_eq]
    exact .size
  | keys => exact ⟨map, .keys keyspace.nodup_keys h.mem_keys_iff, h⟩
  | visit visitor state =>
    obtain ⟨shown, hshown, hvisit⟩ := h.exists_shown visitor state
    refine ⟨map, ?_, h⟩
    show Answers map _ (.left (keyspace.visit visitor state)) map
    rw [hvisit]
    exact .visit hshown

theorem Holds.performAll (h : keyspace.Holds map) (operations : List Operation) :
    ∃ last, AnswersAll map operations (keyspace.performAll operations).1 last ∧
      (keyspace.performAll operations).2.Holds last := by
  induction operations generalizing keyspace map with
  | nil => exact ⟨map, .nil map, h⟩
  | cons operation rest ih =>
    obtain ⟨next, hanswer, hnext⟩ := h.perform operation
    obtain ⟨last, hrest, hlast⟩ := ih hnext
    exact ⟨last, .cons hanswer hrest, hlast⟩

/-- However many stripes are asked for, a keyspace without keys at first answers any operations as a
finite map would that is empty at first, and holds that map afterwards. -/
theorem performs_as_finite_map (requested : Nat) (operations : List Operation) :
    ∃ map, AnswersAll ∅ operations ((empty requested).performAll operations).1 map ∧
      ((empty requested).performAll operations).2.Holds map :=
  (holds_empty requested).performAll operations

end Keyspace

end RingStore
