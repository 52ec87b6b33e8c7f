import RingStore.Node
import RingStore.Proofs.Command.Redo
import RingStore.Proofs.Text.Lowercase

/-!
# What one command line does to a node

A command line is executed by at most one database of a node: the one that the session has selected,
unless the line is a selection. Every other database, the number of databases and the commands stay
as they are.

## Main definitions

* `Node.target?`: the number of the database that executes a command line.
* `Node.keyspaceAt`: the keyspace of a database by its number.
* `Node.Regular`: a node of the catalogue whose databases carry their own numbers.

## Main results

* `Node.lowercase_of_isSelect`: a selection goes by one name in small letters.
* `Node.keyspaceAt_exec`: what a command line does to each keyspace.
* `Node.writes_exec`: what it hands to the journal.
-/

namespace RingStore.Node

/-- The number of the database that executes a command line for a session, if one does. -/
def target? (node : Node) (session : Session) : CommandLine → Option Nat
  | [] => none
  | name :: _ =>
    if isSelect name then none
    else if session.database < node.count then some session.database
    else none

/-- The keyspace of the database with a number; one without keys if there is no such database. -/
def keyspaceAt [Machine] (node : Node) (index : Nat) : Keyspace :=
  ((node.databases[index]?).map Database.keyspace).getD (.empty Keyspace.usualStripes)

/-- The commands are those of the catalogue, and every database carries its own number and hands its
changes to a journal or not. -/
structure Regular [Machine] (node : Node) (journaled : Bool) : Prop where
  /-- The commands are those of the catalogue. -/
  registry : node.registry = Catalogue.registry
  /-- Databases carry their numbers. -/
  index : ∀ (index : Nat) (h : index < node.databases.size), node.databases[index].index = index
  /-- They hand their changes to a journal, or do not. -/
  journaled : ∀ (index : Nat) (h : index < node.databases.size),
    node.databases[index].journaled = journaled

theorem keyspaceAt_of_lt [Machine] {node : Node} {index : Nat} (h : index < node.databases.size) :
    node.keyspaceAt index = node.databases[index].keyspace := by
  rw [keyspaceAt, Array.getElem?_eq_getElem h]
  rfl

theorem lt_of_target?_eq_some {node : Node} {session : Session} {line : CommandLine} {index : Nat}
    (h : node.target? session line = some index) :
    index < node.databases.size ∧ index = session.database := by
  unfold target? at h
  split at h
  · cases h
  · split at h
    · cases h
    · split at h
      · next hlt =>
        cases h
        exact ⟨hlt, rfl⟩
      · cases h

/-- A name that selects a database is written as such in small letters. -/
theorem lowercase_of_isSelect {name : Bytes} (h : isSelect name = true) :
    Text.lowercase (Text.ofBytes name) = "select" := by
  have hname : name.map Bytes.toAsciiLower = (Text.toBytes "select").map Bytes.toAsciiLower :=
    beq_iff_eq.1 h
  -- the name is compared byte by byte; only ASCII letters agree with those of the word
  have hword : ∀ byte ∈ (Text.toBytes "select").map Bytes.toAsciiLower, byte.toNat < 128 := by
    decide +kernel
  rw [Text.lowercase_ascii fun byte hbyte => Text.lt_of_toAsciiLower_lt <|
    hword _ (hname ▸ List.mem_map_of_mem hbyte), hname]
  decide +kernel

/-- A line given to a session that has selected a database is executed by it, or would change no
keyspace at all. -/
theorem target?_or_idle [Machine] {node : Node} {session : Session}
    (hlt : session.database < node.count) (line : CommandLine) :
    node.target? session line = some session.database ∨
      ∀ keyspace : Keyspace, keyspace.after line = keyspace := by
  cases line with
  | nil => exact .inr fun _ => rfl
  | cons name arguments =>
    cases hselect : isSelect name with
    | false => exact .inl (by simp only [target?, hselect, Bool.false_eq_true, if_false,
        if_pos hlt])
    | true =>
      -- no database has a command of this name
      have hfind : Catalogue.registry.find? (Text.lowercase (Text.ofBytes name)) = none := by
        rw [lowercase_of_isSelect hselect, Catalogue.find?_select]
      exact .inr fun keyspace => by simp only [Keyspace.after, Registry.resolve, hfind]

/-- A line without a target changes no database and hands nothing to the journal. -/
theorem exec_of_target?_eq_none {node : Node} {session : Session} {line : CommandLine}
    (h : node.target? session line = none) :
    (node.exec session line).state = node ∧ (node.exec session line).writes = [] := by
  unfold target? at h
  split at h
  · exact ⟨rfl, rfl⟩
  · next name arguments =>
    by_cases hselect : isSelect name
    · simp only [exec, hselect, if_true]
      split
      · unfold select
        split
        · exact ⟨rfl, rfl⟩
        · split <;> exact ⟨rfl, rfl⟩
      · exact ⟨rfl, rfl⟩
    · rw [if_neg hselect] at h
      have hlt : ¬session.database < node.count := by
        intro hlt
        rw [if_pos hlt] at h
        cases h
      rw [count] at hlt
      simp only [exec, hselect, execSelected, dif_neg hlt]
      exact ⟨rfl, rfl⟩

/-- A line with a target is executed by it. -/
theorem exec_of_target?_eq_some {node : Node} {session : Session} {line : CommandLine} {index : Nat}
    (h : node.target? session line = some index) :
    node.exec session line =
      have hlt := (lt_of_target?_eq_some h).1
      let execution := node.databases[index].exec node.registry line
      ⟨{ node with databases := node.databases.set index execution.database },
        session, execution.writes, execution.outcome⟩ := by
  obtain ⟨hlt, rfl⟩ := lt_of_target?_eq_some h
  unfold target? at h
  split at h
  · cases h
  · next name arguments =>
    by_cases hselect : isSelect name
    · rw [if_pos hselect] at h
      cases h
    · simp only [exec, hselect, execSelected, dif_pos hlt]
      rfl

/-- The database that executes a line is the only one that changes. -/
theorem keyspaceAt_exec [Machine] {node : Node} (hregistry : node.registry = Catalogue.registry)
    (session : Session) (line : CommandLine) (index : Nat) :
    (node.exec session line).state.keyspaceAt index =
      if node.target? session line = some index then (node.keyspaceAt index).after line
      else node.keyspaceAt index := by
  cases htarget : node.target? session line with
  | none =>
    rw [(exec_of_target?_eq_none htarget).1]
    rfl
  | some number =>
    obtain ⟨hlt, _⟩ := lt_of_target?_eq_some htarget
    rw [exec_of_target?_eq_some htarget]
    by_cases hsame : number = index
    · subst hsame
      rw [if_pos rfl, keyspaceAt_of_lt hlt, keyspaceAt, Array.getElem?_set_self hlt, hregistry,
        Database.database_exec]
      rfl
    · rw [if_neg fun heq => hsame (Option.some.inj heq), keyspaceAt,
        Array.getElem?_set_ne hlt hsame]
      rfl

/-- The lines logged by the database that executes a line are handed to the journal under the number
of that database. -/
theorem writes_exec [Machine] {node : Node} (h : node.Regular true) (session : Session)
    (line : CommandLine) :
    (node.exec session line).writes =
      match node.target? session line with
      | some index => ((node.keyspaceAt index).logged line).map fun logged => ⟨index, logged⟩
      | none => [] := by
  cases htarget : node.target? session line with
  | none => exact (exec_of_target?_eq_none htarget).2
  | some index =>
    obtain ⟨hlt, _⟩ := lt_of_target?_eq_some htarget
    rw [exec_of_target?_eq_some htarget]
    show (node.databases[index].exec node.registry line).writes = _
    rw [h.registry, Database.writes_exec (h.journaled index hlt), h.index index hlt,
      ← keyspaceAt_of_lt hlt]

/-- Executing a line keeps the number of databases. -/
theorem count_exec (node : Node) (session : Session) (line : CommandLine) :
    (node.exec session line).state.count = node.count := by
  cases htarget : node.target? session line with
  | none => rw [(exec_of_target?_eq_none htarget).1]
  | some index =>
    rw [exec_of_target?_eq_some htarget]
    exact Array.size_set (lt_of_target?_eq_some htarget).1

/-- Executing a line keeps the commands. -/
theorem registry_exec (node : Node) (session : Session) (line : CommandLine) :
    (node.exec session line).state.registry = node.registry := by
  cases htarget : node.target? session line with
  | none => rw [(exec_of_target?_eq_none htarget).1]
  | some index => rw [exec_of_target?_eq_some htarget]

theorem Regular.exec [Machine] {node : Node} {journaled : Bool} (h : node.Regular journaled)
    (session : Session) (line : CommandLine) :
    (node.exec session line).state.Regular journaled := by
  cases htarget : node.target? session line with
  | none =>
    rw [(exec_of_target?_eq_none htarget).1]
    exact h
  | some index =>
    obtain ⟨hlt, _⟩ := lt_of_target?_eq_some htarget
    rw [exec_of_target?_eq_some htarget]
    have hset : (node.databases[index].exec node.registry line).database =
        { node.databases[index] with keyspace := node.databases[index].keyspace.after line } := by
      rw [h.registry, Database.database_exec]
    refine ⟨h.registry, fun other hother => ?_, fun other hother => ?_⟩
    · simp only [hset, Array.getElem_set]
      split
      · next heq => rw [← heq, h.index index hlt]
      · exact h.index other _
    · simp only [hset, Array.getElem_set]
      split
      · exact h.journaled index hlt
      · exact h.journaled other _

/-- A new node has as many databases as were asked for, or the usual number. -/
theorem count_empty [Machine] (registry : Registry) (databases : Nat) :
    (empty registry databases).count = if databases = 0 then usualDatabases else databases := by
  rw [count, empty, Array.size_map, Array.size_range]

theorem keyspaceAt_empty [Machine] (registry : Registry) (databases index : Nat) :
    (empty registry databases).keyspaceAt index = .empty Keyspace.usualStripes := by
  rw [keyspaceAt, empty, Array.getElem?_map]
  generalize (Array.range _)[index]? = number
  cases number <;> rfl

theorem regular_empty [Machine] (databases : Nat) :
    (empty Catalogue.registry databases).Regular false where
  registry := rfl
  index number h := by simp [empty, Database.empty]
  journaled number h := by simp [empty, Database.empty]

/-- Joining the databases to a journal leaves what they store. -/
theorem keyspaceAt_journaled [Machine] (node : Node) (index : Nat) :
    node.journaled.keyspaceAt index = node.keyspaceAt index := by
  rw [keyspaceAt, keyspaceAt, Node.journaled, Array.getElem?_map, Option.map_map]
  rfl

theorem count_journaled (node : Node) : node.journaled.count = node.count :=
  Array.size_map

theorem Regular.journaled_true [Machine] {node : Node} {journaled : Bool}
    (h : node.Regular journaled) :
    node.journaled.Regular true where
  registry := h.registry
  index number hlt := by
    simp only [Node.journaled, Array.size_map, Array.getElem_map] at hlt ⊢
    exact h.index number hlt
  journaled number hlt := by simp only [Node.journaled, Array.getElem_map]

end RingStore.Node
