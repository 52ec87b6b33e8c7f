import RingStore.Journal.Recovery
import RingStore.Proofs.Journal.Recorder
import RingStore.Proofs.Node

/-!
# Executing records again

When a node is opened, each of its databases executes again the records that were logged under its
number, in order, and no others. Records of numbers that the node does not have change nothing.

## Main definitions

* `linesFor`: of numbered command lines, those of one number.
* `JournaledNode.Holds`: what lies at a place is whole records.

## Main results

* `Node.keyspaceAt_replay`: what a database holds after records were executed again.
* `JournaledNode.recover_append`: what is found in a file of whole records and a torn one.
* `JournaledNode.openAt_of_recover`: opening a node on what was found.
-/

namespace RingStore

/-- Of command lines, each with the number of a database, those of one number. -/
def linesFor (index : Nat) (entries : List (Nat × CommandLine)) : List CommandLine :=
  (entries.filter fun entry => entry.1 = index).map Prod.snd

@[simp]
theorem linesFor_nil (index : Nat) : linesFor index [] = [] :=
  rfl

@[simp]
theorem linesFor_append (index : Nat) (front back : List (Nat × CommandLine)) :
    linesFor index (front ++ back) = linesFor index front ++ linesFor index back := by
  rw [linesFor, List.filter_append, List.map_append]
  rfl

theorem linesFor_cons (index : Nat) (entry : Nat × CommandLine)
    (rest : List (Nat × CommandLine)) :
    linesFor index (entry :: rest) =
      if entry.1 = index then entry.2 :: linesFor index rest else linesFor index rest := by
  by_cases h : entry.1 = index <;> simp [linesFor, h]

/-- Lines under one number are all of that number. -/
theorem linesFor_map_mk (index number : Nat) (lines : List CommandLine) :
    linesFor index (lines.map fun line => (number, line)) =
      if number = index then lines else [] := by
  induction lines with
  | nil => simp
  | cons line rest ih =>
    rw [List.map_cons, linesFor_cons, ih]
    by_cases h : number = index <;> simp [h]

namespace Record

/-- A record's command line with the number of its database. -/
def entry (record : Record) : Nat × CommandLine :=
  (record.database.toNat, record.line)

end Record

/-- The journal can keep what a command line logs: the number of its words and the lengths of its
arguments fit in four bytes. -/
structure CommandLine.Loggable (line : CommandLine) : Prop where
  /-- The words can be counted. -/
  count : line.length < Bytes.capacity 4
  /-- The lengths of the arguments can be written. -/
  arguments : ∀ argument ∈ line.tail, argument.length < Bytes.capacity 4

instance (line : CommandLine) : Decidable line.Loggable :=
  decidable_of_iff (line.length < Bytes.capacity 4 ∧
    ∀ argument ∈ line.tail, argument.length < Bytes.capacity 4)
    ⟨fun h => ⟨h.1, h.2⟩, fun h => ⟨h.count, h.arguments⟩⟩

/-- A logged line is as long as the executed one, and its name is short. -/
theorem CommandLine.Loggable.call {word : Bytes} {arguments : List Bytes}
    (h : CommandLine.Loggable (word :: arguments)) {name : String}
    (hname : name ∈ Catalogue.loggedNames) : (Catalogue.call name arguments).Fits where
  count := h.count
  words := by
    have hshort : ∀ name ∈ Catalogue.loggedNames,
        (Text.toBytes name).length < Bytes.capacity 4 := by
      decide +kernel
    exact List.forall_mem_cons.2 ⟨hshort name hname, h.arguments⟩

namespace Node

theorem count_replayOne (node : Node) (record : Record) :
    (node.replayOne record).count = node.count := by
  unfold replayOne
  split
  · exact count_exec node _ _
  · rfl

theorem Regular.replayOne [Machine] {node : Node} {journaled : Bool} (h : node.Regular journaled)
    (record : Record) : (node.replayOne record).Regular journaled := by
  unfold Node.replayOne
  split
  · exact h.exec _ _
  · exact h

/-- Executing a record again changes the database of its number only. -/
theorem keyspaceAt_replayOne [Machine] {node : Node}
    (hregistry : node.registry = Catalogue.registry)
    (record : Record) {index : Nat} (hindex : index < node.count) :
    (node.replayOne record).keyspaceAt index =
      if record.database.toNat = index then (node.keyspaceAt index).after record.line
      else node.keyspaceAt index := by
  unfold replayOne
  split
  · next hlt =>
    rw [keyspaceAt_exec hregistry]
    by_cases hsame : record.database.toNat = index
    · rw [if_pos hsame]
      have hsession : (⟨record.database.toNat⟩ : Session).database < node.count := hlt
      rcases target?_or_idle hsession record.line with htarget | hidle
      · rw [htarget, if_pos (congrArg some hsame)]
      · rw [hidle, ite_self]
    · refine (if_neg fun htarget => hsame ?_).trans (if_neg hsame).symm
      exact (lt_of_target?_eq_some htarget).2.symm
  · next hge =>
    have hother : record.database.toNat ≠ index := fun heq => hge (heq ▸ hindex)
    rw [if_neg hother]

theorem count_replay (node : Node) (records : List Record) :
    (node.replay records).count = node.count := by
  induction records generalizing node with
  | nil => rfl
  | cons record rest ih => exact (ih _).trans (count_replayOne node record)

theorem Regular.replay [Machine] {node : Node} {journaled : Bool} (h : node.Regular journaled)
    (records : List Record) : (node.replay records).Regular journaled := by
  induction records generalizing node with
  | nil => exact h
  | cons record rest ih => exact ih (h.replayOne record)

/-- After records were executed again, a database has executed the lines of its number in order. -/
theorem keyspaceAt_replay [Machine] {node : Node} {journaled : Bool}
    (hregular : node.Regular journaled)
    (records : List Record) {index : Nat} (hindex : index < node.count) :
    (node.replay records).keyspaceAt index =
      (linesFor index (records.map Record.entry)).foldl Keyspace.after (node.keyspaceAt index) := by
  induction records generalizing node with
  | nil => rfl
  | cons record rest ih =>
    have hone := keyspaceAt_replayOne hregular.registry record hindex
    have hmore := ih (hregular.replayOne record) ((count_replayOne node record).symm ▸ hindex)
    rw [replay, List.foldl_cons, ← replay, hmore, hone, List.map_cons, linesFor_cons]
    by_cases hsame : record.database.toNat = index
    · simp only [Record.entry, hsame, if_true, List.foldl_cons]
    · simp only [Record.entry, hsame, if_false]

end Node

namespace JournaledNode

open Journal

/-- A place holds whole records and nothing else; where no file is there are none. -/
inductive Holds : Place → List Record → Prop where
  /-- There is no file yet. -/
  | vacant : Holds .vacant []
  /-- There is a file. -/
  | file (records : List Record) : Holds (.file (Record.encodeAll journalChecksum records)) records

theorem Holds.openToAppend {place : Place} {records : List Record} (h : Holds place records) :
    place.openToAppend = .ok (Record.encodeAll journalChecksum records) := by
  cases h <;> rfl

/-- Whole records are all found, and what stands behind them is cut off if no record can be read of
it. -/
theorem recover_append {records : List Record} (h : ∀ record ∈ records, record.line.Fits)
    {tail : Bytes} {reason : Unreadable}
    (htail : Record.decode journalChecksum tail = .error reason) :
    recover (.file (Record.encodeAll journalChecksum records ++ tail)) =
      .ok (records, .file (Record.encodeAll journalChecksum records)) := by
  have hscan := scan_append journalChecksum h htail
  simp only [recover, Place.isOccupied, Place.read, Except.map, hscan, if_true]
  split
  · next hnone => rw [hnone, List.append_nil]
  · rw [Place.resize, readableLength, hscan, List.length_append, Nat.add_sub_cancel, List.take_left,
      Nat.sub_eq_zero_of_le (Nat.le_add_right _ _), List.replicate_zero, List.append_nil]

/-- Whole records are all found, and nothing is cut off. -/
theorem Holds.recover {place : Place} {records : List Record} (h : Holds place records)
    (hrecords : ∀ record ∈ records, record.line.Fits) :
    JournaledNode.recover place = .ok (records, place) := by
  cases h with
  | vacant => rfl
  | file =>
    have hwhole := recover_append hrecords (Record.decode_nil journalChecksum)
    rwa [List.append_nil] at hwhole

/-- A node is opened by executing again the records that are found; its writer goes on where they
end. -/
theorem openAt_of_recover [Machine] {place left : Place} {records : List Record} {content : Bytes}
    (hrecover : recover place = .ok (records, left)) (hopen : left.openToAppend = .ok content)
    (databases : Nat) (policy : SyncPolicy) :
    openAt databases ⟨true, policy⟩ place =
      .ok ⟨((Node.empty Catalogue.registry databases).replay records).journaled,
        some (.start (.ofContent policy content))⟩ := by
  have hwriter : Writer.ofPlace policy left = .ok (.ofContent policy content) := by
    rw [Writer.ofPlace, hopen]
    rfl
  simp only [openAt, if_true, hrecover]
  show (do
    let writer ← Writer.ofPlace policy left
    return (⟨((Node.empty Catalogue.registry databases).replay records).journaled,
      some (.start writer)⟩ : JournaledNode)) = _
  rw [hwriter]
  rfl

/-- Every opened node was opened on what was found. -/
theorem eq_of_openAt [Machine] {databases : Nat} {policy : SyncPolicy} {place : Place}
    {opened : JournaledNode} (h : openAt databases ⟨true, policy⟩ place = .ok opened) :
    ∃ records content,
      opened = ⟨((Node.empty Catalogue.registry databases).replay records).journaled,
        some (.start (.ofContent policy content))⟩ := by
  cases hrecover : recover place with
  | error failure =>
    simp only [openAt, if_true, hrecover] at h
    cases h
  | ok found =>
    cases hopen : found.2.openToAppend with
    | error failure =>
      have hwriter : Writer.ofPlace policy found.2 = .error failure := by
        rw [Writer.ofPlace, hopen]
        rfl
      simp only [openAt, if_true, hrecover] at h
      change (Writer.ofPlace policy found.2 >>= fun writer => _) = _ at h
      rw [hwriter] at h
      cases h
    | ok content =>
      rw [openAt_of_recover hrecover hopen] at h
      cases h
      exact ⟨_, _, rfl⟩

end JournaledNode

end RingStore
