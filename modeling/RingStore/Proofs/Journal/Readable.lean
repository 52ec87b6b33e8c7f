import RingStore.Proofs.Journal.Recorder

/-!
# The readable part of a journal

A journal's file may hold any bytes. They divide in exactly one way into whole records and a tail
of which no record can be read, and reading finds this division. So the readable part is the
longest run of whole records at the front, and it does not depend on what stands behind it: cut off
where it ends, a file is read as before, and records appended there follow those that were found.

## Main definitions

* `Journal.Divides`: a content is whole records and a tail that starts with none.

## Main results

* `Journal.scan_eq_iff_divides`: reading finds the division of a content, and there is only one.
* `Journal.prefix_records_scan_iff`: the records found are as many as there are at the front.
* `Journal.readable_part_extends`: the readable part, on its own and with records appended to it.
-/

namespace RingStore.Journal

variable (checksum : Bytes → UInt64)

/-- A content is the bytes of whole records, followed by a tail of which no record can be read. -/
structure Divides (content : Bytes) (found : Scan) : Prop where
  /-- The records could be written. -/
  fits : ∀ record ∈ found.records, record.line.Fits
  /-- They and the tail make up the content. -/
  eq_append : content = Record.encodeAll checksum found.records ++ found.tail
  /-- No record starts where the tail does. -/
  ends : ∃ reason, Record.decode checksum found.tail = .error reason

variable {checksum} {content : Bytes} {found : Scan}

/-- Records in front of a content are in front of those that it divides into. -/
theorem Divides.encodeAll_append (h : Divides checksum content found) {front : List Record}
    (hfront : ∀ record ∈ front, record.line.Fits) :
    Divides checksum (Record.encodeAll checksum front ++ content)
      ⟨front ++ found.records, found.tail⟩ where
  fits := List.forall_mem_append.2 ⟨hfront, h.fits⟩
  eq_append := by rw [Record.encodeAll_append, List.append_assoc, ← h.eq_append]
  ends := h.ends

/-- Whole records divide into themselves, and nothing is left over. -/
theorem divides_encodeAll {records : List Record} (h : ∀ record ∈ records, record.line.Fits) :
    Divides checksum (Record.encodeAll checksum records) ⟨records, []⟩ where
  fits := h
  eq_append := (List.append_nil _).symm
  ends := ⟨_, Record.decode_nil checksum⟩

variable (checksum) in
/-- Reading on finds a division of the bytes that are left. -/
theorem exists_divides_scanOnto (read : List Record) (bytes : Bytes) :
    ∃ rest, Divides checksum bytes rest ∧
      scanOnto checksum read bytes = ⟨read.reverse ++ rest.records, rest.tail⟩ := by
  -- the induction is on what is left to be read, which every record shortens
  fun_induction scanOnto checksum read bytes with
  | case1 read bytes reason hdecode =>
    refine ⟨⟨[], bytes⟩, ⟨by simp, rfl, reason, hdecode⟩, ?_⟩
    rw [List.append_nil]
  | case2 read bytes record after hdecode _ ih =>
    obtain ⟨rest, hrest, hscan⟩ := ih
    obtain ⟨hfits, hbytes⟩ := Record.eq_of_decode hdecode
    have hone : Record.encodeAll checksum [record] = record.encode checksum := List.append_nil _
    refine ⟨⟨[record] ++ rest.records, rest.tail⟩, ?_, ?_⟩
    · rw [hbytes, ← hone]
      exact hrest.encodeAll_append (by simpa using hfits)
    · rw [hscan, List.reverse_cons, List.append_assoc]

/-- Reading a content finds the one way in which it divides into whole records and a tail. -/
theorem scan_eq_iff_divides : scan checksum content = found ↔ Divides checksum content found := by
  constructor
  · rintro rfl
    obtain ⟨rest, hrest, hscan⟩ := exists_divides_scanOnto checksum [] content
    rw [scan, hscan]
    exact hrest
  · intro h
    obtain ⟨reason, htail⟩ := h.ends
    rw [h.eq_append]
    exact scan_append checksum h.fits htail

variable (checksum content) in
theorem divides_scan : Divides checksum content (scan checksum content) :=
  scan_eq_iff_divides.1 rfl

/-- The readable part is as long as the bytes of the records that it divides into. -/
theorem Divides.readableLength_eq (h : Divides checksum content found) :
    readableLength checksum content = (Record.encodeAll checksum found.records).length := by
  rw [readableLength, scan_eq_iff_divides.2 h, h.eq_append, List.length_append,
    Nat.add_sub_cancel_right]

/-- The readable part is the bytes of the records, and the tail is what follows it. -/
theorem Divides.take_drop (h : Divides checksum content found) :
    content.take (readableLength checksum content) = Record.encodeAll checksum found.records ∧
      content.drop (readableLength checksum content) = found.tail := by
  rw [h.readableLength_eq]
  generalize hfront : Record.encodeAll checksum found.records = front
  rw [h.eq_append, hfront]
  exact ⟨List.take_left, List.drop_left⟩

/-- The records found are as many as there are at the front: all whose bytes the content starts
with. -/
theorem prefix_records_scan_iff {front : List Record} :
    front <+: (scan checksum content).records ↔
      (∀ record ∈ front, record.line.Fits) ∧ Record.encodeAll checksum front <+: content := by
  have hscan := divides_scan checksum content
  constructor
  · rintro ⟨others, hrecords⟩
    refine ⟨fun record hmem => hscan.fits record ?_, ?_⟩
    · rw [← hrecords]
      exact List.mem_append_left _ hmem
    · refine ⟨Record.encodeAll checksum others ++ (scan checksum content).tail, ?_⟩
      rw [← List.append_assoc, ← Record.encodeAll_append, hrecords, ← hscan.eq_append]
  · rintro ⟨hfits, rest, rfl⟩
    -- what follows these records divides in some way, and they stand in front of that
    rw [scan_eq_iff_divides.2 ((divides_scan checksum rest).encodeAll_append hfits)]
    exact List.prefix_append _ _

/-- Cutting a file where it already ends or before only takes bytes off. -/
theorem Place.resize_of_le {length : Nat} (h : length ≤ content.length) :
    Place.resize length content = content.take length := by
  rw [Place.resize, Nat.sub_eq_zero_of_le h, List.replicate_zero, List.append_nil]

namespace Writer

variable (checksum) in
theorem written_foldl_write (writer : Writer) (records : List Record) :
    (records.foldl (write checksum) writer).written =
      writer.written ++ Record.encodeAll checksum records := by
  induction records generalizing writer with
  | nil => exact (List.append_nil _).symm
  | cons record rest ih =>
    rw [List.foldl_cons, ih, written_write, List.append_assoc]
    rfl

/-- A commit hands everything written to the file, whatever the policy. -/
theorem content_commit (writer : Writer) (secondPassed : Bool) :
    (writer.commit secondPassed).content = writer.written := by
  unfold commit
  split
  · rfl
  · split <;> rfl
  · rfl

variable (checksum) in
/-- Records that are appended to a file follow what was there. -/
theorem content_append (policy : SyncPolicy) (content : Bytes) (records : List Record) :
    ((ofContent policy content).append checksum records).content =
      content ++ Record.encodeAll checksum records := by
  have hstart : (ofContent policy content).written = content := List.append_nil _
  rw [append, content_commit, written_foldl_write, hstart]

end Writer

/-- Whatever a file holds and whatever function the checksum is: the readable part is some of the
first bytes, namely those of the records that are found, and no record can be read of what follows
it. The records found are all that stand whole at the front. Of a file that is cut off where the
readable part ends, the same records are found, and all of it is readable. Records that a writer
appends to that are found after them, and again all of the file is readable. -/
theorem readable_part_extends (checksum : Bytes → UInt64) (content : Bytes) :
    let found := scan checksum content
    let length := readableLength checksum content
    let kept := Place.resize length content
    (length ≤ content.length ∧
      Record.encodeAll checksum found.records = content.take length ∧
      ∃ reason, Record.decode checksum (content.drop length) = .error reason) ∧
    (∀ front, front <+: found.records ↔
      (∀ record ∈ front, record.line.Fits) ∧ Record.encodeAll checksum front <+: content) ∧
    (kept = content.take length ∧ scan checksum kept = ⟨found.records, []⟩ ∧
      readableLength checksum kept = length) ∧
    ∀ (policy : SyncPolicy) (more : List Record), (∀ record ∈ more, record.line.Fits) →
      let extended := ((Writer.ofContent policy kept).append checksum more).content
      extended = content.take length ++ Record.encodeAll checksum more ∧
        scan checksum extended = ⟨found.records ++ more, []⟩ ∧
        readableLength checksum extended = extended.length := by
  intro found length kept
  have hdivides : Divides checksum content found := divides_scan checksum content
  obtain ⟨htake, hdrop⟩ := hdivides.take_drop
  have hle : length ≤ content.length := Nat.sub_le _ _
  have hkept : kept = Record.encodeAll checksum found.records :=
    (Place.resize_of_le hle).trans htake
  -- the rest is read off the divisions of what is kept and of what is appended to it
  have hwhole : Divides checksum kept ⟨found.records, []⟩ := by
    rw [hkept]
    exact divides_encodeAll hdivides.fits
  refine ⟨⟨hle, htake.symm, by rw [hdrop]; exact hdivides.ends⟩,
    fun front => prefix_records_scan_iff,
    ⟨Place.resize_of_le hle, scan_eq_iff_divides.2 hwhole, ?_⟩, fun policy more hmore => ?_⟩
  · exact hwhole.readableLength_eq.trans hdivides.readableLength_eq.symm
  · intro extended
    have hextended : extended = Record.encodeAll checksum (found.records ++ more) := by
      rw [Record.encodeAll_append, ← hkept]
      exact Writer.content_append checksum policy kept more
    have hall : Divides checksum extended ⟨found.records ++ more, []⟩ := by
      rw [hextended]
      exact divides_encodeAll (List.forall_mem_append.2 ⟨hdivides.fits, hmore⟩)
    refine ⟨?_, scan_eq_iff_divides.2 hall, ?_⟩
    · rw [hextended, Record.encodeAll_append, htake]
    · rw [hall.readableLength_eq, hextended]

/-- A file of three records, of which the middle one is damaged in a word: nothing is found behind
the first one, and a record that is appended after cutting takes the place of the damaged one. -/
theorem readable_part_extends_of_damage :
    let line := List.map Text.toBytes
    let first : Record := ⟨2, line ["set", "a", "1"]⟩
    let last : Record := ⟨0, line ["del", "a"]⟩
    let damaged := (last.encode journalChecksum).set 13 0
    let content := first.encode journalChecksum ++ damaged ++ last.encode journalChecksum
    let length := readableLength journalChecksum content
    let extended := ((Writer.ofContent .everySecond (Place.resize length content)).append
      journalChecksum [last]).content
    (∀ record ∈ [last], record.line.Fits) ∧
      length = (first.encode journalChecksum).length ∧
      (∃ reason, Record.decode journalChecksum (content.drop length) = .error reason) ∧
      scan journalChecksum extended = ⟨[first, last], []⟩ := by
  intro line first last damaged content length extended
  have hfits : ∀ record ∈ [last], record.line.Fits := by decide +kernel
  have hfound : (scan journalChecksum content).records = [first] := by decide +kernel
  obtain ⟨⟨-, hrecords, hends⟩, -, -, hextends⟩ := readable_part_extends journalChecksum content
  obtain ⟨-, hscan, -⟩ := hextends .everySecond [last] hfits
  rw [hfound] at hscan
  exact ⟨hfits, by decide +kernel, hends, hscan⟩

end RingStore.Journal
