import RingStore.Proofs.Wire.Feeding

/-!
# The limit on inline requests

An inline request is one line. While its end has not arrived, the line is refused as soon as more
than 65536 bytes of it are there. Once the end is there its length is not looked at any more. So a
line within the limit is read the same however it is cut, but a longer one is refused only if too
much of it arrives without its end: the cut decides.

## Main definitions

* `Wire.StartsInline`: bytes that do not start with a mark.
* `Wire.beforeLineFeed`: what arrives of a line before the chunk in which it ends.

## Main results

* `Wire.read_of_line`, `Wire.read_of_part`: reading a whole line, and a part of it.
* `Wire.feed_of_line`: a line that arrives in chunks.
* `Wire.feed_inline_line`: when an inline request is read, and when it is refused.
-/

namespace RingStore

/-- A blank at the end of a line belongs to no word. -/
theorem Bytes.words_concat_of_isBlank (line : Bytes) {byte : UInt8} (h : isBlank byte = true) :
    words (line ++ [byte]) = words line := by
  simp [words, List.splitOnP_append_cons line [] h]

namespace Wire

/-- The carriage return that may end a line belongs to no word. -/
theorem words_dropCarriageReturn (line : Bytes) : (dropCarriageReturn line).words = line.words := by
  unfold dropCarriageReturn
  split
  · next hlast =>
    obtain ⟨front, rfl⟩ := List.getLast?_eq_some_iff.1 hlast
    rw [List.dropLast_concat]
    exact (Bytes.words_concat_of_isBlank front rfl).symm
  · rfl

/-- The first byte, if there is one, is no mark. -/
def StartsInline (bytes : Bytes) : Prop :=
  ∀ first ∈ bytes.head?, isMark first = false

theorem StartsInline.of_isPrefix {line part : Bytes} (h : StartsInline line)
    (hpart : part <+: line) :
    StartsInline part := by
  obtain ⟨more, rfl⟩ := hpart
  cases part with
  | nil => simp [StartsInline]
  | cons first tail => exact h

theorem StartsInline.read_eq {bytes : Bytes} (h : StartsInline bytes) (hne : bytes ≠ []) :
    read bytes = readInline bytes := by
  cases bytes with
  | nil => exact absurd rfl hne
  | cons first tail => rw [read_cons, if_neg (by simp [h first rfl])]

variable {line : Bytes}

/-- A line whose end has arrived is read, whatever its length. -/
theorem read_of_line (hline : StartsInline line) (hend : 10 ∉ line) (rest : Bytes) :
    read (line ++ 10 :: rest) = .done (.array (line.words.map .bulk)) rest := by
  have hinline : StartsInline (line ++ 10 :: rest) := by
    cases line with
    | nil => simp [StartsInline, isMark]
    | cons first tail => exact hline
  have hstop : (line ++ 10 :: rest).findIdx? (· == 10) = some line.length := by
    rw [List.findIdx?_append, List.findIdx?_eq_none_iff.2 fun byte hbyte => ?_]
    · simp [List.findIdx?_cons]
    · exact beq_eq_false_iff_ne.2 fun heq => hend (heq ▸ hbyte)
  rw [hinline.read_eq (by simp), readInline, hstop]
  dsimp only
  rw [List.take_left, words_dropCarriageReturn, ← List.drop_drop, List.drop_left]
  rfl

/-- A part of a line without its end is refused if it is too long, and otherwise waited with. -/
theorem read_of_part (hline : StartsInline line) (hend : 10 ∉ line) {part : Bytes}
    (hpart : part <+: line) :
    read part = if maxInlineLength < part.length then .malformed .inlineTooLong
      else .incomplete := by
  by_cases hempty : part = []
  · subst hempty
    rfl
  · have hstop : part.findIdx? (· == 10) = none := List.findIdx?_eq_none_iff.2 fun byte hbyte =>
      beq_eq_false_iff_ne.2 fun heq => hend (hpart.subset (heq ▸ hbyte))
    rw [(hline.of_isPrefix hpart).read_eq hempty, readInline, hstop]

/-- What has arrived when the chunk with the first line feed is about to arrive. -/
def beforeLineFeed (chunks : List Bytes) : Bytes :=
  (chunks.takeWhile fun chunk => 10 ∉ chunk).flatten

theorem beforeLineFeed_cons_of_mem {chunk : Bytes} (h : 10 ∈ chunk) (later : List Bytes) :
    beforeLineFeed (chunk :: later) = [] := by
  simp [beforeLineFeed, h]

theorem beforeLineFeed_cons_of_not_mem {chunk : Bytes} (h : 10 ∉ chunk) (later : List Bytes) :
    beforeLineFeed (chunk :: later) = chunk ++ beforeLineFeed later := by
  simp [beforeLineFeed, h]

/-- What has arrived of a line without its end is a part of the line. -/
theorem isPrefix_of_not_mem {part : Bytes} (hpart : part <+: line ++ [10]) (hend : 10 ∉ part) :
    part <+: line := by
  rcases List.prefix_concat_iff.1 hpart with rfl | hprefix
  · simp at hend
  · exact hprefix

theorem beforeLineFeed_isPrefix {chunks : List Bytes} (hchunks : chunks.flatten = line ++ [10]) :
    beforeLineFeed chunks <+: line := by
  refine isPrefix_of_not_mem ⟨(chunks.dropWhile fun chunk => 10 ∉ chunk).flatten, ?_⟩ fun hmem => ?_
  · rw [beforeLineFeed, ← List.flatten_append, List.takeWhile_append_dropWhile, hchunks]
  · obtain ⟨chunk, hchunk, hbyte⟩ := List.mem_flatten.1 hmem
    exact of_decide_eq_true (List.all_eq_true.1 List.all_takeWhile chunk hchunk) hbyte

/-- Nothing is read where nothing arrives. -/
theorem feed_of_flatten_eq_nil {chunks : List Bytes} (h : chunks.flatten = []) :
    feed [] chunks = ([], none) := by
  have hshort : ShortLines ([] ++ chunks.flatten) :=
    shortLines_of_length_le (by rw [h]; exact Nat.zero_le _)
  rw [feed_eq_feed_flatten [] chunks hshort, h]
  exact feed_of_incomplete rfl

/-- A line of which some part has arrived is refused exactly if too many bytes of it are there
before the chunk with its end. -/
theorem feed_of_line (hline : StartsInline line) (hend : 10 ∉ line) {arrived : Bytes}
    {chunks : List Bytes} (hstream : arrived ++ chunks.flatten = line ++ [10])
    (harrived : 10 ∉ arrived) :
    feed arrived chunks =
      if maxInlineLength < (arrived ++ beforeLineFeed chunks).length then ([], some .inlineTooLong)
      else ([.array (line.words.map .bulk)], none) := by
  induction chunks generalizing arrived with
  | nil =>
    -- the end of the line is still to come, but no chunk is
    rw [List.flatten_nil, List.append_nil] at hstream
    simp [hstream] at harrived
  | cons chunk later ih =>
    have hpart : arrived <+: line := isPrefix_of_not_mem ⟨_, hstream⟩ harrived
    have hread := read_of_part hline hend hpart
    rw [List.flatten_cons, ← List.append_assoc] at hstream
    by_cases hlong : maxInlineLength < arrived.length
    · rw [if_pos hlong] at hread
      rw [feed_of_malformed _ hread, if_pos (by rw [List.length_append]; omega)]
    · rw [if_neg hlong] at hread
      rw [feed_of_incomplete_cons _ hread]
      by_cases hlast : 10 ∈ chunk
      · -- with this chunk the line is complete, and nothing follows it
        rcases List.prefix_concat_iff.1 ⟨_, hstream⟩ with hwhole | hmore
        · rw [hwhole, List.append_right_eq_self] at hstream
          rw [hwhole, feed_of_done _ (read_of_line hline hend []), feed_of_flatten_eq_nil hstream,
            beforeLineFeed_cons_of_mem hlast, List.append_nil, if_neg hlong]
        · exact absurd (hmore.subset (List.mem_append_right _ hlast)) hend
      · rw [ih hstream (by simp [harrived, hlast]), beforeLineFeed_cons_of_not_mem hlast,
          List.append_assoc]

/-- An inline request within the limit is read however it is cut. One beyond the limit is refused if
more of it than the limit has arrived before the chunk with its end, and it is read otherwise. -/
theorem feed_inline_line (hline : StartsInline line) (hend : 10 ∉ line) {chunks : List Bytes}
    (hchunks : chunks.flatten = line ++ [10]) :
    (line.length ≤ maxInlineLength →
      feed [] chunks = ([.array (line.words.map .bulk)], none)) ∧
    (maxInlineLength < line.length →
      feed [] chunks =
        if maxInlineLength < (beforeLineFeed chunks).length then ([], some .inlineTooLong)
        else ([.array (line.words.map .bulk)], none)) := by
  have hfeed := feed_of_line hline hend ((List.nil_append _).trans hchunks) List.not_mem_nil
  rw [List.nil_append] at hfeed
  refine ⟨fun hshort => ?_, fun _ => hfeed⟩
  have hle := (beforeLineFeed_isPrefix hchunks).length_le
  rw [hfeed, if_neg (by omega)]

/-- A line of one byte more than the limit. -/
def overlongLine : Bytes :=
  List.replicate (maxInlineLength + 1) 97

theorem startsInline_overlongLine : StartsInline overlongLine := by
  intro first hfirst
  obtain rfl := List.eq_of_mem_replicate (List.mem_of_mem_head? hfirst)
  rfl

theorem not_mem_overlongLine : 10 ∉ overlongLine := fun hmem =>
  absurd (List.eq_of_mem_replicate hmem) (by decide)

theorem length_overlongLine : overlongLine.length = maxInlineLength + 1 :=
  List.length_replicate

/-- It is refused if its end comes alone, and read if its last byte comes with its end. -/
theorem feed_inline_line_overlongLine :
    StartsInline overlongLine ∧ 10 ∉ overlongLine ∧ maxInlineLength < overlongLine.length ∧
    feed [] [overlongLine, [10]] = ([], some .inlineTooLong) ∧
    feed [] [overlongLine.take maxInlineLength, overlongLine.drop maxInlineLength ++ [10]] =
      ([.array (overlongLine.words.map .bulk)], none) := by
  have hlong : maxInlineLength < overlongLine.length := by
    rw [length_overlongLine]
    exact Nat.lt_succ_self _
  refine ⟨startsInline_overlongLine, not_mem_overlongLine, hlong, ?_, ?_⟩
  · rw [(feed_inline_line startsInline_overlongLine not_mem_overlongLine (by simp)).2 hlong,
      beforeLineFeed_cons_of_not_mem not_mem_overlongLine, List.length_append]
    exact if_pos (Nat.lt_add_right _ hlong)
  · have hfront : 10 ∉ overlongLine.take maxInlineLength :=
      fun hmem => not_mem_overlongLine (List.mem_of_mem_take hmem)
    have hcut : [overlongLine.take maxInlineLength,
        overlongLine.drop maxInlineLength ++ [10]].flatten = overlongLine ++ [10] := by
      rw [List.flatten_cons, List.flatten_singleton, ← List.append_assoc, List.take_append_drop]
    rw [(feed_inline_line startsInline_overlongLine not_mem_overlongLine hcut).2 hlong,
      beforeLineFeed_cons_of_not_mem hfront, beforeLineFeed_cons_of_mem (by simp), List.append_nil,
      List.length_take]
    exact if_neg (Nat.not_lt.2 (Nat.min_le_left _ _))

/-- The limit does not hold of a line that arrives at once. -/
theorem not_forall_feed_eq_of_length : ¬∀ (line : Bytes) (chunks : List Bytes), StartsInline line →
    10 ∉ line → chunks.flatten = line ++ [10] →
    feed [] chunks = if line.length ≤ maxInlineLength then ([.array (line.words.map .bulk)], none)
      else ([], some .inlineTooLong) := by
  intro h
  have hfeed := h overlongLine [overlongLine ++ [10]] startsInline_overlongLine not_mem_overlongLine
    (by simp)
  have hread := read_of_line startsInline_overlongLine not_mem_overlongLine []
  rw [feed_of_incomplete_cons [] rfl, List.nil_append, feed_of_done [] hread, length_overlongLine,
    if_neg (Nat.not_succ_le_self _)] at hfeed
  cases hfeed

end Wire

end RingStore
