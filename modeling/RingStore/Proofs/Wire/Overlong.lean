import RingStore.Proofs.Wire.RoundTrip

/-!
# Command lines beyond the limits

Everyone can write a command line of any length, but who reads it takes only so many words, each of
only so many bytes. The bytes of a line beyond these limits are malformed, whatever follows them:
reading them ends in an error, and waiting for more does not help.

## Main results

* `Wire.read_encodeLine_of_lt`: a line with too many words.
* `Wire.read_encodeCommandLine_of_not_framed`: any line beyond the limits.
-/

namespace RingStore

namespace Decimal

/-- A natural number beyond the limit is not read back. -/
theorem digits?_ofNat_of_lt {limit value : Nat} (h : limit < value) :
    digits? limit (ofNat value) = none := by
  cases hread : digits? limit (ofNat value) with
  | none => rfl
  | some found =>
    obtain ⟨-, -, rfl, hle⟩ := digits?_eq_some_iff.1 hread
    rw [(ofNat_spec value).2] at hle
    omega

theorem int64?_ofNat_of_le {value : Nat} (h : 9223372036854775808 ≤ value) :
    int64? (ofNat value) = none := by
  have hlimit : Int64.maxValue.toNatClampNeg < value := by
    have : Int64.maxValue.toNatClampNeg = 9223372036854775807 := by decide
    omega
  unfold int64?
  split
  · next htext => exact absurd htext (ofNat_ne_cons (by decide))
  · unfold nat?
    split
    · next htext => exact absurd htext (ofNat_ne_cons (by decide))
    · rw [digits?_ofNat_of_lt hlimit]
      rfl

end Decimal

namespace Wire

/-- A length that needs more than 64 bits cannot be read. -/
theorem readNumber_ofNat_of_le {length : Nat} (h : 9223372036854775808 ≤ length) (rest : Bytes) :
    readNumber (Decimal.ofNat length ++ (lineEnd ++ rest)) = .malformed .notNumber := by
  rw [readNumber_of_denotes (Decimal.denotes_ofNat length), Decimal.int64?_ofNat_of_le h]
  rfl

/-- A length beyond a limit stays beyond it when it is written in 64 bits. -/
theorem ofNat_beyond {length limit : Nat} (hlength : length < 9223372036854775808)
    (h : limit < length) :
    Int64.ofNat length ≠ -1 ∧ Int64.ofNat limit < Int64.ofNat length := by
  have htoInt : (Int64.ofNat length).toInt = length := Int64.toInt_ofNat_of_lt hlength
  have hmax : (Int64.ofNat limit).toInt = limit := Int64.toInt_ofNat_of_lt (by omega)
  refine ⟨fun heq => ?_, ?_⟩
  · rw [heq] at htoInt
    have hnegative : (-1 : Int64).toInt = -1 := rfl
    omega
  · rw [Int64.lt_iff_toInt_lt, htoInt, hmax]
    omega

/-- A bulk string that announces too many bytes is refused at once. -/
theorem readBulk_of_lt {length : Nat} (h : bulkLimit < length) (rest : Bytes) :
    ∃ reason, readBulk (Decimal.ofNat length ++ (lineEnd ++ rest)) = .malformed reason := by
  rw [readBulk]
  by_cases hlength : length < 9223372036854775808
  · obtain ⟨hnull, hrange⟩ := ofNat_beyond hlength h
    have hmax : Int64.ofNat bulkLimit = maxBulkLength := by decide
    rw [readNumber_of_length _ (Decimal.denotes_ofNat length) hlength]
    refine ⟨.bulkLength (.ofNat length), ?_⟩
    simp only [Reading.andThen, if_neg hnull]
    exact if_pos (.inr (hmax ▸ hrange))
  · rw [readNumber_ofNat_of_le (Nat.not_lt.1 hlength)]
    exact ⟨_, rfl⟩

/-- An array that announces too many items is refused at once. -/
theorem readArray_of_lt (readItem : Bytes → Reading Value) {count : Nat} (h : arrayLimit < count)
    (hcount : count < 9223372036854775808) (rest : Bytes) :
    readArray readItem (Decimal.ofNat count ++ (lineEnd ++ rest)) =
      .malformed (.arrayLength (.ofNat count)) := by
  obtain ⟨hnull, hrange⟩ := ofNat_beyond hcount h
  have hmax : Int64.ofNat arrayLimit = maxArrayLength := by decide
  rw [readArray, readNumber_of_length _ (Decimal.denotes_ofNat count) hcount]
  simp only [Reading.andThen, if_neg hnull]
  exact if_pos (.inr (hmax ▸ hrange))

/-- Words are read one after the other up to the first one that is too long. -/
theorem readMany_of_lt {line : CommandLine} (depth : Nat)
    (h : ∃ word ∈ line, bulkLimit < word.length) (items : List Value) (rest : Bytes) :
    ∃ reason, readMany (readValue depth) line.length items (line.flatMap encodeBulk ++ rest) =
      .malformed reason := by
  induction line generalizing items with
  | nil =>
    obtain ⟨word, hword, -⟩ := h
    exact absurd hword List.not_mem_nil
  | cons first more ih =>
    have hfirst : (first :: more).flatMap encodeBulk ++ rest =
        36 :: (Decimal.ofNat first.length ++
          (lineEnd ++ (first ++ (lineEnd ++ (more.flatMap encodeBulk ++ rest))))) := by
      rw [List.flatMap_cons, List.append_assoc, encodeBulk, List.append_assoc, encodeLine_append,
        List.append_assoc]
    rw [hfirst, List.length_cons, readMany, readValue_bulk]
    by_cases hlong : bulkLimit < first.length
    · obtain ⟨reason, hreason⟩ := readBulk_of_lt hlong
        (first ++ (lineEnd ++ (more.flatMap encodeBulk ++ rest)))
      exact ⟨reason, by rw [hreason]⟩
    · rw [readBulk_of_length _ (Decimal.denotes_ofNat first.length) (Nat.not_lt.1 hlong)]
      obtain ⟨word, hword, hword'⟩ := h
      rcases List.mem_cons.1 hword with rfl | hmore
      · exact absurd hword' hlong
      · exact ih ⟨word, hmore, hword'⟩ _

/-- The bytes of a command line start with the mark of an array. -/
theorem read_encodeCommandLine_eq (line : CommandLine) (rest : Bytes) :
    read (encodeCommandLine line ++ rest) = readArray (readValue (maxDepth - 1))
      (Decimal.ofNat line.length ++ (lineEnd ++ (line.flatMap encodeBulk ++ rest))) := by
  rw [encodeCommandLine, List.append_assoc, encodeLine_append]
  rfl

/-- A line with too many words is malformed as soon as it tells their number. -/
theorem read_encodeLine_of_lt {count : Nat} (h : arrayLimit < count)
    (hcount : count < 9223372036854775808) (rest : Bytes) :
    read (encodeLine 42 (Decimal.ofNat count) ++ rest) =
      .malformed (.arrayLength (.ofNat count)) := by
  rw [encodeLine_append]
  exact readArray_of_lt (readValue (maxDepth - 1)) h hcount rest

/-- A line beyond the limits is malformed, whatever follows it. -/
theorem read_encodeCommandLine_of_not_framed {line : CommandLine} (h : ¬line.Framed)
    (rest : Bytes) : ∃ reason, read (encodeCommandLine line ++ rest) = .malformed reason := by
  rw [read_encodeCommandLine_eq]
  by_cases hcount : line.length ≤ arrayLimit
  · have hword : ∃ word ∈ line, bulkLimit < word.length := by
      refine Classical.byContradiction fun hnone => h ⟨hcount, fun word hword => ?_⟩
      exact Nat.not_lt.1 fun hlong => hnone ⟨word, hword, hlong⟩
    obtain ⟨reason, hreason⟩ := readMany_of_lt (maxDepth - 1) hword [] rest
    rw [readArray_of_count _ _ (Decimal.denotes_ofNat line.length) hcount, hreason]
    exact ⟨reason, rfl⟩
  · by_cases hlength : line.length < 9223372036854775808
    · exact ⟨_, readArray_of_lt _ (Nat.not_le.1 hcount) hlength _⟩
    · rw [readArray, readNumber_ofNat_of_le (Nat.not_lt.1 hlength)]
      exact ⟨_, rfl⟩

end Wire

end RingStore
