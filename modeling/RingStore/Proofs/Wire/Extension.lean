import RingStore.Proofs.Wire.RoundTrip

/-!
# More bytes change nothing that was decided

A value that was read from the bytes received so far took some bytes from the front, and these bytes
alone decide it: it is still read, and takes as much, after more bytes have arrived. Bytes that were
found to be malformed stay so, and for the same reason, unless they are an inline request that went
on for too long without an end. So a reader that stops at the first whole value sees the same value
however the stream was cut, and what has arrived of a value's bytes is never taken for another one.

## Main definitions

* `Stable`: a reader whose results are decided by the bytes that it takes.
* `Settled`: a stable reader that refuses malformed bytes also when more bytes follow them.

## Main results

* `Wire.settled_readValue`: values that start with a mark are read by a settled reader.
* `Wire.stable_read`: a value that was read is decided by the bytes that it took.
* `Wire.read_append_of_malformed`, `Wire.long_of_read_eq_malformed`: what was malformed stays so,
  except for inline requests.
* `Wire.read_of_encode_append`, `Wire.eq_of_read_part`: what is read while a value arrives is that
  value.
-/

namespace RingStore

/-- Going on with what was read finds malformed bytes at first or afterwards. -/
theorem Reading.andThen_eq_malformed {α β : Type} {reading : Reading α}
    {next : α → Bytes → Reading β} {reason : Malformed} :
    reading.andThen next = .malformed reason ↔ reading = .malformed reason ∨
      ∃ first middle, reading = .done first middle ∧ next first middle = .malformed reason := by
  constructor
  · intro h
    cases reading with
    | incomplete => cases h
    | malformed found =>
      cases h
      exact .inl rfl
    | done first middle => exact .inr ⟨first, middle, rfl, h⟩
  · rintro (rfl | ⟨first, middle, rfl, h⟩)
    · rfl
    · exact h

/-- What a reader has read is decided by the bytes that it took. -/
structure Stable {α : Type} (read : Bytes → Reading α) : Prop where
  /-- Some bytes in front were taken, off which the same is read whatever follows them. -/
  takes : ∀ {bytes rest : Bytes} {result : α}, read bytes = .done result rest →
    ∃ taken, bytes = taken ++ rest ∧ ∀ more, read (taken ++ more) = .done result more

/-- More bytes change neither what was read nor what was left. -/
theorem Stable.append {α : Type} {read : Bytes → Reading α} (h : Stable read)
    {bytes rest : Bytes} {result : α} (more : Bytes) (hread : read bytes = .done result rest) :
    read (bytes ++ more) = .done result (rest ++ more) := by
  obtain ⟨taken, rfl, htaken⟩ := h.takes hread
  rw [List.append_assoc, htaken]

/-- Whether a reader reads bytes or refuses them, it does so whatever follows them. -/
structure Settled {α : Type} (read : Bytes → Reading α) : Prop extends Stable read where
  /-- What is malformed stays so, for the same reason. -/
  refuses : ∀ {bytes : Bytes} {reason : Malformed}, read bytes = .malformed reason →
    ∀ more, read (bytes ++ more) = .malformed reason

namespace Settled

variable {α β : Type} {read : Bytes → Reading α}

theorem done (result : α) : Settled (Reading.done result) where
  takes h := by
    cases h
    exact ⟨[], rfl, fun _ => rfl⟩
  refuses h := nomatch h

theorem malformed (reason : Malformed) : Settled fun _ => (.malformed reason : Reading α) where
  takes h := nomatch h
  refuses h _ := h

/-- Settled readers one after the other make a settled reader. -/
theorem andThen {next : α → Bytes → Reading β} (h : Settled read)
    (hnext : ∀ first, Settled (next first)) :
    Settled fun bytes => (read bytes).andThen next where
  takes hread := by
    obtain ⟨first, middle, hfirst, hresult⟩ := Reading.andThen_eq_done.1 hread
    obtain ⟨front, rfl, hfront⟩ := h.takes hfirst
    obtain ⟨back, rfl, hback⟩ := (hnext first).takes hresult
    refine ⟨front ++ back, (List.append_assoc _ _ _).symm, fun more => ?_⟩
    rw [List.append_assoc]
    exact Reading.andThen_eq_done.2 ⟨first, _, hfront _, hback more⟩
  refuses hread more := by
    rcases Reading.andThen_eq_malformed.1 hread with hfirst | ⟨first, middle, hfirst, hresult⟩
    · exact Reading.andThen_eq_malformed.2 (.inl (h.refuses hfirst more))
    · exact Reading.andThen_eq_malformed.2
        (.inr ⟨first, _, h.append more hfirst, (hnext first).refuses hresult more⟩)

/-- A choice that does not depend on the bytes is settled if both its sides are. -/
theorem ite {condition : Prop} [Decidable condition] {other : Bytes → Reading α}
    (h : Settled read) (hother : Settled other) :
    Settled fun bytes => if condition then read bytes else other bytes := by
  by_cases hcondition : condition
  · simpa only [hcondition, if_true] using h
  · simpa only [hcondition, if_false] using hother

theorem map {f : α → β} (h : Settled read) : Settled fun bytes => (read bytes).map f :=
  h.andThen fun first => done (f first)

/-- A reader that needs a byte is settled if it is so after each first byte. -/
theorem of_cons (hnil : read [] = .incomplete)
    (hcons : ∀ first, Settled fun tail => read (first :: tail)) : Settled read where
  takes {bytes} {rest} {result} hread := by
    cases bytes with
    | nil =>
      rw [hnil] at hread
      cases hread
    | cons first tail =>
      obtain ⟨taken, rfl, htaken⟩ := (hcons first).takes hread
      exact ⟨first :: taken, rfl, htaken⟩
  refuses {bytes} {reason} hread more := by
    cases bytes with
    | nil =>
      rw [hnil] at hread
      cases hread
    | cons first tail => exact (hcons first).refuses hread more

end Settled

namespace Wire

theorem settled_readLine : Settled readLine where
  takes h := by
    unfold readLine at h
    split at h
    · next hsplit =>
      cases h
      obtain ⟨_, rfl, rfl, hcontent⟩ := eq_of_splitLineOnto hsplit
      refine ⟨_ ++ lineEnd, (List.append_assoc _ _ _).symm, fun more => ?_⟩
      rw [List.append_assoc]
      exact readLine_lineEnd hcontent more
    · cases h
  refuses h := by
    unfold readLine at h
    split at h <;> cases h

theorem settled_readNumber : Settled readNumber := by
  refine settled_readLine.andThen fun line => Settled.ite ?_ (Settled.malformed _)
  cases Decimal.int64? line with
  | none => exact Settled.malformed _
  | some number => exact Settled.done number

/-- Where two bytes follow the content of a bulk string, the whole content is there. -/
theorem settled_readBulk : Settled readBulk := by
  refine settled_readNumber.andThen fun length =>
    Settled.ite (Settled.done _) (Settled.ite (Settled.malformed _) ?_)
  refine ⟨⟨fun {bytes rest value} h => ?_⟩, fun {bytes reason} h more => ?_⟩
  · split at h
    · next after hdrop =>
      cases h
      have hlength : (bytes.take length.toNatClampNeg).length = length.toNatClampNeg :=
        List.length_take_of_le (le_length_of_drop_eq_cons hdrop)
      refine ⟨bytes.take length.toNatClampNeg ++ lineEnd, ?_, fun more => ?_⟩
      · rw [List.append_assoc, lineEnd, List.cons_append, List.cons_append, List.nil_append,
          ← hdrop, List.take_append_drop]
      · rw [List.append_assoc, List.drop_left' hlength, List.take_left' hlength]
        rfl
    · cases h
    · cases h
  · split at h
    · cases h
    · next first second after hother hdrop =>
      -- two bytes stand where the end of a line was expected, and no others ever will
      cases h
      rw [List.drop_append_of_le_length (le_length_of_drop_eq_cons hdrop), hdrop, List.cons_append,
        List.cons_append]
      split
      · next heq =>
        cases heq
        exact (hother rfl rfl).elim
      · rfl
      · next hnone => exact absurd rfl (hnone _ _ _)
    · cases h

theorem settled_readMany {readItem : Bytes → Reading Value} (h : Settled readItem) (count : Nat)
    (read : List Value) : Settled (readMany readItem count read) := by
  induction count generalizing read with
  | zero => exact Settled.done _
  | succ count ih =>
    -- one item and then the others, as one reader after the other
    have hstep : readMany readItem (count + 1) read = fun bytes =>
        (readItem bytes).andThen fun item => readMany readItem count (item :: read) := by
      funext bytes
      rw [readMany]
      cases readItem bytes <;> rfl
    rw [hstep]
    exact h.andThen fun item => ih (item :: read)

theorem settled_readArray {readItem : Bytes → Reading Value} (h : Settled readItem) :
    Settled (readArray readItem) := by
  refine settled_readNumber.andThen fun count => ?_
  exact Settled.ite (Settled.done _)
    (Settled.ite (Settled.malformed _) (settled_readMany h _ _).map)

/-- Reading a value is settled if reading an array is. -/
theorem settled_readValue_of_array {depth : Nat}
    (harray : Settled fun tail => readValue depth (42 :: tail)) : Settled (readValue depth) := by
  refine Settled.of_cons (by cases depth <;> rfl) fun mark => ?_
  cases hmark : isMark mark with
  | false =>
    simp only [readValue_of_not_isMark _ _ hmark]
    exact Settled.malformed _
  | true =>
    rcases isMark_iff.1 hmark with rfl | rfl | rfl | rfl | rfl
    · simpa only [readValue_simple] using settled_readLine.map
    · simpa only [readValue_error] using settled_readLine.map
    · simpa only [readValue_integer] using settled_readNumber.map
    · simpa only [readValue_bulk] using settled_readBulk
    · exact harray

/-- A value that starts with a mark is read or refused whatever follows it. -/
theorem settled_readValue (depth : Nat) : Settled (readValue depth) := by
  induction depth with
  | zero => exact settled_readValue_of_array (Settled.malformed _)
  | succ depth ih => exact settled_readValue_of_array (settled_readArray ih)

theorem stable_readInline : Stable readInline where
  takes {bytes} {rest} {value} h := by
    unfold readInline at h
    split at h
    · next stop hstop =>
      cases h
      refine ⟨bytes.take (stop + 1), (List.take_append_drop _ _).symm, fun more => ?_⟩
      have hlt : stop < bytes.length := (List.findIdx?_eq_some_iff_getElem.1 hstop).1
      have hlength : (bytes.take (stop + 1)).length = stop + 1 := List.length_take_of_le hlt
      have hfront : (bytes.take (stop + 1)).findIdx? (· == 10) = some stop := by
        rw [List.findIdx?_take, hstop]
        simp
      unfold readInline
      rw [List.findIdx?_append, hfront]
      simp only [Option.some_or]
      rw [List.take_append_of_le_length (by omega), List.take_take, List.drop_left' hlength,
        Nat.min_eq_left (Nat.le_succ stop)]
    · split at h <;> cases h

/-- An inline request is malformed exactly if it goes on for too long. -/
theorem readInline_eq_malformed_iff {bytes : Bytes} {reason : Malformed} :
    readInline bytes = .malformed reason ↔
      10 ∉ bytes ∧ maxInlineLength < bytes.length ∧ reason = .inlineTooLong := by
  unfold readInline
  split
  · next stop hstop =>
    refine iff_of_false (fun h => nomatch h) fun h => h.1 ?_
    obtain ⟨hlt, hfound, -⟩ := List.findIdx?_eq_some_iff_getElem.1 hstop
    exact beq_iff_eq.1 hfound ▸ List.getElem_mem hlt
  · next hnone =>
    have hmem : 10 ∉ bytes := fun hmem =>
      absurd (List.findIdx?_eq_none_iff.1 hnone 10 hmem) (by decide)
    split
    · next hlong => simp [hmem, hlong, eq_comm]
    · next hshort => simp [hshort]

/-- The first byte tells which reader is at work. -/
theorem read_cons (first : UInt8) (tail : Bytes) :
    read (first :: tail) =
      (if isMark first then readValue maxDepth else readInline) (first :: tail) := by
  rw [read]
  split <;> rfl

/-- A value that was read is decided by the bytes that it took. -/
theorem stable_read : Stable read where
  takes {bytes} {rest} {value} h := by
    cases bytes with
    | nil => cases h
    | cons first tail =>
      have hlt := length_lt_of_read h
      have hreader : Stable (if isMark first then readValue maxDepth else readInline) := by
        split
        · exact (settled_readValue maxDepth).toStable
        · exact stable_readInline
      rw [read_cons] at h
      obtain ⟨taken, hbytes, htaken⟩ := hreader.takes h
      -- the first byte is among those that were taken, so the same reader is at work again
      cases taken with
      | nil =>
        rw [hbytes] at hlt
        exact absurd hlt (Nat.lt_irrefl _)
      | cons other others =>
        cases hbytes
        refine ⟨first :: others, rfl, fun more => ?_⟩
        rw [List.cons_append, read_cons]
        exact htaken more

/-- Malformed bytes that start with a mark stay malformed for the same reason. -/
theorem read_append_of_malformed {first : UInt8} {tail : Bytes} {reason : Malformed}
    (hmark : isMark first = true) (h : read (first :: tail) = .malformed reason) (more : Bytes) :
    read (first :: tail ++ more) = .malformed reason := by
  rw [read_cons, if_pos hmark] at h
  rw [List.cons_append, read_cons, if_pos hmark]
  exact (settled_readValue maxDepth).refuses h more

/-- While a stream arrives that starts with a framed value, more bytes are needed until that value
is read, and then the bytes after it are all that is left of the stream. -/
theorem read_of_encode_append {value : Value} (h : value.Framed maxDepth)
    {arrived more rest : Bytes} (hbytes : arrived ++ more = value.encode ++ rest) :
    read arrived = .incomplete ∨
      ∃ behind, read arrived = .done value behind ∧ behind ++ more = rest := by
  have hwhole : read (arrived ++ more) = .done value rest := by rw [hbytes, read_encode h]
  cases hread : read arrived with
  | incomplete => exact .inl rfl
  | done found behind =>
    rw [stable_read.append more hread] at hwhole
    obtain ⟨rfl, hrest⟩ := Reading.done.inj hwhole
    exact .inr ⟨behind, rfl, hrest⟩
  | malformed reason =>
    -- the stream starts with a mark, so it would be malformed as a whole
    obtain ⟨mark, tail, hencode, hmark⟩ := exists_mark_of_framed h
    cases arrived with
    | nil => cases hread
    | cons first others =>
      rw [hencode] at hbytes
      obtain ⟨rfl, -⟩ := List.cons.inj hbytes
      rw [read_append_of_malformed hmark hread] at hwhole
      cases hwhole

/-- What is read from a part of a framed value's bytes is that value, and the part is all of
them. -/
theorem eq_of_read_part {value found : Value} (h : value.Framed maxDepth) {arrived rest : Bytes}
    (hpart : arrived <+: value.encode) (hread : read arrived = .done found rest) :
    found = value ∧ rest = [] ∧ arrived = value.encode := by
  obtain ⟨more, hmore⟩ := hpart
  rcases read_of_encode_append h (hmore.trans (List.append_nil _).symm) with
    hneeds | ⟨behind, hdone, hbehind⟩
  · rw [hread] at hneeds
    cases hneeds
  · obtain ⟨rfl, rfl⟩ := Reading.done.inj (hread.symm.trans hdone)
    obtain ⟨rfl, rfl⟩ := List.append_eq_nil_iff.1 hbehind
    exact ⟨rfl, rfl, by rw [← hmore, List.append_nil]⟩

/-- Other bytes are malformed only as an inline request that goes on for too long. -/
theorem long_of_read_eq_malformed {first : UInt8} {tail : Bytes} {reason : Malformed}
    (hmark : isMark first = false) (h : read (first :: tail) = .malformed reason) :
    10 ∉ first :: tail ∧ maxInlineLength < (first :: tail).length := by
  rw [read_cons, if_neg (by simp [hmark])] at h
  obtain ⟨hend, hlong, -⟩ := readInline_eq_malformed_iff.1 h
  exact ⟨hend, hlong⟩

end Wire

end RingStore
