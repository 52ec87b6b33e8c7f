import RingStore.Proofs.Decimal.Denotes
import RingStore.Proofs.Wire.Framed

/-!
# The grammar of values

What a reader accepts is given here a second time, by rules and without a reader: which bytes
*derive* which value. The reader takes a value off the start of a buffer exactly if the bytes that
it takes derive the value. A buffer has at most one such beginning, since the reader does not
choose.

Every value in an array is derived as one outside, so it starts with a mark, too. The number of
arrays that may lie in one another counts whatever starts with the mark of an array, also `null` in
that form.

## Main definitions

* `Wire.Derives`: the bytes of a value.
* `Wire.ItemAt`: where an item of an array is still to be read.

## Main results

* `Wire.readValue_eq_done_iff`: values are read by the rules.
* `Wire.Derives.unambiguous`: at most one value is derived from the start of a buffer.
* `Wire.read_iff_derives`: what is read off a buffer that starts with a mark.
-/

namespace RingStore

namespace Wire

/-- A line that denotes a number is read as that number, unless it needs more than 64 bits. -/
theorem readNumber_of_denotes {text : Bytes} {number : Int} (h : Decimal.Denotes text number)
    (rest : Bytes) :
    readNumber (text ++ (lineEnd ++ rest)) =
      (Decimal.int64? text).elim (.malformed .notNumber) (.done · rest) := by
  have hline : ¬lineEnd <:+: text := fun hin =>
    absurd (h.mem (hin.subset (by decide : (13 : UInt8) ∈ lineEnd))).1 (by decide)
  have hvalid : Text.isValid text = true :=
    Text.isValid_of_lt fun byte hbyte => Nat.lt_of_le_of_lt (h.mem hbyte).2 (by decide)
  rw [readNumber, readLine_lineEnd hline]
  simp only [Reading.andThen, hvalid, if_true]
  cases Decimal.int64? text <;> rfl

/-- A number is read off a buffer exactly if a line at its start denotes it. -/
theorem readNumber_eq_done_iff {bytes rest : Bytes} {number : Int64} :
    readNumber bytes = .done number rest ↔
      ∃ text, bytes = text ++ (lineEnd ++ rest) ∧ Decimal.Denotes text number.toInt := by
  constructor
  · intro h
    obtain ⟨text, after, hline, hnumber⟩ := Reading.andThen_eq_done.1 h
    obtain ⟨rfl, -⟩ := readLine_eq_done_iff.1 hline
    split at hnumber
    · split at hnumber
      · next hread =>
        cases hnumber
        exact ⟨text, rfl, Decimal.int64?_eq_some_iff.1 hread⟩
      · cases hnumber
    · cases hnumber
  · rintro ⟨text, rfl, hdenotes⟩
    rw [readNumber_of_denotes hdenotes, Decimal.int64?_eq_some_iff.2 hdenotes]
    rfl

/-- The bytes derive a value, in which `depth` arrays may lie in one another. -/
inductive Derives : (depth : Nat) → Value → Bytes → Prop where
  /-- A text on a line of its own. -/
  | simple {depth : Nat} {text : Bytes} (hline : ¬lineEnd <:+: text) :
      Derives depth (.simple (Text.ofBytes text)) (43 :: (text ++ lineEnd))
  /-- The text of an error on a line of its own. -/
  | error {depth : Nat} {text : Bytes} (hline : ¬lineEnd <:+: text) :
      Derives depth (.error (Text.ofBytes text)) (45 :: (text ++ lineEnd))
  /-- A number of 64 bits. -/
  | integer {depth : Nat} {text : Bytes} {number : Int64}
      (hnumber : Decimal.Denotes text number.toInt) :
      Derives depth (.integer number) (58 :: (text ++ lineEnd))
  /-- As many bytes as a number announces, and the end of a line. -/
  | bulk {depth : Nat} {text bytes : Bytes} (hlength : Decimal.Denotes text bytes.length)
      (hlimit : bytes.length ≤ 536870912) :
      Derives depth (.bulk bytes) (36 :: (text ++ lineEnd ++ bytes ++ lineEnd))
  /-- `null` in the form of a bulk string. -/
  | null {depth : Nat} {text : Bytes} (hlength : Decimal.Denotes text (-1)) :
      Derives depth .null (36 :: (text ++ lineEnd))
  /-- `null` in the form of an array, for which there must be room as for one. -/
  | nullArray {depth : Nat} {text : Bytes} (hcount : Decimal.Denotes text (-1)) :
      Derives (depth + 1) .null (42 :: (text ++ lineEnd))
  /-- As many values as a number announces, each with its bytes. -/
  | array {depth : Nat} {text : Bytes} {items : List (Value × Bytes)}
      (hcount : Decimal.Denotes text items.length) (hlimit : items.length ≤ 1048576)
      (hitems : ∀ item ∈ items, Derives depth item.1 item.2) :
      Derives (depth + 1) (.array (items.map Prod.fst))
        (42 :: (text ++ lineEnd ++ items.flatMap Prod.snd))

section Reads

variable {text : Bytes} (rest : Bytes)

/-- A length is read off the line that denotes it. -/
theorem readNumber_of_length {length : Nat} (h : Decimal.Denotes text length)
    (hlength : length < 9223372036854775808) :
    readNumber (text ++ (lineEnd ++ rest)) = .done (Int64.ofNat length) rest := by
  refine readNumber_eq_done_iff.2 ⟨text, rfl, ?_⟩
  rwa [Int64.toInt_ofNat_of_lt hlength]

/-- The number that stands for `null` is read off the line that denotes it. -/
theorem readNumber_of_null (h : Decimal.Denotes text (-1)) :
    readNumber (text ++ (lineEnd ++ rest)) = .done (-1) rest :=
  readNumber_eq_done_iff.2 ⟨text, rfl, h⟩

theorem readBulk_of_length {bytes : Bytes} (h : Decimal.Denotes text bytes.length)
    (hlimit : bytes.length ≤ bulkLimit) :
    readBulk (text ++ (lineEnd ++ (bytes ++ (lineEnd ++ rest)))) = .done (.bulk bytes) rest := by
  have hsmall : bulkLimit < 9223372036854775808 := by decide
  obtain ⟨hnull, hrange, hlength⟩ := ofNat_within hsmall hlimit
  have hmax : Int64.ofNat bulkLimit = maxBulkLength := by decide
  rw [hmax] at hrange
  rw [readBulk, readNumber_of_length _ h (by omega)]
  simp only [Reading.andThen, if_neg hnull, if_neg hrange, hlength, List.drop_left, List.take_left]
  rfl

/-- What follows the number of an array's items, if that is in range. -/
theorem readArray_of_count (readItem : Bytes → Reading Value) {count : Nat}
    (h : Decimal.Denotes text count) (hlimit : count ≤ arrayLimit) :
    readArray readItem (text ++ (lineEnd ++ rest)) =
      (readMany readItem count [] rest).map .array := by
  have hsmall : arrayLimit < 9223372036854775808 := by decide
  obtain ⟨hnull, hrange, hcount⟩ := ofNat_within hsmall hlimit
  have hmax : Int64.ofNat arrayLimit = maxArrayLength := by decide
  rw [hmax] at hrange
  rw [readArray, readNumber_of_length _ h (by omega)]
  simp only [Reading.andThen, if_neg hnull, if_neg hrange, hcount]

/-- Items that are read go to those already read. -/
theorem readMany_items {readItem : Bytes → Reading Value} {items : List (Value × Bytes)}
    (h : ∀ item ∈ items, ∀ rest, readItem (item.2 ++ rest) = .done item.1 rest) (count : Nat)
    (read : List Value) :
    readMany readItem (items.length + count) read (items.flatMap Prod.snd ++ rest) =
      readMany readItem count ((items.map Prod.fst).reverse ++ read) rest := by
  induction items generalizing read with
  | nil =>
    rw [List.length_nil, Nat.zero_add]
    rfl
  | cons item more ih =>
    obtain ⟨hitem, hmore⟩ := List.forall_mem_cons.1 h
    rw [List.length_cons, Nat.add_right_comm, readMany, List.flatMap_cons, List.append_assoc, hitem]
    simp only []
    rw [ih hmore, List.map_cons, List.reverse_cons, List.append_assoc, List.singleton_append]

end Reads

/-- A value is read off any buffer that starts with bytes deriving it. -/
theorem Derives.readValue_append {depth : Nat} {value : Value} {taken : Bytes}
    (h : Derives depth value taken) (rest : Bytes) :
    readValue depth (taken ++ rest) = .done value rest := by
  induction h generalizing rest with
  | simple hline =>
    rw [List.cons_append, List.append_assoc, readValue_simple, readLine_lineEnd hline]
    rfl
  | error hline =>
    rw [List.cons_append, List.append_assoc, readValue_error, readLine_lineEnd hline]
    rfl
  | integer hnumber =>
    rw [List.cons_append, List.append_assoc, readValue_integer,
      readNumber_eq_done_iff.2 ⟨_, rfl, hnumber⟩]
    rfl
  | bulk hlength hlimit =>
    rw [List.cons_append, readValue_bulk]
    simp only [List.append_assoc]
    exact readBulk_of_length rest hlength hlimit
  | null hlength =>
    rw [List.cons_append, List.append_assoc, readValue_bulk, readBulk, readNumber_of_null _ hlength]
    rfl
  | nullArray hcount =>
    rw [List.cons_append, List.append_assoc, readValue_array, readArray,
      readNumber_of_null _ hcount]
    rfl
  | array hcount hlimit hitems ih =>
    -- each item is read off what the items after it and the rest follow
    have hmany := readMany_items rest ih 0 []
    rw [Nat.add_zero, List.append_nil] at hmany
    rw [List.cons_append, readValue_array]
    simp only [List.append_assoc]
    rw [readArray_of_count _ _ hcount hlimit, hmany, readMany, List.reverse_reverse]
    rfl

/-- A length in range is the number that it is taken out of. -/
theorem toInt_of_range {length : Int64} {limit : Int64} (h : ¬(length < 0 ∨ limit < length)) :
    length.toInt = length.toNatClampNeg := by
  have hzero : (0 : Int64).toInt = 0 := rfl
  rw [Int64.lt_iff_toInt_lt, hzero] at h
  rw [Int64.toNatClampNeg]
  omega

theorem le_length_of_drop_eq_cons {length : Nat} {bytes after : Bytes} {first : UInt8}
    (h : bytes.drop length = first :: after) : length ≤ bytes.length := by
  refine Nat.le_of_lt (Nat.lt_of_not_le fun hge => ?_)
  rw [List.drop_eq_nil_of_le hge] at h
  cases h

/-- What is read off a buffer as a bulk string. -/
theorem exists_derives_of_readBulk {depth : Nat} {bytes rest : Bytes} {value : Value}
    (h : readBulk bytes = .done value rest) :
    ∃ taken, bytes = taken ++ rest ∧ Derives depth value (36 :: taken) := by
  obtain ⟨length, after, hnumber, hlength⟩ := Reading.andThen_eq_done.1 h
  obtain ⟨text, rfl, hdenotes⟩ := readNumber_eq_done_iff.1 hnumber
  split at hlength
  · next hnull =>
    cases hlength
    subst hnull
    exact ⟨text ++ lineEnd, (List.append_assoc ..).symm, .null hdenotes⟩
  · split at hlength
    · cases hlength
    · next hrange =>
      split at hlength
      · next hdrop =>
        cases hlength
        rw [toInt_of_range hrange] at hdenotes
        -- something follows the bytes that are taken, so there are as many as announced
        have htake : (after.take length.toNatClampNeg).length = length.toNatClampNeg :=
          List.length_take_of_le (le_length_of_drop_eq_cons hdrop)
        refine ⟨text ++ lineEnd ++ after.take length.toNatClampNeg ++ lineEnd, ?_, ?_⟩
        · simp only [List.append_assoc]
          refine congrArg (fun behind => text ++ (lineEnd ++ behind)) ?_
          rw [lineEnd, List.cons_append, List.cons_append, List.nil_append, ← hdrop,
            List.take_append_drop]
        · refine .bulk (htake.symm ▸ hdenotes) ?_
          rw [htake]
          exact toNatClampNeg_le (by decide) hrange
      · cases hlength
      · cases hlength

/-- What is read one after the other. -/
theorem exists_items_of_readMany {readItem : Bytes → Reading Value} {P : Value → Bytes → Prop}
    (hitem : ∀ bytes value rest, readItem bytes = .done value rest →
      ∃ taken, bytes = taken ++ rest ∧ P value taken)
    {count : Nat} {read values : List Value} {bytes rest : Bytes}
    (h : readMany readItem count read bytes = .done values rest) :
    ∃ items : List (Value × Bytes), items.length = count ∧
      values = read.reverse ++ items.map Prod.fst ∧ bytes = items.flatMap Prod.snd ++ rest ∧
      ∀ item ∈ items, P item.1 item.2 := by
  induction count generalizing read bytes with
  | zero =>
    cases h
    exact ⟨[], rfl, (List.append_nil _).symm, rfl, nofun⟩
  | succ count ih =>
    unfold readMany at h
    split at h
    · cases h
    · cases h
    · next value after hread =>
      obtain ⟨taken, rfl, hderives⟩ := hitem _ _ _ hread
      obtain ⟨items, rfl, rfl, rfl, hitems⟩ := ih h
      refine ⟨(value, taken) :: items, rfl, ?_, ?_, List.forall_mem_cons.2 ⟨hderives, hitems⟩⟩
      · simp
      · simp

/-- Whatever is read is derived from what is taken if arrays are. -/
theorem exists_derives_of_readValue_of_array {depth : Nat} {bytes rest : Bytes} {value : Value}
    (h : readValue depth bytes = .done value rest)
    (harray : ∀ tail, bytes = 42 :: tail → ∃ taken,
      bytes = taken ++ rest ∧ Derives depth value taken) :
    ∃ taken, bytes = taken ++ rest ∧ Derives depth value taken := by
  cases bytes with
  | nil => cases depth <;> cases h
  | cons mark tail =>
    cases hmark : isMark mark with
    | false =>
      rw [readValue_of_not_isMark _ _ hmark] at h
      cases h
    | true =>
      -- all values but arrays are told by one line, or by a line and the bytes that it counts
      rcases isMark_iff.1 hmark with rfl | rfl | rfl | rfl | rfl
      · rw [readValue_simple] at h
        obtain ⟨text, _, hline, heq⟩ := Reading.andThen_eq_done.1 h
        obtain ⟨rfl, hnone⟩ := readLine_eq_done_iff.1 hline
        cases heq
        exact ⟨43 :: (text ++ lineEnd), by simp, .simple hnone⟩
      · rw [readValue_error] at h
        obtain ⟨text, _, hline, heq⟩ := Reading.andThen_eq_done.1 h
        obtain ⟨rfl, hnone⟩ := readLine_eq_done_iff.1 hline
        cases heq
        exact ⟨45 :: (text ++ lineEnd), by simp, .error hnone⟩
      · rw [readValue_integer] at h
        obtain ⟨number, _, hnumber, heq⟩ := Reading.andThen_eq_done.1 h
        obtain ⟨text, rfl, hdenotes⟩ := readNumber_eq_done_iff.1 hnumber
        cases heq
        exact ⟨58 :: (text ++ lineEnd), by simp, .integer hdenotes⟩
      · rw [readValue_bulk] at h
        obtain ⟨taken, rfl, hderives⟩ := exists_derives_of_readBulk h
        exact ⟨36 :: taken, rfl, hderives⟩
      · exact harray tail rfl

/-- Whatever is read off a buffer is derived from the bytes that are taken. -/
theorem exists_derives_of_readValue {depth : Nat} {bytes rest : Bytes} {value : Value}
    (h : readValue depth bytes = .done value rest) :
    ∃ taken, bytes = taken ++ rest ∧ Derives depth value taken := by
  induction depth generalizing bytes rest value with
  | zero =>
    refine exists_derives_of_readValue_of_array h ?_
    -- without room for an array its mark is refused
    rintro tail rfl
    cases h
  | succ depth ih =>
    refine exists_derives_of_readValue_of_array h ?_
    rintro tail rfl
    rw [readValue_array] at h
    obtain ⟨count, after, hnumber, hcount⟩ := Reading.andThen_eq_done.1 h
    obtain ⟨text, rfl, hdenotes⟩ := readNumber_eq_done_iff.1 hnumber
    split at hcount
    · next hnull =>
      cases hcount
      subst hnull
      exact ⟨42 :: (text ++ lineEnd), by simp, .nullArray hdenotes⟩
    · split at hcount
      · cases hcount
      · next hrange =>
        obtain ⟨values, _, hmany, heq⟩ := Reading.andThen_eq_done.1 hcount
        obtain ⟨items, hlength, rfl, rfl, hitems⟩ :=
          exists_items_of_readMany (fun _ _ _ => ih) hmany
        cases heq
        rw [toInt_of_range hrange, ← hlength] at hdenotes
        have hlimit : items.length ≤ arrayLimit := by
          rw [hlength]
          exact toNatClampNeg_le (by decide) hrange
        exact ⟨42 :: (text ++ lineEnd ++ items.flatMap Prod.snd), by simp,
          .array hdenotes hlimit hitems⟩

/-- Values are read by the rules, and in no other way. -/
theorem readValue_eq_done_iff {depth : Nat} {bytes rest : Bytes} {value : Value} :
    readValue depth bytes = .done value rest ↔
      ∃ taken, bytes = taken ++ rest ∧ Derives depth value taken := by
  refine ⟨exists_derives_of_readValue, ?_⟩
  rintro ⟨taken, rfl, hderives⟩
  exact hderives.readValue_append rest

/-- At most one value is derived from the start of a buffer, and from one start of it. -/
theorem Derives.unambiguous {depth : Nat} {value other : Value} {taken others rest more : Bytes}
    (h : Derives depth value taken) (hother : Derives depth other others)
    (hsame : taken ++ rest = others ++ more) : value = other ∧ taken = others := by
  -- both are what the reader takes off the same buffer
  have hread := h.readValue_append rest
  rw [hsame, hother.readValue_append more] at hread
  cases hread
  exact ⟨rfl, List.append_cancel_right hsame⟩

/-- An item of an array is still to be read off `rest`, where `inner` more arrays may lie in one
another; or the value itself is. -/
inductive ItemAt : (depth : Nat) → Bytes → (inner : Nat) → Bytes → Prop where
  /-- The value itself is still to be read. -/
  | here (depth : Nat) (bytes : Bytes) : ItemAt depth bytes depth bytes
  /-- The items in front are read, and there are more. -/
  | item {depth inner count : Nat} {text bytes rest : Bytes} {items : List (Value × Bytes)}
      (hcount : Decimal.Denotes text count) (hlimit : count ≤ 1048576)
      (hmore : items.length < count) (hitems : ∀ item ∈ items, Derives depth item.1 item.2)
      (h : ItemAt depth bytes inner rest) :
      ItemAt (depth + 1) (42 :: (text ++ lineEnd ++ items.flatMap Prod.snd ++ bytes)) inner rest

/-- No item is read yet. -/
theorem ItemAt.first {depth inner count : Nat} {text bytes rest : Bytes}
    (h : ItemAt depth bytes inner rest) (hcount : Decimal.Denotes text count)
    (hlimit : count ≤ 1048576) (hpos : 0 < count) :
    ItemAt (depth + 1) (42 :: (text ++ lineEnd ++ bytes)) inner rest := by
  have hitems : ∀ item ∈ ([] : List (Value × Bytes)), Derives depth item.1 item.2 := nofun
  have hmore : ([] : List (Value × Bytes)).length < count := hpos
  have hitem := ItemAt.item hcount hlimit hmore hitems h
  rwa [List.flatMap_nil, List.append_nil] at hitem

/-- Bytes of which an item is malformed are malformed. -/
theorem ItemAt.readValue_eq_malformed {depth inner : Nat} {bytes rest : Bytes} {reason : Malformed}
    (h : ItemAt depth bytes inner rest) (hread : readValue inner rest = .malformed reason) :
    readValue depth bytes = .malformed reason := by
  induction h with
  | here depth bytes => exact hread
  | @item depth inner count text bytes rest items hcount hlimit hmore hitems _ ih =>
    -- the items in front are read, and the next one to be read is malformed
    obtain ⟨left, rfl⟩ : ∃ left, count = items.length + (left + 1) :=
      ⟨count - items.length - 1, by omega⟩
    have hmany := readMany_items bytes
      (fun item hitem => (hitems item hitem).readValue_append) (left + 1) []
    rw [readValue_array]
    simp only [List.append_assoc]
    rw [readArray_of_count _ _ hcount hlimit, hmany, readMany, ih hread]
    rfl

/-- Off a buffer that starts with a mark, exactly the values are read whose bytes stand at its start
by the rules. There is at most one such value, and one such start. Everything in an array is read by
the same rules: where an item starts with no mark, the buffer is malformed, however deep the item
lies. -/
theorem read_iff_derives {first : UInt8} (hmark : isMark first = true) (tail : Bytes) :
    (∀ value rest, read (first :: tail) = .done value rest ↔
      ∃ taken, first :: tail = taken ++ rest ∧ Derives maxDepth value taken) ∧
    (∀ depth value other taken others rest more,
      first :: tail = taken ++ rest → Derives depth value taken →
      first :: tail = others ++ more → Derives depth other others →
        value = other ∧ taken = others) ∧
    ∀ depth mark more, ItemAt maxDepth (first :: tail) depth (mark :: more) → isMark mark = false →
      read (first :: tail) = .malformed (.unknownMark mark) := by
  have hread : read (first :: tail) = readValue maxDepth (first :: tail) := if_pos hmark
  rw [hread]
  refine ⟨fun value rest => readValue_eq_done_iff, ?_, ?_⟩
  · intro depth value other taken others rest more hfront hderives hfront' hderives'
    exact hderives.unambiguous hderives' (hfront.symm.trans hfront')
  · intro depth mark more hitem hnone
    exact hitem.readValue_eq_malformed (readValue_of_not_isMark depth more hnone)

theorem denotes_one : Decimal.Denotes [49] 1 :=
  .unsigned (by simp) (by simp [Decimal.AreDigits])

theorem denotes_minus_one : Decimal.Denotes [45, 49] (-1) :=
  .minus (List.cons_ne_nil 49 []) (by simp [Decimal.AreDigits])

/-- A number with a sign and a zero in front is read in an array, and a word there is malformed. -/
theorem read_iff_derives_of_items :
    isMark 42 = true ∧
      (∃ taken, 42 :: Text.toBytes "2\r\n:+07\r\n$-01\r\n+OK" = taken ++ Text.toBytes "+OK" ∧
        Derives maxDepth (.array [.integer 7, .null]) taken) ∧
      read (42 :: Text.toBytes "1\r\n*1\r\nPING\r\n") = .malformed (.unknownMark 80) := by
  have hmark : isMark 42 = true := rfl
  have hword : Text.toBytes "1\r\n*1\r\nPING\r\n" =
      [49] ++ lineEnd ++ (42 :: ([49] ++ lineEnd ++ Text.toBytes "PING\r\n")) := by decide +kernel
  have hitem : ItemAt maxDepth (42 :: Text.toBytes "1\r\n*1\r\nPING\r\n") 30
      (80 :: Text.toBytes "ING\r\n") := by
    rw [hword]
    have hinner := ItemAt.here 30 (Text.toBytes "PING\r\n")
    exact (hinner.first denotes_one (by decide) (by decide)).first
      denotes_one (by decide) (by decide)
  obtain ⟨hread, -, -⟩ := read_iff_derives hmark (Text.toBytes "2\r\n:+07\r\n$-01\r\n+OK")
  obtain ⟨-, -, hmalformed⟩ := read_iff_derives hmark (Text.toBytes "1\r\n*1\r\nPING\r\n")
  refine ⟨hmark, (hread _ _).1 ?_, hmalformed 30 80 _ hitem rfl⟩
  with_unfolding_all rfl

/-- `null` in the form of an array, in arrays of one item each; the value and its bytes. -/
def nestedNull : (depth : Nat) → Value × Bytes
  | 0 => (.null, 42 :: ([45, 49] ++ lineEnd))
  | depth + 1 => (.array [(nestedNull depth).1], 42 :: ([49] ++ lineEnd ++ (nestedNull depth).2))

theorem derives_nestedNull (depth : Nat) :
    Derives (depth + 1) (nestedNull depth).1 (nestedNull depth).2 := by
  induction depth with
  | zero => exact .nullArray denotes_minus_one
  | succ depth ih =>
    have hitems : ∀ item ∈ [nestedNull depth], Derives (depth + 1) item.1 item.2 := by
      simpa using ih
    have harray := Derives.array denotes_one (by simp) hitems
    rw [List.flatMap_singleton] at harray
    exact harray

theorem framed_nestedNull (depth : Nat) : (nestedNull depth).1.Framed depth := by
  induction depth with
  | zero => exact Value.framed_null
  | succ depth ih => exact ⟨(by decide : 1 ≤ arrayLimit), by simpa using ih⟩

theorem itemAt_nestedNull (depth : Nat) :
    ItemAt depth (nestedNull depth).2 0 (nestedNull 0).2 := by
  induction depth with
  | zero => exact .here 0 _
  | succ depth ih =>
    exact ih.first denotes_one (by decide) (by decide)

/-- In 32 arrays `null` in the form of an array is refused for lying too deep, although as a value
it is no array. -/
theorem not_forall_read_iff : ¬∀ (first : UInt8) (tail : Bytes), isMark first = true →
    ∀ (value : Value) (rest : Bytes), read (first :: tail) = .done value rest ↔
      ∃ taken, first :: tail = taken ++ rest ∧ (∃ depth, Derives depth value taken) ∧
        value.Framed maxDepth := by
  intro h
  let tail := [49] ++ lineEnd ++ (nestedNull 31).2
  have hread : read (42 :: tail) = .malformed .nestedTooDeep :=
    (itemAt_nestedNull maxDepth).readValue_eq_malformed rfl
  have hdone := (h 42 tail rfl (nestedNull maxDepth).1 []).2
    ⟨_, (List.append_nil _).symm, ⟨_, derives_nestedNull maxDepth⟩, framed_nestedNull maxDepth⟩
  rw [hread] at hdone
  cases hdone

end Wire

end RingStore
