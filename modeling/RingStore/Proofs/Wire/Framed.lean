import RingStore.Proofs.Wire.LineEnd
import RingStore.Wire.Reader

/-!
# Lines, marks and limits

Where what is read ends. A line ends at the first end of a line in the buffer, the mark in front of
a value says how to go on, and lengths stay within limits that fit into 64 bits. So a value's bytes
show where it ends exactly if no text in it holds an end of a line and its lengths stay within the
limits. Byte strings may hold anything, since their length stands in front of them.

## Main definitions

* `Value.Framed`: the bytes of a value show where it ends.

## Main results

* `Wire.readLine_eq_done_iff`: the line that is read off a buffer.
* `Wire.readValue_of_not_isMark`: only marks start values.
-/

namespace RingStore

/-- Going on with what was read gives something only if something was read at first. -/
theorem Reading.andThen_eq_done {α β : Type} {reading : Reading α}
    {next : α → Bytes → Reading β} {result : β} {rest : Bytes} :
    reading.andThen next = .done result rest ↔
      ∃ first middle, reading = .done first middle ∧ next first middle = .done result rest := by
  constructor
  · intro h
    cases reading with
    | incomplete => cases h
    | malformed reason => cases h
    | done first middle => exact ⟨first, middle, rfl, h⟩
  · rintro ⟨first, middle, rfl, h⟩
    exact h

namespace Wire

/-- The end of the line that is looked for is the first one in the bytes. -/
theorem splitLineOnto_lineEnd {content : Bytes} (h : ¬lineEnd <:+: content) (line rest : Bytes) :
    splitLineOnto line (content ++ (lineEnd ++ rest)) = some (line.reverse ++ content, rest) := by
  induction content generalizing line with
  | nil =>
    rw [List.append_nil]
    rfl
  | cons byte more ih =>
    have hmore : ¬lineEnd <:+: more := fun hin => h (hin.trans (List.suffix_cons byte more).isInfix)
    have hstep : splitLineOnto line (byte :: more ++ (lineEnd ++ rest)) =
        splitLineOnto (byte :: line) (more ++ (lineEnd ++ rest)) := by
      rw [List.cons_append, splitLineOnto.eq_3]
      rintro after rfl hafter
      cases more with
      | nil => cases hafter
      | cons second others =>
        cases hafter
        exact h ⟨[], others, rfl⟩
    rw [hstep, ih hmore, List.reverse_cons, List.append_assoc, List.singleton_append]

/-- A line that was found stands in front of the end of a line and holds none itself. -/
theorem eq_of_splitLineOnto {line bytes found rest : Bytes}
    (h : splitLineOnto line bytes = some (found, rest)) :
    ∃ content, found = line.reverse ++ content ∧ bytes = content ++ (lineEnd ++ rest) ∧
      ¬lineEnd <:+: content := by
  fun_induction splitLineOnto line bytes with
  | case1 => cases h
  | case2 line after =>
    cases h
    exact ⟨[], (List.append_nil _).symm, rfl, by decide⟩
  | case3 line byte after hnot ih =>
    obtain ⟨content, rfl, rfl, hcontent⟩ := ih h
    refine ⟨byte :: content, by simp, rfl, ?_⟩
    rintro hin
    rcases List.infix_cons_iff.1 hin with hpart | hinner
    · -- the bytes would start with the end of a line, where the search stops
      cases content with
      | nil =>
        have := hpart.length_le
        simp [lineEnd] at this
      | cons second others =>
        obtain ⟨tail, htail⟩ := hpart
        cases htail
        exact hnot _ rfl rfl
    · exact hcontent hinner

/-- The content of a line is read back. -/
theorem readLine_lineEnd {content : Bytes} (h : ¬lineEnd <:+: content) (rest : Bytes) :
    readLine (content ++ (lineEnd ++ rest)) = .done content rest := by
  rw [readLine, splitLineOnto_lineEnd h]
  rfl

/-- A line is read off a buffer exactly if it stands at its start, with its end behind it. -/
theorem readLine_eq_done_iff {bytes content rest : Bytes} :
    readLine bytes = .done content rest ↔
      bytes = content ++ (lineEnd ++ rest) ∧ ¬lineEnd <:+: content := by
  constructor
  · intro h
    unfold readLine at h
    split at h
    · next hsplit =>
      cases h
      obtain ⟨_, rfl, hbytes, hcontent⟩ := eq_of_splitLineOnto hsplit
      exact ⟨hbytes, hcontent⟩
    · cases h
  · rintro ⟨rfl, hcontent⟩
    exact readLine_lineEnd hcontent rest

/-- The greatest length of a bulk string. -/
def bulkLimit : Nat := maxBulkLength.toNatClampNeg

/-- The greatest number of items in one array. -/
def arrayLimit : Nat := maxArrayLength.toNatClampNeg

/-- A length up to a limit stays as it is when it is written in 64 bits. -/
theorem ofNat_within {length limit : Nat} (hlimit : limit < 9223372036854775808)
    (h : length ≤ limit) :
    Int64.ofNat length ≠ -1 ∧ ¬(Int64.ofNat length < 0 ∨ Int64.ofNat limit < Int64.ofNat length) ∧
      (Int64.ofNat length).toNatClampNeg = length := by
  have hlength : (Int64.ofNat length).toInt = length := Int64.toInt_ofNat_of_lt (by omega)
  have hmax : (Int64.ofNat limit).toInt = limit := Int64.toInt_ofNat_of_lt hlimit
  have hzero : (0 : Int64).toInt = 0 := rfl
  refine ⟨fun heq => ?_, ?_, ?_⟩
  · rw [heq] at hlength
    have hnegative : (-1 : Int64).toInt = -1 := rfl
    omega
  · rw [Int64.lt_iff_toInt_lt, Int64.lt_iff_toInt_lt, hlength, hmax, hzero]
    omega
  · rw [Int64.toNatClampNeg, hlength]
    rfl

/-- A length in range stays as it is when it is taken out of 64 bits. -/
theorem toNatClampNeg_le {length : Int64} {limit : Nat} (hlimit : limit < 9223372036854775808)
    (h : ¬(length < 0 ∨ Int64.ofNat limit < length)) : length.toNatClampNeg ≤ limit := by
  have hmax : (Int64.ofNat limit).toInt = limit := Int64.toInt_ofNat_of_lt hlimit
  rw [Int64.lt_iff_toInt_lt, Int64.lt_iff_toInt_lt, hmax] at h
  rw [Int64.toNatClampNeg]
  omega

section Marks

variable (depth : Nat) (rest : Bytes)

theorem readValue_simple :
    readValue depth (43 :: rest) = (readLine rest).map (.simple ∘ Text.ofBytes) := by
  cases depth <;> rfl

theorem readValue_error :
    readValue depth (45 :: rest) = (readLine rest).map (.error ∘ Text.ofBytes) := by
  cases depth <;> rfl

theorem readValue_integer : readValue depth (58 :: rest) = (readNumber rest).map .integer := by
  cases depth <;> rfl

theorem readValue_bulk : readValue depth (36 :: rest) = readBulk rest := by
  cases depth <;> rfl

theorem readValue_array : readValue (depth + 1) (42 :: rest) = readArray (readValue depth) rest :=
  rfl

/-- Only marks start values. -/
theorem readValue_of_not_isMark {mark : UInt8} (h : isMark mark = false) :
    readValue depth (mark :: rest) = .malformed (.unknownMark mark) := by
  simp only [isMark, Bool.or_eq_false_iff, beq_eq_false_iff_ne] at h
  obtain ⟨⟨⟨⟨hplus, hminus⟩, hcolon⟩, hdollar⟩, hstar⟩ := h
  exact readValue.eq_8 depth mark rest hplus hminus hcolon hdollar (fun _ => hstar) fun _ _ => hstar

end Marks

theorem isMark_iff {mark : UInt8} :
    isMark mark = true ↔ mark = 43 ∨ mark = 45 ∨ mark = 58 ∨ mark = 36 ∨ mark = 42 := by
  simp [isMark, or_assoc]

end Wire

/-- The bytes of a value show where it ends, if `depth` arrays may lie in one another: no text holds
an end of a line, and lengths stay within the reader's limits. -/
def Value.Framed : (depth : Nat) → Value → Prop
  | _, .simple text => ¬lineEnd <:+: Text.toBytes text
  | _, .error text => ¬lineEnd <:+: Text.toBytes text
  | _, .integer _ => True
  | _, .bulk bytes => bytes.length ≤ Wire.bulkLimit
  | _, .null => True
  | 0, .array _ => False
  | depth + 1, .array items =>
    items.length ≤ Wire.arrayLimit ∧ ∀ item ∈ items, Value.Framed depth item
  | _, .silent => False

namespace Value

variable {depth : Nat}

@[simp]
theorem framed_simple {text : String} :
    (simple text).Framed depth ↔ ¬lineEnd <:+: Text.toBytes text := by
  cases depth <;> rfl

@[simp]
theorem framed_error {text : String} :
    (error text).Framed depth ↔ ¬lineEnd <:+: Text.toBytes text := by
  cases depth <;> rfl

@[simp]
theorem framed_integer {number : Int64} : (integer number).Framed depth := by
  cases depth <;> trivial

@[simp]
theorem framed_bulk {bytes : Bytes} : (bulk bytes).Framed depth ↔
    bytes.length ≤ Wire.bulkLimit := by
  cases depth <;> rfl

@[simp]
theorem framed_null : null.Framed depth := by
  cases depth <;> trivial

@[simp]
theorem not_framed_silent : ¬silent.Framed depth := by
  cases depth <;> exact id

theorem framed_array {items : List Value} :
    (array items).Framed (depth + 1) ↔
      items.length ≤ Wire.arrayLimit ∧ ∀ item ∈ items, item.Framed depth :=
  Iff.rfl

end Value

end RingStore
