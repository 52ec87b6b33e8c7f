import RingStore.Wire.Value

/-!
# Reading values off a stream

A stream delivers its bytes in pieces, so reading a value from the bytes received so far has three
outcomes: the value with the bytes after it, *incomplete* when more bytes can still complete it, and
*malformed* when none can. Nothing is taken from the buffer unless a whole value is there.

A first byte other than the five marks starts an *inline* request: one line whose words are the
command line, as a person would type it.

## Main definitions

* `Reading`: the three outcomes.
* `Wire.read`: the first value of the bytes received so far.
* `Wire.takeValue`: the same for a buffer, off which the value is taken.

## Main results

* `Wire.length_lt_of_read`: a value takes at least one byte, so reading values one after the other
  comes to an end.
-/

namespace RingStore

/-- Why bytes can never become a value. -/
inductive Malformed where
  /-- Arrays lie in one another too deeply. -/
  | nestedTooDeep
  /-- A bulk string announces a length that is not allowed. -/
  | bulkLength (length : Int64)
  /-- An array announces a number of items that is not allowed. -/
  | arrayLength (count : Int64)
  /-- A bulk string's bytes are not followed by the end of a line. -/
  | bulkUnterminated
  /-- An item of an array starts with a byte that is no mark. -/
  | unknownMark (mark : UInt8)
  /-- An inline request goes on for too long. -/
  | inlineTooLong
  /-- A number is not even text. -/
  | notText
  /-- A number's text denotes no 64-bit signed number. -/
  | notNumber
  deriving DecidableEq

namespace Wire

/-- The greatest length of a bulk string, 512 MiB. -/
def maxBulkLength : Int64 := 536870912

/-- The greatest number of items in one array. -/
def maxArrayLength : Int64 := 1048576

/-- The greatest length of an inline request whose end has not been seen. -/
def maxInlineLength : Nat := 65536

/-- How many arrays may lie in one another. -/
def maxDepth : Nat := 32

end Wire

/-- The reason in words. -/
def Malformed.message : Malformed → String
  | nestedTooDeep => s!"Invalid protocol: Arrays nested deeper than {Wire.maxDepth}"
  | bulkLength length => s!"Invalid protocol: Invalid bulk string length: {length.toInt}"
  | arrayLength count => s!"Invalid protocol: Invalid array count: {count.toInt}"
  | bulkUnterminated => "Invalid protocol: Missing CRLF after bulk string data"
  | unknownMark mark => s!"Invalid protocol: Unknown type prefix: {Char.ofNat mark.toNat}"
  | inlineTooLong => "Invalid protocol: too big inline request"
  | notText => "Invalid UTF-8"
  | notNumber => "Integer overflow"

/-- The outcome of reading from the bytes received so far. -/
inductive Reading (α : Type) where
  /-- More bytes are needed. -/
  | incomplete
  /-- No further bytes can help. -/
  | malformed (reason : Malformed)
  /-- What was read and the bytes after it. -/
  | done (result : α) (rest : Bytes)

namespace Reading

variable {α β : Type}

/-- Goes on with what was read. -/
def andThen (reading : Reading α) (next : α → Bytes → Reading β) : Reading β :=
  match reading with
  | incomplete => incomplete
  | malformed reason => malformed reason
  | done result rest => next result rest

/-- Changes what was read. -/
def map (f : α → β) (reading : Reading α) : Reading β :=
  reading.andThen fun result rest => done (f result) rest

/-- If something was read, fewer than `bound` bytes are left. -/
def LeavesLess (reading : Reading α) (bound : Nat) : Prop :=
  ∀ result rest, reading = done result rest → rest.length < bound

theorem LeavesLess.mono {reading : Reading α} {low high : Nat} (h : reading.LeavesLess low)
    (hle : low ≤ high) : reading.LeavesLess high :=
  fun result rest heq => Nat.lt_of_lt_of_le (h result rest heq) hle

theorem LeavesLess.andThen {reading : Reading α} {next : α → Bytes → Reading β} {bound : Nat}
    (h : reading.LeavesLess bound)
    (hnext : ∀ result rest, rest.length < bound → (next result rest).LeavesLess bound) :
    (reading.andThen next).LeavesLess bound := by
  intro result rest heq
  cases reading with
  | incomplete => cases heq
  | malformed reason => cases heq
  | done first middle => exact hnext first middle (h first middle rfl) result rest heq

theorem LeavesLess.map {reading : Reading α} {f : α → β} {bound : Nat}
    (h : reading.LeavesLess bound) : (reading.map f).LeavesLess bound :=
  h.andThen fun _ rest hlt _ _ heq => by cases heq; exact hlt

theorem LeavesLess.of_done {result : α} {rest : Bytes} {bound : Nat} (h : rest.length < bound) :
    (done result rest).LeavesLess bound := by
  intro _ _ heq
  cases heq
  exact h

theorem LeavesLess.of_malformed {reason : Malformed} {bound : Nat} :
    (malformed reason : Reading α).LeavesLess bound := by
  intro _ _ heq
  cases heq

theorem LeavesLess.of_incomplete {bound : Nat} :
    (incomplete : Reading α).LeavesLess bound := by
  intro _ _ heq
  cases heq

end Reading

namespace Wire

open Reading

/-- Looks for the end of the line whose bytes so far, latest first, are `line`. -/
def splitLineOnto (line : Bytes) : Bytes → Option (Bytes × Bytes)
  | [] => none
  | 13 :: 10 :: rest => some (line.reverse, rest)
  | byte :: rest => splitLineOnto (byte :: line) rest

/-- The bytes up to the first end of a line, and those after it. -/
def readLine (bytes : Bytes) : Reading Bytes :=
  match splitLineOnto [] bytes with
  | some (line, rest) => done line rest
  | none => incomplete

/-- A number on a line of its own. -/
def readNumber (bytes : Bytes) : Reading Int64 :=
  (readLine bytes).andThen fun line rest =>
    if Text.isValid line then
      match Decimal.int64? line with
      | some number => done number rest
      | none => malformed .notNumber
    else malformed .notText

/-- What follows the mark of a bulk string; the length -1 stands for `null`. -/
def readBulk (bytes : Bytes) : Reading Value :=
  (readNumber bytes).andThen fun length rest =>
    if length = -1 then done .null rest
    else if length < 0 ∨ maxBulkLength < length then malformed (.bulkLength length)
    else match rest.drop length.toNatClampNeg with
      | 13 :: 10 :: after => done (.bulk (rest.take length.toNatClampNeg)) after
      | _ :: _ :: _ => malformed .bulkUnterminated
      | _ => incomplete

/-- A number of values one after the other, after those already read (latest first). -/
def readMany (read : Bytes → Reading Value) : Nat → List Value → Bytes → Reading (List Value)
  | 0, items, bytes => done items.reverse bytes
  | count + 1, items, bytes =>
    match read bytes with
    | incomplete => incomplete
    | malformed reason => malformed reason
    | done item rest => readMany read count (item :: items) rest

/-- What follows the mark of an array, given how to read an item; the length -1 stands for
`null`. -/
def readArray (readItem : Bytes → Reading Value) (bytes : Bytes) : Reading Value :=
  (readNumber bytes).andThen fun count rest =>
    if count = -1 then done .null rest
    else if count < 0 ∨ maxArrayLength < count then malformed (.arrayLength count)
    else (readMany readItem count.toNatClampNeg [] rest).map .array

/-- The value at the start of the bytes, in which `depth` more arrays may lie in one another. -/
def readValue : (depth : Nat) → Bytes → Reading Value
  | _, [] => incomplete
  | _, 43 :: rest => (readLine rest).map (.simple ∘ Text.ofBytes)
  | _, 45 :: rest => (readLine rest).map (.error ∘ Text.ofBytes)
  | _, 58 :: rest => (readNumber rest).map .integer
  | _, 36 :: rest => readBulk rest
  | 0, 42 :: _ => malformed .nestedTooDeep
  | depth + 1, 42 :: rest => readArray (readValue depth) rest
  | _, mark :: _ => malformed (.unknownMark mark)

/-- A line without the carriage return that may end it. -/
def dropCarriageReturn (line : Bytes) : Bytes :=
  if line.getLast? = some 13 then line.dropLast else line

/-- An inline request: the words of a line that ends with a line feed. -/
def readInline (bytes : Bytes) : Reading Value :=
  match bytes.findIdx? (· == 10) with
  | some stop =>
    done (.array ((dropCarriageReturn (bytes.take stop)).words.map .bulk)) (bytes.drop (stop + 1))
  | none => if maxInlineLength < bytes.length then malformed .inlineTooLong else incomplete

/-- The byte tells the kind of the value that it starts. -/
def isMark (byte : UInt8) : Bool :=
  byte == 43 || byte == 45 || byte == 58 || byte == 36 || byte == 42

/-- The first value of the bytes received so far. -/
def read (bytes : Bytes) : Reading Value :=
  match bytes with
  | [] => incomplete
  | first :: _ => if isMark first then readValue maxDepth bytes else readInline bytes

theorem length_of_splitLineOnto {line bytes found rest : Bytes}
    (h : splitLineOnto line bytes = some (found, rest)) : rest.length < bytes.length := by
  fun_induction splitLineOnto line bytes with
  | case1 => cases h
  | case2 line rest₁ => cases h; simp only [List.length_cons]; omega
  | case3 line byte rest₁ _ ih => have := ih h; simp only [List.length_cons]; omega

theorem leavesLess_readLine (bytes : Bytes) : (readLine bytes).LeavesLess bytes.length := by
  unfold readLine
  split
  · next heq => exact .of_done (length_of_splitLineOnto heq)
  · exact .of_incomplete

theorem leavesLess_readNumber (bytes : Bytes) : (readNumber bytes).LeavesLess bytes.length := by
  refine (leavesLess_readLine bytes).andThen fun line rest hlt => ?_
  split
  · split
    · exact .of_done hlt
    · exact .of_malformed
  · exact .of_malformed

theorem leavesLess_readBulk (bytes : Bytes) : (readBulk bytes).LeavesLess bytes.length := by
  refine (leavesLess_readNumber bytes).andThen fun length rest hlt => ?_
  split
  · exact .of_done hlt
  · split
    · exact .of_malformed
    · split
      · next after heq =>
        have : (rest.drop length.toNatClampNeg).length = after.length + 2 := by rw [heq]; rfl
        rw [List.length_drop] at this
        exact .of_done (by omega)
      · exact .of_malformed
      · exact .of_incomplete

theorem leavesLess_readMany {read : Bytes → Reading Value}
    (hread : ∀ bytes, (read bytes).LeavesLess bytes.length) (count : Nat) (items : List Value)
    {bytes : Bytes} {bound : Nat} (hlt : bytes.length < bound) :
    (readMany read count items bytes).LeavesLess bound := by
  induction count generalizing items bytes with
  | zero => exact .of_done hlt
  | succ count ih =>
    unfold readMany
    split
    · exact .of_incomplete
    · exact .of_malformed
    · next item rest heq => exact ih _ (Nat.lt_trans (hread bytes item rest heq) hlt)

theorem leavesLess_readArray {readItem : Bytes → Reading Value}
    (hread : ∀ bytes, (readItem bytes).LeavesLess bytes.length) (bytes : Bytes) :
    (readArray readItem bytes).LeavesLess bytes.length := by
  refine (leavesLess_readNumber bytes).andThen fun count rest hlt => ?_
  split
  · exact .of_done hlt
  · split
    · exact .of_malformed
    · exact (leavesLess_readMany hread _ _ hlt).map

theorem leavesLess_readValue (depth : Nat) (bytes : Bytes) :
    (readValue depth bytes).LeavesLess bytes.length := by
  induction depth generalizing bytes with
  | zero =>
    unfold readValue
    split
    · exact .of_incomplete
    · exact (leavesLess_readLine _).map.mono (by simp)
    · exact (leavesLess_readLine _).map.mono (by simp)
    · exact (leavesLess_readNumber _).map.mono (by simp)
    · exact (leavesLess_readBulk _).mono (by simp)
    · exact .of_malformed
    · contradiction
    · exact .of_malformed
  | succ depth ih =>
    unfold readValue
    split
    · exact .of_incomplete
    · exact (leavesLess_readLine _).map.mono (by simp)
    · exact (leavesLess_readLine _).map.mono (by simp)
    · exact (leavesLess_readNumber _).map.mono (by simp)
    · exact (leavesLess_readBulk _).mono (by simp)
    · contradiction
    · exact (leavesLess_readArray (fun b => by simp_all) _).mono (by simp)
    · exact .of_malformed

theorem leavesLess_readInline (bytes : Bytes) (hne : bytes ≠ []) :
    (readInline bytes).LeavesLess bytes.length := by
  unfold readInline
  split
  · exact .of_done (by
      have := List.length_pos_iff.2 hne
      simp only [List.length_drop]
      omega)
  · split
    · exact .of_malformed
    · exact .of_incomplete

/-- A value takes at least one byte. -/
theorem length_lt_of_read {bytes rest : Bytes} {value : Value} (h : read bytes = done value rest) :
    rest.length < bytes.length := by
  unfold read at h
  split at h
  · cases h
  · next first tail =>
    split at h
    · exact leavesLess_readValue _ _ _ _ h
    · exact leavesLess_readInline _ (by simp) _ _ h

/-- Takes the first value off a buffer: what there is, or why the bytes are malformed, and the
buffer afterwards. -/
def takeValue (buffer : Bytes) : Except Malformed (Option Value) × Bytes :=
  match read buffer with
  | .done value rest => (.ok (some value), rest)
  | .incomplete => (.ok none, buffer)
  | .malformed reason => (.error reason, buffer)

end Wire

end RingStore
