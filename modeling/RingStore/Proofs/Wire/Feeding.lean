import RingStore.Proofs.Wire.Extension

/-!
# Reading what arrives in chunks

A stream arrives in chunks. After each of them values are read off the front of what has arrived
until more is wanted. What is read does not depend on how the stream was cut, unless an inline
request is so long that it is given up when its end has not arrived yet.

The reason is that a call of the reader that gives a value or refuses the bytes would do the same if
the rest of the stream had already arrived. So every cut can be undone, the first one first.

## Main definitions

* `Wire.feed`: reading what arrives in chunks.
* `Wire.Remains`: what remains of a stream after some of its values.
* `Wire.ShortLines`: no inline request of a stream is too long.

## Main results

* `Wire.feed_eq_feed_flatten`: chunks are read as if all had arrived at once.
* `Wire.read_independent_of_cut`: what is read does not depend on how a stream is cut.
-/

namespace RingStore.Wire

section Buffer

variable {arrived left : Bytes}

theorem read_eq_done {value : Value} (h : takeValue arrived = (.ok (some value), left)) :
    read arrived = .done value left := by
  unfold takeValue at h
  split at h
  · cases h
    assumption
  · cases h
  · cases h

theorem read_eq_incomplete (h : takeValue arrived = (.ok none, left)) :
    read arrived = .incomplete ∧ left = arrived := by
  unfold takeValue at h
  split at h
  · cases h
  · next hread =>
    cases h
    exact ⟨hread, rfl⟩
  · cases h

theorem read_eq_malformed {reason : Malformed} (h : takeValue arrived = (.error reason, left)) :
    read arrived = .malformed reason ∧ left = arrived := by
  unfold takeValue at h
  split at h
  · cases h
  · cases h
  · next hread =>
    cases h
    exact ⟨hread, rfl⟩

end Buffer

/-- The values that are read off what has arrived and the chunks that are still to come, and the
reason why no more can be read if bytes are malformed. Values are read until more bytes are wanted;
only then the next chunk is taken in. -/
def feed (arrived : Bytes) (chunks : List Bytes) : List Value × Option Malformed :=
  match h : takeValue arrived with
  | (.ok (some value), left) =>
    have := length_lt_of_read (read_eq_done h)
    let (values, error) := feed left chunks
    (value :: values, error)
  | (.error reason, _) => ([], some reason)
  | (.ok none, left) =>
    match chunks with
    | [] => ([], none)
    | chunk :: later => feed (left ++ chunk) later
termination_by (chunks.length, arrived.length)

/-- What remains of a stream after some of the values at its front. -/
inductive Remains (stream : Bytes) : Bytes → Prop where
  /-- No value was read yet. -/
  | whole : Remains stream stream
  /-- One more value was read. -/
  | rest {bytes rest : Bytes} {value : Value} (h : Remains stream bytes)
    (hread : read bytes = .done value rest) : Remains stream rest

/-- No inline request of a stream is too long, whether its end has arrived or not. -/
def ShortLines (stream : Bytes) : Prop :=
  ∀ (first : UInt8) (tail : Bytes), Remains stream (first :: tail) → isMark first = false →
    ((first :: tail).takeWhile (· ≠ 10)).length ≤ maxInlineLength

theorem Remains.trans {stream bytes rest : Bytes} (h : Remains stream bytes)
    (hrest : Remains bytes rest) : Remains stream rest := by
  induction hrest with
  | whole => exact h
  | rest _ hread ih => exact ih.rest hread

theorem Remains.length_le {stream rest : Bytes} (h : Remains stream rest) :
    rest.length ≤ stream.length := by
  induction h with
  | whole => exact Nat.le_refl _
  | rest _ hread ih => exact Nat.le_trans (Nat.le_of_lt (length_lt_of_read hread)) ih

theorem ShortLines.rest {stream rest : Bytes} {value : Value} (h : ShortLines stream)
    (hread : read stream = .done value rest) : ShortLines rest :=
  fun first tail hremains => h first tail (Remains.whole.rest hread |>.trans hremains)

/-- A stream that is short as a whole has no inline request that is too long. -/
theorem shortLines_of_length_le {stream : Bytes} (h : stream.length ≤ maxInlineLength) :
    ShortLines stream := fun _ _ hremains _ =>
  Nat.le_trans (List.takeWhile_prefix _).length_le (Nat.le_trans hremains.length_le h)

/-- Where no inline request is too long, malformed bytes stay so when the rest of the stream
arrives. -/
theorem ShortLines.read_append {arrived more : Bytes} (h : ShortLines (arrived ++ more))
    {reason : Malformed} (hread : read arrived = .malformed reason) :
    read (arrived ++ more) = .malformed reason := by
  cases arrived with
  | nil => cases hread
  | cons first tail =>
    cases hmark : isMark first with
    | true => exact read_append_of_malformed hmark hread more
    | false =>
      -- a line without an end that is too long is still too long when it has one
      obtain ⟨hend, hlong⟩ := long_of_read_eq_malformed hmark hread
      have hline : first :: tail <+: (first :: (tail ++ more)).takeWhile (· ≠ 10) := by
        rw [← List.cons_append, List.takeWhile_append_of_pos fun byte hbyte => ?_]
        · exact List.prefix_append _ _
        · exact decide_eq_true fun heq => hend (heq ▸ hbyte)
      have hle := h first (tail ++ more) .whole hmark
      exact absurd (Nat.le_trans hline.length_le hle) (Nat.not_le.2 hlong)

section Calls

variable {arrived rest : Bytes} (chunks : List Bytes)

theorem feed_of_done {value : Value} (h : read arrived = .done value rest) :
    feed arrived chunks = (value :: (feed rest chunks).1, (feed rest chunks).2) := by
  have htake : takeValue arrived = (.ok (some value), rest) := by simp only [takeValue, h]
  rw [feed.eq_def]
  split
  · next heq =>
    cases htake.symm.trans heq
    rfl
  · next heq => cases htake.symm.trans heq
  · next heq => cases htake.symm.trans heq

theorem feed_of_malformed {reason : Malformed} (h : read arrived = .malformed reason) :
    feed arrived chunks = ([], some reason) := by
  have htake : takeValue arrived = (.error reason, arrived) := by simp only [takeValue, h]
  rw [feed.eq_def]
  split
  · next heq => cases htake.symm.trans heq
  · next heq =>
    cases htake.symm.trans heq
    rfl
  · next heq => cases htake.symm.trans heq

theorem feed_of_incomplete (h : read arrived = .incomplete) : feed arrived [] = ([], none) := by
  have htake : takeValue arrived = (.ok none, arrived) := by simp only [takeValue, h]
  rw [feed.eq_def]
  split
  · next heq => cases htake.symm.trans heq
  · next heq => cases htake.symm.trans heq
  · next heq =>
    cases htake.symm.trans heq
    rfl

theorem feed_of_incomplete_cons (h : read arrived = .incomplete) (chunk : Bytes) :
    feed arrived (chunk :: chunks) = feed (arrived ++ chunk) chunks := by
  have htake : takeValue arrived = (.ok none, arrived) := by simp only [takeValue, h]
  rw [feed.eq_def]
  split
  · next heq => cases htake.symm.trans heq
  · next heq => cases htake.symm.trans heq
  · next heq =>
    cases htake.symm.trans heq
    rfl

end Calls

/-- No more values are read than there are bytes. -/
theorem length_feed_le (arrived : Bytes) (chunks : List Bytes) :
    (feed arrived chunks).1.length ≤ (arrived ++ chunks.flatten).length := by
  fun_induction feed arrived chunks with
  | case1 arrived chunks value rest htake _ values error hrest ih =>
    have hlt := length_lt_of_read (read_eq_done htake)
    rw [hrest] at ih
    simp only [List.length_append, List.length_cons] at ih ⊢
    omega
  | case2 | case3 => exact Nat.zero_le _
  | case4 arrived left htake chunk later ih =>
    obtain ⟨-, rfl⟩ := read_eq_incomplete htake
    rwa [List.flatten_cons, ← List.append_assoc]

/-- Chunks are read as if they had all arrived at once. -/
theorem feed_eq_feed_flatten (arrived : Bytes) (chunks : List Bytes)
    (h : ShortLines (arrived ++ chunks.flatten)) :
    feed arrived chunks = feed (arrived ++ chunks.flatten) [] := by
  -- only the reading of what has arrived changes; after it, the same bytes are left to be read
  fun_induction feed arrived chunks with
  | case1 arrived chunks value rest htake _ values error hrest ih =>
    have hall := stable_read.append chunks.flatten (read_eq_done htake)
    rw [feed_of_done [] hall, ← ih (h.rest hall), hrest]
  | case2 arrived chunks reason left htake =>
    rw [feed_of_malformed [] (h.read_append (read_eq_malformed htake).1)]
  | case3 arrived left htake =>
    rw [List.flatten_nil, List.append_nil, feed_of_incomplete (read_eq_incomplete htake).1]
  | case4 arrived left htake chunk later ih =>
    obtain ⟨-, rfl⟩ := read_eq_incomplete htake
    rw [List.flatten_cons, ← List.append_assoc] at h ⊢
    exact ih h

/-- What is read does not depend on how the stream is cut. A value that was read took at least one
byte, and it is read again, off the same bytes, however the stream goes on. Bytes that start with a
mark and are malformed stay so for the same reason. A call that gives no value leaves what has
arrived. Hence, if no inline request is too long, every way to cut a stream leads to the same values
and to the same error, if any, after at most as many values as the stream has bytes. -/
theorem read_independent_of_cut :
    (∀ (arrived rest : Bytes) (value : Value), read arrived = .done value rest →
      ∃ taken, 1 ≤ taken ∧ taken ≤ arrived.length ∧ rest = arrived.drop taken ∧
        ∀ more, read (arrived ++ more) = .done value ((arrived ++ more).drop taken)) ∧
    (∀ (first : UInt8) (tail : Bytes) (reason : Malformed), isMark first = true →
      read (first :: tail) = .malformed reason →
      ∀ more, read (first :: tail ++ more) = .malformed reason) ∧
    (∀ arrived, (∀ value, (takeValue arrived).1 ≠ .ok (some value)) →
      (takeValue arrived).2 = arrived) ∧
    ∀ chunks others : List Bytes, ShortLines chunks.flatten → others.flatten = chunks.flatten →
      feed [] chunks = feed [] others ∧ (feed [] chunks).1.length ≤ chunks.flatten.length := by
  refine ⟨fun arrived rest value hread => ?_, fun _ _ _ hmark hread =>
    read_append_of_malformed hmark hread, fun arrived hnone => ?_, fun chunks others h heq => ?_⟩
  · have hlt := length_lt_of_read hread
    obtain ⟨taken, rfl, htaken⟩ := stable_read.takes hread
    rw [List.length_append] at hlt
    refine ⟨taken.length, by omega, by simp, by simp, fun more => ?_⟩
    rw [List.append_assoc, htaken, List.drop_left]
  · rcases htake : takeValue arrived with ⟨_ | _ | value, left⟩
    · exact (read_eq_malformed htake).2
    · exact (read_eq_incomplete htake).2
    · exact absurd (congrArg Prod.fst htake) (hnone value)
  · have hchunks := feed_eq_feed_flatten [] chunks h
    have hothers := feed_eq_feed_flatten [] others (heq ▸ h)
    exact ⟨by rw [hchunks, hothers, heq], length_feed_le [] chunks⟩

/-- A request, an inline request and a number that is none, cut within the first two. -/
def cutRequests : List Bytes :=
  ["*1\r\n$4\r", "\nPI", "NG\r\nGET ", "k\r\n:x\r\n"].map Text.toBytes

/-- They are read as if they had arrived byte by byte. The first is read again when the others come
twice, and the number stays malformed and is left where it is. -/
theorem read_independent_of_cut_cutRequests :
    ShortLines cutRequests.flatten ∧
    feed [] cutRequests = ([.array [.bulk (Text.toBytes "PING")],
      .array [.bulk (Text.toBytes "GET"), .bulk (Text.toBytes "k")]], some .notNumber) ∧
    feed [] cutRequests = feed [] (cutRequests.flatten.map fun byte => [byte]) ∧
    (∃ taken, 1 ≤ taken ∧ Text.toBytes "GET k\r\n:x\r\n" = cutRequests.flatten.drop taken ∧
      read (cutRequests.flatten ++ cutRequests.flatten) =
        .done (.array [.bulk (Text.toBytes "PING")])
          ((cutRequests.flatten ++ cutRequests.flatten).drop taken)) ∧
    read (58 :: Text.toBytes "x\r\n") = .malformed .notNumber ∧
    read (58 :: Text.toBytes "x\r\n" ++ cutRequests.flatten) = .malformed .notNumber ∧
    takeValue (58 :: Text.toBytes "x\r\n") = (.error .notNumber, 58 :: Text.toBytes "x\r\n") := by
  have hshort : ShortLines cutRequests.flatten := shortLines_of_length_le (by decide +kernel)
  have hping : read cutRequests.flatten =
      .done (.array [.bulk (Text.toBytes "PING")]) (Text.toBytes "GET k\r\n:x\r\n") := by
    with_unfolding_all rfl
  have hget : read (Text.toBytes "GET k\r\n:x\r\n") =
      .done (.array [.bulk (Text.toBytes "GET"), .bulk (Text.toBytes "k")])
        (58 :: Text.toBytes "x\r\n") := rfl
  have hnumber : read (58 :: Text.toBytes "x\r\n") = .malformed .notNumber := by
    with_unfolding_all rfl
  have htaken : (takeValue (58 :: Text.toBytes "x\r\n")).1 = .error .notNumber := by
    simp only [takeValue, hnumber]
  obtain ⟨htakes, hstays, hleaves, hcuts⟩ := read_independent_of_cut
  obtain ⟨taken, hpos, -, hrest, hmore⟩ := htakes _ _ _ hping
  refine ⟨hshort, ?_, (hcuts _ _ hshort ?_).1, ⟨taken, hpos, hrest, hmore _⟩, hnumber,
    hstays _ _ _ rfl hnumber _, Prod.ext htaken (hleaves _ (by simp [htaken]))⟩
  · rw [feed_eq_feed_flatten [] cutRequests hshort, List.nil_append, feed_of_done [] hping,
      feed_of_done [] hget, feed_of_malformed [] hnumber]
  · rw [← List.flatMap_def, List.flatMap_singleton']

end RingStore.Wire
