import RingStore.Proofs.Wire.Extension

/-!
# Several values one after the other

Values that are sent one after the other are read back as those values, with nothing left over,
exactly if each of them is framed. One that is not may be taken for several values, or for the start
of a longer one.

## Main definitions

* `Wire.readAll`: all values that stand one after the other in some bytes.

## Main results

* `Wire.readAll_append`: values may be read before all bytes have arrived.
* `Wire.readAll_encode_iff`: when several values are read back.
-/

namespace RingStore

namespace Wire

/-- All values that stand one after the other at the start of the bytes, and the bytes after
them. -/
def readAll (bytes : Bytes) : List Value × Bytes :=
  match h : read bytes with
  | .done value rest =>
    have := length_lt_of_read h
    let (values, left) := readAll rest
    (value :: values, left)
  | _ => ([], bytes)
termination_by bytes.length

theorem readAll_of_done {bytes rest : Bytes} {value : Value} (h : read bytes = .done value rest) :
    readAll bytes = (value :: (readAll rest).1, (readAll rest).2) := by
  rw [readAll]
  split
  · next hread =>
    rw [h] at hread
    cases hread
    rfl
  · next hread => exact absurd h (hread value rest)

theorem readAll_of_not_done {bytes : Bytes} (h : ∀ value rest, read bytes ≠ .done value rest) :
    readAll bytes = ([], bytes) := by
  rw [readAll]
  split
  · next value rest hread => exact absurd hread (h value rest)
  · rfl

theorem readAll_nil : readAll [] = ([], []) :=
  readAll_of_not_done fun _ _ hread => nomatch hread

/-- Without a whole value all bytes are left. -/
theorem readAll_of_fst_eq_nil {bytes : Bytes} (h : (readAll bytes).1 = []) :
    readAll bytes = ([], bytes) := by
  refine readAll_of_not_done fun value rest hread => ?_
  rw [readAll_of_done hread] at h
  cases h

/-- The values at the start of the bytes may be read before the bytes after them have arrived. -/
theorem readAll_append (bytes more : Bytes) :
    readAll (bytes ++ more) =
      ((readAll bytes).1 ++ (readAll ((readAll bytes).2 ++ more)).1,
        (readAll ((readAll bytes).2 ++ more)).2) := by
  induction bytes using readAll.induct with
  | case1 bytes value rest hread _ _ _ _ ih =>
    rw [readAll_of_done (stable_read.append more hread), readAll_of_done hread, ih]
    rfl
  | case2 bytes hread =>
    rw [readAll_of_not_done hread]
    rfl

/-- No further value stands at the start of what is left. -/
theorem read_readAll_ne_done (bytes : Bytes) (value : Value) (rest : Bytes) :
    read (readAll bytes).2 ≠ .done value rest := by
  induction bytes using readAll.induct with
  | case1 bytes _ _ hread _ _ _ _ ih =>
    rw [readAll_of_done hread]
    exact ih
  | case2 bytes hread =>
    rw [readAll_of_not_done hread]
    exact hread value rest

/-- What is left is a part of the bytes. -/
theorem length_readAll_le (bytes : Bytes) : (readAll bytes).2.length ≤ bytes.length := by
  induction bytes using readAll.induct with
  | case1 bytes value rest hread _ _ _ _ ih =>
    rw [readAll_of_done hread]
    exact Nat.le_trans ih (Nat.le_of_lt (length_lt_of_read hread))
  | case2 bytes hread => exact Nat.le_of_eq (by rw [readAll_of_not_done hread])

/-- The first of all values is the one that is read at first. -/
theorem exists_read_of_readAll {bytes left : Bytes} {value : Value} {values : List Value}
    (h : readAll bytes = (value :: values, left)) : ∃ rest, read bytes = .done value rest := by
  cases hread : read bytes with
  | done first rest =>
    rw [readAll_of_done hread] at h
    cases h
    exact ⟨rest, rfl⟩
  | _ =>
    rw [readAll] at h
    split at h
    · next hdone =>
      rw [hread] at hdone
      cases hdone
    · cases h

/-- What is read off the front of a value's bytes is framed if it is that value. -/
theorem framed_of_read_encode {value : Value} {bytes rest : Bytes}
    (h : read (value.encode ++ bytes) = .done value rest) : value.Framed maxDepth := by
  cases value with
  | silent =>
    -- nothing is sent for it, so it would have been read off what follows
    cases bytes with
    | nil => cases h
    | cons first tail =>
      rw [Value.encode, List.nil_append, read] at h
      split at h
      · exact framed_of_readValue h
      · unfold readInline at h
        split at h
        · cases h
        · split at h <;> cases h
  | _ => exact framed_of_readValue (h : readValue maxDepth _ = _)

/-- Replies sent one after the other are read back exactly if each of them is framed. -/
theorem readAll_encode_iff {replies : List Value} :
    readAll (replies.flatMap Value.encode) = (replies, []) ↔
      ∀ reply ∈ replies, reply.Framed maxDepth := by
  induction replies with
  | nil => simp [readAll_nil]
  | cons reply more ih =>
    rw [List.forall_mem_cons, ← ih, List.flatMap_cons]
    constructor
    · intro h
      obtain ⟨rest, hread⟩ := exists_read_of_readAll h
      have hframed := framed_of_read_encode hread
      refine ⟨hframed, ?_⟩
      rw [readAll_of_done (read_encode hframed _)] at h
      exact Prod.ext (List.cons_eq_cons.1 (Prod.ext_iff.1 h).1).2 (Prod.ext_iff.1 h).2
    · rintro ⟨hreply, hmore⟩
      rw [readAll_of_done (read_encode hreply _), hmore]

end Wire

end RingStore
