import Mathlib.Data.List.TakeWhile
import RingStore.Ring

/-!
# Tags

A key can hold tags in braces: a tag starts at any opening brace and ends at the first closing brace
after it. The first tag that is not empty, tags being tried from the left, tells what is hashed of a
key, with one exception. Of a key whose first opening brace is closed at once all is hashed,
whatever tags it holds further on.

## Main definitions

* `TagAt`: a key holds a tag at some place.
* `FirstTag`, `firstTag?`: the first tag that is not empty, and looking for it.
* `OpensEmpty`: the first opening brace is closed at once.

## Main results

* `firstTag?_eq_some_iff`, `firstTag?_eq_none_iff`: what is found, and when nothing is.
* `hashedPart_eq_firstTag`: the first tag is hashed, or the whole key if there is none.
* `hashedPart_of_opensEmpty`: what is hashed if the first opening brace is closed at once.
-/

namespace RingStore

/-- After `front` the key holds a tag: an opening brace, and `content` up to the first closing
brace. -/
def TagAt (key front content : Bytes) : Prop :=
  125 ∉ content ∧ ∃ back, key = front ++ 123 :: (content ++ 125 :: back)

/-- Of the tags that are not empty, the leftmost one has this content. -/
def FirstTag (key content : Bytes) : Prop :=
  ∃ front, TagAt key front content ∧ content ≠ [] ∧
    ∀ other inside, TagAt key other inside → inside ≠ [] → front.length ≤ other.length

/-- Looks for the first tag that is not empty. Every opening brace is tried, from the left. -/
def firstTag? : Bytes → Option Bytes
  | [] => none
  | byte :: rest =>
    let content := rest.takeWhile (· ≠ 125)
    if byte = 123 ∧ 125 ∈ rest ∧ content ≠ [] then some content else firstTag? rest

/-- The first opening brace of the key is closed at once. -/
def OpensEmpty (key : Bytes) : Prop :=
  [123, 125] <+: key.dropWhile (· ≠ 123)

instance (key : Bytes) : Decidable (OpensEmpty key) :=
  inferInstanceAs (Decidable (_ <+: _))

variable {key front rest content : Bytes} {byte : UInt8}

theorem forall_ne_of_not_mem (h : byte ∉ front) :
    ∀ other ∈ front, decide (other ≠ byte) = true := fun _ hother =>
  decide_eq_true fun heq => h (heq ▸ hother)

/-- The bytes before the first of a kind are those up to the first one of it. -/
theorem takeWhile_ne_append (h : byte ∉ front) (rest : Bytes) :
    (front ++ byte :: rest).takeWhile (· ≠ byte) = front := by
  rw [List.takeWhile_append_of_pos (forall_ne_of_not_mem h)]
  simp

/-- The bytes from the first of a kind on are those after all that come before it. -/
theorem dropWhile_ne_append (h : byte ∉ front) (rest : Bytes) :
    (front ++ byte :: rest).dropWhile (· ≠ byte) = byte :: rest := by
  rw [List.dropWhile_append_of_pos (forall_ne_of_not_mem h)]
  simp

/-- The bytes up to the first closing brace are a tag's content, if there is a closing brace. -/
theorem closes_iff :
    (125 ∉ content ∧ ∃ back, rest = content ++ 125 :: back) ↔
      125 ∈ rest ∧ rest.takeWhile (· ≠ 125) = content := by
  constructor
  · rintro ⟨hcontent, back, rfl⟩
    exact ⟨List.mem_append_right _ List.mem_cons_self, takeWhile_ne_append hcontent back⟩
  · rintro ⟨hclosed, rfl⟩
    obtain ⟨inside, back, rfl, hinside⟩ := List.eq_append_cons_of_mem hclosed
    rw [takeWhile_ne_append hinside]
    exact ⟨hinside, back, rfl⟩

theorem tagAt_nil_iff :
    TagAt (byte :: rest) [] content ↔
      byte = 123 ∧ 125 ∈ rest ∧ rest.takeWhile (· ≠ 125) = content := by
  rw [← closes_iff, TagAt]
  simp only [List.nil_append, List.cons.injEq]
  constructor
  · rintro ⟨hcontent, back, hbyte, hrest⟩
    exact ⟨hbyte, hcontent, back, hrest⟩
  · rintro ⟨hbyte, hcontent, back, hrest⟩
    exact ⟨hcontent, back, hbyte, hrest⟩

theorem tagAt_cons_iff {first : UInt8} :
    TagAt (byte :: rest) (first :: front) content ↔ byte = first ∧ TagAt rest front content := by
  simp only [TagAt, List.cons_append, List.cons.injEq]
  constructor
  · rintro ⟨hcontent, back, hbyte, hrest⟩
    exact ⟨hbyte, hcontent, back, hrest⟩
  · rintro ⟨hbyte, hcontent, back, hrest⟩
    exact ⟨hcontent, back, hbyte, hrest⟩

/-- Where no tag with a content starts, there is at most an empty one. -/
theorem eq_nil_of_tagAt_nil
    (h : ¬(byte = 123 ∧ 125 ∈ rest ∧ rest.takeWhile (· ≠ 125) ≠ []))
    (htag : TagAt (byte :: rest) [] content) : content = [] := by
  obtain ⟨hbyte, hclosed, rfl⟩ := tagAt_nil_iff.1 htag
  exact Decidable.not_not.1 fun hne => h ⟨hbyte, hclosed, hne⟩

/-- The tag that is found is the first one. -/
theorem firstTag?_eq_some_iff : firstTag? key = some content ↔ FirstTag key content := by
  unfold FirstTag
  induction key with
  | nil => simp [firstTag?, TagAt]
  | cons byte rest ih =>
    rw [firstTag?]
    split
    · next hopens =>
      -- the tag that starts here is not empty, and no tag is further to the left
      obtain ⟨hbyte, hclosed, hne⟩ := hopens
      have hhere := tagAt_nil_iff.2 ⟨hbyte, hclosed, rfl⟩
      constructor
      · rintro ⟨⟩
        exact ⟨[], hhere, hne, fun _ _ _ _ => Nat.zero_le _⟩
      · rintro ⟨front, htag, -, hleast⟩
        obtain rfl := List.length_eq_zero_iff.1 (Nat.le_zero.1 (hleast [] _ hhere hne))
        rw [(tagAt_nil_iff.1 htag).2.2]
    · next hopens =>
      -- no tag starts here, or an empty one, so that all others are one byte further on
      rw [ih]
      constructor
      · rintro ⟨front, htag, hne, hleast⟩
        refine ⟨byte :: front, tagAt_cons_iff.2 ⟨rfl, htag⟩, hne, fun other inside hother hin => ?_⟩
        cases other with
        | nil => exact absurd (eq_nil_of_tagAt_nil hopens hother) hin
        | cons first more =>
          exact Nat.succ_le_succ (hleast more inside (tagAt_cons_iff.1 hother).2 hin)
      · rintro ⟨front, htag, hne, hleast⟩
        cases front with
        | nil => exact absurd (eq_nil_of_tagAt_nil hopens htag) hne
        | cons first front =>
          refine ⟨front, (tagAt_cons_iff.1 htag).2, hne, fun other inside hother hin => ?_⟩
          exact Nat.le_of_succ_le_succ
            (hleast (byte :: other) inside (tagAt_cons_iff.2 ⟨rfl, hother⟩) hin)

/-- None is found exactly if every tag is empty. -/
theorem firstTag?_eq_none_iff :
    firstTag? key = none ↔ ∀ front content, TagAt key front content → content = [] := by
  induction key with
  | nil => simp [firstTag?, TagAt]
  | cons byte rest ih =>
    rw [firstTag?]
    split
    · next hopens =>
      obtain ⟨hbyte, hclosed, hne⟩ := hopens
      refine iff_of_false nofun fun hall => ?_
      exact hne (hall [] _ (tagAt_nil_iff.2 ⟨hbyte, hclosed, rfl⟩))
    · next hopens =>
      rw [ih]
      constructor
      · intro hall front content htag
        cases front with
        | nil => exact eq_nil_of_tagAt_nil hopens htag
        | cons first front => exact hall front content (tagAt_cons_iff.1 htag).2
      · intro hall front content htag
        exact hall (byte :: front) content (tagAt_cons_iff.2 ⟨rfl, htag⟩)

/-- Nothing before the first opening brace makes a difference. -/
theorem firstTag?_append (h : 123 ∉ front) (rest : Bytes) :
    firstTag? (front ++ rest) = firstTag? rest := by
  induction front with
  | nil => rfl
  | cons byte front ih =>
    rw [List.mem_cons, not_or] at h
    rw [List.cons_append, firstTag?, if_neg fun hopens => h.1 hopens.1.symm]
    exact ih h.2

/-- Without a closing brace there is no tag. -/
theorem firstTag?_of_not_mem (h : 125 ∉ key) : firstTag? key = none := by
  refine firstTag?_eq_none_iff.2 fun front content htag => ?_
  obtain ⟨-, back, rfl⟩ := htag
  exact absurd (by simp) h

/-- The first opening brace decides what is hashed of a key. -/
theorem hashedPart_append (h : 123 ∉ front) (rest : Bytes) :
    hashedPart (front ++ 123 :: rest) =
      if 125 ∈ rest ∧ rest.takeWhile (· ≠ 125) ≠ [] then rest.takeWhile (· ≠ 125)
      else front ++ 123 :: rest := by
  rw [hashedPart, dropWhile_ne_append h]
  dsimp only
  by_cases hclosed : 125 ∈ rest
  · obtain ⟨inside, back, rfl, hinside⟩ := List.eq_append_cons_of_mem hclosed
    have hlength : inside.length < (inside ++ 125 :: back).length := by
      rw [List.length_append, List.length_cons]
      omega
    simp only [takeWhile_ne_append hinside, hlength, hclosed, and_true, true_and]
  · have hall : rest.takeWhile (· ≠ 125) = rest :=
      List.takeWhile_eq_self_iff.2 (forall_ne_of_not_mem hclosed)
    simp only [hall, hclosed, Nat.lt_irrefl, and_false, false_and, if_false]

/-- Of a key without an opening brace all is hashed. -/
theorem hashedPart_of_not_mem (h : 123 ∉ key) : hashedPart key = key := by
  have hnone : key.dropWhile (· ≠ 123) = [] :=
    List.dropWhile_eq_nil_iff.2 (forall_ne_of_not_mem h)
  rw [hashedPart, hnone]

theorem opensEmpty_append_iff (h : 123 ∉ front) (rest : Bytes) :
    OpensEmpty (front ++ 123 :: rest) ↔ [125] <+: rest := by
  rw [OpensEmpty, dropWhile_ne_append h, List.cons_prefix_cons]
  exact and_iff_right rfl

theorem mem_of_opensEmpty (h : OpensEmpty key) : 123 ∈ key :=
  (List.dropWhile_sublist _).subset (h.subset List.mem_cons_self)

/-- If the first opening brace is not closed at once, the first tag is hashed, or the whole key if
it holds no tag that is not empty. -/
theorem hashedPart_eq_firstTag (h : ¬OpensEmpty key) :
    hashedPart key = (firstTag? key).getD key := by
  by_cases hopening : 123 ∈ key
  · obtain ⟨front, rest, rfl, hfront⟩ := List.eq_append_cons_of_mem hopening
    rw [opensEmpty_append_iff hfront] at h
    rw [hashedPart_append hfront, firstTag?_append hfront, firstTag?]
    by_cases hclosed : 125 ∈ rest
    · -- the tag that the first brace opens is not empty
      have hne : rest.takeWhile (· ≠ 125) ≠ [] := by
        cases rest with
        | nil => exact absurd hclosed List.not_mem_nil
        | cons byte more =>
          have hbyte : byte ≠ 125 := fun heq => h (heq ▸ List.prefix_append [125] more)
          simp [hbyte]
      rw [if_pos ⟨hclosed, hne⟩, if_pos ⟨rfl, hclosed, hne⟩]
      rfl
    · -- no brace is closed any more
      rw [if_neg fun h => hclosed h.1, if_neg fun h => hclosed h.2.1, firstTag?_of_not_mem hclosed]
      rfl
  · have hnone : firstTag? key = none := by
      rw [← List.append_nil key, firstTag?_append hopening]
      rfl
    rw [hashedPart_of_not_mem hopening, hnone]
    rfl

/-- If the first opening brace is closed at once, all is hashed. -/
theorem hashedPart_of_opensEmpty (h : OpensEmpty key) : hashedPart key = key := by
  obtain ⟨front, rest, rfl, hfront⟩ := List.eq_append_cons_of_mem (mem_of_opensEmpty h)
  obtain ⟨back, rfl⟩ := (opensEmpty_append_iff hfront _).1 h
  rw [hashedPart_append hfront, if_neg]
  exact fun h => h.2 (takeWhile_ne_append List.not_mem_nil back)

end RingStore
