import RingStore.Bytes

/-!
# Glob patterns

Patterns that select keys. In a pattern `*` stands for any bytes, `?` for any one byte, `[…]` for
one byte of a class, `[^…]` for one byte outside a class, and a backslash makes the byte after it
stand for itself. Every other byte stands for itself.

A class lists bytes, escaped bytes and ranges `a-z`, whose bounds may come in either order. A class
without its closing bracket matches nothing.

## Main definitions

* `Glob.covers`: the pattern matches the whole text.

A text is scanned up to the next `*` at a time. What stands between two stars always takes the same
number of bytes, so the leftmost place where it matches is as good as any, and no earlier `*` is
ever reconsidered.
-/

namespace RingStore.Glob

/-- The byte lies between two bounds that may come in either order. -/
def inRange (one other byte : UInt8) : Bool :=
  (one ≤ byte && byte ≤ other) || (other ≤ byte && byte ≤ one)

/-- Reads the items of a class up to its closing bracket. The result tells whether one of them
(or `found`) covers the byte, and what follows the bracket; there is none if the class is open. -/
def classItems (byte : UInt8) (found : Bool) : Bytes → Option (Bool × Bytes)
  | [] => none
  | 93 :: rest => some (found, rest)
  | 92 :: escaped :: rest => classItems byte (found || escaped == byte) rest
  | [first] => classItems byte (found || first == byte) []
  | [first, second] => classItems byte (found || first == byte) [second]
  | first :: second :: third :: rest =>
    if second = 45 ∧ third ≠ 93 then
      classItems byte (found || inRange first third byte) rest
    else classItems byte (found || first == byte) (second :: third :: rest)

/-- What follows the class whose items start here, if the class covers the byte. -/
def classRest? (byte : UInt8) : Bytes → Option Bytes
  | 94 :: items =>
    (classItems byte false items).bind fun (found, rest) => if found then none else some rest
  | items =>
    (classItems byte false items).bind fun (found, rest) => if found then some rest else none

/-- What is left of a pattern after its first item, if that item is no `*` and matches the byte. -/
def step? (byte : UInt8) : Bytes → Option Bytes
  | [] => none
  | 63 :: rest => some rest
  | 91 :: rest => classRest? byte rest
  | 92 :: escaped :: rest => if escaped = byte then some rest else none
  | first :: rest => if first = byte then some rest else none

/-- How far a pattern goes with a text. -/
inductive Progress where
  /-- The text is used up, and what is left of the pattern matches nothing more. -/
  | matched
  /-- The text does not go with the pattern. -/
  | failed
  /-- A `*` was reached: the pattern after it and the text there. -/
  | star (pattern text : Bytes)

/-- Follows a pattern through a text as far as the next `*`. -/
def advance (pattern : Bytes) : Bytes → Progress
  | [] => if pattern.all (· == 42) then .matched else .failed
  | byte :: text =>
    match pattern with
    | 42 :: rest => .star rest (byte :: text)
    | _ =>
      match step? byte pattern with
      | some rest => advance rest text
      | none => .failed

theorem length_of_classItems {byte : UInt8} {found result : Bool} {items rest : Bytes}
    (h : classItems byte found items = some (result, rest)) : rest.length < items.length := by
  fun_induction classItems byte found items with
  | case1 => cases h
  | case2 => cases h; simp
  | case3 found escaped rest₁ ih => have := ih h; simp only [List.length_cons]; omega
  | case4 found first _ ih => have := ih h; simp at this
  | case5 found first second _ _ ih => have := ih h; simp only [List.length_cons] at this ⊢; omega
  | case6 found first second third rest₁ _ _ _ ih =>
    have := ih h; simp only [List.length_cons]; omega
  | case7 found first second third rest₁ _ _ _ ih =>
    have := ih h; simp only [List.length_cons] at this ⊢; omega

theorem length_of_classRest? {byte : UInt8} {items rest : Bytes}
    (h : classRest? byte items = some rest) : rest.length < items.length := by
  unfold classRest? at h
  split at h
  all_goals
    obtain ⟨⟨found, after⟩, hitems, hfound⟩ := Option.bind_eq_some_iff.1 h
    have := length_of_classItems hitems
    simp only at hfound
    split at hfound <;> cases hfound
    simp only [List.length_cons] at *
    omega

theorem length_of_step? {byte : UInt8} {pattern rest : Bytes} (h : step? byte pattern = some rest) :
    rest.length < pattern.length := by
  unfold step? at h
  split at h
  · cases h
  · cases h; simp
  · have := length_of_classRest? h; simp only [List.length_cons]; omega
  · split at h <;> cases h
    simp only [List.length_cons]
    omega
  · split at h <;> cases h
    simp

theorem length_of_advance {pattern text after there : Bytes}
    (h : advance pattern text = .star after there) :
    there.length ≤ text.length ∧ after.length < pattern.length := by
  induction text generalizing pattern with
  | nil => unfold advance at h; split at h <;> cases h
  | cons byte text ih =>
    unfold advance at h
    split at h
    · cases h; simp
    · split at h
      · next rest heq =>
        have hrest := length_of_step? heq
        have hih := ih h
        simp only [List.length_cons]
        omega
      · cases h

/-- A pattern that follows a `*` matches the text from here on or from somewhere later. -/
def matchesFrom (pattern text : Bytes) : Bool :=
  match heq : advance pattern text with
  | .matched => true
  | .star after there =>
    have := length_of_advance heq
    matchesFrom after there
  | .failed =>
    match text with
    | [] => false
    | _ :: rest => matchesFrom pattern rest
termination_by (text.length, pattern.length)
decreasing_by
  · simp only [Prod.lex_def]
    omega
  · simp only [Prod.lex_def, List.length_cons]
    omega

/-- The pattern matches the whole text. -/
def covers (pattern text : Bytes) : Bool :=
  match advance pattern text with
  | .matched => true
  | .star after there => matchesFrom after there
  | .failed => false

end RingStore.Glob
