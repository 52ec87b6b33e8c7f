import Mathlib.Data.Prod.Lex
import RingStore.Proofs.Glob
import RingStore.Proofs.Guarded

/-!
# Scanning by positions

A glob pattern is matched by two scans over positions, one through the pattern and the text, and one
inside it through the items of a class. Every byte is looked up at a position, every position is
computed from an earlier one, and either can go wrong: a position may lie beyond the end, and a sum
may be greater than a word. Here both scans are written out so, and shown never to go wrong. This
holds of every pattern and every text, as long as words hold the length of the text and more than
the length of the pattern. The scans find exactly what `Glob.covers` tells.

## Main definitions

* `Glob.classEnd`: the scan through a class.
* `Glob.Cursor`, `Glob.turn`, `Glob.scan`: the scan through the pattern and the text.
* `Glob.Cursor.Follows`: what a cursor knows, as an invariant of the scan.

## Main results

* `Glob.exists_classEnd`, `Glob.exists_tokenAt`: positions stay within the pattern.
* `Glob.Cursor.Follows.turn`: a turn of the scan does not go wrong, and keeps the invariant.
* `Glob.scan_eq`: the scan by positions ends with what the pattern covers.
-/

namespace RingStore.Glob

open Guarded

variable (greatest : Nat)

section Definitions

variable (pattern : Bytes) (byte : UInt8)

/-- There is a backslash at the position, and a byte after it. -/
def escapesAt (position : Nat) : Guarded Bool := do
  if (← item pattern position) = 92 then
    return decide ((← add greatest position 1) < pattern.length)
  else return false

/-- There is a dash after the position, and after that a byte that does not close the class. -/
def rangesAt (position : Nat) : Guarded Bool := do
  if (← add greatest position 2) < pattern.length then
    if (← item pattern (← add greatest position 1)) = 45 then
      return (← item pattern (← add greatest position 2)) != 93
    else return false
  else return false

/-- Reads one item of a class: where the next one is, and whether an item so far covers the byte. -/
def classTurn (position : Nat) (found : Bool) : Guarded (Nat × Bool) := do
  -- escapes come first, so that an escaped byte is never the lower end of a range
  if ← escapesAt greatest pattern position then
    let listed ← item pattern (← add greatest position 1)
    return (← add greatest position 2, found || listed == byte)
  else if ← rangesAt greatest pattern position then
    let one ← item pattern position
    let other ← item pattern (← add greatest position 2)
    return (← add greatest position 3, found || inRange one other byte)
  else
    let listed ← item pattern position
    return (← add greatest position 1, found || listed == byte)

variable {greatest pattern byte}

/-- The next item of a class is further on. -/
theorem lt_of_classTurn {position next : Nat} {found now : Bool}
    (h : classTurn greatest pattern byte position found = .ok (next, now)) : position < next := by
  -- an escape takes two positions, a range three, and any other item one
  obtain ⟨escapes, -, h⟩ := bind_eq_ok_iff.1 h
  cases escapes with
  | true =>
    obtain ⟨_, -, h⟩ := bind_eq_ok_iff.1 h
    obtain ⟨_, -, h⟩ := bind_eq_ok_iff.1 h
    obtain ⟨after, hafter, h⟩ := bind_eq_ok_iff.1 h
    cases h
    have := eq_add_of_add hafter
    omega
  | false =>
    obtain ⟨ranges, -, h⟩ := bind_eq_ok_iff.1 h
    cases ranges with
    | true =>
      obtain ⟨_, -, h⟩ := bind_eq_ok_iff.1 h
      obtain ⟨_, -, h⟩ := bind_eq_ok_iff.1 h
      obtain ⟨_, -, h⟩ := bind_eq_ok_iff.1 h
      obtain ⟨after, hafter, h⟩ := bind_eq_ok_iff.1 h
      cases h
      have := eq_add_of_add hafter
      omega
    | false =>
      obtain ⟨_, -, h⟩ := bind_eq_ok_iff.1 h
      obtain ⟨after, hafter, h⟩ := bind_eq_ok_iff.1 h
      cases h
      have := eq_add_of_add hafter
      omega

variable (greatest pattern byte)

/-- Reads the items of a class from a position on: where the bracket is that closes the class, or
the end of the pattern, and whether one of the items (or `found`) covers the byte. -/
def classEnd (position : Nat) (found : Bool) : Guarded (Nat × Bool) :=
  if position < pattern.length then
    match item pattern position with
    | .error mishap => .error mishap
    | .ok first =>
      if first = 93 then .ok (position, found)
      else
        match h : classTurn greatest pattern byte position found with
        | .error mishap => .error mishap
        | .ok (next, now) =>
          have := lt_of_classTurn h
          classEnd next now
  else .ok (position, found)
termination_by pattern.length - position

/-- Where the items of a class start, after the mark that negates it. -/
def itemsAt (opened : Nat) (negated : Bool) : Guarded Nat :=
  if negated then add greatest opened 1 else .ok opened

/-- Where a class ends that opens at a position, if the byte goes with it. -/
def classAt (start : Nat) : Guarded (Option Nat) := do
  let opened ← add greatest start 1
  let negated := pattern[opened]? == some 94
  let (last, found) ← classEnd greatest pattern byte (← itemsAt greatest opened negated) false
  -- no bracket closes the class
  if pattern.length ≤ last then return none
  -- the position after the bracket is computed whether the byte goes with the class or not
  let next ← add greatest last 1
  return if found != negated then some next else none

/-- Where the token ends that starts at a position, if it takes the byte. -/
def tokenAt (position : Nat) : Guarded (Option Nat) := do
  let first ← item pattern position
  if first = 63 then
    return some (← add greatest position 1)
  else if first = 91 then
    classAt greatest pattern byte position
  else if ← escapesAt greatest pattern position then
    let expected ← item pattern (← add greatest position 1)
    let next ← add greatest position 2
    return if expected = byte then some next else none
  else
    let next ← add greatest position 1
    return if first = byte then some next else none

end Definitions

/-- How far a scan has come: a position in the pattern, one in the text, and where the last star was
met, in the pattern and in the text. -/
structure Cursor where
  /-- The position in the pattern. -/
  inPattern : Nat
  /-- The position in the text. -/
  inText : Nat
  /-- Where the last star was met. -/
  star : Option (Nat × Nat)

/-- What a turn of the scan comes to. -/
inductive Turn where
  /-- The scan goes on. -/
  | goesOn (cursor : Cursor)
  /-- The scan ends, with a verdict. -/
  | ends (verdict : Bool)

/-- Goes back to the last star, which takes one byte more. -/
def Cursor.resume (cursor : Cursor) : Guarded Turn :=
  match cursor.star with
  | none => return .ends false
  | some (starInPattern, starInText) => do
    let inPattern ← add greatest starInPattern 1
    let inText ← add greatest starInText 1
    return .goesOn ⟨inPattern, inText, some (starInPattern, ← add greatest starInText 1)⟩

/-- One turn of the scan. -/
def turn (pattern text : Bytes) (cursor : Cursor) : Guarded Turn := do
  if cursor.inText < text.length then
    if cursor.inPattern < pattern.length then
      if (← item pattern cursor.inPattern) = 42 then
        -- at first the star takes no byte
        let next ← add greatest cursor.inPattern 1
        return .goesOn ⟨next, cursor.inText, some (cursor.inPattern, cursor.inText)⟩
      else
        match ← tokenAt greatest pattern (← item text cursor.inText) cursor.inPattern with
        | some next => return .goesOn ⟨next, ← add greatest cursor.inText 1, cursor.star⟩
        | none => cursor.resume greatest
    else cursor.resume greatest
  else
    return .ends ((← tail pattern cursor.inPattern).all (· == 42))

/-- The scan has gone on since it met the last star. -/
def Cursor.Ordered (cursor : Cursor) : Prop :=
  ∀ inPattern inText, cursor.star = some (inPattern, inText) →
    inPattern < cursor.inPattern ∧ inText ≤ cursor.inText

/-- What the scan has left to do: after the last star in the pattern, after it in the text, and
after the position in the text. -/
def Cursor.left (pattern text : Bytes) (cursor : Cursor) : Nat × Nat × Nat :=
  match cursor.star with
  | none => (pattern.length + 1, 0, text.length - cursor.inText)
  | some (inPattern, inText) =>
    (pattern.length - inPattern, text.length - inText, text.length - cursor.inText)

section Ends

variable {greatest : Nat} {pattern text : Bytes} {byte : UInt8}

theorem le_of_classEnd {position last : Nat} {found result : Bool}
    (h : classEnd greatest pattern byte position found = .ok (last, result)) : position ≤ last := by
  fun_induction classEnd greatest pattern byte position found with
  | case1 => cases h
  | case2 => cases h; exact Nat.le_refl _
  | case3 => cases h
  | case4 _ _ _ _ _ _ _ _ _ hlt ih => exact Nat.le_trans (Nat.le_of_lt hlt) (ih h)
  | case5 => cases h; exact Nat.le_refl _

theorem lt_of_classAt {start next : Nat}
    (h : classAt greatest pattern byte start = .ok (some next)) : start < next := by
  obtain ⟨opened, hopened, h⟩ := bind_eq_ok_iff.1 h
  obtain ⟨items, hitems, h⟩ := bind_eq_ok_iff.1 h
  obtain ⟨⟨last, found⟩, hlast, h⟩ := bind_eq_ok_iff.1 h
  have hopened := eq_add_of_add hopened
  have hlast := le_of_classEnd hlast
  have hitems : opened ≤ items := by
    unfold itemsAt at hitems
    split at hitems
    · have := eq_add_of_add hitems
      omega
    · cases hitems
      exact Nat.le_refl _
  dsimp only at h
  split at h
  · cases h
  · obtain ⟨after, hafter, h⟩ := bind_eq_ok_iff.1 h
    have hafter := eq_add_of_add hafter
    split at h
    · cases h
      omega
    · cases h

/-- A token ends further on. -/
theorem lt_of_tokenAt {position next : Nat}
    (h : tokenAt greatest pattern byte position = .ok (some next)) : position < next := by
  obtain ⟨first, -, h⟩ := bind_eq_ok_iff.1 h
  split at h
  · obtain ⟨after, hafter, h⟩ := bind_eq_ok_iff.1 h
    cases h
    have := eq_add_of_add hafter
    omega
  split at h
  · exact lt_of_classAt h
  obtain ⟨escapes, -, h⟩ := bind_eq_ok_iff.1 h
  cases escapes with
  | true =>
    obtain ⟨_, -, h⟩ := bind_eq_ok_iff.1 h
    obtain ⟨expected, -, h⟩ := bind_eq_ok_iff.1 h
    obtain ⟨after, hafter, h⟩ := bind_eq_ok_iff.1 h
    have hafter := eq_add_of_add hafter
    split at h
    · cases h
      omega
    · cases h
  | false =>
    obtain ⟨after, hafter, h⟩ := bind_eq_ok_iff.1 h
    have hafter := eq_add_of_add hafter
    split at h
    · cases h
      omega
    · cases h

/-- What the turns of a scan do to the positions. -/
inductive Cursor.Steps (pattern text : Bytes) (cursor : Cursor) : Cursor → Prop where
  /-- A star is met. -/
  | star (hpattern : cursor.inPattern < pattern.length) (htext : cursor.inText < text.length) :
      Steps pattern text cursor
        ⟨cursor.inPattern + 1, cursor.inText, some (cursor.inPattern, cursor.inText)⟩
  /-- A token takes a byte. -/
  | token {next : Nat} (hnext : cursor.inPattern < next) (htext : cursor.inText < text.length) :
      Steps pattern text cursor ⟨next, cursor.inText + 1, cursor.star⟩
  /-- The last star takes one byte more. -/
  | resume {inPattern inText : Nat} (hstar : cursor.star = some (inPattern, inText))
      (htext : cursor.inText < text.length) :
      Steps pattern text cursor ⟨inPattern + 1, inText + 1, some (inPattern, inText + 1)⟩

theorem Cursor.steps_of_resume {cursor next : Cursor} (htext : cursor.inText < text.length)
    (h : cursor.resume greatest = .ok (.goesOn next)) : cursor.Steps pattern text next := by
  obtain ⟨_, _, star⟩ := cursor
  cases star with
  | none => cases h
  | some star =>
    obtain ⟨inPattern, hpattern, h⟩ := bind_eq_ok_iff.1 h
    obtain ⟨inText, htext, h⟩ := bind_eq_ok_iff.1 h
    obtain ⟨again, hagain, h⟩ := bind_eq_ok_iff.1 h
    cases h
    obtain rfl := eq_add_of_add hpattern
    obtain rfl := eq_add_of_add htext
    obtain rfl := eq_add_of_add hagain
    exact .resume rfl ‹_›

theorem Cursor.steps_of_turn {cursor next : Cursor}
    (h : turn greatest pattern text cursor = .ok (.goesOn next)) :
    cursor.Steps pattern text next := by
  unfold turn at h
  split at h
  · next htext =>
    -- whatever does not match, and the end of the pattern, sends the scan back to the last star
    split at h
    · next hpattern =>
      obtain ⟨first, -, h⟩ := bind_eq_ok_iff.1 h
      split at h
      · obtain ⟨after, hafter, h⟩ := bind_eq_ok_iff.1 h
        cases h
        obtain rfl := eq_add_of_add hafter
        exact .star hpattern htext
      · obtain ⟨byte, -, h⟩ := bind_eq_ok_iff.1 h
        obtain ⟨taken, htaken, h⟩ := bind_eq_ok_iff.1 h
        cases taken with
        | none => exact Cursor.steps_of_resume htext h
        | some after =>
          obtain ⟨inText, hinText, h⟩ := bind_eq_ok_iff.1 h
          cases h
          obtain rfl := eq_add_of_add hinText
          exact .token (lt_of_tokenAt htaken) htext
    · exact Cursor.steps_of_resume htext h
  · obtain ⟨_, -, h⟩ := bind_eq_ok_iff.1 h
    cases h

theorem Cursor.Ordered.of_steps {cursor next : Cursor} (h : cursor.Ordered)
    (hsteps : cursor.Steps pattern text next) : next.Ordered := by
  intro starInPattern starInText hstar
  cases hsteps with
  | star =>
    cases hstar
    exact ⟨Nat.lt_succ_self _, Nat.le_refl _⟩
  | token hnext =>
    obtain ⟨hpattern, htext⟩ := h _ _ hstar
    exact ⟨Nat.lt_trans hpattern hnext, Nat.le_succ_of_le htext⟩
  | resume =>
    cases hstar
    exact ⟨Nat.lt_succ_self _, Nat.le_refl _⟩

/-- Every turn leaves less to do. -/
theorem Cursor.Ordered.left_lt {cursor next : Cursor} (h : cursor.Ordered)
    (hsteps : cursor.Steps pattern text next) :
    Prod.Lex (· < ·) (Prod.Lex (· < ·) (· < ·)) (next.left pattern text)
      (cursor.left pattern text) := by
  obtain ⟨inPattern, inText, star⟩ := cursor
  cases hsteps with
  | star hpattern htext =>
    -- a star is met behind the last one, so that less of the pattern is left
    apply Prod.Lex.left
    cases star with
    | none => exact Nat.lt_succ_of_le (Nat.sub_le _ _)
    | some star =>
      have := (h _ _ rfl).1
      show pattern.length - inPattern < pattern.length - star.1
      dsimp only at hpattern this
      omega
  | token hnext htext =>
    -- the last star stays, and less of the text is left
    have hless : text.length - (inText + 1) < text.length - inText :=
      Nat.sub_lt_sub_left htext (Nat.lt_succ_self _)
    cases star with
    | none => exact Prod.Lex.right _ (Prod.Lex.right _ hless)
    | some star => exact Prod.Lex.right _ (Prod.Lex.right _ hless)
  | @resume starInPattern starInText hstar htext =>
    cases hstar
    -- the star stays where it is in the pattern, and has taken one byte more
    have hle : starInText < text.length := Nat.lt_of_le_of_lt (h _ _ rfl).2 htext
    exact Prod.Lex.right _ (Prod.Lex.left _ _ (Nat.sub_lt_sub_left hle (Nat.lt_succ_self _)))

end Ends

/-- Scans on from a cursor. -/
def scanFrom (pattern text : Bytes) (cursor : Cursor) (hordered : cursor.Ordered) : Guarded Bool :=
  match h : turn greatest pattern text cursor with
  | .error mishap => .error mishap
  | .ok (.ends verdict) => .ok verdict
  | .ok (.goesOn next) =>
    scanFrom pattern text next (hordered.of_steps (Cursor.steps_of_turn h))
termination_by cursor.left pattern text
decreasing_by exact hordered.left_lt (Cursor.steps_of_turn h)

/-- Scans a pattern and a text from their beginning. -/
def scan (pattern text : Bytes) : Guarded Bool :=
  scanFrom greatest pattern text ⟨0, 0, none⟩ fun _ _ h => nomatch h

section Classes

variable {greatest : Nat} {pattern : Bytes} (hfits : pattern.length < greatest) (byte : UInt8)
  {position : Nat}

/-- A byte of a class that starts neither an escape nor a range is listed. -/
theorem classItems_cons {first : UInt8} {rest : Bytes} (hopen : first ≠ 93)
    (hescape : first = 92 → rest = [])
    (hsingle : ¬∃ third more, rest = 45 :: third :: more ∧ third ≠ 93) (found : Bool) :
    classItems byte found (first :: rest) = classItems byte (found || first == byte) rest := by
  obtain _ | ⟨second, _ | ⟨third, more⟩⟩ := rest
  · exact classItems.eq_4 _ _ _ hopen
  · exact classItems.eq_5 _ _ _ _ hopen fun heq => List.cons_ne_nil _ _ (hescape heq)
  · rw [classItems, if_neg]
    · rintro ⟨rfl, hthird⟩
      exact hsingle ⟨third, more, rfl, hthird⟩
    · exact hopen
    · exact fun heq => List.cons_ne_nil _ _ (hescape heq)

include hfits

theorem exists_escapesAt (hlt : position < pattern.length) :
    ∃ escapes, escapesAt greatest pattern position = .ok escapes ∧
      (escapes = true ↔ pattern[position] = 92 ∧ position + 1 < pattern.length) := by
  rw [escapesAt, item_of_lt hlt, ok_bind]
  split
  · next hescape =>
    rw [add_of_le (by omega)]
    exact ⟨_, rfl, by simp [hescape]⟩
  · next hescape => exact ⟨_, rfl, by simp [hescape]⟩

theorem exists_rangesAt (hlt : position < pattern.length) :
    ∃ ranges, rangesAt greatest pattern position = .ok ranges ∧
      (ranges = true ↔ ∃ third more,
        pattern.drop (position + 1) = 45 :: third :: more ∧ third ≠ 93) := by
  rw [rangesAt, add_of_le (by omega), ok_bind]
  split
  · next hthird =>
    have hsecond : position + 1 < pattern.length := by omega
    have hdrop : pattern.drop (position + 1) =
        pattern[position + 1] :: pattern[position + 2] :: pattern.drop (position + 3) := by
      rw [List.drop_eq_getElem_cons hsecond, List.drop_eq_getElem_cons hthird]
    rw [add_of_le (by omega), ok_bind, item_of_lt hsecond, ok_bind, hdrop]
    split
    · next hdash =>
      rw [ok_bind, item_of_lt hthird, ok_bind, hdash]
      refine ⟨_, rfl, bne_iff_ne.trans ⟨fun h => ⟨_, _, rfl, h⟩, ?_⟩⟩
      rintro ⟨third, more, hrest, h⟩
      injection hrest with _ hrest
      injection hrest with hthird
      exact hthird ▸ h
    · next hdash =>
      refine ⟨_, rfl, iff_of_false Bool.false_ne_true ?_⟩
      rintro ⟨third, more, hrest, -⟩
      injection hrest with hsecond
      exact hdash hsecond
  · next hthird =>
    -- too few bytes are left
    refine ⟨_, rfl, iff_of_false Bool.false_ne_true ?_⟩
    rintro ⟨third, more, hdrop, -⟩
    have hlength := congrArg List.length hdrop
    simp only [List.length_drop, List.length_cons] at hlength
    omega

/-- An item of a class is read within the pattern. -/
theorem exists_classTurn (hlt : position < pattern.length) (hopen : pattern[position] ≠ 93)
    (found : Bool) :
    ∃ next now, classTurn greatest pattern byte position found = .ok (next, now) ∧
      next ≤ pattern.length ∧
      classItems byte found (pattern.drop position) = classItems byte now (pattern.drop next) := by
  have hdrop : pattern.drop position = pattern[position] :: pattern.drop (position + 1) :=
    List.drop_eq_getElem_cons hlt
  obtain ⟨escapes, hescapes, hescapes_iff⟩ := exists_escapesAt hfits hlt
  obtain ⟨ranges, hranges, hranges_iff⟩ := exists_rangesAt hfits hlt
  rw [classTurn, hescapes, ok_bind]
  -- the cases are those of the scan, and within each the byte list is cut as its positions say
  split
  · next h =>
    obtain ⟨hescape, hnext⟩ := hescapes_iff.1 h
    rw [add_of_le (by omega), ok_bind, item_of_lt hnext, ok_bind, add_of_le (by omega), ok_bind]
    refine ⟨_, _, rfl, hnext, ?_⟩
    rw [hdrop, hescape, List.drop_eq_getElem_cons hnext]
    rfl
  next hescape =>
  rw [hranges, ok_bind]
  split
  · next h =>
    obtain ⟨third, more, hrest, hthird⟩ := hranges_iff.1 h
    have hlength := congrArg List.length hrest
    simp only [List.length_drop, List.length_cons] at hlength
    have hother : position + 2 < pattern.length := by omega
    -- a backslash here would have been an escape
    have hplain : pattern[position] ≠ 92 := fun heq =>
      hescape (hescapes_iff.2 ⟨heq, by omega⟩)
    rw [List.drop_eq_getElem_cons (by omega), List.drop_eq_getElem_cons hother] at hrest
    injection hrest with hdash hrest
    injection hrest with hthird_eq hmore
    rw [item_of_lt hlt, ok_bind, add_of_le (by omega), ok_bind, item_of_lt hother, ok_bind,
      add_of_le (by omega), ok_bind]
    refine ⟨_, _, rfl, hother, ?_⟩
    rw [hdrop, List.drop_eq_getElem_cons (by omega), List.drop_eq_getElem_cons hother, classItems,
      if_pos ⟨hdash, hthird_eq ▸ hthird⟩]
    · exact hopen
    · exact hplain
  · next hrange =>
    rw [item_of_lt hlt, ok_bind, add_of_le (by omega), ok_bind]
    refine ⟨_, _, rfl, hlt, ?_⟩
    rw [hdrop]
    refine classItems_cons byte hopen (fun heq => ?_) (mt hranges_iff.2 hrange) found
    have hend : ¬position + 1 < pattern.length := fun hnext =>
      hescape (hescapes_iff.2 ⟨heq, hnext⟩)
    exact List.drop_eq_nil_of_le (Nat.not_lt.1 hend)

/-- The scan through a class stays within the pattern. It ends at the bracket that closes the class,
or where the pattern ends before one. -/
theorem exists_classEnd (hle : position ≤ pattern.length) (found : Bool) :
    ∃ last result, classEnd greatest pattern byte position found = .ok (last, result) ∧
      classItems byte found (pattern.drop position) =
        if last < pattern.length then some (result, pattern.drop (last + 1)) else none := by
  -- the induction is on the turns of the scan; a position within the pattern is what they keep
  fun_induction classEnd greatest pattern byte position found with
  | case1 position found hlt mishap hitem =>
    rw [item_of_lt hlt] at hitem
    cases hitem
  | case2 position found hlt hitem =>
    rw [item_of_lt hlt] at hitem
    refine ⟨position, found, rfl, ?_⟩
    rw [List.drop_eq_getElem_cons hlt, Except.ok.inj hitem, if_pos hlt]
    rfl
  | case3 position found hlt first hitem hopen mishap hturn =>
    rw [item_of_lt hlt] at hitem
    obtain ⟨_, _, hok, -⟩ := exists_classTurn hfits byte hlt (Except.ok.inj hitem ▸ hopen) found
    rw [hok] at hturn
    cases hturn
  | case4 position found hlt first hitem hopen next now hturn _ ih =>
    rw [item_of_lt hlt] at hitem
    obtain ⟨_, _, hok, hnext, hsame⟩ :=
      exists_classTurn hfits byte hlt (Except.ok.inj hitem ▸ hopen) found
    rw [hok] at hturn
    cases hturn
    rw [hsame]
    exact ih hnext
  | case5 position found hlt =>
    refine ⟨position, found, rfl, ?_⟩
    rw [List.drop_eq_nil_of_le (Nat.not_lt.1 hlt), if_neg hlt]
    rfl

end Classes

section Tokens

/-- A position, if there is one, lies within the pattern, and what is left of the pattern there is
as told. -/
def Lands (pattern : Bytes) (taken : Option Nat) (rest? : Option Bytes) : Prop :=
  (∀ next, taken = some next → next ≤ pattern.length) ∧
    taken.map (fun next => pattern.drop next) = rest?

theorem lands_none (pattern : Bytes) : Lands pattern none none :=
  ⟨fun _ h => (nomatch h), rfl⟩

theorem lands_some {pattern : Bytes} {next : Nat} (h : next ≤ pattern.length) :
    Lands pattern (some next) (some (pattern.drop next)) :=
  ⟨fun _ heq => Option.some.inj heq ▸ h, rfl⟩

theorem lands_ite {pattern : Bytes} {next : Nat} (h : next ≤ pattern.length) (condition : Prop)
    [Decidable condition] : Lands pattern (if condition then some next else none)
      (if condition then some (pattern.drop next) else none) := by
  split
  · exact lands_some h
  · exact lands_none pattern

variable {greatest : Nat} {pattern : Bytes} (hfits : pattern.length < greatest) (byte : UInt8)
  {position : Nat}

/-- What follows a class depends on whether its items are found, and whether they are excluded. -/
theorem classRest?_drop (byte : UInt8) (opened : Nat) :
    classRest? byte (pattern.drop opened) =
      (classItems byte false (pattern.drop
          (if pattern[opened]? == some 94 then opened + 1 else opened))).bind
        fun (found, rest) =>
          if found != (pattern[opened]? == some 94) then some rest else none := by
  by_cases hnegated : pattern[opened]? = some 94
  · obtain ⟨hlt, hfirst⟩ := List.getElem?_eq_some_iff.1 hnegated
    rw [hnegated, beq_self_eq_true, if_pos rfl, List.drop_eq_getElem_cons hlt, hfirst, classRest?]
    rcases classItems byte false (pattern.drop (opened + 1)) with _ | ⟨_ | _, rest⟩ <;> rfl
  · have hplain : ∀ items, pattern.drop opened ≠ 94 :: items := by
      intro items hdrop
      apply hnegated
      rw [← List.head?_drop, hdrop]
      rfl
    rw [classRest?.eq_2 _ _ hplain, beq_eq_false_iff_ne.2 hnegated, if_neg Bool.false_ne_true]
    rcases classItems byte false (pattern.drop opened) with _ | ⟨_ | _, rest⟩ <;> rfl

include hfits

theorem exists_itemsAt (hlt : position < pattern.length) (negated : Bool) :
    itemsAt greatest (position + 1) negated =
      .ok (if negated then position + 1 + 1 else position + 1) := by
  cases negated with
  | true => exact add_of_le (by omega)
  | false => rfl

/-- A class ends within the pattern. -/
theorem exists_classAt (hlt : position < pattern.length) :
    ∃ taken, classAt greatest pattern byte position = .ok taken ∧
      Lands pattern taken (classRest? byte (pattern.drop (position + 1))) := by
  have hitems : (if pattern[position + 1]? == some 94 then position + 1 + 1 else position + 1) ≤
      pattern.length := by
    split
    · next hnegated =>
      obtain ⟨hopened, -⟩ := List.getElem?_eq_some_iff.1 (beq_iff_eq.1 hnegated)
      exact hopened
    · exact hlt
  obtain ⟨last, result, hend, hclass⟩ := exists_classEnd hfits byte hitems false
  rw [classAt, add_of_le (by omega), ok_bind]
  dsimp only
  rw [exists_itemsAt hfits hlt, ok_bind, hend, ok_bind, classRest?_drop, hclass]
  split
  · next hopen =>
    rw [if_neg (Nat.not_lt.2 hopen)]
    exact ⟨none, rfl, lands_none pattern⟩
  · next hclosed =>
    have hlast : last < pattern.length := Nat.not_le.1 hclosed
    rw [add_of_le (by omega), ok_bind, if_pos hlast]
    exact ⟨_, rfl, lands_ite hlast _⟩

/-- A token ends within the pattern. -/
theorem exists_tokenAt (hlt : position < pattern.length) :
    ∃ taken, tokenAt greatest pattern byte position = .ok taken ∧
      Lands pattern taken (step? byte (pattern.drop position)) := by
  rw [tokenAt, item_of_lt hlt, ok_bind, List.drop_eq_getElem_cons hlt]
  split
  · next hmark =>
    rw [add_of_le (by omega), ok_bind, hmark]
    exact ⟨_, rfl, lands_some hlt⟩
  next hmark =>
  split
  · next hclass =>
    rw [hclass]
    exact exists_classAt hfits byte hlt
  next hclass =>
  obtain ⟨escapes, hescapes, hescapes_iff⟩ := exists_escapesAt hfits hlt
  rw [hescapes, ok_bind]
  split
  · next h =>
    obtain ⟨hescape, hnext⟩ := hescapes_iff.1 h
    rw [add_of_le (by omega), ok_bind, item_of_lt hnext, ok_bind, add_of_le (by omega), ok_bind,
      hescape, List.drop_eq_getElem_cons hnext]
    exact ⟨_, rfl, lands_ite hnext _⟩
  · next h =>
    rw [add_of_le (by omega), ok_bind]
    refine ⟨_, rfl, ?_⟩
    rw [step?.eq_5 _ _ _ hmark hclass]
    · exact lands_ite hlt _
    · -- a backslash with something behind it would have been an escape
      intro escaped rest hescape hdrop
      have hlength := congrArg List.length hdrop
      simp only [List.length_drop, List.length_cons] at hlength
      exact h (hescapes_iff.2 ⟨hescape, by omega⟩)

end Tokens

section Scan

variable {greatest : Nat} {pattern text : Bytes}

/-- What a cursor knows. Its positions lie within the pattern and the text, and tokens have led to
them, from the beginning or from the last star. If a star was met, the pattern matches the text
exactly if what follows the star does in some later place. -/
inductive Cursor.Follows (pattern text : Bytes) : Cursor → Prop where
  /-- No star was met. -/
  | plain {inPattern inText : Nat} (hpattern : inPattern ≤ pattern.length)
      (htext : inText ≤ text.length)
      (hgoes : Goes pattern text (pattern.drop inPattern) (text.drop inText)) :
      Follows pattern text ⟨inPattern, inText, none⟩
  /-- A star was met. -/
  | star {inPattern inText starInPattern starInText : Nat} (hpattern : inPattern ≤ pattern.length)
      (htext : inText ≤ text.length) (hinPattern : starInPattern < inPattern)
      (hinText : starInText ≤ inText)
      (hgoes : Goes (pattern.drop (starInPattern + 1)) (text.drop starInText)
        (pattern.drop inPattern) (text.drop inText))
      (hsame : Matches pattern text ↔
        Matches (42 :: pattern.drop (starInPattern + 1)) (text.drop starInText)) :
      Follows pattern text ⟨inPattern, inText, some (starInPattern, starInText)⟩

/-- What a turn of the scan keeps. -/
inductive Turn.Keeps (pattern text : Bytes) : Turn → Prop where
  /-- The scan goes on, and follows. -/
  | goesOn {cursor : Cursor} (h : cursor.Follows pattern text) : Keeps pattern text (.goesOn cursor)
  /-- The scan ends, and its verdict is right. -/
  | ends {verdict : Bool} (h : verdict = true ↔ Matches pattern text) :
      Keeps pattern text (.ends verdict)

namespace Cursor.Follows

variable {cursor : Cursor} (h : cursor.Follows pattern text)

include h

theorem inPattern_le : cursor.inPattern ≤ pattern.length := by
  cases h <;> assumption

/-- What follows a star is all that counts when the star is met. -/
theorem matches_iff_of_star {more : Bytes} (hstar : pattern.drop cursor.inPattern = 42 :: more) :
    Matches pattern text ↔ Matches (42 :: more) (text.drop cursor.inText) := by
  cases h with
  | plain _ _ hgoes => rw [← hstar, hgoes.matches_iff]
  | star _ _ _ _ hgoes hsame =>
    rw [hsame]
    constructor
    · intro hmatches
      have hlater := hgoes.matches_star hmatches
      rw [hstar] at hlater
      exact matches_star_star_iff.1 hlater
    · intro hmatches
      exact .star [] (hgoes.matches_iff.2 (hstar ▸ hmatches))

/-- At the end of the text, what is left of the pattern must match without a byte. -/
theorem matches_iff_of_end (hend : text.length ≤ cursor.inText) :
    Matches pattern text ↔ (pattern.drop cursor.inPattern).all (· == 42) = true := by
  rw [← matches_nil_iff]
  cases h with
  | plain _ _ hgoes =>
    rw [List.drop_eq_nil_of_le hend] at hgoes
    exact hgoes.matches_iff
  | star _ _ _ _ hgoes hsame =>
    rw [List.drop_eq_nil_of_le hend] at hgoes
    rw [hsame]
    constructor
    · intro hmatches
      have hstars := matches_nil_iff.1 (hgoes.matches_star hmatches)
      rw [List.all_cons, Bool.and_eq_true] at hstars
      exact matches_nil_iff.2 hstars.2
    · intro hmatches
      exact .star [] (hgoes.matches_iff.2 hmatches)

theorem token {next : Nat} {byte : UInt8} (hnext : cursor.inPattern < next)
    (hle : next ≤ pattern.length) (hdrop : text.drop cursor.inText =
      byte :: text.drop (cursor.inText + 1)) (hlt : cursor.inText < text.length)
    (hstar : ∀ more, pattern.drop cursor.inPattern ≠ 42 :: more)
    (hstep : step? byte (pattern.drop cursor.inPattern) = some (pattern.drop next)) :
    Follows pattern text ⟨next, cursor.inText + 1, cursor.star⟩ := by
  cases h with
  | plain _ _ hgoes => exact .plain hle hlt (.token (hdrop ▸ hgoes) hstar hstep)
  | star _ _ hinPattern hinText hgoes hsame =>
    exact .star hle hlt (Nat.lt_trans hinPattern hnext) (Nat.le_succ_of_le hinText)
      (.token (hdrop ▸ hgoes) hstar hstep) hsame

variable (hfits : pattern.length < greatest) (htext : text.length ≤ greatest)

include hfits htext

/-- If nothing matches at the cursor, the last star takes one byte more, or the scan has failed. -/
theorem exists_resume (hlt : cursor.inText < text.length)
    (hfails : ¬Matches (pattern.drop cursor.inPattern) (text.drop cursor.inText)) :
    ∃ result, cursor.resume greatest = .ok result ∧ result.Keeps pattern text := by
  cases h with
  | plain _ _ hgoes =>
    exact ⟨_, rfl, .ends (iff_of_false Bool.false_ne_true (mt hgoes.matches_iff.1 hfails))⟩
  | @star inPattern inText starInPattern starInText hpattern _ hinPattern hinText hgoes hsame =>
    dsimp only at hlt
    have hstar : starInText < text.length := Nat.lt_of_le_of_lt hinText hlt
    have hnot := mt hgoes.matches_iff.1 hfails
    have hdrop := List.drop_eq_getElem_cons hstar
    refine ⟨.goesOn ⟨starInPattern + 1, starInText + 1, some (starInPattern, starInText + 1)⟩,
      ?_, .goesOn (.star ?_ hstar (Nat.lt_succ_self _) (Nat.le_refl _) .start ?_)⟩
    · have hback : add greatest starInPattern 1 = .ok (starInPattern + 1) := add_of_le (by omega)
      have hlater : add greatest starInText 1 = .ok (starInText + 1) := add_of_le (by omega)
      simp only [resume, hback, hlater, ok_bind, pure_eq_ok]
    · exact Nat.le_trans hinPattern hpattern
    · -- what follows the star does not match from this byte on, so that the star takes it
      rw [hsame, hdrop]
      exact matches_star_cons_iff (hdrop ▸ hnot)

/-- A turn of the scan does not go wrong. It keeps what the cursor knows, or ends with a verdict
that is right. -/
theorem exists_turn :
    ∃ result, turn greatest pattern text cursor = .ok result ∧ result.Keeps pattern text := by
  rw [turn]
  split
  · next hlt =>
    have hdrop := List.drop_eq_getElem_cons hlt
    split
    · next hpattern =>
      have hrest := List.drop_eq_getElem_cons hpattern
      rw [item_of_lt hpattern, ok_bind]
      split
      · next hstar =>
        rw [hstar] at hrest
        rw [add_of_le (by omega), ok_bind]
        exact ⟨_, rfl, .goesOn (.star hpattern (Nat.le_of_lt hlt) (Nat.lt_succ_self _)
          (Nat.le_refl _) .start (h.matches_iff_of_star hrest))⟩
      · next hplain =>
        have hstar : ∀ more, pattern.drop cursor.inPattern ≠ 42 :: more := by
          intro more heq
          rw [hrest] at heq
          injection heq with hfirst
          exact hplain hfirst
        obtain ⟨taken, htoken, hle, hlands⟩ :=
          exists_tokenAt hfits text[cursor.inText] hpattern
        rw [item_of_lt hlt, ok_bind, htoken, ok_bind]
        cases taken with
        | some next =>
          dsimp only
          rw [add_of_le (by omega), ok_bind]
          exact ⟨_, rfl, .goesOn (h.token (lt_of_tokenAt htoken) (hle next rfl) hdrop hlt hstar
            hlands.symm)⟩
        | none =>
          refine h.exists_resume hfits htext hlt ?_
          rw [hdrop]
          exact not_matches_of_step? hstar hlands.symm
    · next hpattern =>
      refine h.exists_resume hfits htext hlt ?_
      -- the text goes on, but the pattern does not
      rw [List.drop_eq_nil_of_le (Nat.not_lt.1 hpattern), hdrop]
      exact not_matches_of_step? (fun _ heq => nomatch heq) rfl
  · next hend =>
    rw [tail_of_le h.inPattern_le, ok_bind]
    exact ⟨_, rfl, .ends (h.matches_iff_of_end (Nat.not_lt.1 hend)).symm⟩

/-- A scan that follows does not go wrong, and its verdict is right. -/
theorem exists_scanFrom (hordered : cursor.Ordered) :
    ∃ verdict, scanFrom greatest pattern text cursor hordered = .ok verdict ∧
      (verdict = true ↔ Matches pattern text) := by
  -- the induction is on the turns of the scan; the invariant excludes that one of them goes wrong
  fun_induction scanFrom greatest pattern text cursor hordered with
  | case1 cursor _ mishap hturn =>
    obtain ⟨_, hok, -⟩ := h.exists_turn hfits htext
    rw [hok] at hturn
    cases hturn
  | case2 cursor _ verdict hturn =>
    obtain ⟨_, hok, hkeeps⟩ := h.exists_turn hfits htext
    rw [hok] at hturn
    cases hturn
    cases hkeeps with
    | ends hverdict => exact ⟨verdict, rfl, hverdict⟩
  | case3 cursor _ next hturn ih =>
    obtain ⟨_, hok, hkeeps⟩ := h.exists_turn hfits htext
    rw [hok] at hturn
    cases hturn
    cases hkeeps with
    | goesOn hfollows => exact ih hfollows

end Cursor.Follows

/-- The scan by positions does not go wrong, whatever the pattern and the text, and finds exactly
what the pattern covers. -/
theorem scan_eq (hfits : pattern.length < greatest) (htext : text.length ≤ greatest) :
    scan greatest pattern text = .ok (covers pattern text) := by
  have hstart : Cursor.Follows pattern text ⟨0, 0, none⟩ :=
    .plain (Nat.zero_le _) (Nat.zero_le _) .start
  obtain ⟨verdict, hscan, hverdict⟩ := hstart.exists_scanFrom hfits htext fun _ _ h => nomatch h
  rw [scan, hscan, Bool.eq_iff_iff.2 (hverdict.trans (covers_iff_matches pattern text).symm)]

end Scan

end RingStore.Glob
