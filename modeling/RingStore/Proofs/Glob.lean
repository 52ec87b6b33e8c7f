import Mathlib.Data.List.Infix
import RingStore.Glob

/-!
# What glob patterns match

Which texts a pattern matches is said here without a word on how a text is scanned: a pattern is
read from left to right as tokens, each token covers one byte, and a star may skip any bytes. The
scan of `Glob.covers` never reconsiders a star once it has come to the next one. It finds a match
all the same: what stands between two stars always takes the same number of bytes, since where a
class ends does not depend on the byte that is tested, so whatever another choice could reach is
still ahead of the first.

## Main definitions

* `Glob.ClassReads`: the items of a class, and what follows its closing bracket.
* `Glob.TokenReads`: the first token of a pattern, and what follows it.
* `Glob.Matches`: the pattern matches the whole text.
* `Glob.Goes`: tokens lead from one place in a pattern and in a text to another one.

## Main results

* `Glob.TokenReads.step?_eq_some`, `Glob.exists_tokenReads_of_step?`: a step goes past a token that
  covers the byte.
* `Glob.Goes.matches_iff`, `Glob.Goes.matches_star`: what going on by tokens does to the matches.
* `Glob.tells_advance`: following a pattern to its next star neither finds a match nor loses one.
* `Glob.matches_star_of_advance_eq_star`: reaching a star early loses nothing.
* `Glob.covers_iff_matches`: the scan finds exactly the matches.
-/

namespace RingStore.Glob

/-- What a class lists. -/
inductive ClassItem where
  /-- One byte. -/
  | byte (listed : UInt8)
  /-- All bytes between two bounds. -/
  | range (one other : UInt8)

/-- The item stands for a byte. The bounds of a range may come in either order. -/
def ClassItem.Covers : ClassItem → UInt8 → Prop
  | byte listed, tested => tested = listed
  | range one other, tested => one ≤ tested ∧ tested ≤ other ∨ other ≤ tested ∧ tested ≤ one

/-- The items of a class that is opened in front of the bytes, and what follows the first bracket
that closes it. Nothing is related to bytes in which no bracket closes the class. -/
inductive ClassReads : (bytes : Bytes) → (items : List ClassItem) → (rest : Bytes) → Prop where
  /-- A bracket closes the class. -/
  | close (rest : Bytes) : ClassReads (93 :: rest) [] rest
  /-- A byte after a backslash is listed, whatever it is. -/
  | escaped (listed : UInt8) {bytes rest : Bytes} {items : List ClassItem}
      (h : ClassReads bytes items rest) :
      ClassReads (92 :: listed :: bytes) (.byte listed :: items) rest
  /-- A dash between two bytes makes a range of them. The second one is taken as it is, unless it
  is a closing bracket. -/
  | range {first third : UInt8} (hopen : first ≠ 93) (hplain : first ≠ 92) (hthird : third ≠ 93)
      {bytes rest : Bytes} {items : List ClassItem} (h : ClassReads bytes items rest) :
      ClassReads (first :: 45 :: third :: bytes) (.range first third :: items) rest
  /-- Any other byte is listed. -/
  | byte {first : UInt8} (hopen : first ≠ 93) (hplain : first ≠ 92) {bytes rest : Bytes}
      (hsingle : ∀ third more, bytes = 45 :: third :: more → third = 93) {items : List ClassItem}
      (h : ClassReads bytes items rest) :
      ClassReads (first :: bytes) (.byte first :: items) rest

/-- A part of a pattern that takes exactly one byte. -/
inductive Token where
  /-- Any byte. -/
  | any
  /-- This byte. -/
  | byte (expected : UInt8)
  /-- A byte for which one of the items stands. -/
  | among (items : List ClassItem)
  /-- A byte for which none of the items stands. -/
  | outside (items : List ClassItem)

/-- The token takes the byte. -/
def Token.Covers : Token → UInt8 → Prop
  | any, _ => True
  | byte expected, tested => tested = expected
  | among items, tested => ∃ item ∈ items, item.Covers tested
  | outside items, tested => ¬∃ item ∈ items, item.Covers tested

/-- The first token of a pattern, and what follows it. Nothing is related to a pattern that starts
with a star or with a class that is not closed. -/
inductive TokenReads : (pattern : Bytes) → (token : Token) → (rest : Bytes) → Prop where
  /-- A question mark. -/
  | any (rest : Bytes) : TokenReads (63 :: rest) .any rest
  /-- A class. -/
  | among {bytes rest : Bytes} {items : List ClassItem} (hplain : ∀ more, bytes ≠ 94 :: more)
      (h : ClassReads bytes items rest) : TokenReads (91 :: bytes) (.among items) rest
  /-- A class whose items are excluded. -/
  | outside {bytes rest : Bytes} {items : List ClassItem} (h : ClassReads bytes items rest) :
      TokenReads (91 :: 94 :: bytes) (.outside items) rest
  /-- A backslash makes the byte after it stand for itself. -/
  | escaped (expected : UInt8) (rest : Bytes) :
      TokenReads (92 :: expected :: rest) (.byte expected) rest
  /-- A backslash with nothing after it stands for itself. -/
  | backslash : TokenReads [92] (.byte 92) []
  /-- Every other byte stands for itself. -/
  | literal {first : UInt8} (rest : Bytes) (hstar : first ≠ 42) (hmark : first ≠ 63)
      (hclass : first ≠ 91) (hescape : first ≠ 92) : TokenReads (first :: rest) (.byte first) rest

/-- The pattern matches the whole text. -/
inductive Matches : (pattern text : Bytes) → Prop where
  /-- Nothing is left of either. -/
  | nil : Matches [] []
  /-- A star matches any bytes, also none. -/
  | star {pattern text : Bytes} (skipped : Bytes) (h : Matches pattern text) :
      Matches (42 :: pattern) (skipped ++ text)
  /-- A token matches a byte that it covers. -/
  | token {pattern rest text : Bytes} {token : Token} {byte : UInt8}
      (hreads : TokenReads pattern token rest) (hcovers : token.Covers byte)
      (h : Matches rest text) : Matches pattern (byte :: text)

section Classes

variable {bytes rest : Bytes} {items : List ClassItem} {byte : UInt8}

theorem inRange_iff {one other tested : UInt8} :
    inRange one other tested = true ↔ (ClassItem.range one other).Covers tested := by
  simp [inRange, ClassItem.Covers]

theorem byte_beq_iff {listed tested : UInt8} :
    (listed == tested) = true ↔ (ClassItem.byte listed).Covers tested :=
  beq_iff_eq.trans eq_comm

/-- An item is looked at after it was found, or not found, that earlier ones stand for the byte. -/
theorem found_or_iff {item : ClassItem} {now : Bool} (hnow : now = true ↔ item.Covers byte)
    {found result : Bool}
    (h : result = true ↔ (found || now) = true ∨ ∃ other ∈ items, other.Covers byte) :
    result = true ↔ found = true ∨ ∃ other ∈ item :: items, other.Covers byte := by
  rw [h, Bool.or_eq_true, hnow, List.exists_mem_cons_iff, or_assoc]

/-- Looking for a byte among the items of a class goes through all of them, whatever the byte. -/
theorem ClassReads.classItems (h : ClassReads bytes items rest) (byte : UInt8) (found : Bool) :
    ∃ result, Glob.classItems byte found bytes = some (result, rest) ∧
      (result = true ↔ found = true ∨ ∃ item ∈ items, item.Covers byte) := by
  induction h generalizing found with
  | close rest => exact ⟨found, rfl, by simp⟩
  | escaped listed _ ih =>
    obtain ⟨result, hresult, hfound⟩ := ih (found || listed == byte)
    exact ⟨result, hresult, found_or_iff byte_beq_iff hfound⟩
  | @range first third hopen hplain hthird bytes rest items _ ih =>
    obtain ⟨result, hresult, hfound⟩ := ih (found || inRange first third byte)
    refine ⟨result, ?_, found_or_iff inRange_iff hfound⟩
    rw [Glob.classItems, if_pos ⟨rfl, hthird⟩, hresult]
    · exact hopen
    · exact hplain
  | @byte first hopen hplain bytes rest hsingle items h ih =>
    obtain ⟨result, hresult, hfound⟩ := ih (found || first == byte)
    refine ⟨result, ?_, found_or_iff byte_beq_iff hfound⟩
    rw [← hresult]
    -- two bytes further on there would be the end of a range
    match bytes with
    | [] => cases h
    | [second] => exact Glob.classItems.eq_5 _ _ _ _ hopen hplain
    | second :: third :: more =>
      rw [Glob.classItems, if_neg]
      · rintro ⟨rfl, hthird⟩
        exact hthird (hsingle third more rfl)
      · exact hopen
      · exact hplain

/-- What was looked for was looked for among the items of a class that is closed. -/
theorem exists_classReads {found result : Bool}
    (h : classItems byte found bytes = some (result, rest)) :
    ∃ items, ClassReads bytes items rest := by
  fun_induction classItems byte found bytes with
  | case1 => cases h
  | case2 found after =>
    cases h
    exact ⟨[], .close rest⟩
  | case3 found escaped after ih =>
    obtain ⟨items, hitems⟩ := ih h
    exact ⟨_, .escaped escaped hitems⟩
  | case4 found first hopen ih =>
    -- no bracket is left to close the class
    obtain ⟨items, hitems⟩ := ih h
    cases hitems
  | case5 found first second hopen hplain ih =>
    obtain ⟨items, hitems⟩ := ih h
    exact ⟨_, .byte hopen hplain (by simp) hitems⟩
  | case6 found first second third after hopen hplain hrange ih =>
    obtain ⟨rfl, hthird⟩ := hrange
    obtain ⟨items, hitems⟩ := ih h
    exact ⟨_, .range hopen hplain hthird hitems⟩
  | case7 found first second third after hopen hplain hrange ih =>
    obtain ⟨items, hitems⟩ := ih h
    refine ⟨_, .byte hopen hplain (fun other more heq => ?_) hitems⟩
    cases heq
    by_contra hother
    exact hrange ⟨rfl, hother⟩

/-- What is found in a class, and where the class ends. Only the first depends on the byte. -/
theorem classItems_eq_some_iff {result : Bool} :
    classItems byte false bytes = some (result, rest) ↔
      ∃ items, ClassReads bytes items rest ∧
        (result = true ↔ ∃ item ∈ items, item.Covers byte) := by
  constructor
  · intro h
    obtain ⟨items, hitems⟩ := exists_classReads h
    obtain ⟨found, hfound, hcovers⟩ := hitems.classItems byte false
    rw [h] at hfound
    obtain ⟨rfl, -⟩ := Prod.mk.inj (Option.some.inj hfound)
    exact ⟨items, hitems, by simpa using hcovers⟩
  · rintro ⟨items, hitems, hcovers⟩
    obtain ⟨found, hfound, hsame⟩ := hitems.classItems byte false
    have hsame : found = true ↔ result = true := by simpa [hcovers] using hsame
    rw [hfound, Bool.eq_iff_iff.2 hsame]

/-- A class ends at one place only. -/
theorem ClassReads.rest_unique (h : ClassReads bytes items rest) {others : List ClassItem}
    {after : Bytes} (hother : ClassReads bytes others after) : rest = after := by
  obtain ⟨_, hfound, -⟩ := h.classItems 0 false
  obtain ⟨_, hother, -⟩ := hother.classItems 0 false
  rw [hfound] at hother
  exact (Prod.mk.inj (Option.some.inj hother)).2

end Classes

section Tokens

variable {pattern bytes rest : Bytes} {token : Token} {byte : UInt8}

/-- A class that is not negated is gone past if the byte is found in it. -/
theorem classRest?_eq_some_iff (hplain : ∀ more, bytes ≠ 94 :: more) :
    classRest? byte bytes = some rest ↔ classItems byte false bytes = some (true, rest) := by
  rw [classRest?.eq_2 _ _ hplain]
  rcases classItems byte false bytes with _ | ⟨_ | _, after⟩ <;> simp

/-- A negated class is gone past if the byte is not found in it. -/
theorem classRest?_negated_eq_some_iff :
    classRest? byte (94 :: bytes) = some rest ↔
      classItems byte false bytes = some (false, rest) := by
  rw [classRest?]
  rcases classItems byte false bytes with _ | ⟨_ | _, after⟩ <;> simp

/-- A step goes past a token that covers the byte. -/
theorem TokenReads.step?_eq_some (h : TokenReads pattern token rest) (hcovers : token.Covers byte) :
    step? byte pattern = some rest := by
  cases h with
  | any => rfl
  | among hplain hclass =>
    exact (classRest?_eq_some_iff hplain).2
      (classItems_eq_some_iff.2 ⟨_, hclass, iff_of_true rfl hcovers⟩)
  | outside hclass =>
    exact classRest?_negated_eq_some_iff.2
      (classItems_eq_some_iff.2 ⟨_, hclass, iff_of_false Bool.false_ne_true hcovers⟩)
  | escaped expected rest => exact if_pos hcovers.symm
  | backslash => exact if_pos hcovers.symm
  | literal rest hstar hmark hclass hescape =>
    rw [step?.eq_5 _ _ _ hmark hclass fun _ _ heq _ => hescape heq]
    exact if_pos hcovers.symm

/-- A step that goes on goes past a token that covers the byte, unless it takes a star for one. -/
theorem exists_tokenReads_of_step? (hstar : ∀ more, pattern ≠ 42 :: more)
    (h : step? byte pattern = some rest) :
    ∃ token, TokenReads pattern token rest ∧ token.Covers byte := by
  unfold step? at h
  split at h
  · cases h
  · cases h
    exact ⟨_, .any rest, trivial⟩
  · next bytes =>
    -- a negated class is gone past if its items do not cover the byte
    by_cases hnegated : ∃ more, bytes = 94 :: more
    · obtain ⟨more, rfl⟩ := hnegated
      obtain ⟨items, hclass, hcovers⟩ :=
        classItems_eq_some_iff.1 (classRest?_negated_eq_some_iff.1 h)
      exact ⟨_, .outside hclass, fun hfound => Bool.false_ne_true (hcovers.2 hfound)⟩
    · have hplain : ∀ more, bytes ≠ 94 :: more := fun more heq => hnegated ⟨more, heq⟩
      obtain ⟨items, hclass, hcovers⟩ :=
        classItems_eq_some_iff.1 ((classRest?_eq_some_iff hplain).1 h)
      exact ⟨_, .among hplain hclass, hcovers.1 rfl⟩
  · next escaped after =>
    split at h
    · next hsame =>
      cases h
      exact ⟨_, .escaped escaped rest, hsame.symm⟩
    · cases h
  · next first after hmark hclass hescape =>
    split at h
    · next hsame =>
      cases h
      -- a backslash with a byte after it escapes that byte, so this one ends the pattern
      by_cases hbackslash : first = 92
      · subst hbackslash
        cases rest with
        | nil => exact ⟨_, .backslash, hsame.symm⟩
        | cons second more => exact (hescape second more rfl rfl).elim
      · exact ⟨_, .literal rest (fun heq => hstar rest (heq ▸ rfl)) hmark hclass hbackslash,
          hsame.symm⟩
    · cases h

/-- A token ends at one place only, whatever the byte. -/
theorem TokenReads.rest_unique (h : TokenReads pattern token rest) {other : Token} {after : Bytes}
    (hother : TokenReads pattern other after) : rest = after := by
  -- tokens of different kinds begin differently, but for a backslash that escapes nothing
  cases h with
  | any =>
    cases hother with
    | any => rfl
    | literal => contradiction
  | among hplain hclass =>
    cases hother with
    | among _ hother => exact hclass.rest_unique hother
    | outside => exact absurd rfl (hplain _)
    | literal => contradiction
  | outside hclass =>
    cases hother with
    | among hplain => exact absurd rfl (hplain _)
    | outside hother => exact hclass.rest_unique hother
    | literal => contradiction
  | escaped expected rest =>
    cases hother with
    | escaped => rfl
    | literal => contradiction
  | backslash =>
    cases hother with
    | backslash => rfl
    | literal => rfl
  | literal rest hstar hmark hclass hescape =>
    cases hother <;> first | rfl | contradiction

end Tokens

section Scan

variable {pattern rest text after there : Bytes} {byte : UInt8}

/-- A star matches what the pattern after it does, in front of which any bytes may stand. -/
theorem matches_star_iff :
    Matches (42 :: pattern) text ↔ ∃ after, after <:+ text ∧ Matches pattern after := by
  constructor
  · intro h
    cases h with
    | star skipped h => exact ⟨_, List.suffix_append _ _, h⟩
    | token hreads =>
      -- no token starts with a star
      cases hreads
      contradiction
  · rintro ⟨after, ⟨skipped, rfl⟩, h⟩
    exact .star skipped h

/-- If a pattern does not match from a byte on, a star in front of it takes that byte. -/
theorem matches_star_cons_iff (h : ¬Matches pattern (byte :: text)) :
    Matches (42 :: pattern) (byte :: text) ↔ Matches (42 :: pattern) text := by
  rw [matches_star_iff, matches_star_iff]
  constructor
  · rintro ⟨part, hpart, hmatches⟩
    rcases List.suffix_cons_iff.1 hpart with rfl | hpart
    · exact absurd hmatches h
    · exact ⟨part, hpart, hmatches⟩
  · rintro ⟨part, hpart, hmatches⟩
    exact ⟨part, hpart.trans (List.suffix_cons byte text), hmatches⟩

theorem matches_star_star_iff :
    Matches (42 :: 42 :: pattern) text ↔ Matches (42 :: pattern) text := by
  constructor
  · intro h
    obtain ⟨part, hpart, hmatches⟩ := matches_star_iff.1 h
    obtain ⟨last, hlast, hmatches⟩ := matches_star_iff.1 hmatches
    exact matches_star_iff.2 ⟨last, hlast.trans hpart, hmatches⟩
  · exact .star []

/-- A text without bytes is matched by stars only. -/
theorem matches_nil_iff : Matches pattern [] ↔ pattern.all (· == 42) = true := by
  induction pattern with
  | nil => simp [Matches.nil]
  | cons first rest ih =>
    rw [List.all_cons, Bool.and_eq_true, beq_iff_eq, ← ih]
    constructor
    · intro h
      generalize hempty : ([] : Bytes) = empty at h
      cases h with
      | star skipped h =>
        obtain ⟨rfl, rfl⟩ := List.append_eq_nil_iff.1 hempty.symm
        exact ⟨rfl, h⟩
      | token => cases hempty
    · rintro ⟨rfl, h⟩
      exact .star [] h

/-- A pattern whose first token ends at a known place takes one byte for it, and goes on there. -/
theorem Matches.of_tokenReads {token : Token} (hreads : TokenReads pattern token rest)
    (h : Matches pattern text) : ∃ byte after, text = byte :: after ∧ Matches rest after := by
  cases h with
  | nil => cases hreads
  | star =>
    cases hreads
    contradiction
  | token hother _ h =>
    rw [← hreads.rest_unique hother] at h
    exact ⟨_, _, rfl, h⟩

/-- A step past a token that is no star loses no match and finds none. -/
theorem matches_cons_iff_of_step? (hstar : ∀ more, rest ≠ 42 :: more)
    (hstep : step? byte rest = some after) :
    Matches rest (byte :: there) ↔ Matches after there := by
  obtain ⟨token, hreads, hcovers⟩ := exists_tokenReads_of_step? hstar hstep
  constructor
  · intro h
    obtain ⟨_, _, heq, hafter⟩ := h.of_tokenReads hreads
    cases heq
    exact hafter
  · exact .token hreads hcovers

/-- Where no step is possible, nothing matches. -/
theorem not_matches_of_step? (hstar : ∀ more, rest ≠ 42 :: more) (hstep : step? byte rest = none) :
    ¬Matches rest (byte :: there) := by
  intro h
  generalize hbytes : byte :: there = bytes at h
  cases h with
  | nil => cases hbytes
  | star => exact hstar _ rfl
  | token hreads hcovers =>
    cases hbytes
    rw [hreads.step?_eq_some hcovers] at hstep
    cases hstep

/-- From a place in a pattern and in a text on, tokens that take a byte each lead to another one. -/
inductive Goes (pattern text : Bytes) : (rest there : Bytes) → Prop where
  /-- It is the same place. -/
  | start : Goes pattern text pattern text
  /-- One token more takes a byte. -/
  | token {rest after there : Bytes} {byte : UInt8} (h : Goes pattern text rest (byte :: there))
      (hstar : ∀ more, rest ≠ 42 :: more) (hstep : step? byte rest = some after) :
      Goes pattern text after there

theorem Goes.cons (hstar : ∀ more, pattern ≠ 42 :: more) (hstep : step? byte pattern = some after)
    (h : Goes after text rest there) : Goes pattern (byte :: text) rest there := by
  induction h with
  | start => exact .token .start hstar hstep
  | token _ hlater hnext ih => exact .token ih hlater hnext

theorem Goes.matches_iff (h : Goes pattern text rest there) :
    Matches pattern text ↔ Matches rest there := by
  induction h with
  | start => rfl
  | token _ hstar hstep ih => exact ih.trans (matches_cons_iff_of_step? hstar hstep)

/-- The tokens take as many bytes in any other text that the pattern matches. -/
theorem Goes.exists_matches (h : Goes pattern text rest there) {other : Bytes}
    (hlength : other.length ≤ text.length) (hmatches : Matches pattern other) :
    ∃ last, last <:+ other ∧ last.length ≤ there.length ∧ Matches rest last := by
  induction h with
  | start => exact ⟨other, List.suffix_refl other, hlength, hmatches⟩
  | token _ hstar hstep ih =>
    obtain ⟨last, hsuffix, hle, hlast⟩ := ih
    obtain ⟨token, hreads, -⟩ := exists_tokenReads_of_step? hstar hstep
    obtain ⟨first, others, rfl, hothers⟩ := hlast.of_tokenReads hreads
    exact ⟨others, (List.suffix_cons first others).trans hsuffix, Nat.le_of_succ_le_succ hle,
      hothers⟩

theorem Goes.suffix (h : Goes pattern text rest there) : there <:+ text := by
  induction h with
  | start => exact List.suffix_refl text
  | token _ _ _ ih => exact (List.suffix_cons _ _).trans ih

/-- A match that takes any bytes first takes any bytes in front of what the tokens lead to. -/
theorem Goes.matches_star (h : Goes pattern text rest there)
    (hmatches : Matches (42 :: pattern) text) : Matches (42 :: rest) there := by
  obtain ⟨part, hpart, hmatches⟩ := matches_star_iff.1 hmatches
  obtain ⟨last, hlast, hle, hrest⟩ := h.exists_matches hpart.length_le hmatches
  exact matches_star_iff.2
    ⟨last, List.suffix_of_suffix_length_le (hlast.trans hpart) h.suffix hle, hrest⟩

/-- What the progress of a pattern through a text tells. -/
def Progress.Tells (pattern text : Bytes) : Progress → Prop
  | matched => Matches pattern text
  | failed => ¬Matches pattern text
  | star after there => Matches pattern text ↔ Matches (42 :: after) there

theorem Progress.Tells.of_iff {progress : Progress} {after : Bytes}
    (h : progress.Tells rest after) (hsame : Matches pattern text ↔ Matches rest after) :
    progress.Tells pattern text := by
  cases progress with
  | matched => exact hsame.2 h
  | failed => exact mt hsame.1 h
  | star => exact hsame.trans h

/-- Following a pattern as far as the next star neither finds a match nor loses one. -/
theorem tells_advance (pattern text : Bytes) : (advance pattern text).Tells pattern text := by
  induction text generalizing pattern with
  | nil =>
    unfold advance
    split
    · next hstars => exact matches_nil_iff.2 hstars
    · next hstars => exact mt matches_nil_iff.1 hstars
  | cons byte text ih =>
    unfold advance
    split
    · exact Iff.rfl
    · next hstar =>
      split
      · next rest hstep =>
        exact (ih rest).of_iff (matches_cons_iff_of_step? hstar hstep)
      · next hstep => exact not_matches_of_step? hstar hstep

/-- A pattern that is followed as far as its next star is gone through by tokens. -/
theorem goes_of_advance (h : advance pattern text = .star after there) :
    Goes pattern text (42 :: after) there := by
  induction text generalizing pattern with
  | nil => unfold advance at h; split at h <;> cases h
  | cons byte text ih =>
    unfold advance at h
    split at h
    · cases h
      exact .start
    · next hstar =>
      split at h
      · next rest hstep => exact .cons hstar hstep (ih h)
      · cases h

/-- Reaching a star early loses nothing: whatever the pattern matches further on, what comes after
the star matches there too. -/
theorem matches_star_of_advance_eq_star (hadvance : advance pattern text = .star after there) :
    Matches (42 :: pattern) text ↔ Matches (42 :: after) there := by
  have hgoes := goes_of_advance hadvance
  constructor
  · intro h
    exact matches_star_star_iff.1 (hgoes.matches_star h)
  · intro h
    exact .star [] (hgoes.matches_iff.2 h)

/-- The scan after a star finds exactly the matches of the pattern with the star. -/
theorem matchesFrom_iff (pattern text : Bytes) :
    matchesFrom pattern text = true ↔ Matches (42 :: pattern) text := by
  have htells := tells_advance pattern text
  fun_induction matchesFrom pattern text with
  | case1 pattern text hadvance =>
    rw [hadvance] at htells
    exact iff_of_true rfl (.star [] htells)
  | case2 pattern text after there hadvance _ ih =>
    exact (ih (tells_advance _ _)).trans (matches_star_of_advance_eq_star hadvance).symm
  | case3 pattern hadvance =>
    rw [hadvance] at htells
    refine iff_of_false Bool.false_ne_true fun h => ?_
    obtain ⟨part, hpart, hmatches⟩ := matches_star_iff.1 h
    exact htells (List.suffix_nil.1 hpart ▸ hmatches)
  | case4 pattern first rest hadvance ih =>
    rw [hadvance] at htells
    -- the pattern does not match from this byte on, so that the star may as well take it
    exact (ih (tells_advance _ _)).trans (matches_star_cons_iff htells).symm

/-- The scan finds exactly the matches. -/
theorem covers_iff_matches (pattern text : Bytes) :
    covers pattern text = true ↔ Matches pattern text := by
  have htells := tells_advance pattern text
  unfold covers
  cases hadvance : advance pattern text with
  | matched =>
    rw [hadvance] at htells
    exact iff_of_true rfl htells
  | failed =>
    rw [hadvance] at htells
    exact iff_of_false Bool.false_ne_true htells
  | star after there =>
    rw [hadvance] at htells
    exact (matchesFrom_iff after there).trans htells.symm

end Scan

end RingStore.Glob
