import RingStore.Proofs.Text.Lowercase

/-!
# Small letters of small letters

A text in small letters is its own small form. What a character becomes is never a capital letter
again, and never the capital sigma, which is the one character whose small form depends on where it
stands. So the second time nothing is left to be changed, although the first time one character may
have become two, and a sigma may have become either of its small letters.

## Main definitions

* `CaseRun.misses`: the small letters of one run are no capital letters of another one.
* `Text.IsSmall`: a character that is left alone wherever it stands.

## Main results

* `Text.isSmall_of_mem_smallFormIn`: small forms consist of such characters.
* `Text.lowercase_lowercase`: small letters of small letters.
-/

namespace RingStore.Text

namespace CaseRun

/-- The code point of the small letter that belongs to a code point of the run. -/
def small (run : CaseRun) (code : Nat) : Nat :=
  (code + run.shift).toNat

/-- The small letters of a run are no capital letters of another one: all of them lie before, or
all of them behind, or both runs go by twos and keep to different parities. -/
def misses (run other : CaseRun) : Bool :=
  Nat.blt (run.small run.last) other.first || Nat.blt other.last (run.small run.first) ||
    ((run.stride % 2 == 0 || run.first == run.last) && other.stride % 2 == 0 &&
      (run.small run.first + other.first) % 2 == 1)

section Contains

variable {run other : CaseRun} {code : Nat}

theorem contains_iff : run.contains code = true ↔
    (run.first ≤ code ∧ code ≤ run.last) ∧ run.stride ∣ code - run.first := by
  simp only [contains, Bool.and_eq_true, decide_eq_true_eq, beq_iff_eq, Nat.dvd_iff_mod_eq_zero]

/-- Where a run goes by twos, all its code points have the parity of the first one. -/
theorem mod_two_of_contains (hin : run.contains code = true) (hstride : run.stride % 2 = 0) :
    (code - run.first) % 2 = 0 := by
  have htwo : 2 ∣ run.stride := Nat.dvd_of_mod_eq_zero hstride
  exact Nat.mod_eq_zero_of_dvd (Nat.dvd_trans htwo (contains_iff.1 hin).2)

theorem not_contains_small (hshift : 0 ≤ run.first + run.shift)
    (hmisses : run.misses other = true) (hin : run.contains code = true) :
    other.contains (run.small code) = false := by
  rw [Bool.eq_false_iff]
  intro hother
  have hbounds := (contains_iff.1 hin).1
  have hothers := (contains_iff.1 hother).1
  simp only [misses, Bool.or_eq_true, Bool.and_eq_true, Nat.blt_eq, beq_iff_eq] at hmisses
  simp only [small] at hmisses hothers
  rcases hmisses with (hbefore | hbehind) | ⟨⟨htwos, hstride⟩, hparity⟩
  · omega
  · omega
  · -- both code points have the parity of their run, and these differ
    have heven : (code - run.first) % 2 = 0 := by
      rcases htwos with htwos | hsingle
      · exact mod_two_of_contains hin htwos
      · omega
    have hother := mod_two_of_contains hother hstride
    simp only [small] at hother
    omega

end Contains

end CaseRun

/-- No small letter is a capital letter. -/
theorem misses_of_mem_smallRuns : ∀ run ∈ smallRuns, ∀ other ∈ smallRuns,
    run.misses other = true := by
  have hall : (smallRuns.all fun run => smallRuns.all fun other => run.misses other) = true := by
    decide +kernel
  simpa only [List.all_eq_true] using hall

/-- No small letter is the dotted capital letter, which stands in no run. -/
theorem small_ne_of_mem_smallRuns : ∀ run ∈ smallRuns,
    run.small run.last < 0x130 ∨ 0x130 < run.small run.first := by
  decide +kernel

/-- A character that is left alone wherever it stands. -/
structure IsSmall (char : Char) : Prop where
  /-- It is not the character whose small form depends on its place. -/
  ne_sigma : char ≠ 'Σ'
  /-- It is its own small form. -/
  smallForm_eq : smallForm char = [char]

theorem IsSmall.smallFormIn_eq {char : Char} (h : IsSmall char) (before after : List Char) :
    smallFormIn before char after = [char] := by
  rw [smallFormIn, if_neg h.ne_sigma, h.smallForm_eq]

/-- A character of no run is its own small form. -/
theorem isSmall_of_forall_not_contains {char : Char} (hdot : char ≠ '\u0130')
    (hout : ∀ run ∈ smallRuns, run.contains char.toNat = false) : IsSmall char where
  ne_sigma := by
    rintro rfl
    -- the capital sigma is a capital letter like others
    have hin : ∃ run ∈ smallRuns, run.contains 'Σ'.toNat = true := by decide +kernel
    obtain ⟨run, hrun, hin⟩ := hin
    rw [hout run hrun] at hin
    cases hin
  smallForm_eq := by
    have hnone : smallRuns.find? (·.contains char.toNat) = none :=
      List.find?_eq_none.2 fun run hrun => Bool.eq_false_iff.1 (hout run hrun)
    rw [smallForm, if_neg hdot, hnone]

/-- What has a place in a run becomes a character that stands in none. -/
theorem isSmall_small {run : CaseRun} (hrun : run ∈ smallRuns) {code : Nat}
    (hin : run.contains code = true) : IsSmall (Char.ofNat (run.small code)) := by
  have hshift : 0 ≤ (run.first : Int) + run.shift := by
    have hfirst := (le_of_mem_smallRuns run hrun).2
    omega
  by_cases hnull : (Char.ofNat (run.small code)).toNat = 0
  · -- a code point that is no character's is read as the character of number zero
    have hzero : Char.ofNat (run.small code) = '\x00' := Char.toNat_inj.1 hnull
    rw [hzero]
    exact ⟨by decide, by decide +kernel⟩
  · have hnumber : run.small code = (Char.ofNat (run.small code)).toNat :=
      eq_toNat_of_ofNat rfl (Nat.pos_of_ne_zero hnull)
    refine isSmall_of_forall_not_contains ?_ fun other hother => ?_
    · intro hdot
      have hbounds := (CaseRun.contains_iff.1 hin).1
      have hbeyond := small_ne_of_mem_smallRuns run hrun
      have hcode : run.small code = 0x130 := by rw [hnumber, hdot]; rfl
      simp only [CaseRun.small] at hbeyond hcode
      omega
    · rw [← hnumber]
      exact CaseRun.not_contains_small hshift (misses_of_mem_smallRuns run hrun other hother) hin

theorem isSmall_of_mem_smallForm {char small : Char} (hmem : small ∈ smallForm char) :
    IsSmall small := by
  rw [smallForm] at hmem
  split at hmem
  · -- the two characters that the dotted capital letter becomes
    rcases List.mem_cons.1 hmem with rfl | hdot
    · exact ⟨by decide, by decide +kernel⟩
    · obtain rfl := List.mem_singleton.1 hdot
      exact ⟨by decide, by decide +kernel⟩
  · next hdot =>
    split at hmem
    · next run hrun =>
      obtain rfl := List.mem_singleton.1 hmem
      exact isSmall_small (List.mem_of_find?_eq_some hrun)
        (List.find?_some (p := fun run => CaseRun.contains run char.toNat) hrun)
    · next hnone =>
      obtain rfl := List.mem_singleton.1 hmem
      exact isSmall_of_forall_not_contains hdot fun run hrun =>
        Bool.eq_false_iff.2 (List.find?_eq_none.1 hnone run hrun)

/-- The capital sigma becomes one of two small letters, which are left alone as well. -/
theorem isSmall_of_mem_smallFormIn {before after : List Char} {char small : Char}
    (hmem : small ∈ smallFormIn before char after) : IsSmall small := by
  rw [smallFormIn] at hmem
  split at hmem
  · obtain rfl := List.mem_singleton.1 hmem
    split
    · exact ⟨by decide, by decide +kernel⟩
    · exact ⟨by decide, by decide +kernel⟩
  · exact isSmall_of_mem_smallForm hmem

theorem isSmall_of_mem_lowercaseAfter {before chars : List Char} {small : Char}
    (hmem : small ∈ lowercaseAfter before chars) : IsSmall small := by
  induction chars generalizing before with
  | nil => cases hmem
  | cons char after ih =>
    rw [lowercaseAfter] at hmem
    rcases List.mem_append.1 hmem with hfirst | hrest
    · exact isSmall_of_mem_smallFormIn hfirst
    · exact ih hrest

/-- Characters that are left alone are left alone together, whatever stands before them. -/
theorem lowercaseAfter_of_isSmall {chars : List Char} (h : ∀ char ∈ chars, IsSmall char)
    (before : List Char) : lowercaseAfter before chars = chars := by
  induction chars generalizing before with
  | nil => rfl
  | cons char after ih =>
    obtain ⟨hchar, hafter⟩ := List.forall_mem_cons.1 h
    rw [lowercaseAfter, hchar.smallFormIn_eq, ih hafter, List.singleton_append]

/-- A text in small letters is its own small form. -/
theorem lowercase_lowercase (text : String) : lowercase (lowercase text) = lowercase text := by
  have hsmall : lowercaseAfter [] (lowercase text).toList = (lowercase text).toList := by
    apply lowercaseAfter_of_isSmall
    intro char hchar
    rw [lowercase, String.toList_ofList] at hchar
    exact isSmall_of_mem_lowercaseAfter hchar
  calc
    lowercase (lowercase text) = String.ofList (lowercase text).toList :=
      congrArg String.ofList hsmall
    _ = lowercase text := String.ofList_toList

end RingStore.Text
