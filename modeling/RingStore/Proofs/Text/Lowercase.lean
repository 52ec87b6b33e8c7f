import RingStore.Text.Lowercase
import RingStore.Proofs.Wire.LineEnd

/-!
# What small letters leave alone

Putting a text in small letters leaves every character below the letters of ASCII where it is and
makes no other character one of these. So a name in small letters holds the end of a line exactly if
the name does. A text in ASCII goes to the small letters of ASCII.

## Main results

* `Text.lineEnd_infix_toBytes_lowercase`: ends of lines in small letters.
* `Text.lowercase_ascii`: small letters of ASCII.
-/

namespace RingStore.Text

/-- A character below the letters of ASCII, other than the one of number zero. -/
def IsLow (char : Char) : Prop :=
  0 < char.toNat ∧ char.toNat < 65

instance (char : Char) : Decidable (IsLow char) :=
  inferInstanceAs (Decidable (_ ∧ _))

/-- Capital letters and their small letters are not below the letters of ASCII. -/
theorem le_of_mem_smallRuns : ∀ run ∈ smallRuns, 65 ≤ run.first ∧ 97 ≤ run.first + run.shift := by
  decide +kernel

theorem smallForm_of_isLow {char : Char} (h : IsLow char) : smallForm char = [char] := by
  have hdot : char ≠ '\u0130' := by
    rintro rfl
    exact absurd h.2 (by decide)
  rw [smallForm, if_neg hdot]
  split
  · next run hrun =>
    have hin : run.contains char.toNat = true :=
      List.find?_some (p := fun run => CaseRun.contains run char.toNat) hrun
    have hfirst := (le_of_mem_smallRuns run (List.mem_of_find?_eq_some hrun)).1
    simp only [CaseRun.contains, Bool.and_eq_true, decide_eq_true_eq] at hin
    have hlow := h.2
    omega
  · rfl

/-- A character below the letters is the small form of itself only. -/
theorem eq_of_mem_smallForm {char small : Char} (h : IsLow small) (hmem : small ∈ smallForm char) :
    small = char := by
  rw [smallForm] at hmem
  split at hmem
  · rcases List.mem_cons.1 hmem with rfl | hmem
    · exact absurd h.2 (by decide)
    · obtain rfl := List.mem_singleton.1 hmem
      exact absurd h.2 (by decide)
  · split at hmem
    · next run hrun =>
      have hin : run.contains char.toNat = true :=
        List.find?_some (p := fun run => CaseRun.contains run char.toNat) hrun
      have hshift := (le_of_mem_smallRuns run (List.mem_of_find?_eq_some hrun)).2
      simp only [CaseRun.contains, Bool.and_eq_true, decide_eq_true_eq] at hin
      have hnumber := eq_toNat_of_ofNat (List.mem_singleton.1 hmem).symm h.1
      have hlow := h.2
      omega
    · exact List.mem_singleton.1 hmem

/-- Wherever it stands, a character below the letters stays, and no other one becomes it. -/
theorem smallFormIn_of_isLow {char : Char} (h : IsLow char) (before after : List Char) :
    smallFormIn before char after = [char] := by
  have hsigma : char ≠ 'Σ' := by
    rintro rfl
    exact absurd h.2 (by decide)
  rw [smallFormIn, if_neg hsigma, smallForm_of_isLow h]

theorem eq_of_mem_smallFormIn {before after : List Char} {char small : Char} (h : IsLow small)
    (hmem : small ∈ smallFormIn before char after) : small = char := by
  rw [smallFormIn] at hmem
  split at hmem
  · obtain rfl := List.mem_singleton.1 hmem
    revert h
    split <;> exact fun h => absurd h.2 (by decide)
  · exact eq_of_mem_smallForm h hmem

theorem smallFormIn_ne_nil (before : List Char) (char : Char) (after : List Char) :
    smallFormIn before char after ≠ [] := by
  rw [smallFormIn]
  split
  · exact List.cons_ne_nil _ _
  · rw [smallForm]
    split
    · exact List.cons_ne_nil _ _
    · split <;> exact List.cons_ne_nil _ _

/-- Small letters start with a character below the letters exactly if the text does. -/
theorem head?_lowercaseAfter {char : Char} (h : IsLow char) (before chars : List Char) :
    (lowercaseAfter before chars).head? = some char ↔ chars.head? = some char := by
  cases chars with
  | nil => rfl
  | cons first after =>
    obtain ⟨small, more, hform⟩ :=
      List.exists_cons_of_ne_nil (smallFormIn_ne_nil before first after)
    rw [lowercaseAfter, hform, List.cons_append, List.head?_cons, List.head?_cons,
      Option.some.injEq, Option.some.injEq]
    constructor
    · rintro rfl
      exact (eq_of_mem_smallFormIn h (hform ▸ List.mem_cons_self)).symm
    · rintro rfl
      rw [smallFormIn_of_isLow h] at hform
      exact (List.cons_eq_cons.1 hform).1.symm

/-- Two characters below the letters stand side by side in small letters exactly if they do in the
text. -/
theorem pair_infix_lowercaseAfter {first second : Char} (hfirst : IsLow first)
    (hsecond : IsLow second) (before chars : List Char) :
    [first, second] <:+: lowercaseAfter before chars ↔ [first, second] <:+: chars := by
  induction chars generalizing before with
  | nil => rfl
  | cons char after ih =>
    rw [lowercaseAfter]
    by_cases hsame : char = first
    · subst hsame
      have hhead : ∀ others : List Char, [char, second] <+: char :: others ↔
          others.head? = some second := by
        intro others
        cases others with
        | nil => simp
        | cons other more => simp [List.cons_prefix_cons, eq_comm]
      rw [smallFormIn_of_isLow hfirst, List.singleton_append, List.infix_cons_iff,
        List.infix_cons_iff, hhead, hhead, head?_lowercaseAfter hsecond, ih]
    · have hother : first ∉ smallFormIn before char after := fun hmem =>
        hsame (eq_of_mem_smallFormIn hfirst hmem).symm
      have hsingle : first ∉ [char] := fun hmem => hsame (List.mem_singleton.1 hmem).symm
      rw [pair_infix_append_right hother, ih]
      exact (pair_infix_append_right hsingle after).symm

/-- A text in small letters holds the end of a line exactly if the text does. -/
theorem lineEnd_infix_toBytes_lowercase {text : String} :
    lineEnd <:+: toBytes (lowercase text) ↔ lineEnd <:+: toBytes text := by
  rw [lineEnd_infix_toBytes, lineEnd_infix_toBytes, lowercase, String.toList_ofList]
  exact pair_infix_lowercaseAfter (by decide) (by decide) [] text.toList

/-- Of the runs of capital letters only the first one is in ASCII. -/
theorem find?_smallRuns {number : Nat} (h : number < 128) :
    smallRuns.find? (·.contains number) =
      if 65 ≤ number ∧ number ≤ 90 then some ⟨65, 90, 1, 32⟩ else none := by
  have hruns : smallRuns = ⟨65, 90, 1, 32⟩ :: smallRuns.tail := rfl
  have hbeyond : ∀ run ∈ smallRuns.tail, 128 ≤ run.first := by decide +kernel
  have htail : smallRuns.tail.find? (·.contains number) = none := by
    refine List.find?_eq_none.2 fun run hrun hin => ?_
    have hfirst := hbeyond run hrun
    simp only [CaseRun.contains, Bool.and_eq_true, decide_eq_true_eq] at hin
    omega
  rw [hruns, List.find?_cons, htail]
  by_cases hletter : 65 ≤ number ∧ number ≤ 90
  · simp [CaseRun.contains, hletter, Nat.mod_one]
  · rw [if_neg hletter]
    split
    · next hin =>
      simp only [CaseRun.contains, Bool.and_eq_true, decide_eq_true_eq] at hin
      exact absurd hin.1 hletter
    · rfl

/-- The small form of a character of ASCII is that of ASCII. -/
theorem smallForm_ascii {byte : UInt8} (h : byte.toNat < 128) :
    smallForm (Char.ofNat byte.toNat) = [Char.ofNat (Bytes.toAsciiLower byte).toNat] := by
  have htoNat : ∀ number < 128, (Char.ofNat number).toNat = number := by decide +kernel
  have hdot : Char.ofNat byte.toNat ≠ '\u0130' := by
    intro heq
    have hnumber := htoNat byte.toNat h
    rw [heq] at hnumber
    have hlarge : '\u0130'.toNat = 304 := rfl
    omega
  rw [smallForm, if_neg hdot, htoNat _ h, find?_smallRuns h, Bytes.toAsciiLower]
  by_cases hletter : 65 ≤ byte ∧ byte ≤ 90
  · have hhigh : byte.toNat ≤ 90 := hletter.2
    have hsum : (byte + 32).toNat = byte.toNat + 32 := by
      rw [UInt8.toNat_add]
      exact Nat.mod_eq_of_lt (by show byte.toNat + 32 < 256; omega)
    rw [if_pos hletter, if_pos ⟨hletter.1, hletter.2⟩, hsum]
    rfl
  · rw [if_neg hletter, if_neg fun hin => hletter ⟨hin.1, hin.2⟩]

theorem lowercaseAfter_ascii {bytes : Bytes} (h : ∀ byte ∈ bytes, byte.toNat < 128)
    (before : List Char) :
    lowercaseAfter before (bytes.map fun byte => Char.ofNat byte.toNat) =
      (bytes.map Bytes.toAsciiLower).map fun byte => Char.ofNat byte.toNat := by
  induction bytes generalizing before with
  | nil => rfl
  | cons byte rest ih =>
    obtain ⟨hbyte, hrest⟩ := List.forall_mem_cons.1 h
    have hsigma : Char.ofNat byte.toNat ≠ 'Σ' := by
      have hall : ∀ number < 128, Char.ofNat number ≠ 'Σ' := by decide +kernel
      exact hall _ hbyte
    simp only [List.map_cons, lowercaseAfter, smallFormIn, if_neg hsigma, smallForm_ascii hbyte,
      ih hrest]
    rfl

/-- A name in ASCII has the small letters that ASCII gives it. -/
theorem lowercase_ascii {name : Bytes} (h : ∀ byte ∈ name, byte.toNat < 128) :
    lowercase (ofBytes name) =
      String.ofList ((name.map Bytes.toAsciiLower).map fun byte => Char.ofNat byte.toNat) := by
  have hchars : (ofBytes name).toList = name.map fun byte => Char.ofNat byte.toNat := by
    rw [ofBytes, String.toList_ofList, scan, scanOnto_of_lt [] h, List.reverse_nil, List.nil_append,
      List.map_map]
    rfl
  rw [lowercase, hchars, lowercaseAfter_ascii h]

theorem lt_of_toAsciiLower_lt {byte : UInt8} (h : (Bytes.toAsciiLower byte).toNat < 128) :
    byte.toNat < 128 := by
  unfold Bytes.toAsciiLower at h
  split at h
  · next hletter =>
    have hhigh : byte.toNat ≤ 90 := hletter.2
    omega
  · exact h

end RingStore.Text
