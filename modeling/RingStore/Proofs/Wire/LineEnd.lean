import RingStore.Wire.Value
import RingStore.Proofs.Text.Utf8

/-!
# Ends of lines in text

Reading bytes as text neither hides the end of a line nor makes one up: the two characters stand in
the text exactly where the two bytes stand in the bytes, even if the bytes are no valid UTF-8. The
reason is that only bytes from 128 on take part in a sequence of several bytes.

## Main results

* `Text.lineEnd_infix_iff`: the end of a line in bytes and in the characters read off them.
* `Text.lineEnd_infix_toBytes`: the end of a line in a text.
* `Text.lineEnd_infix_toBytes_ofBytes`: reading bytes as text keeps ends of lines.
-/

namespace RingStore

section Pairs

variable {α : Type} {first second : α}

/-- A pair stands nowhere in items among which its first one is missing. -/
theorem pair_infix_append_right {front : List α} (h : first ∉ front) (back : List α) :
    [first, second] <:+: front ++ back ↔ [first, second] <:+: back := by
  induction front with
  | nil => rfl
  | cons item more ih =>
    rw [List.cons_append, List.infix_cons_iff, ih fun hin => h (List.mem_cons_of_mem _ hin)]
    refine or_iff_right ?_
    rintro ⟨others, hothers⟩
    obtain ⟨rfl, -⟩ := List.cons_eq_cons.1 hothers
    exact h List.mem_cons_self

/-- Nor does it stand in items among which its second one is missing. -/
theorem pair_infix_append_left {back : List α} (h : second ∉ back) (front : List α) :
    [first, second] <:+: front ++ back ↔ [first, second] <:+: front := by
  rw [← List.reverse_infix, ← @List.reverse_infix _ _ front, List.reverse_append]
  exact pair_infix_append_right (fun hin => h (List.mem_reverse.1 hin)) _

end Pairs

namespace Text

/-- The characters that end a line, as they are read off bytes. -/
def lineEndChars : List (Option Char) :=
  [some '\r', some '\n']

theorem scanOnto_eq (read : List (Option Char)) (bytes : Bytes) :
    scanOnto read bytes = read.reverse ++ scan bytes := by
  induction hlength : bytes.length using Nat.strongRecOn generalizing read bytes with
  | _ length ih =>
    cases bytes with
    | nil => simp [scan, scanOnto]
    | cons lead rest =>
      have hlt : (next lead rest).2.length < length := by
        have := length_next_le lead rest
        rw [← hlength, List.length_cons]
        omega
      rw [scan, scanOnto, scanOnto, ih _ hlt _ _ rfl, ih _ hlt [_] _ rfl]
      simp

theorem scan_cons (lead : UInt8) (rest : Bytes) :
    scan (lead :: rest) = (next lead rest).1 :: scan (next lead rest).2 := by
  rw [scan, scanOnto, scanOnto_eq]
  rfl

/-- Where a character of a number other than zero is found, the number is that of the character. -/
theorem eq_toNat_of_ofNat {number : Nat} {char : Char} (h : Char.ofNat number = char)
    (hpos : 0 < char.toNat) : number = char.toNat := by
  subst h
  by_cases hvalid : number.isValidChar
  · rw [Char.ofNat, dif_pos hvalid]
    rfl
  · rw [Char.ofNat, dif_neg hvalid] at hpos
    cases hpos

/-- What a lead byte tells of the byte that may stand second. -/
theorem le_of_secondBounds? {lead low high : UInt8} (h : secondBounds? lead = some (low, high)) :
    0xC2 ≤ lead.toNat ∧ lead.toNat < 0xF5 ∧ 0x80 ≤ low.toNat ∧ high.toNat < 0xC0 ∧
      (lead.toNat = 0xE0 → 0xA0 ≤ low.toNat) ∧ (lead.toNat = 0xF0 → 0x90 ≤ low.toNat) := by
  unfold secondBounds? at h
  simp only [UInt8.lt_iff_toNat_lt, ← UInt8.toNat_inj] at h
  repeat' split at h
  all_goals
    cases h
    try simp at *
    try omega

/-- Only bytes from 128 on are taken off, and no character from 1 to 127 is found. -/
structure FoundBeyond (rest : Bytes) (found : Option Char × Bytes) : Prop where
  /-- What is taken off. -/
  taken : ∃ taken, rest = taken ++ found.2 ∧ ∀ byte ∈ taken, 128 ≤ byte.toNat
  /-- What is found. -/
  char : ∀ char, found.1 = some char → 0 < char.toNat → 128 ≤ char.toNat

theorem FoundBeyond.invalid (taken : Bytes) (h : ∀ byte ∈ taken, 128 ≤ byte.toNat) (rest : Bytes) :
    FoundBeyond (taken ++ rest) (none, rest) where
  taken := ⟨taken, rfl, h⟩
  char := by simp

theorem FoundBeyond.valid (taken : Bytes) (h : ∀ byte ∈ taken, 128 ≤ byte.toNat) {number : Nat}
    (hnumber : 128 ≤ number) (rest : Bytes) :
    FoundBeyond (taken ++ rest) (some (Char.ofNat number), rest) where
  taken := ⟨taken, rfl, h⟩
  char := by
    intro char hchar hpos
    have heq := eq_toNat_of_ofNat (Option.some.inj hchar) hpos
    exact heq ▸ hnumber

/-- A byte from 128 on starts a sequence of such bytes. -/
theorem foundBeyond_next {lead : UInt8} (h : 128 ≤ lead.toNat) (rest : Bytes) :
    FoundBeyond rest (next lead rest) := by
  have hnot : ¬lead < 0x80 := fun hlt => absurd (UInt8.lt_iff_toNat_lt.1 hlt) (Nat.not_lt.2 h)
  have hnothing : FoundBeyond rest (none, rest) := .invalid [] (by simp) rest
  have hcontinues : ∀ byte, isContinuation byte = true → 128 ≤ byte.toNat := by
    intro byte hbyte
    simp only [isContinuation, Bool.and_eq_true, decide_eq_true_eq, UInt8.le_iff_toNat_le] at hbyte
    exact hbyte.1
  -- a sequence may break off after each of its bytes, and what is taken off is what has
  -- continued it
  unfold next
  rw [if_neg hnot]
  split
  · next low high second rest₁ hbounds =>
    -- the bounds of the second byte exclude longer forms of the characters below 128
    obtain ⟨hlead, hlead', hlow, hhigh, hE0, hF0⟩ := le_of_secondBounds? hbounds
    split
    · next hin =>
      have hsecond : low.toNat ≤ second.toNat ∧ second.toNat ≤ high.toNat := by
        simpa only [Bool.and_eq_true, decide_eq_true_eq, UInt8.le_iff_toNat_le] using hin
      have htwoBound : (0xE0 : UInt8).toNat = 224 := rfl
      have hthreeBound : (0xF0 : UInt8).toNat = 240 := rfl
      simp only [UInt8.lt_iff_toNat_lt, htwoBound, hthreeBound]
      split
      · next htwo =>
        refine .valid [second] (by simp; omega) ?_ rest₁
        omega
      · split
        · next third rest₂ =>
          split
          · next hthird =>
            have hthird := hcontinues third hthird
            split
            · next htwo hthree =>
              refine .valid [second, third] (by simp; omega) ?_ rest₂
              simp only [payload]
              omega
            · split
              · next fourth rest₃ =>
                split
                · next hfourth =>
                  have hfourth := hcontinues fourth hfourth
                  refine .valid [second, third, fourth] (by simp; omega) ?_ rest₃
                  simp only [payload]
                  omega
                · exact .invalid [second, third] (by simp; omega) _
              · exact .invalid [second, third] (by simp; omega) []
          · exact .invalid [second] (by simp; omega) _
        · exact .invalid [second] (by simp; omega) []
    · exact hnothing
  · exact hnothing

/-- A character from 1 to 127 is found in its own byte only. -/
theorem next_eq_of_low {lead : UInt8} {rest : Bytes} {char : Char} (hpos : 0 < char.toNat)
    (hlow : char.toNat < 128) (h : (next lead rest).1 = some char) :
    lead.toNat = char.toNat ∧ (next lead rest).2 = rest := by
  have hlead : lead.toNat < 128 := by
    refine Nat.lt_of_not_le fun hge => ?_
    have := (foundBeyond_next hge rest).char char h hpos
    omega
  rw [next_of_lt hlead] at h ⊢
  exact ⟨eq_toNat_of_ofNat (Option.some.inj h) hpos, rfl⟩

/-- Bytes that start with the end of a line are read as characters that do, and no others are. -/
theorem lineEnd_prefix_iff {bytes : Bytes} : lineEnd <+: bytes ↔ lineEndChars <+: scan bytes := by
  constructor
  · rintro ⟨rest, rfl⟩
    refine ⟨scan rest, ?_⟩
    have hreturn : next 13 (10 :: rest) = (some '\r', 10 :: rest) := next_of_lt (by decide) _
    have hfeed : next 10 rest = (some '\n', rest) := next_of_lt (by decide) _
    rw [lineEnd, List.cons_append, List.cons_append, List.nil_append, scan_cons, hreturn, scan_cons,
      hfeed]
    rfl
  · rintro ⟨chars, hchars⟩
    cases bytes with
    | nil =>
      rw [scan, scanOnto] at hchars
      cases hchars
    | cons first rest =>
      rw [scan_cons] at hchars
      -- either character is so low that nothing but its own byte is read as it
      obtain ⟨hfirst, hmore⟩ := List.cons_eq_cons.1 hchars
      obtain ⟨hreturn, hrest⟩ := next_eq_of_low (by decide) (by decide) hfirst.symm
      rw [hrest] at hmore
      cases rest with
      | nil =>
        rw [scan, scanOnto] at hmore
        cases hmore
      | cons second others =>
        rw [scan_cons] at hmore
        obtain ⟨hsecond, -⟩ := List.cons_eq_cons.1 hmore
        obtain ⟨hfeed, -⟩ := next_eq_of_low (by decide) (by decide) hsecond.symm
        obtain rfl : first = 13 := UInt8.toNat_inj.1 hreturn
        obtain rfl : second = 10 := UInt8.toNat_inj.1 hfeed
        exact ⟨others, rfl⟩

/-- The end of a line stands in bytes exactly if it stands among the characters read off them. -/
theorem lineEnd_infix_iff {bytes : Bytes} : lineEnd <:+: bytes ↔ lineEndChars <:+: scan bytes := by
  induction hlength : bytes.length using Nat.strongRecOn generalizing bytes with
  | _ length ih =>
    cases bytes with
    | nil => simp [lineEnd, lineEndChars, scan, scanOnto]
    | cons lead rest =>
      have hlt : (next lead rest).2.length < length := by
        have := length_next_le lead rest
        rw [← hlength, List.length_cons]
        omega
      have hrest : lineEnd <:+: rest ↔ lineEnd <:+: (next lead rest).2 := by
        by_cases hlead : lead.toNat < 128
        · rw [next_of_lt hlead]
        · obtain ⟨taken, heq, htaken⟩ := (foundBeyond_next (Nat.le_of_not_lt hlead) rest).taken
          conv => lhs; rw [heq]
          exact pair_infix_append_right (fun hreturn => absurd (htaken 13 hreturn) (by decide)) _
      rw [List.infix_cons_iff, lineEnd_prefix_iff, hrest, ih _ hlt rfl, scan_cons,
        List.infix_cons_iff]

/-- The end of a line stands in the bytes of a text exactly if it stands in the text. -/
theorem lineEnd_infix_toBytes {text : String} :
    lineEnd <:+: toBytes text ↔ ['\r', '\n'] <:+: text.toList := by
  rw [lineEnd_infix_iff, scan_toBytes, List.infix_map_iff]
  constructor
  · rintro ⟨chars, hin, hchars⟩
    match chars with
    | [] | [_] | _ :: _ :: _ :: _ => cases hchars
    | [_, _] =>
      cases hchars
      exact hin
  · exact fun h => ⟨_, h, rfl⟩

/-- A text without a line feed holds no end of a line. -/
theorem not_lineEnd_of_not_mem {text : String} (h : '\n' ∉ text.toList) :
    ¬lineEnd <:+: toBytes text := by
  rw [lineEnd_infix_toBytes]
  exact fun hin => h (hin.subset (by simp))

/-- Reading bytes as text keeps ends of lines and adds none. -/
theorem lineEnd_infix_toBytes_ofBytes {bytes : Bytes} :
    lineEnd <:+: toBytes (ofBytes bytes) ↔ lineEnd <:+: bytes := by
  rw [lineEnd_infix_toBytes, lineEnd_infix_iff, ofBytes, String.toList_ofList, List.infix_map_iff]
  have hkept : ∀ {found : Option Char} {char : Char}, char ≠ '\uFFFD' →
      char = found.getD '\uFFFD' → found = some char := by
    intro found char hchar heq
    cases found with
    | none => exact absurd heq hchar
    | some other => exact congrArg some heq.symm
  constructor
  · rintro ⟨chars, hin, hchars⟩
    obtain ⟨first, more, rfl, hfirst, hmore⟩ := List.map_eq_cons_iff.1 hchars.symm
    obtain ⟨second, rest, rfl, hsecond, hrest⟩ := List.map_eq_cons_iff.1 hmore
    rw [List.map_eq_nil_iff.1 hrest, hkept (by decide) hfirst.symm,
      hkept (by decide) hsecond.symm] at hin
    exact hin
  · exact fun h => ⟨_, h, rfl⟩

/-- The end of a line stands in a text between two parts that do not hold its characters exactly if
it stands in the text between them. -/
theorem lineEnd_infix_toBytes_between {front back : String} (text : String)
    (hfront : '\r' ∉ front.toList) (hback : '\n' ∉ back.toList) :
    lineEnd <:+: toBytes (front ++ text ++ back) ↔ lineEnd <:+: toBytes text := by
  rw [lineEnd_infix_toBytes, lineEnd_infix_toBytes, String.toList_append, String.toList_append,
    pair_infix_append_left hback, pair_infix_append_right hfront]

end Text

end RingStore
