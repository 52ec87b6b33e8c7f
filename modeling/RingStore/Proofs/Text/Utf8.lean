import RingStore.Text.Utf8

/-!
# Reading text back

Reading the bytes of a text as text gives the text itself, without any replacement character. The
proof goes character by character: the four lengths of a UTF-8 sequence are the four cases in
which `Text.next` finds a character.

## Main results

* `Text.ofBytes_toBytes`: text is read back from its bytes.
* `Text.isValid_of_lt`: bytes below 128 are well-formed.
-/

namespace RingStore.Text

/-- Below 128 a byte is a sequence of its own. -/
theorem next_of_lt {lead : UInt8} (h : lead.toNat < 128) (rest : Bytes) :
    next lead rest = (some (Char.ofNat lead.toNat), rest) := by
  have hlt : lead < 0x80 := UInt8.lt_iff_toNat_lt.2 h
  unfold next
  rw [if_pos hlt]

/-- A byte that continues a sequence, by its payload. -/
def continuation (payload : Nat) : UInt8 :=
  UInt8.ofNat (payload + 128)

theorem toNat_continuation {bits : Nat} (h : bits < 64) :
    (continuation bits).toNat = bits + 128 := by
  rw [continuation, UInt8.toNat_ofNat']
  omega

theorem payload_continuation {bits : Nat} (h : bits < 64) :
    payload (continuation bits) = bits := by
  rw [payload, toNat_continuation h]
  omega

theorem isContinuation_continuation {bits : Nat} (h : bits < 64) :
    isContinuation (continuation bits) = true := by
  have hnat := toNat_continuation h
  simp only [isContinuation, Bool.and_eq_true, decide_eq_true_eq, UInt8.le_iff_toNat_le, hnat]
  exact ⟨by simp, by simp; omega⟩

/-- The second bytes allowed after a lead byte exclude overlong forms, surrogates and numbers above
U+10FFFF. -/
theorem secondBounds?_eq {lead : UInt8} {bits : Nat} (hbits : bits < 64)
    (hlow : 0xC2 ≤ lead.toNat) (hhigh : lead.toNat < 0xF5)
    (hE0 : lead.toNat = 0xE0 → 0x20 ≤ bits) (hED : lead.toNat = 0xED → bits < 0x20)
    (hF0 : lead.toNat = 0xF0 → 0x10 ≤ bits) (hF4 : lead.toNat = 0xF4 → bits < 0x10) :
    ∃ low high, secondBounds? lead = some (low, high) ∧
      (low ≤ continuation bits && continuation bits ≤ high) = true := by
  have hnat := toNat_continuation hbits
  unfold secondBounds?
  simp only [UInt8.lt_iff_toNat_lt, ← UInt8.toNat_inj]
  repeat' split
  all_goals
    first
    | refine ⟨_, _, rfl, ?_⟩
      simp only [Bool.and_eq_true, decide_eq_true_eq, UInt8.le_iff_toNat_le, hnat]
      simp at *
      omega
    | simp at *
      omega

theorem not_lt_0x80 {lead : UInt8} (h : 0xC2 ≤ lead.toNat) : ¬lead < 0x80 := by
  rw [UInt8.lt_iff_toNat_lt]
  exact Nat.not_lt.2 (Nat.le_trans (by decide) h)

/-- A sequence of two bytes. -/
theorem next_two {lead : UInt8} {second : Nat} (hsecond : second < 64)
    (hlow : 0xC2 ≤ lead.toNat) (hhigh : lead.toNat < 0xE0) (rest : Bytes) :
    next lead (continuation second :: rest) =
      (some (Char.ofNat (lead.toNat % 32 * 64 + second)), rest) := by
  obtain ⟨low, high, hbounds, hin⟩ := secondBounds?_eq hsecond hlow (by omega)
    (by omega) (by omega) (by omega) (by omega)
  have hlead : lead < 0xE0 := UInt8.lt_iff_toNat_lt.2 hhigh
  simp only [next, not_lt_0x80 hlow, if_false, hbounds, hin, if_true, hlead,
    payload_continuation hsecond]

/-- A sequence of three bytes. -/
theorem next_three {lead : UInt8} {second third : Nat} (hsecond : second < 64) (hthird : third < 64)
    (hlow : 0xE0 ≤ lead.toNat) (hhigh : lead.toNat < 0xF0)
    (hE0 : lead.toNat = 0xE0 → 0x20 ≤ second) (hED : lead.toNat = 0xED → second < 0x20)
    (rest : Bytes) :
    next lead (continuation second :: continuation third :: rest) =
      (some (Char.ofNat (lead.toNat % 16 * 4096 + second * 64 + third)), rest) := by
  obtain ⟨low, high, hbounds, hin⟩ := secondBounds?_eq hsecond (by omega) (by omega) hE0 hED
    (by omega) (by omega)
  have hnot : ¬lead < 0xE0 := by
    rw [UInt8.lt_iff_toNat_lt]
    exact Nat.not_lt.2 hlow
  have hlead : lead < 0xF0 := UInt8.lt_iff_toNat_lt.2 hhigh
  simp only [next, not_lt_0x80 (Nat.le_trans (by decide) hlow), if_false, hbounds, hin, if_true,
    hnot, hlead, isContinuation_continuation hthird, payload_continuation hsecond,
    payload_continuation hthird]

/-- A sequence of four bytes. -/
theorem next_four {lead : UInt8} {second third fourth : Nat} (hsecond : second < 64)
    (hthird : third < 64) (hfourth : fourth < 64) (hlow : 0xF0 ≤ lead.toNat)
    (hhigh : lead.toNat < 0xF5) (hF0 : lead.toNat = 0xF0 → 0x10 ≤ second)
    (hF4 : lead.toNat = 0xF4 → second < 0x10) (rest : Bytes) :
    next lead (continuation second :: continuation third :: continuation fourth :: rest) =
      (some (Char.ofNat (lead.toNat % 8 * 262144 + second * 4096 + third * 64 + fourth)),
        rest) := by
  obtain ⟨low, high, hbounds, hin⟩ := secondBounds?_eq hsecond (by omega) hhigh
    (by omega) (by omega) hF0 hF4
  have hnotE0 : ¬lead < 0xE0 := by
    rw [UInt8.lt_iff_toNat_lt]
    exact Nat.not_lt.2 (Nat.le_trans (by decide) hlow)
  have hnotF0 : ¬lead < 0xF0 := by
    rw [UInt8.lt_iff_toNat_lt]
    exact Nat.not_lt.2 hlow
  simp only [next, not_lt_0x80 (Nat.le_trans (by decide) hlow), if_false, hbounds, hin, if_true,
    hnotE0, hnotF0, isContinuation_continuation hthird, isContinuation_continuation hfourth,
    payload_continuation hsecond, payload_continuation hthird, payload_continuation hfourth]

/-- The sequence of a character is read as that character. -/
theorem next_utf8EncodeChar (char : Char) (rest : Bytes) :
    ∃ lead tail, String.utf8EncodeChar char = lead :: tail ∧
      next lead (tail ++ rest) = (some char, rest) := by
  have hvalid : char.toNat < 0xD800 ∨ 0xDFFF < char.toNat ∧ char.toNat < 0x110000 := char.valid
  have hchar : ∀ code, code = char.toNat → Char.ofNat code = char := by
    rintro _ rfl
    exact Char.ofNat_toNat char
  have hencode : String.utf8EncodeChar char =
      if char.toNat ≤ 0x7F then [UInt8.ofNat char.toNat]
      else if char.toNat ≤ 0x7FF then
        [UInt8.ofNat (char.toNat / 64 % 32 + 192), continuation (char.toNat % 64)]
      else if char.toNat ≤ 0xFFFF then
        [UInt8.ofNat (char.toNat / 4096 % 16 + 224), continuation (char.toNat / 64 % 64),
          continuation (char.toNat % 64)]
      else
        [UInt8.ofNat (char.toNat / 262144 % 8 + 240), continuation (char.toNat / 4096 % 64),
          continuation (char.toNat / 64 % 64), continuation (char.toNat % 64)] := rfl
  rw [hencode]
  generalize hcode : char.toNat = code at *
  -- one case for each length of a sequence; that the bytes make up the code is arithmetic
  split
  · refine ⟨_, _, rfl, ?_⟩
    have hlead : (UInt8.ofNat code).toNat = code := by rw [UInt8.toNat_ofNat']; omega
    rw [List.nil_append, next_of_lt (by omega), hchar _ hlead]
  split
  · refine ⟨_, _, rfl, ?_⟩
    have hlead : (UInt8.ofNat (code / 64 % 32 + 192)).toNat = code / 64 % 32 + 192 := by
      rw [UInt8.toNat_ofNat']; omega
    rw [List.cons_append, List.nil_append, next_two (by omega) (by omega) (by omega),
      hchar _ (by omega)]
  split
  · refine ⟨_, _, rfl, ?_⟩
    have hlead : (UInt8.ofNat (code / 4096 % 16 + 224)).toNat = code / 4096 % 16 + 224 := by
      rw [UInt8.toNat_ofNat']; omega
    rw [List.cons_append, List.cons_append, List.nil_append, next_three (by omega) (by omega)
      (by omega) (by omega) (by omega) (by omega), hchar _ (by omega)]
  · refine ⟨_, _, rfl, ?_⟩
    have hlead : (UInt8.ofNat (code / 262144 % 8 + 240)).toNat = code / 262144 % 8 + 240 := by
      rw [UInt8.toNat_ofNat']; omega
    rw [List.cons_append, List.cons_append, List.cons_append, List.nil_append,
      next_four (by omega) (by omega) (by omega) (by omega) (by omega) (by omega) (by omega),
      hchar _ (by omega)]

/-- The characters found in the bytes of characters are those characters. -/
theorem scanOnto_utf8EncodeChar (read : List (Option Char)) (chars : List Char) :
    scanOnto read (chars.flatMap String.utf8EncodeChar) = read.reverse ++ chars.map some := by
  induction chars generalizing read with
  | nil => simp [scanOnto]
  | cons char rest ih =>
    obtain ⟨lead, tail, hencode, hnext⟩ :=
      next_utf8EncodeChar char (rest.flatMap String.utf8EncodeChar)
    rw [List.flatMap_cons, hencode, List.cons_append, scanOnto, hnext, ih]
    simp

theorem scan_toBytes (text : String) : scan (toBytes text) = text.toList.map some :=
  scanOnto_utf8EncodeChar [] text.toList

/-- Text is read back from its bytes. -/
@[simp]
theorem ofBytes_toBytes (text : String) : ofBytes (toBytes text) = text := by
  rw [ofBytes, scan_toBytes, List.map_map]
  have hid : (fun char : Option Char => char.getD '\uFFFD') ∘ some = id := rfl
  rw [hid, List.map_id, String.ofList_toList]

/-- Bytes below 128 are characters of their own. -/
theorem scanOnto_of_lt (read : List (Option Char)) {bytes : Bytes}
    (h : ∀ byte ∈ bytes, byte.toNat < 128) :
    scanOnto read bytes = read.reverse ++ bytes.map fun byte => some (Char.ofNat byte.toNat) := by
  induction bytes generalizing read with
  | nil => simp [scanOnto]
  | cons byte rest ih =>
    obtain ⟨hbyte, hrest⟩ := List.forall_mem_cons.1 h
    rw [scanOnto, next_of_lt hbyte, ih _ hrest]
    simp

/-- Bytes below 128 are well-formed. -/
theorem isValid_of_lt {bytes : Bytes} (h : ∀ byte ∈ bytes, byte.toNat < 128) :
    isValid bytes = true := by
  rw [isValid, scan, scanOnto_of_lt [] h]
  simp

end RingStore.Text
