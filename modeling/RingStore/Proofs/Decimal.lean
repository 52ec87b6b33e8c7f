import RingStore.Decimal
import RingStore.Proofs.Text.Utf8

/-!
# Reading decimal numbers back

The shortest decimal form of a number is read back as that number by every reader whose limit
allows it. It holds digits only, so it is never taken for a number with a sign in front.

## Main results

* `nat?_ofNat`: a natural number up to the limit is read back.
-/

namespace RingStore.Decimal

/-- The decimal form of a number is that of its tenth, if there is one, and its last digit. -/
theorem ofNat_eq (value : Nat) :
    ofNat value =
      (if value < 10 then [] else ofNat (value / 10)) ++ [UInt8.ofNat (value % 10 + 48)] := by
  have hdigit : ∀ digit < 10, (Nat.digitChar digit).toUInt8 = UInt8.ofNat (digit + 48) := by
    decide
  split
  · next h =>
    rw [ofNat, Nat.toDigits_of_lt_base h, List.map_singleton, hdigit value h, Nat.mod_eq_of_lt h]
    rfl
  · next h =>
    rw [ofNat, Nat.toDigits_of_base_le (by decide) (Nat.le_of_not_lt h), List.map_append,
      List.map_singleton, hdigit _ (Nat.mod_lt _ (by decide))]
    rfl

/-- A decimal form holds digits only. -/
theorem mem_ofNat {value : Nat} {byte : UInt8} (h : byte ∈ ofNat value) :
    48 ≤ byte.toNat ∧ byte.toNat ≤ 57 := by
  induction value using Nat.strongRecOn with
  | _ value ih =>
    rw [ofNat_eq, List.mem_append, List.mem_singleton] at h
    rcases h with h | rfl
    · split at h
      · cases h
      · exact ih (value / 10) (by omega) h
    · rw [UInt8.toNat_ofNat']
      omega

theorem ofNat_ne_nil (value : Nat) : ofNat value ≠ [] := by
  rw [ofNat_eq]
  exact List.append_ne_nil_of_right_ne_nil _ (List.cons_ne_nil _ _)

/-- A number of 64 bits has at most twenty digits. -/
theorem length_ofNat_le {value : Nat} (h : value < UInt64.size) : (ofNat value).length ≤ 20 := by
  rw [ofNat, List.length_map]
  exact (Nat.length_toDigits_le_iff (by decide) (by decide)).2 (Nat.lt_trans h (by decide))

/-- A greater number has no fewer digits. -/
theorem length_ofNat_mono {value other : Nat} (h : value ≤ other) :
    (ofNat value).length ≤ (ofNat other).length := by
  rw [ofNat, ofNat, List.length_map, List.length_map]
  have hother : other < 10 ^ (Nat.toDigits 10 other).length :=
    (Nat.length_toDigits_le_iff (by decide) Nat.length_toDigits_pos).1 (Nat.le_refl _)
  exact (Nat.length_toDigits_le_iff (by decide) Nat.length_toDigits_pos).2
    (Nat.lt_of_le_of_lt h hother)

/-- Reading digits goes on from where the first ones lead. -/
theorem extend?_append (limit high : Nat) (front back : Bytes) :
    extend? limit high (front ++ back) =
      (extend? limit high front).bind fun value => extend? limit value back := by
  induction front generalizing high with
  | nil => rfl
  | cons byte rest ih =>
    simp only [List.cons_append, extend?]
    cases digit? byte with
    | none => rfl
    | some digit =>
      simp only [Option.bind_some]
      split
      · exact ih _
      · rfl

theorem extend?_ofNat {limit value : Nat} (h : value ≤ limit) :
    extend? limit 0 (ofNat value) = some value := by
  induction value using Nat.strongRecOn with
  | _ value ih =>
    have hdigit : digit? (UInt8.ofNat (value % 10 + 48)) = some (value % 10) := by
      have hnat : (UInt8.ofNat (value % 10 + 48)).toNat = value % 10 + 48 := by
        rw [UInt8.toNat_ofNat']
        omega
      simp only [digit?, UInt8.le_iff_toNat_le, hnat]
      simp
      omega
    have hfront : extend? limit 0 (if value < 10 then [] else ofNat (value / 10)) =
        some (value / 10) := by
      split
      · next hlt => rw [Nat.div_eq_of_lt hlt]; rfl
      · exact ih (value / 10) (by omega) (by omega)
    rw [ofNat_eq, extend?_append, hfront]
    simp only [Option.bind_some, extend?, hdigit, Nat.div_add_mod, if_pos h]

/-- A natural number up to the limit is read back from its digits. -/
theorem digits?_ofNat {limit value : Nat} (h : value ≤ limit) :
    digits? limit (ofNat value) = some value := by
  have hread := extend?_ofNat h
  match htext : ofNat value with
  | [] => exact absurd htext (ofNat_ne_nil value)
  | _ :: _ => rw [htext] at hread; exact hread

/-- A decimal form starts with no sign. -/
theorem ofNat_ne_cons {value : Nat} {byte : UInt8} {rest : Bytes}
    (hsign : byte.toNat < 48) : ofNat value ≠ byte :: rest := by
  intro h
  have hmem : byte ∈ ofNat value := h ▸ List.mem_cons_self
  exact absurd (mem_ofNat hmem).1 (Nat.not_le.2 hsign)

/-- A natural number up to the limit is read back. -/
theorem nat?_ofNat {limit value : Nat} (h : value ≤ limit) :
    nat? limit (ofNat value) = some value := by
  unfold nat?
  split
  · next htext => exact absurd htext (ofNat_ne_cons (by decide))
  · exact digits?_ofNat h

/-- An unsigned 64-bit number is read back. -/
theorem uint64?_ofNat {value : Nat} (h : value < UInt64.size) :
    uint64? (ofNat value) = some value :=
  nat?_ofNat (Nat.le_sub_one_of_lt h)

end RingStore.Decimal
