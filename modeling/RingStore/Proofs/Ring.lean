import RingStore.Ring

/-!
# Owners on the ring

The points of a ring stand in one order, whatever the order in which the members are listed. Hence
rings of the same members are equal, and members that agree on who they are agree on every owner.

## Main results

* `Ring.ofMembers_eq_of_perm`: the order of members does not matter.
* `Ring.exists_owner`: every key has an owner, and it is a member.
-/

namespace RingStore

namespace RingPoint

theorem le_iff {left right : RingPoint} :
    left.le right = true ↔
      left.position.toNat < right.position.toNat ∨
        left.position.toNat = right.position.toNat ∧ left.member ≤ right.member := by
  rw [le, Bool.or_eq_true, Bool.and_eq_true, decide_eq_true_iff, decide_eq_true_iff, beq_iff_eq,
    UInt32.lt_iff_toNat_lt, ← UInt32.toNat_inj]

theorem le_trans (first second third : RingPoint) (h₁ : first.le second = true)
    (h₂ : second.le third = true) : first.le third = true := by
  rw [le_iff] at h₁ h₂ ⊢
  rcases h₁ with h₁ | ⟨heq₁, h₁⟩
  · left
    omega
  · rcases h₂ with h₂ | ⟨heq₂, h₂⟩
    · left
      omega
    · exact .inr ⟨heq₁.trans heq₂, String.le_trans h₁ h₂⟩

theorem le_total (left right : RingPoint) : (left.le right || right.le left) = true := by
  rw [Bool.or_eq_true, le_iff, le_iff]
  rcases Nat.lt_trichotomy left.position.toNat right.position.toNat with h | h | h
  · exact .inl (.inl h)
  · rcases String.le_total left.member right.member with hmember | hmember
    · exact .inl (.inr ⟨h, hmember⟩)
    · exact .inr (.inr ⟨h.symm, hmember⟩)
  · exact .inr (.inl h)

/-- Points that stand at the same place of the order are the same. -/
theorem le_antisymm {left right : RingPoint} (h₁ : left.le right = true)
    (h₂ : right.le left = true) : left = right := by
  obtain ⟨position, member⟩ := left
  obtain ⟨otherPosition, otherMember⟩ := right
  rw [le_iff] at h₁ h₂
  dsimp only at h₁ h₂
  rcases h₁ with h₁ | ⟨heq, h₁⟩ <;> rcases h₂ with h₂ | ⟨heq', h₂⟩
  · omega
  · omega
  · omega
  · rw [UInt32.toNat_inj.1 heq, String.le_antisymm h₁ h₂]

end RingPoint

namespace Ring

variable {place : Bytes → UInt32} {members others : List String} {replicas : Nat}

/-- The order in which the members are listed does not matter. -/
theorem ofMembers_eq_of_perm (h : members.Perm others) (place : Bytes → UInt32) (replicas : Nat) :
    ofMembers place members replicas = ofMembers place others replicas := by
  have hsorted : ∀ points : List RingPoint,
      (points.mergeSort RingPoint.le).Pairwise fun left right => left.le right = true :=
    List.pairwise_mergeSort RingPoint.le_trans RingPoint.le_total
  have hpoints := h.flatMap_right (pointsOf place replicas)
  unfold ofMembers
  congr 1
  refine List.Perm.eq_of_pairwise (fun left right _ _ => RingPoint.le_antisymm) (hsorted _)
    (hsorted _) ?_
  exact (List.mergeSort_perm _ _).trans (hpoints.trans (List.mergeSort_perm _ _).symm)

theorem mem_of_mem_points {point : RingPoint}
    (h : point ∈ (ofMembers place members replicas).points) : point.member ∈ members := by
  rw [ofMembers, List.mem_mergeSort, List.mem_flatMap] at h
  obtain ⟨member, hmember, hpoint⟩ := h
  obtain ⟨replica, -, rfl⟩ := List.mem_map.1 hpoint
  exact hmember

theorem points_ne_nil (h : members ≠ []) (place : Bytes → UInt32) (replicas : Nat) :
    (ofMembers place members replicas).points ≠ [] := by
  obtain ⟨member, rest, rfl⟩ := List.exists_cons_of_ne_nil h
  have hlength : 0 < (pointsOf place replicas member).length := by
    rw [pointsOf, List.length_map, List.length_range]
    exact Nat.lt_of_lt_of_le Nat.one_pos (Nat.le_max_right ..)
  intro hnil
  have htotal := congrArg List.length hnil
  rw [ofMembers, List.length_mergeSort, List.flatMap_cons, List.length_append, List.length_nil]
    at htotal
  omega

/-- Every key has an owner, and it is a member. -/
theorem exists_owner (h : members ≠ []) (place : Bytes → UInt32) (replicas : Nat) (key : Bytes) :
    ∃ member ∈ members, (ofMembers place members replicas).owner place key = some member := by
  have hpoint : ∃ point ∈ (ofMembers place members replicas).points,
      (ofMembers place members replicas).pointAt (place (hashedPart key)) = some point := by
    unfold pointAt
    cases hfind : (ofMembers place members replicas).points.find? fun point =>
        decide (place (hashedPart key) ≤ point.position) with
    | some point => exact ⟨point, List.mem_of_find?_eq_some hfind, rfl⟩
    | none =>
      obtain ⟨first, rest, hpoints⟩ := List.exists_cons_of_ne_nil
        (points_ne_nil h place replicas)
      exact ⟨first, by rw [hpoints]; exact List.mem_cons_self, by rw [hpoints]; rfl⟩
  obtain ⟨point, hmem, hpoint⟩ := hpoint
  exact ⟨point.member, mem_of_mem_points hmem, by rw [owner, hpoint]; rfl⟩

end Ring

end RingStore
