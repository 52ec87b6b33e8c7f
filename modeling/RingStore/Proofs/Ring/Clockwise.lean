import Mathlib.Data.Prod.Lex
import Mathlib.Data.String.Basic
import Mathlib.Order.Bounds.Basic
import RingStore.Proofs.Ring.Membership

/-!
# The owner as a least element

Seen from a key's position, every point of the ring lies some way ahead, less than once round. The
points rank by that distance, and at one distance by their members' names. The owner of a key is the
member of least rank among all points that the members are given. Nothing of this speaks of the
sorted list in which a ring keeps its points, of duplicates, or of the order of the members.

## Main definitions

* `clockwise`: how far it is from one position up to another, going round.
* `RingPoint.rank`: how a point ranks, seen from a position.
* `Ring.ranks`: the ranks of all points of members.

## Main results

* `RingPoint.precedes_iff_rank_le`: one comes first to the points of lesser rank.
* `Ring.owner_eq_some_iff_isLeast`: the owner is the member of least rank.
* `Ring.owner_least_clockwise`: the same, with rings of no members and of members listed otherwise.
-/

namespace RingStore

/-- How far it is from one position up to another one, going round past the greatest position: the
difference modulo the number of positions. -/
def clockwise (start stop : UInt32) : Nat :=
  (stop.toNat + UInt32.size - start.toNat) % UInt32.size

section Clockwise

variable {start stop other : UInt32}

/-- A position that lies ahead is reached without going round. -/
theorem clockwise_of_le (h : start ≤ stop) : clockwise start stop = stop.toNat - start.toNat := by
  have hstop := stop.toNat_lt_size
  rw [UInt32.le_iff_toNat_le] at h
  rw [clockwise, Nat.add_comm, Nat.add_sub_assoc h, Nat.add_mod_left]
  exact Nat.mod_eq_of_lt (Nat.lt_of_le_of_lt (Nat.sub_le _ _) hstop)

/-- A position that lies behind is reached by going round. -/
theorem clockwise_of_not_le (h : ¬start ≤ stop) :
    clockwise start stop = stop.toNat + UInt32.size - start.toNat := by
  have hstart := start.toNat_lt_size
  rw [UInt32.le_iff_toNat_le] at h
  exact Nat.mod_eq_of_lt (by omega)

/-- A position that lies ahead is nearer than one that lies behind. -/
theorem clockwise_lt_of_le_of_not_le (hahead : start ≤ stop) (hbehind : ¬start ≤ other) :
    clockwise start stop < clockwise start other := by
  have hstop := stop.toNat_lt_size
  rw [clockwise_of_le hahead, clockwise_of_not_le hbehind]
  rw [UInt32.le_iff_toNat_le] at hahead
  omega

/-- On the same side of where one starts, positions are as far away as they are great. -/
theorem exists_clockwise_add (hside : start ≤ stop ↔ start ≤ other) :
    ∃ round, clockwise start stop + start.toNat = stop.toNat + round ∧
      clockwise start other + start.toNat = other.toNat + round := by
  have hstart := start.toNat_lt_size
  by_cases hahead : start ≤ stop
  · have hother := hside.1 hahead
    refine ⟨0, ?_, ?_⟩
    · rw [clockwise_of_le hahead, Nat.sub_add_cancel (UInt32.le_iff_toNat_le.1 hahead)]
      rfl
    · rw [clockwise_of_le hother, Nat.sub_add_cancel (UInt32.le_iff_toNat_le.1 hother)]
      rfl
  · have hother := mt hside.2 hahead
    refine ⟨UInt32.size, ?_, ?_⟩
    · rw [clockwise_of_not_le hahead, Nat.sub_add_cancel (by omega)]
    · rw [clockwise_of_not_le hother, Nat.sub_add_cancel (by omega)]

end Clockwise

namespace RingPoint

variable {position : UInt32} {first second : RingPoint}

/-- How a point ranks, seen from a position: by how far ahead it is, and then by its member. -/
def rank (position : UInt32) (point : RingPoint) : Nat ×ₗ String :=
  toLex (clockwise position point.position, point.member)

/-- Going round, one comes first to the points of lesser rank. -/
theorem precedes_iff_rank_le :
    first.Precedes position second ↔ first.rank position ≤ second.rank position := by
  rw [rank, rank, Prod.Lex.toLex_le_toLex, Precedes]
  by_cases hside : position ≤ first.position ↔ position ≤ second.position
  · -- neither lies ahead of the other across the position, and they rank as in the ring's order
    obtain ⟨round, hfirst, hsecond⟩ := exists_clockwise_add hside
    have hlt : clockwise position first.position < clockwise position second.position ↔
        first.position.toNat < second.position.toNat := by omega
    have heq : clockwise position first.position = clockwise position second.position ↔
        first.position.toNat = second.position.toNat := by omega
    rw [hlt, heq, ← le_iff]
    constructor
    · rintro (⟨hahead, hbehind⟩ | ⟨-, hle⟩)
      · exact absurd (hside.1 hahead) hbehind
      · exact hle
    · exact fun hle => .inr ⟨hside, hle⟩
  · by_cases hahead : position ≤ first.position
    · have hbehind : ¬position ≤ second.position := fun h => hside (iff_of_true hahead h)
      exact iff_of_true (.inl ⟨hahead, hbehind⟩)
        (.inl (clockwise_lt_of_le_of_not_le hahead hbehind))
    · have hsecond : position ≤ second.position :=
        Classical.byContradiction fun h => hside (iff_of_false hahead h)
      have hlt := clockwise_lt_of_le_of_not_le hsecond hahead
      refine iff_of_false ?_ ?_
      · rintro (⟨h, -⟩ | ⟨h, -⟩)
        · exact hahead h
        · exact hside h
      · dsimp only
        rintro (h | ⟨h, -⟩) <;> omega

end RingPoint

namespace Ring

variable {place : Bytes → UInt32} {members : List String} {replicas : Nat}

/-- The ranks, seen from a position, of all points of members: a member has as many points as there
are replicas, and at least one, each where its number followed by the member's name is placed. -/
def ranks (place : Bytes → UInt32) (members : List String) (replicas : Nat) (position : UInt32) :
    Set (Nat ×ₗ String) :=
  {rank | ∃ member ∈ members, ∃ replica < max replicas 1,
    rank = toLex (clockwise position (place (Text.toBytes s!"{replica}{member}")), member)}

/-- The ranks of members are those of the points on their ring. -/
theorem mem_ranks_iff {position : UInt32} {rank : Nat ×ₗ String} :
    rank ∈ ranks place members replicas position ↔
      ∃ point ∈ (ofMembers place members replicas).points, point.rank position = rank := by
  constructor
  · rintro ⟨member, hmember, replica, hreplica, rfl⟩
    let point : RingPoint := ⟨place (Text.toBytes s!"{replica}{member}"), member⟩
    have hpoint : point ∈ pointsOf place replicas point.member :=
      List.mem_map_of_mem (List.mem_range.2 hreplica)
    exact ⟨point, mem_points_iff.2 ⟨hmember, hpoint⟩, rfl⟩
  · rintro ⟨point, hpoint, rfl⟩
    obtain ⟨hmember, hof⟩ := mem_points_iff.1 hpoint
    obtain ⟨replica, hreplica, heq⟩ := List.mem_map.1 hof
    refine ⟨point.member, hmember, replica, List.mem_range.1 hreplica, ?_⟩
    rw [RingPoint.rank, ← heq]

/-- The point of a position is one of least rank, seen from there. -/
theorem pointAt_eq_some_iff_isLeast {position : UInt32} {point : RingPoint} :
    (ofMembers place members replicas).pointAt position = some point ↔
      point ∈ (ofMembers place members replicas).points ∧
        IsLeast (ranks place members replicas position) (point.rank position) := by
  rw [pointAt_eq_some_iff (pairwise_points ..)]
  refine and_congr_right fun hmem => ⟨fun hfirst => ⟨?_, ?_⟩, fun hleast other hother => ?_⟩
  · exact mem_ranks_iff.2 ⟨point, hmem, rfl⟩
  · rintro rank hrank
    obtain ⟨other, hother, rfl⟩ := mem_ranks_iff.1 hrank
    exact RingPoint.precedes_iff_rank_le.1 (hfirst other hother)
  · exact RingPoint.precedes_iff_rank_le.2 (hleast.2 (mem_ranks_iff.2 ⟨other, hother, rfl⟩))

/-- The owner of a key is the member of least rank, seen from the key's position. -/
theorem owner_eq_some_iff_isLeast {key : Bytes} {member : String} :
    (ofMembers place members replicas).owner place key = some member ↔
      ∃ distance, IsLeast (ranks place members replicas (place (hashedPart key)))
        (toLex (distance, member)) := by
  rw [owner, Option.map_eq_some_iff]
  constructor
  · rintro ⟨point, hpoint, rfl⟩
    exact ⟨_, (pointAt_eq_some_iff_isLeast.1 hpoint).2⟩
  · rintro ⟨distance, hleast⟩
    obtain ⟨point, hpoint, hrank⟩ := mem_ranks_iff.1 hleast.1
    refine ⟨point, pointAt_eq_some_iff_isLeast.2 ⟨hpoint, hrank ▸ hleast⟩, ?_⟩
    exact congrArg (fun rank => (ofLex rank).2) hrank

/-- A ring without members owns nothing. -/
theorem owner_nil (key : Bytes) : (ofMembers place [] replicas).owner place key = none := by
  simp [ofMembers, owner, pointAt]

/-- There is no owner exactly if there are no members. Otherwise the owner is the member of the
point that is nearest to the key, going up from its position and round past the greatest one, and
whose member comes first by name among those that are equally near. Hence members that are listed in
another order, or more often, own the same keys. -/
theorem owner_least_clockwise (place : Bytes → UInt32) (members : List String) (replicas : Nat)
    (key : Bytes) :
    ((ofMembers place members replicas).owner place key = none ↔ members = []) ∧
      (∀ member, (ofMembers place members replicas).owner place key = some member ↔
        ∃ distance, IsLeast (ranks place members replicas (place (hashedPart key)))
          (toLex (distance, member))) ∧
      ∀ others : List String, (∀ member, member ∈ others ↔ member ∈ members) →
        (ofMembers place others replicas).owner place key =
          (ofMembers place members replicas).owner place key := by
  refine ⟨⟨fun hnone => ?_, ?_⟩, fun member => owner_eq_some_iff_isLeast, fun others hsame => ?_⟩
  · by_contra hne
    obtain ⟨member, -, howner⟩ := exists_owner hne place replicas key
    cases hnone.symm.trans howner
  · rintro rfl
    exact owner_nil key
  · have hranks : ranks place others replicas (place (hashedPart key)) =
        ranks place members replicas (place (hashedPart key)) := by
      simp only [ranks, hsame]
    refine Option.ext fun member => ?_
    rw [owner_eq_some_iff_isLeast, owner_eq_some_iff_isLeast, hranks]

/-- A key from beyond all points comes round to a position that two members share, one of which is
listed twice. It belongs to the one that comes first by name. -/
theorem owner_least_clockwise_of_tie :
    let place : Bytes → UInt32 := fun bytes => bytes.length.toUInt32
    let key : Bytes := List.replicate 11 107
    (∀ member, member ∈ ["a:1", "b:1"] ↔ member ∈ ["b:1", "a:1", "b:1"]) ∧
      (ofMembers place ["b:1", "a:1", "b:1"] 0).owner place key = some "a:1" ∧
      (ofMembers place ["a:1", "b:1"] 0).owner place key = some "a:1" := by
  intro place key
  obtain ⟨-, hleast, hsame⟩ := owner_least_clockwise place ["b:1", "a:1", "b:1"] 0 key
  have hmembers : ∀ member, member ∈ ["a:1", "b:1"] ↔ member ∈ ["b:1", "a:1", "b:1"] := by
    simp [or_comm]
  -- every member has one point, all of them at position 4, which is reached by going round
  have hdistance : ∀ member ∈ ["b:1", "a:1", "b:1"],
      clockwise (place (hashedPart key)) (place (Text.toBytes s!"{0}{member}")) = 4294967289 := by
    decide +kernel
  have howner : (ofMembers place ["b:1", "a:1", "b:1"] 0).owner place key = some "a:1" := by
    refine (hleast "a:1").2 ⟨4294967289, ⟨"a:1", by decide, 0, by decide, ?_⟩, ?_⟩
    · rw [hdistance "a:1" (by decide)]
    · rintro rank ⟨member, hmember, replica, hreplica, rfl⟩
      obtain rfl : replica = 0 := Nat.lt_one_iff.1 hreplica
      rw [hdistance member hmember, Prod.Lex.toLex_le_toLex]
      exact .inr ⟨rfl, (by decide : ∀ member ∈ ["b:1", "a:1", "b:1"], "a:1" ≤ member) _ hmember⟩
  exact ⟨hmembers, howner, (hsame _ hmembers).trans howner⟩

end Ring

end RingStore
