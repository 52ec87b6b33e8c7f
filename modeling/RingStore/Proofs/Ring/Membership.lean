import RingStore.Proofs.Ring

/-!
# Members that come and go

The owner of a key is at the point that one comes to first when one goes round the ring from the
key's position. Points of other members that come later make no difference. So a member that leaves
takes away its own keys only, and a member that joins takes keys only for itself.

## Main definitions

* `RingPoint.Precedes`: the order in which one comes to points, going round from a position.

## Main results

* `Ring.pointAt_eq_some_iff`: a key's point is the first one in that order.
* `Ring.owner_of_subset`: an owner that stays among fewer members keeps its keys.
* `Ring.only_keys_of_member_move`: which keys change their owner with a member.
-/

namespace RingStore

namespace RingPoint

/-- Going round from a position, one comes to the first point before the second one or they are the
same: either the first one lies ahead and the second one does not, or the first one comes first on
the same side of the position. -/
def Precedes (position : UInt32) (first second : RingPoint) : Prop :=
  (position ≤ first.position ∧ ¬position ≤ second.position) ∨
    ((position ≤ first.position ↔ position ≤ second.position) ∧ first.le second = true)

instance (position : UInt32) (first second : RingPoint) :
    Decidable (first.Precedes position second) :=
  inferInstanceAs (Decidable (_ ∨ _))

variable {position : UInt32} {first second : RingPoint}

theorem Precedes.antisymm (h₁ : first.Precedes position second)
    (h₂ : second.Precedes position first) : first = second := by
  rcases h₁ with ⟨hahead, hbehind⟩ | ⟨hside, hle⟩
  · -- the second point lies behind, so that it cannot come first
    rcases h₂ with ⟨hahead', -⟩ | ⟨hside', -⟩
    · exact absurd hahead' hbehind
    · exact absurd (hside'.2 hahead) hbehind
  · rcases h₂ with ⟨hahead', hbehind'⟩ | ⟨-, hle'⟩
    · exact absurd (hside.2 hahead') hbehind'
    · exact le_antisymm hle hle'

/-- Among points that lie ahead the lesser one comes first. -/
theorem position_le_of_le (hle : first.le second = true) (hahead : position ≤ first.position) :
    position ≤ second.position := by
  rw [UInt32.le_iff_toNat_le] at hahead ⊢
  rw [le_iff] at hle
  omega

/-- The first one of sorted points comes before all of them in their order. -/
theorem le_of_pairwise {rest : List RingPoint}
    (hsorted : (first :: rest).Pairwise fun left right => left.le right = true)
    {other : RingPoint} (hother : other ∈ first :: rest) : first.le other = true := by
  rcases List.mem_cons.1 hother with rfl | hrest
  · rw [← Bool.or_self (other.le other)]
    exact le_total other other
  · exact List.rel_of_pairwise_cons hsorted hrest

end RingPoint

namespace Ring

variable {place : Bytes → UInt32} {replicas : Nat} {members : List String}

theorem pairwise_points (place : Bytes → UInt32) (members : List String) (replicas : Nat) :
    (ofMembers place members replicas).points.Pairwise fun left right => left.le right = true :=
  List.pairwise_mergeSort RingPoint.le_trans RingPoint.le_total _

/-- A point of the ring is a point of its member, and that is one of the members. -/
theorem mem_points_iff {point : RingPoint} :
    point ∈ (ofMembers place members replicas).points ↔
      point.member ∈ members ∧ point ∈ pointsOf place replicas point.member := by
  rw [ofMembers, List.mem_mergeSort, List.mem_flatMap]
  constructor
  · rintro ⟨member, hmember, hpoint⟩
    obtain ⟨replica, hreplica, rfl⟩ := List.mem_map.1 hpoint
    exact ⟨hmember, hpoint⟩
  · rintro ⟨hmember, hpoint⟩
    exact ⟨_, hmember, hpoint⟩

/-- The point of a position is the first one, going round. -/
theorem precedes_of_pointAt {ring : Ring} {position : UInt32} {point : RingPoint}
    (hsorted : ring.points.Pairwise fun left right => left.le right = true)
    (h : ring.pointAt position = some point) :
    point ∈ ring.points ∧ ∀ other ∈ ring.points, point.Precedes position other := by
  unfold pointAt at h
  rcases hfind : ring.points.find? fun point => decide (position ≤ point.position) with _ | found
  · -- all points lie behind, and the least of them comes first
    rw [hfind, Option.none_or] at h
    obtain ⟨rest, hpoints⟩ := List.head?_eq_some_iff.1 h
    have hbehind : ∀ other ∈ ring.points, ¬position ≤ other.position := fun other hother =>
      of_decide_eq_false (Bool.eq_false_iff.2 (List.find?_eq_none.1 hfind other hother))
    rw [hpoints] at hsorted hbehind ⊢
    refine ⟨List.mem_cons_self, fun other hother => .inr ⟨?_, ?_⟩⟩
    · exact iff_of_false (hbehind point List.mem_cons_self) (hbehind other hother)
    · exact RingPoint.le_of_pairwise hsorted hother
  · -- the points before the one found lie behind, and those after it are no less
    rw [hfind, Option.some_or] at h
    obtain rfl := Option.some.inj h
    obtain ⟨hahead, front, back, hpoints, hfront⟩ := List.find?_eq_some_iff_append.1 hfind
    have hahead' := of_decide_eq_true hahead
    rw [hpoints] at hsorted ⊢
    refine ⟨List.mem_append_right _ List.mem_cons_self, fun other hother => ?_⟩
    rcases List.mem_append.1 hother with hbefore | hafter
    · have hbehind := hfront other hbefore
      rw [Bool.not_eq_true', decide_eq_false_iff_not] at hbehind
      exact .inl ⟨hahead', hbehind⟩
    · have hle := RingPoint.le_of_pairwise (List.pairwise_append.1 hsorted).2.1 hafter
      exact .inr ⟨iff_of_true hahead' (RingPoint.position_le_of_le hle hahead'), hle⟩

/-- The point of a position is the one that precedes all others, going round. -/
theorem pointAt_eq_some_iff {ring : Ring} {position : UInt32} {point : RingPoint}
    (hsorted : ring.points.Pairwise fun left right => left.le right = true) :
    ring.pointAt position = some point ↔
      point ∈ ring.points ∧ ∀ other ∈ ring.points, point.Precedes position other := by
  refine ⟨precedes_of_pointAt hsorted, fun ⟨hmem, hfirst⟩ => ?_⟩
  have hfound : (ring.pointAt position).isSome = true := by
    obtain ⟨first, rest, hpoints⟩ := List.exists_cons_of_ne_nil (List.ne_nil_of_mem hmem)
    rw [pointAt, Option.isSome_or, hpoints, List.head?_cons, Option.isSome_some, Bool.or_true]
  obtain ⟨other, hother⟩ := Option.isSome_iff_exists.1 hfound
  obtain ⟨hotherMem, hotherFirst⟩ := precedes_of_pointAt hsorted hother
  rw [hother, (hotherFirst point hmem).antisymm (hfirst other hotherMem)]

/-- The member of the point that precedes all others of the members is the owner. -/
theorem owner_of_precedes {key : Bytes} (point : RingPoint)
    (hmem : point ∈ members.flatMap (pointsOf place replicas))
    (hfirst : ∀ other ∈ members.flatMap (pointsOf place replicas),
      point.Precedes (place (hashedPart key)) other) :
    (ofMembers place members replicas).owner place key = some point.member := by
  have hpoint : (ofMembers place members replicas).pointAt (place (hashedPart key)) =
      some point := by
    refine (pointAt_eq_some_iff (pairwise_points ..)).2 ⟨?_, fun other hother => hfirst other ?_⟩
    · exact List.mem_mergeSort.2 hmem
    · exact List.mem_mergeSort.1 hother
  rw [owner, hpoint]
  rfl

/-- An owner that stays among fewer members keeps its keys. -/
theorem owner_of_subset {fewer : List String} (hsubset : fewer ⊆ members) {key : Bytes}
    {member : String} (hmember : member ∈ fewer)
    (h : (ofMembers place members replicas).owner place key = some member) :
    (ofMembers place fewer replicas).owner place key = some member := by
  obtain ⟨point, hpoint, rfl⟩ := Option.map_eq_some_iff.1 h
  obtain ⟨hmem, hfirst⟩ := (pointAt_eq_some_iff (pairwise_points ..)).1 hpoint
  -- the owner's point is on the lesser ring too, and all points there are on the greater one
  have hstays : (ofMembers place fewer replicas).pointAt (place (hashedPart key)) = some point := by
    refine (pointAt_eq_some_iff (pairwise_points ..)).2 ⟨?_, fun other hother => hfirst other ?_⟩
    · exact mem_points_iff.2 ⟨hmember, (mem_points_iff.1 hmem).2⟩
    · exact mem_points_iff.2 ((mem_points_iff.1 hother).imp_left fun h => hsubset h)
  rw [owner, hstays]
  rfl

/-- With a member, and without it, every key has an owner, and it is the same unless the member
itself owns the key: a member that leaves takes away its own keys only, and a member that joins
takes keys only for itself. Where the members' points are makes no difference, even if several of
them are at one position. -/
theorem only_keys_of_member_move (place : Bytes → UInt32) (replicas : Nat)
    (front back : List String) (member : String) (hrest : front ++ back ≠ []) (key : Bytes) :
    ∃ whole ∈ front ++ member :: back, ∃ rest ∈ front ++ back,
      (ofMembers place (front ++ member :: back) replicas).owner place key = some whole ∧
      (ofMembers place (front ++ back) replicas).owner place key = some rest ∧
      (whole = member ∨ rest = whole) := by
  have hall : front ++ member :: back ≠ [] :=
    List.append_ne_nil_of_right_ne_nil _ (List.cons_ne_nil _ _)
  obtain ⟨whole, hwhole, howner⟩ := exists_owner hall place replicas key
  obtain ⟨rest, hmem, howner'⟩ := exists_owner hrest place replicas key
  refine ⟨whole, hwhole, rest, hmem, howner, howner', ?_⟩
  by_cases hsame : whole = member
  · exact .inl hsame
  · have hstays : whole ∈ front ++ back := by
      rw [List.mem_append, List.mem_cons] at hwhole
      rw [List.mem_append]
      exact hwhole.imp_right fun h => h.resolve_left hsame
    have hsubset : front ++ back ⊆ front ++ member :: back :=
      ((List.sublist_cons_self ..).append_left front).subset
    have hkept := owner_of_subset hsubset hstays howner
    exact .inr (Option.some.inj (howner'.symm.trans hkept))

/-- Two members are at one position, and a third one is ahead of them. A key from beyond all of them
comes round to that one position, with the third member and without it. -/
theorem only_keys_of_member_move_of_collision :
    let place : Bytes → UInt32 := fun bytes => bytes.length.toUInt32
    let key : Bytes := [107, 101, 121, 45, 119, 105, 116, 104, 111, 117, 116]
    ["b:1"] ++ ["a:1"] ≠ [] ∧
      (ofMembers place (["b:1"] ++ "bb:1" :: ["a:1"]) 1).owner place key = some "a:1" ∧
      (ofMembers place (["b:1"] ++ ["a:1"]) 1).owner place key = some "a:1" := by
  intro place key
  have hwhole : (ofMembers place (["b:1"] ++ "bb:1" :: ["a:1"]) 1).owner place key =
      some "a:1" := by
    have hpoint : (ofMembers place (["b:1"] ++ "bb:1" :: ["a:1"]) 1).pointAt
        (place (hashedPart key)) = some ⟨4, "a:1"⟩ := by
      refine (pointAt_eq_some_iff (pairwise_points ..)).2 ⟨?_, ?_⟩
      · rw [ofMembers, List.mem_mergeSort]
        decide +kernel
      · simp only [ofMembers, List.mem_mergeSort]
        decide +kernel
    rw [owner, hpoint]
    rfl
  obtain ⟨whole, -, rest, -, howner, hrest, hmoves⟩ :=
    only_keys_of_member_move place 1 ["b:1"] ["a:1"] "bb:1" (by decide) key
  obtain rfl := Option.some.inj (hwhole.symm.trans howner)
  obtain rfl := hmoves.resolve_left (by decide)
  exact ⟨by decide, hwhole, hrest⟩

end Ring

end RingStore
