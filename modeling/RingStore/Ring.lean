import RingStore.Hash.SipHash
import RingStore.Text.Utf8

/-!
# The ring

Which member of a cluster a key belongs to. A hash places every member at several positions of a
ring of 32-bit numbers and places every key once. A key belongs to the member at the first position
at or after its own, going round past the greatest position to the least. The owner depends on the
set of members only, so members that agree on it agree on every owner.

Only part of a key is hashed if the key holds a *tag* in braces, so that keys with equal tags
belong to one member.

The hash is a parameter.

## Main definitions

* `Ring.ofMembers`: the positions of members.
* `Ring.owner`: the member that a key belongs to.
* `hashedPart`: the part of a key that is hashed.
-/

namespace RingStore

/-- The hash that places members and keys: both halves of SipHash under the zero key, folded into
one. -/
def ringPosition (bytes : Bytes) : UInt32 :=
  let hash := Hash.sipHash 0 0 bytes
  (hash ^^^ (hash >>> 32)).toUInt32

/-- The part of a key that is hashed: what stands between the first opening brace and the first
closing brace after it, if that is not empty, and else the whole key. -/
def hashedPart (key : Bytes) : Bytes :=
  match key.dropWhile (· ≠ 123) with
  | [] => key
  | _ :: afterOpening =>
    let tag := afterOpening.takeWhile (· ≠ 125)
    if tag ≠ [] ∧ tag.length < afterOpening.length then tag else key

/-- One position of a member. -/
structure RingPoint where
  /-- The position. -/
  position : UInt32
  /-- The member. -/
  member : String
  deriving DecidableEq, Inhabited

namespace RingPoint

/-- The order of points: by position, and at one position by the member's name. -/
def le (left right : RingPoint) : Bool :=
  left.position < right.position || (left.position == right.position && left.member ≤ right.member)

end RingPoint

/-- The positions of the members of a cluster, in order. -/
structure Ring where
  /-- The points, in the order of `RingPoint.le`. -/
  points : List RingPoint

namespace Ring

/-- How often a member is placed for which nothing else is configured. -/
def usualReplicas : Nat := 64

/-- The points of one member. Each is placed by its number followed by the member's name. -/
def pointsOf (place : Bytes → UInt32) (replicas : Nat) (member : String) : List RingPoint :=
  (List.range (max replicas 1)).map fun replica =>
    ⟨place (Text.toBytes s!"{replica}{member}"), member⟩

/-- The ring of members that are placed so many times each, and at least once. -/
def ofMembers (place : Bytes → UInt32) (members : List String) (replicas : Nat) : Ring :=
  ⟨(members.flatMap (pointsOf place replicas)).mergeSort RingPoint.le⟩

/-- The first point at or after a position, going round. -/
def pointAt (ring : Ring) (position : UInt32) : Option RingPoint :=
  (ring.points.find? fun point => position ≤ point.position).or ring.points.head?

/-- The member that a key belongs to; there is none in a ring without members. -/
def owner (place : Bytes → UInt32) (ring : Ring) (key : Bytes) : Option String :=
  (ring.pointAt (place (hashedPart key))).map RingPoint.member

end Ring

end RingStore
