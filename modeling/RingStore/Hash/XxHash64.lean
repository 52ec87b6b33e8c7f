import RingStore.Hash.SipHash

/-!
# XXH64

The 64-bit hash XXH64, used as the checksum of a journal record. A message is taken in by stripes
of 32 bytes into four lanes; the bytes left over follow by eights, then by one four, then singly.
-/

namespace RingStore.Hash.XxHash64

/-- The first multiplier. -/
def prime1 : UInt64 := 0x9E3779B185EBCA87

/-- The second multiplier. -/
def prime2 : UInt64 := 0xC2B2AE3D27D4EB4F

/-- The third multiplier. -/
def prime3 : UInt64 := 0x165667B19E3779F9

/-- The fourth multiplier. -/
def prime4 : UInt64 := 0x85EBCA77C2B2AE63

/-- The fifth multiplier. -/
def prime5 : UInt64 := 0x27D4EB2F165667C5

/-- Takes one word into a lane. -/
def round (lane word : UInt64) : UInt64 :=
  rotateLeft (lane + word * prime2) 31 * prime1

/-- The four lanes that take in stripes side by side. -/
structure Lanes where
  /-- First lane. -/
  a : UInt64
  /-- Second lane. -/
  b : UInt64
  /-- Third lane. -/
  c : UInt64
  /-- Fourth lane. -/
  d : UInt64

namespace Lanes

/-- The lanes before the first stripe. -/
def ofSeed (seed : UInt64) : Lanes :=
  ⟨seed + prime1 + prime2, seed + prime2, seed, seed - prime1⟩

/-- Takes in one stripe of 32 bytes. -/
def absorb (lanes : Lanes) (stripe : Bytes) : Lanes where
  a := round lanes.a (word64 (stripe.take 8))
  b := round lanes.b (word64 ((stripe.drop 8).take 8))
  c := round lanes.c (word64 ((stripe.drop 16).take 8))
  d := round lanes.d (word64 ((stripe.drop 24).take 8))

/-- Takes in all whole stripes; the bytes left over are fewer than 32. -/
def absorbAll (lanes : Lanes) (message : Bytes) : Lanes × Bytes :=
  if (message.take 32).length < 32 then (lanes, message)
  else absorbAll (lanes.absorb (message.take 32)) (message.drop 32)
termination_by message.length
decreasing_by
  simp only [List.length_take, List.length_drop] at *
  omega

/-- Folds one lane into the running hash. -/
def fold (hash lane : UInt64) : UInt64 :=
  (hash ^^^ round 0 lane) * prime1 + prime4

/-- The four lanes as one word. -/
def merge (lanes : Lanes) : UInt64 :=
  let sum := rotateLeft lanes.a 1 + rotateLeft lanes.b 7
    + rotateLeft lanes.c 12 + rotateLeft lanes.d 18
  fold (fold (fold (fold sum lanes.a) lanes.b) lanes.c) lanes.d

end Lanes

/-- Takes in left-over bytes one at a time. -/
def absorbBytes (hash : UInt64) (tail : Bytes) : UInt64 :=
  tail.foldl (fun hash byte => rotateLeft (hash ^^^ (byte.toUInt64 * prime5)) 11 * prime1) hash

/-- Takes in left-over bytes, four at once if there are as many. -/
def absorbHalf (hash : UInt64) (tail : Bytes) : UInt64 :=
  if tail.length < 4 then absorbBytes hash tail
  else
    absorbBytes (rotateLeft (hash ^^^ (word64 (tail.take 4) * prime1)) 23 * prime2 + prime3)
      (tail.drop 4)

/-- Takes in left-over bytes by eights as long as there are as many. -/
def absorbTail (hash : UInt64) : Bytes → UInt64
  | b0 :: b1 :: b2 :: b3 :: b4 :: b5 :: b6 :: b7 :: rest =>
    absorbTail (rotateLeft (hash ^^^ round 0 (word64 [b0, b1, b2, b3, b4, b5, b6, b7])) 27 * prime1
      + prime4) rest
  | tail => absorbHalf hash tail

/-- The last mixing step, after which every input bit affects every output bit. -/
def avalanche (hash : UInt64) : UInt64 :=
  let first := (hash ^^^ (hash >>> 33)) * prime2
  let second := (first ^^^ (first >>> 29)) * prime3
  second ^^^ (second >>> 32)

end XxHash64

open XxHash64 in
/-- XXH64 of a message under a seed. -/
def xxHash64 (seed : UInt64) (message : Bytes) : UInt64 :=
  let (lanes, tail) := (Lanes.ofSeed seed).absorbAll message
  let start := if message.length < 32 then seed + prime5 else lanes.merge
  avalanche (absorbTail (start + message.length.toUInt64) tail)

end RingStore.Hash
