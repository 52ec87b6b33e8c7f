import RingStore.Bytes

/-!
# SipHash

The keyed hash SipHash over 64-bit words, with one round per message word and three rounds at the
end. The keyspace uses it to choose a stripe and the ring to place members and keys.
-/

namespace RingStore.Hash

/-- Rotates a word left by a number of bits below 64. -/
def rotateLeft (word : UInt64) (bits : UInt64) : UInt64 :=
  (word <<< bits) ||| (word >>> (64 - bits))

/-- The word whose bytes, least significant first, are given. -/
def word64 (bytes : Bytes) : UInt64 :=
  (Bytes.ofLittleEndian bytes).toUInt64

/-- The four words of SipHash's state. -/
structure SipState where
  /-- First word. -/
  v0 : UInt64
  /-- Second word. -/
  v1 : UInt64
  /-- Third word. -/
  v2 : UInt64
  /-- Fourth word. -/
  v3 : UInt64

namespace SipState

/-- The state before the first message word, for a key of two words. -/
def ofKey (key0 key1 : UInt64) : SipState where
  v0 := key0 ^^^ 0x736f6d6570736575
  v1 := key1 ^^^ 0x646f72616e646f6d
  v2 := key0 ^^^ 0x6c7967656e657261
  v3 := key1 ^^^ 0x7465646279746573

/-- One round of the mixing network. -/
def round (s : SipState) : SipState :=
  let a0 := s.v0 + s.v1
  let a1 := rotateLeft s.v1 13 ^^^ a0
  let a2 := s.v2 + s.v3
  let a3 := rotateLeft s.v3 16 ^^^ a2
  let b0 := rotateLeft a0 32
  let c0 := b0 + a3
  let c3 := rotateLeft a3 21 ^^^ c0
  let c2 := a2 + a1
  let c1 := rotateLeft a1 17 ^^^ c2
  ⟨c0, c1, rotateLeft c2 32, c3⟩

/-- Takes in one message word. -/
def compress (s : SipState) (word : UInt64) : SipState :=
  let mixed := round { s with v3 := s.v3 ^^^ word }
  { mixed with v0 := mixed.v0 ^^^ word }

/-- Takes in the whole words of a message; the bytes left over are fewer than eight. -/
def absorb (s : SipState) : Bytes → SipState × Bytes
  | b0 :: b1 :: b2 :: b3 :: b4 :: b5 :: b6 :: b7 :: rest =>
    absorb (s.compress (word64 [b0, b1, b2, b3, b4, b5, b6, b7])) rest
  | tail => (s, tail)

/-- The hash value of a state that has taken in everything. -/
def finish (s : SipState) : UInt64 :=
  let mixed := round (round (round { s with v2 := s.v2 ^^^ 0xff }))
  mixed.v0 ^^^ mixed.v1 ^^^ mixed.v2 ^^^ mixed.v3

end SipState

/-- SipHash of a message under a key of two words. The last word taken in holds the bytes left over
and, in its top byte, the message's length modulo 256. -/
def sipHash (key0 key1 : UInt64) (message : Bytes) : UInt64 :=
  let (state, tail) := (SipState.ofKey key0 key1).absorb message
  (state.compress (word64 tail ||| (message.length.toUInt64 <<< 56))).finish

end RingStore.Hash
