import RingStore.Keyspace

/-!
# Keyspaces that hold the same map

A keyspace is used through its look-up. Two keyspaces *agree* when every look-up gives the same,
however their entries are spread over stripes and ordered within them. Every operation that
changes a keyspace takes agreeing keyspaces to agreeing ones.

## Main results

* `Agrees.put`, `Agrees.erase`, `Agrees.eraseAll`, `Agrees.clear`: operations respect agreement.
* `get?_eraseAll`: what removing several keys does to the map.
-/

namespace RingStore.Keyspace

/-- Two keyspaces hold the same entities under the same keys. -/
def Agrees (left right : Keyspace) : Prop :=
  ∀ key, left.get? key = right.get? key

variable {left right : Keyspace}

theorem contains_congr {key : Bytes} (h : left.get? key = right.get? key) :
    left.contains key = right.contains key := by
  rw [contains, contains, h]

@[refl]
theorem Agrees.refl (keyspace : Keyspace) : keyspace.Agrees keyspace :=
  fun _ => rfl

theorem Agrees.symm (h : left.Agrees right) : right.Agrees left :=
  fun key => (h key).symm

theorem Agrees.trans {middle : Keyspace} (h₁ : left.Agrees middle) (h₂ : middle.Agrees right) :
    left.Agrees right :=
  fun key => (h₁ key).trans (h₂ key)

/-- Agreeing keyspaces have the same keys. -/
theorem Agrees.contains (h : left.Agrees right) (key : Bytes) :
    left.contains key = right.contains key :=
  contains_congr (h key)

theorem Agrees.put (h : left.Agrees right) (key : Bytes) (entity : Entity) :
    (left.put key entity).2.Agrees (right.put key entity).2 := by
  intro other
  rw [get?_put, get?_put, h other]

theorem Agrees.erase (h : left.Agrees right) (key : Bytes) :
    (left.erase key).2.Agrees (right.erase key).2 := by
  intro other
  rw [get?_erase, get?_erase, h other]

theorem Agrees.clear (left right : Keyspace) : left.clear.Agrees right.clear := by
  intro key
  rw [get?_clear, get?_clear]

/-- Storing unless the key occurs does nothing where it occurs. -/
theorem putIfAbsent_of_contains {keyspace : Keyspace} {key : Bytes}
    (h : keyspace.contains key = true) (entity : Entity) :
    keyspace.putIfAbsent key entity = (false, keyspace) := by
  rw [putIfAbsent, if_pos h]

/-- Storing unless the key occurs stores where it does not occur. -/
theorem putIfAbsent_of_not_contains {keyspace : Keyspace} {key : Bytes}
    (h : keyspace.contains key = false) (entity : Entity) :
    keyspace.putIfAbsent key entity = (true, (keyspace.put key entity).2) := by
  rw [putIfAbsent, if_neg (Bool.eq_false_iff.1 h)]

/-- After several keys are removed, exactly the other keys are left. -/
theorem get?_eraseAll (keyspace : Keyspace) (keys : List Bytes) (other : Bytes) :
    (keyspace.eraseAll keys).2.get? other =
      if other ∈ keys then none else keyspace.get? other := by
  induction keys generalizing keyspace with
  | nil => simp [eraseAll]
  | cons key rest ih =>
    have hstep : (keyspace.eraseAll (key :: rest)).2 = ((keyspace.erase key).2.eraseAll rest).2 :=
      rfl
    rw [hstep, ih, get?_erase]
    by_cases hkey : other = key <;> simp [hkey]

theorem Agrees.eraseAll (h : left.Agrees right) (keys : List Bytes) :
    (left.eraseAll keys).2.Agrees (right.eraseAll keys).2 := by
  intro other
  rw [get?_eraseAll, get?_eraseAll, h other]

end RingStore.Keyspace
