import RingStore.Bytes

/-!
# The machine of a node

Two things are up to the machine on which a node runs: the number of stripes of its keyspaces, which
goes by the number of processor cores, and the numbers that it draws where a key is to be picked at
random. Both are parameters of everything that makes keyspaces or picks keys. The number that is
drawn may depend on the keys that there are to pick from. Nodes that are looked at together run on
machines alike.

## Main definitions

* `Machine`: the parameters.
* `Machine.usual`: the machine that is meant where no other one is given.
-/

namespace RingStore

/-- What is up to the machine on which a node runs. -/
class Machine where
  /-- The number of processor cores. -/
  cores : Nat
  /-- The number that is drawn to pick one of some keys. -/
  draw : List Bytes → Nat

/-- A machine with four cores, on which the first key is picked. -/
instance Machine.usual : Machine :=
  ⟨4, fun _ => 0⟩

end RingStore
