/-!
# Routing strategies

Which members of a cluster take part in a command, by the command's name in small letters. The
table says nothing about what a command does.

## Main definitions

* `Route`, `Merge`: the strategies, and how replies of several members become one.
* `routes`, `route?`: the table and looking a name up in it.
-/

namespace RingStore

/-- How the replies of all members become one. -/
inductive Merge where
  /-- All must be `OK`. -/
  | allOk
  /-- Numbers are added. -/
  | sumIntegers
  /-- Arrays are put one after the other. -/
  | concatArrays
  deriving DecidableEq

/-- Which members take part in a command. -/
inductive Route where
  /-- The node that is asked, whatever the arguments. -/
  | here
  /-- The owner of the first key. -/
  | firstKey
  /-- The owner of each key, for the keys that it owns. -/
  | splitKeys
  /-- The owner of both keys, if they have one owner. -/
  | sameOwner
  /-- Every member. -/
  | broadcast (merge : Merge)
  /-- The node that is asked, for a line that another member forwards to everyone. -/
  | forwarded
  deriving DecidableEq

/-- The name put in front of a line that a member forwards to another one. -/
def forwardedName : String :=
  "_local"

/-- The strategy of every command that can be called in a cluster. -/
def routes : List (String × Route) :=
  [("ping", .here), ("select", .here), ("randomkey", .here), (forwardedName, .forwarded),
    ("get", .firstKey), ("set", .firstKey), ("setnx", .firstKey), ("getset", .firstKey),
    ("strlen", .firstKey), ("type", .firstKey), ("del", .splitKeys), ("exists", .splitKeys),
    ("rename", .sameOwner), ("renamenx", .sameOwner), ("flushdb", .broadcast .allOk),
    ("dbsize", .broadcast .sumIntegers), ("keys", .broadcast .concatArrays)]

/-- The strategy of the command of a name. -/
def route? (name : String) : Option Route :=
  routes.lookup name

end RingStore
