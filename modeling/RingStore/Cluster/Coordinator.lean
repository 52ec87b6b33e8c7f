import RingStore.Cluster.Routing
import RingStore.Connection
import RingStore.Ring

/-!
# Coordinators

The coordinator of a node takes any command line, finds the members that must take part in it, has
them execute it or their share of it, and makes one reply of theirs. It does not know how the node's
own databases are reached, nor how another member is: these are its *surroundings*.

## Main definitions

* `Coordinator`: who the members are and who owns which key.
* `Surroundings`: executing on the node itself and on another member.
* `Coordinator.exec`: executing a command line in the cluster.
* `Merge.combine`: one reply out of those of all members.
-/

namespace RingStore

/-- Who the members of a cluster are, as one of them sees it. -/
structure Coordinator where
  /-- The address of the node itself. -/
  self : String
  /-- The addresses of all members: the others in configured order, the node itself last. -/
  members : List String
  /-- The positions of all members. -/
  ring : Ring

/-- How command lines are executed on the node itself and on another member. -/
structure Surroundings (σ : Type) where
  /-- Executes a command line on the node's own databases. -/
  here : Service σ
  /-- Has another member execute a command line on the session's database. -/
  there : String → σ → Session → CommandLine → Value × σ

/-- What routing a command line does. -/
structure Routed (σ : Type) where
  /-- The state afterwards. -/
  state : σ
  /-- The session afterwards. -/
  session : Session
  /-- How the command ends. -/
  outcome : Outcome

/-- The sum of two numbers, if it is a 64-bit signed number. Adding is taken to be checked, so that
there is no sum outside 64 bits; unchecked, it would be the sum modulo 2 to the 64th. -/
def addChecked (left right : Int64) : Option Int64 :=
  let sum := left.toInt + right.toInt
  if Int64.minValue.toInt ≤ sum ∧ sum ≤ Int64.maxValue.toInt then some (Int64.ofInt sum) else none

/-- One reply out of those of all members, given in the members' order. The first error among them
is the reply. Replies that are not of the expected kind make an error where all must be `OK`, and
count for nothing in a sum or a concatenation. A sum outside 64 bits is a fault. -/
def Merge.combine (merge : Merge) (replies : List Value) : Outcome :=
  match replies.find? Value.isError with
  | some error => .reply error
  | none =>
    match merge with
    | allOk => .reply (if replies.all Value.isOk then .ok else Refusal.memberNotOk.reply)
    | sumIntegers =>
      match (replies.filterMap Value.integer?).foldlM addChecked 0 with
      | some sum => .reply (.integer sum)
      | none => .fault
    | concatArrays => .reply (.array (replies.flatMap fun reply => reply.items?.getD []))

namespace Coordinator

variable {σ : Type}

/-- The coordinator of a node with configured peers. A peer named twice counts once, and the node
itself is no peer of its own. -/
def ofPeers (self : String) (peers : List String) (replicas : Nat) : Coordinator :=
  let members := (peers.filter (· ≠ self)).eraseDups ++ [self]
  ⟨self, members, .ofMembers ringPosition members replicas⟩

/-- The members other than the node itself. -/
def peers (coordinator : Coordinator) : List String :=
  coordinator.members.filter (· ≠ coordinator.self)

/-- The member that a key belongs to. -/
def owner (coordinator : Coordinator) (key : Bytes) : String :=
  (coordinator.ring.owner ringPosition key).getD coordinator.self

/-- Has a member execute a command line: the node itself, or another one. -/
def relay (coordinator : Coordinator) (surroundings : Surroundings σ) (member : String) (state : σ)
    (session : Session) (line : CommandLine) : Served σ :=
  if member = coordinator.self then surroundings.here state session line
  else
    let (reply, next) := surroundings.there member state session line
    ⟨next, session, reply⟩

/-- A command line as it is forwarded to another member. -/
def forward (line : CommandLine) : CommandLine :=
  Text.toBytes forwardedName :: line

/-- The command line as a member gets it when every member does. -/
def lineFor (coordinator : Coordinator) (member : String) (line : CommandLine) : CommandLine :=
  if member = coordinator.self then line else forward line

/-- Has members execute a command line one after the other, and collects their replies. -/
def relayAll (coordinator : Coordinator) (surroundings : Surroundings σ) (line : CommandLine)
    (state : σ) (session : Session) : List String → List (String × Value) × σ × Session
  | [] => ([], state, session)
  | member :: rest =>
    let served := coordinator.relay surroundings member state session
      (coordinator.lineFor member line)
    let (replies, last, selected) :=
      coordinator.relayAll surroundings line served.state served.session rest
    ((member, served.reply) :: replies, last, selected)

/-- Has every member execute a command line, the others first and the node itself last. -/
def broadcast (coordinator : Coordinator) (surroundings : Surroundings σ) (state : σ)
    (session : Session) (line : CommandLine) : List (String × Value) × σ × Session :=
  coordinator.relayAll surroundings line state session coordinator.members

/-- Adds a key to the keys of its owner; owners stay in the order of their first key. -/
def addKey (owner : String) (key : Bytes) :
    List (String × List Bytes) → List (String × List Bytes)
  | [] => [(owner, [key])]
  | group :: rest =>
    if group.1 = owner then (owner, group.2 ++ [key]) :: rest else group :: addKey owner key rest

/-- The keys by owner, the owners in the order of their first key. -/
def groupKeys (coordinator : Coordinator) (keys : List Bytes) : List (String × List Bytes) :=
  keys.foldl (fun groups key => addKey (coordinator.owner key) key groups) []

/-- Has each owner execute a command on its own keys, and adds up the numbers they reply. The first
reply that is no number ends it. -/
def sumGroups (coordinator : Coordinator) (surroundings : Surroundings σ) (name : Bytes)
    (total : Int64) (state : σ) (session : Session) : List (String × List Bytes) → Routed σ
  | [] => ⟨state, session, .reply (.integer total)⟩
  | (owner, keys) :: rest =>
    let served := coordinator.relay surroundings owner state session (name :: keys)
    match served.reply with
    | .integer count =>
      match addChecked total count with
      | some sum =>
        coordinator.sumGroups surroundings name sum served.state served.session rest
      | none => ⟨served.state, served.session, .fault⟩
    | .error text => ⟨served.state, served.session, .reply (.error text)⟩
    | reply => ⟨served.state, served.session, .reply (Refusal.notACount owner reply).reply⟩

/-- Executes a command line that another member forwards. Only lines that go to every member are
taken, so that no key is stored by a node that does not own it. -/
def execForwarded (surroundings : Surroundings σ) (state : σ) (session : Session)
    (line : CommandLine) : Served σ :=
  match line with
  | [] => ⟨state, session, (Refusal.wrongArity forwardedName).reply⟩
  | name :: _ =>
    let small := Text.lowercase (Text.ofBytes name)
    match route? small with
    | some (.broadcast _) => surroundings.here state session line
    | _ => ⟨state, session, (Refusal.notForwardable small).reply⟩

/-- The reply of a service as the outcome of routing. -/
def ofServed (served : Served σ) : Routed σ :=
  ⟨served.state, served.session, .reply served.reply⟩

/-- Routes a command line with a name and arguments by a strategy. -/
def follow (coordinator : Coordinator) (surroundings : Surroundings σ) (state : σ)
    (session : Session) (name : Bytes) (arguments : List Bytes) : Route → Routed σ
  | .here => ofServed (surroundings.here state session (name :: arguments))
  | .firstKey =>
    match arguments with
    | [] => refuse (.wrongArity small)
    | key :: _ =>
      ofServed (coordinator.relay surroundings (coordinator.owner key) state session
        (name :: arguments))
  | .splitKeys =>
    match arguments with
    | [] => refuse (.wrongArity small)
    | keys =>
      coordinator.sumGroups surroundings name 0 state session (coordinator.groupKeys keys)
  | .sameOwner =>
    match arguments with
    | [source, target] =>
      if coordinator.owner source = coordinator.owner target then
        ofServed (coordinator.relay surroundings (coordinator.owner source) state session
          (name :: arguments))
      else refuse .ownersDiffer
    | _ => refuse (.wrongArity small)
  | .broadcast merge =>
    let (replies, last, selected) :=
      coordinator.broadcast surroundings state session (name :: arguments)
    ⟨last, selected, merge.combine (replies.map Prod.snd)⟩
  | .forwarded => ofServed (execForwarded surroundings state session arguments)
where
  /-- The name in small letters. -/
  small : String := Text.lowercase (Text.ofBytes name)
  /-- A refusal, which changes nothing. -/
  refuse (refusal : Refusal) : Routed σ := ⟨state, session, .reply refusal.reply⟩

/-- Routes a command line to the members that take part in it. -/
def routeLine (coordinator : Coordinator) (surroundings : Surroundings σ) (state : σ)
    (session : Session) : CommandLine → Routed σ
  | [] => ⟨state, session, .reply Refusal.emptyCommand.reply⟩
  | name :: arguments =>
    let small := Text.lowercase (Text.ofBytes name)
    match route? small with
    | none => ⟨state, session, .reply (Refusal.notSupported small).reply⟩
    | some route => coordinator.follow surroundings state session name arguments route

/-- Executes a command line in the cluster; a fault is answered by a general error. -/
def exec (coordinator : Coordinator) (surroundings : Surroundings σ) : Service σ :=
  fun state session line =>
    let routed := coordinator.routeLine surroundings state session line
    ⟨routed.state, routed.session, routed.outcome.toReply⟩

end Coordinator

end RingStore
