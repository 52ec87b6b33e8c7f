import RingStore.Cluster.Address
import RingStore.Cluster.Coordinator
import RingStore.Cluster.Relay

/-!
# Networks of members

A network of hosts under addresses. A host is a member of a cluster with its node, its coordinator
and the pools of its peers, or a *scripted* peer that answers whatever it is sent by a fixed list.
Members talk over connections, byte for byte: a request is encoded, read by the other side as any
client's request would be, executed there, and the reply is encoded and read back.

While a member executes a request of another one it may itself ask a third, and so on. Each such
request holds a permit of some pool, so requests cannot nest more deeply than there are permits.

## Main definitions

* `Member`, `ScriptedPeer`, `Network`: the hosts.
* `Network.connect`: what becomes of an attempt to connect.
* `Network.exec`, `Network.execHere`, `Network.relay`, `Network.broadcast`: having a member execute
  a command line.
* `Network.stop`, `Network.closePools`: shutting a member's server down, closing its pools.
-/

namespace RingStore

/-- What a scripted peer does with one command line. -/
inductive ScriptItem where
  /-- It sends bytes, and may then close the connection. -/
  | answer (bytes : Bytes) (thenCloses : Bool)
  /-- It does nothing. -/
  | hang

/-- A peer that answers by a script, whatever it is asked. After the last item it closes every
connection on which it gets a command line. -/
structure ScriptedPeer where
  /-- What it does with the command lines still to come. -/
  script : List ScriptItem
  /-- The command lines that it got, latest first. -/
  received : List CommandLine

/-- The far end of a connection to a peer. -/
inductive FarEnd where
  /-- A member's side: bytes not yet answered, and the session. -/
  | member (buffer : Bytes) (session : Session)
  /-- A scripted peer's side. -/
  | scripted

/-- A connection to a peer with both its ends. -/
structure Link where
  /-- The near end. -/
  client : PeerClient
  /-- The far end's host, as the network lists it. The near end may spell the address otherwise. -/
  host : String
  /-- The far end. -/
  far : FarEnd

/-- A member of a cluster. -/
structure Member where
  /-- Its coordinator. -/
  coordinator : Coordinator
  /-- Its own databases. -/
  node : Node
  /-- Its connections to each peer. -/
  pools : List (String × Pool Link)
  /-- It accepts connections and answers on those it has. -/
  serving : Bool

/-- What stands at an address. -/
inductive Host where
  /-- A member of a cluster. -/
  | member (member : Member)
  /-- A scripted peer. -/
  | scripted (peer : ScriptedPeer)

/-- Hosts under addresses. -/
structure Network where
  /-- The hosts, each address once. -/
  hosts : List (String × Host)
  /-- Hosts can reach one another. Without that, a connection to a host that serves fails. -/
  connected : Bool

namespace Member

/-- A member with an address and configured peers, over a node. -/
def ofPeers (address : String) (peers : List String) (replicas : Nat) (options : PoolOptions)
    (node : Node) : Member :=
  let coordinator := Coordinator.ofPeers address peers replicas
  ⟨coordinator, node, coordinator.peers.map fun peer => (peer, .empty options), true⟩

/-- The member with another pool for a peer. -/
def setPool (member : Member) (peer : String) (pool : Pool Link) : Member :=
  { member with pools := member.pools.map fun entry =>
      if entry.1 = peer then (peer, pool) else entry }

/-- The member with all its pools closed. -/
def closePools (member : Member) : Member :=
  { member with pools := member.pools.map fun entry => (entry.1, entry.2.close.pool) }

/-- How many connections the member may have in use besides those it has. -/
def permits (member : Member) : Nat :=
  member.pools.foldl (fun total entry => total + entry.2.permits) 0

end Member

namespace ScriptedPeer

/-- What the peer does with one command line. -/
def receive (peer : ScriptedPeer) (line : CommandLine) : ScriptItem × ScriptedPeer :=
  match peer.script with
  | [] => (.answer [] true, { peer with received := line :: peer.received })
  | item :: rest => (item, ⟨rest, line :: peer.received⟩)

end ScriptedPeer

namespace Network

/-- Nobody accepts connections at the address. -/
def refused : Failure :=
  ⟨.connectionRefused, "Connection refused (os error 111)"⟩

/-- The address cannot be reached. -/
def unreachable : Failure :=
  ⟨.networkUnreachable, "Network is unreachable (os error 101)"⟩

/-- What stands at an address. -/
def host? (network : Network) (address : String) : Option Host :=
  network.hosts.lookup address

/-- The member at an address. -/
def member? (network : Network) (address : String) : Option Member :=
  match network.host? address with
  | some (.member member) => some member
  | _ => none

/-- The members with their addresses. -/
def members (network : Network) : List (String × Member) :=
  network.hosts.filterMap fun entry =>
    match entry.2 with
    | .member member => some (entry.1, member)
    | .scripted _ => none

/-- The network with another host at an address that it has. -/
def setHost (network : Network) (address : String) (host : Host) : Network :=
  { network with hosts := network.hosts.map fun entry =>
      if entry.1 = address then (address, host) else entry }

/-- The network with the member at an address changed. -/
def changeMember (network : Network) (address : String) (change : Member → Member) : Network :=
  match network.member? address with
  | some member => network.setHost address (.member (change member))
  | none => network

/-- The host that stands at an address, with the text under which the network lists it. -/
def hostAt? (network : Network) (address : Address) : Option (String × Host) :=
  network.hosts.find? fun entry => (Address.parse entry.1).toOption = some address

/-- A connection to a host, before anything has gone over it. -/
def newLink (address host : String) (far : FarEnd) : Link :=
  ⟨.ofStream address ⟨[], .quiet, none⟩, host, far⟩

/-- What becomes of an attempt to connect to an address. -/
def connect (network : Network) (address : String) : Except Failure Link :=
  match Address.parse address with
  | .error error => .error error.failure
  | .ok target =>
    match network.hostAt? target with
    | none => .error refused
    | some (host, .member member) =>
      if !member.serving then .error refused
      else if network.connected then .ok (newLink address host (.member [] .start))
      else .error unreachable
    | some (host, .scripted _) =>
      if network.connected then .ok (newLink address host .scripted) else .error unreachable

/-- The connection after its far end has been closed. -/
def closeFarEnd (link : Link) : Link :=
  { link with client :=
      { link.client with stream := { link.client.stream with ending := .closed } } }

/-- The connection after its far end has sent bytes. -/
def deliver (link : Link) (bytes : Bytes) : Link :=
  if bytes = [] then link
  else
    { link with client := { link.client with stream :=
        { link.client.stream with incoming := link.client.stream.incoming ++ [bytes] } } }

/-- The far end has been closed. -/
def isClosed (link : Link) : Bool :=
  match link.client.stream.ending with
  | .quiet => false
  | _ => true

/-- A member takes in bytes on a connection and answers what is complete. -/
def memberReceives (service : Service Network) (network : Network) (link : Link) (buffer : Bytes)
    (session : Session) (bytes : Bytes) : Link × Network :=
  let options : ConnectionOptions := ⟨Connection.usualQueryBuffer, none⟩
  let (received, overflow) :=
    (Connection.mk network session buffer []).receive options bytes
  match overflow with
  | some _ => (closeFarEnd (deliver link received.sent), received.state)
  | none =>
    let (drained, _) := received.drain service options
    (deliver { link with far := .member drained.buffer drained.session } drained.sent,
      drained.state)

/-- A scripted peer takes in the bytes of one command line. -/
def scriptedReceives (network : Network) (link : Link) (peer : ScriptedPeer) (bytes : Bytes) :
    Link × Network :=
  match Wire.read bytes with
  | .done frame _ =>
    let (item, after) := peer.receive (frame.commandLine?.getD [])
    let network := network.setHost link.host (.scripted after)
    match item with
    | .answer reply true => (closeFarEnd (deliver link reply), network)
    | .answer reply false => (deliver link reply, network)
    | .hang => (link, network)
  | _ => (link, network)

/-- The far end takes in bytes. `serviceAt` is what members do with command lines. -/
def farEndReceives (serviceAt : String → Service Network) (network : Network) (link : Link)
    (bytes : Bytes) : Link × Network :=
  if isClosed link then (link, network)
  else
    match network.host? link.host, link.far with
    | some (.member member), .member buffer session =>
      if member.serving then
        memberReceives (serviceAt link.host) network link buffer session bytes
      else (closeFarEnd link, network)
    | some (.scripted peer), .scripted => scriptedReceives network link peer bytes
    | _, _ => (closeFarEnd link, network)

/-- Sends one request on a connection and waits for its reply. -/
def ask (serviceAt : String → Service Network) (network : Network) (link : Link)
    (line : CommandLine) : Except Failure Value × Link × Network :=
  let (answered, next) := farEndReceives serviceAt network link (encodeCommandLine line)
  let sent := answered.client.send line
  (sent.result, { answered with client := sent.client }, next)

/-- What the member at an address can do with the connections to one of its peers. -/
def access (serviceAt : String → Service Network) (address peer : String) :
    PeerAccess Network Link where
  peer := peer
  pool? network := (network.member? address).bind fun member => member.pools.lookup peer
  setPool network pool := network.changeMember address fun member => member.setPool peer pool
  connect network := (network.connect peer, network)
  ask := ask serviceAt

/-- The member at an address executes a command line on its own databases. -/
def execOwn (address : String) : Service Network := fun network session line =>
  match network.member? address with
  | none => ⟨network, session, Refusal.fault.reply⟩
  | some member =>
    let served := member.node.serve session line
    ⟨network.setHost address (.member { member with node := served.state }), served.session,
      served.reply⟩

/-- The surroundings of the member at an address. -/
def surroundings (serviceAt : String → Service Network) (address : String) :
    Surroundings Network where
  here := execOwn address
  there peer network session line := (access serviceAt address peer).relay network session line

/-- The member at an address executes a command line in the cluster. -/
def memberService (serviceAt : String → Service Network) (address : String) : Service Network :=
  fun network session line =>
    match network.member? address with
    | none => ⟨network, session, Refusal.fault.reply⟩
    | some member => member.coordinator.exec (surroundings serviceAt address) network session line

/-- What members do with command lines when requests may nest so deeply; beyond that they do not
answer. -/
def serviceAt : (depth : Nat) → String → Service Network
  | 0, _ => fun network session _ => ⟨network, session, .silent⟩
  | depth + 1, address => memberService (serviceAt depth) address

/-- How deeply requests can nest: each one holds a permit of some pool. -/
def depth (network : Network) : Nat :=
  network.members.foldl (fun total entry => total + entry.2.permits) 1

/-- Has the member at an address execute a command line in the cluster. -/
def exec (network : Network) (address : String) (session : Session) (line : CommandLine) :
    Served Network :=
  memberService (serviceAt network.depth) address network session line

/-- Has the member at an address execute a command line on its own databases. -/
def execHere (network : Network) (address : String) (session : Session) (line : CommandLine) :
    Served Network :=
  execOwn address network session line

/-- Has the member at an address relay a command line to a member. -/
def relay (network : Network) (address peer : String) (session : Session) (line : CommandLine) :
    Served Network :=
  match network.member? address with
  | none => ⟨network, session, Refusal.fault.reply⟩
  | some member =>
    member.coordinator.relay (surroundings (serviceAt network.depth) address) peer network session
      line

/-- Has the member at an address have every member execute a command line. -/
def broadcast (network : Network) (address : String) (session : Session) (line : CommandLine) :
    List (String × Value) × Network × Session :=
  match network.member? address with
  | none => ([], network, session)
  | some member =>
    member.coordinator.broadcast (surroundings (serviceAt network.depth) address) network session
      line

/-- Closes the pools of the member at an address. -/
def closePools (network : Network) (address : String) : Network :=
  network.changeMember address Member.closePools

/-- Shuts the server of the member at an address down: it accepts no connection, those it has end,
and its pools are closed. -/
def stop (network : Network) (address : String) : Network :=
  network.changeMember address fun member => { member.closePools with serving := false }

/-- The scripted peers with their addresses. -/
def scriptedPeers (network : Network) : List (String × ScriptedPeer) :=
  network.hosts.filterMap fun entry =>
    match entry.2 with
    | .member _ => none
    | .scripted peer => some (entry.1, peer)

end Network

end RingStore
