import RingStore.Proofs.Cluster.Hosts

/-!
# Members on a network on which things go wrong

Members that agree on who they are, and on nothing else: their names need not denote addresses, and
they may keep different numbers of databases. Clients send any command line to any member. On its
way to another member a command line can be lost, and so can the reply, or something else comes back
in its place. Servers stop, pools are closed, and the network is cut and mended.

## Main definitions

* `Roster`: members as they are configured.
* `Fate`: what becomes of a command line on its way and of the reply on its way back.
* `Network.execIn`: having a member execute a command line while requests meet their fates.
* `Roster.after`: the network after any events.

## Main results

* `Roster.owner_congr`: every member finds the same owner.
* `Network.execIn_whole`: without failures a member executes command lines as ever.
-/

namespace RingStore

/-- Members as they are configured. -/
structure Roster where
  /-- The addresses of the members. -/
  addresses : List String
  /-- Each is listed once. -/
  nodup : addresses.Nodup
  /-- The peers that each member is configured with, in any order. -/
  peers : String → List String
  /-- With these and itself, a member knows exactly the members. -/
  known : ∀ member ∈ addresses, ∀ address,
    address = member ∨ address ∈ peers member ↔ address ∈ addresses
  /-- How often each member is placed on the ring. -/
  replicas : Nat
  /-- The number of databases that each member is configured with. -/
  databases : String → Nat
  /-- How each member keeps connections. -/
  options : String → PoolOptions

namespace Roster

variable (roster : Roster)

/-- The coordinator of a member. -/
def coordinator (member : String) : Coordinator :=
  .ofPeers member (roster.peers member) roster.replicas

/-- A member when nothing has been stored yet. -/
def member [Machine] (address : String) : Member :=
  .ofPeers address (roster.peers address) roster.replicas (roster.options address)
    (.empty Catalogue.registry (roster.databases address))

/-- The members, without keys, on a network where they reach one another. -/
def network [Machine] : Network where
  hosts := roster.addresses.map fun address => (address, .member (roster.member address))
  connected := true

/-- Two names denote one address. -/
def SamePlace (name other : String) : Prop :=
  ∃ target, Address.parse name = .ok target ∧ Address.parse other = .ok target

/-- No two members are at one address. -/
def Apart : Prop :=
  ∀ member ∈ roster.addresses, ∀ other ∈ roster.addresses, SamePlace member other →
    member = other

variable {roster} {address other : String}

/-- A coordinator lists exactly the members. -/
theorem mem_members_iff (h : address ∈ roster.addresses) :
    other ∈ (roster.coordinator address).members ↔ other ∈ roster.addresses :=
  (Coordinator.mem_members_ofPeers roster.replicas).trans (roster.known address h other)

/-- The peers that a coordinator lists are the other members. -/
theorem mem_peers_iff (h : address ∈ roster.addresses) :
    other ∈ (roster.coordinator address).peers ↔
      other ∈ roster.addresses ∧ other ≠ address := by
  rw [Coordinator.peers, List.mem_filter, mem_members_iff h, decide_eq_true_iff]
  rfl

/-- Every member finds the same owner. -/
theorem owner_congr (h : address ∈ roster.addresses) (hother : other ∈ roster.addresses)
    (key : Bytes) :
    (roster.coordinator address).owner key = (roster.coordinator other).owner key :=
  Coordinator.owner_ofPeers_congr roster.replicas
    (fun member => (roster.known address h member).trans
      (roster.known other hother member).symm) key

theorem member?_network [Machine] (h : address ∈ roster.addresses) :
    roster.network.member? address = some (roster.member address) := by
  rw [Network.member?, Network.host?, network, lookup_map_self _ _ h]

/-- The owner of a key is a member. -/
theorem owner_mem (h : address ∈ roster.addresses) (key : Bytes) :
    (roster.coordinator address).owner key ∈ roster.addresses :=
  (mem_members_iff h).1 (Coordinator.owner_ofPeers_mem roster.replicas key)

end Roster

/-- What becomes of a command line on its way to another member, and of the reply on its way
back. -/
structure Fate where
  /-- The command line is executed. -/
  arrives : Bool
  /-- What comes back in place of the reply, if it is not the reply. -/
  replaced : Option Value

namespace Fate

variable {σ : Type}

/-- Nothing goes wrong. -/
def whole : Fate :=
  ⟨true, none⟩

/-- What a service does with command lines that meet fates. Nothing comes back for a command line
that is lost, unless something else does. -/
def meet (fate : σ → Session → CommandLine → Fate) (service : Service σ) : Service σ :=
  fun state session line =>
    let served :=
      if (fate state session line).arrives then service state session line
      else ⟨state, session, .silent⟩
    { served with reply := (fate state session line).replaced.getD served.reply }

end Fate

namespace Network

/-- The fate of every command line that is sent to a member, whatever has happened until then. -/
abbrev Fates :=
  String → Network → Session → CommandLine → Fate

/-- What members do with command lines that meet fates, when requests may nest so deeply. -/
def serviceIn (fates : Fates) : (depth : Nat) → String → Service Network
  | 0, address => Fate.meet (fates address) fun network session _ => ⟨network, session, .silent⟩
  | depth + 1, address => Fate.meet (fates address) (memberService (serviceIn fates depth) address)

/-- Has the member at an address execute a command line in the cluster, while what it asks of other
members meets fates. -/
def execIn (fates : Fates) (network : Network) (address : String) (session : Session)
    (line : CommandLine) : Served Network :=
  memberService (serviceIn fates network.depth) address network session line

theorem serviceIn_whole (depth : Nat) :
    serviceIn (fun _ _ _ _ => .whole) depth = serviceAt depth := by
  induction depth with
  | zero => rfl
  | succ depth ih =>
    funext address
    rw [serviceIn, ih]
    rfl

/-- Without failures a member executes command lines as ever. -/
theorem execIn_whole (network : Network) (address : String) (session : Session)
    (line : CommandLine) :
    network.execIn (fun _ _ _ _ => .whole) address session line =
      network.exec address session line := by
  rw [execIn, serviceIn_whole]
  rfl

/-- What can happen on a network. -/
inductive Event where
  /-- A client has a member execute a command line. -/
  | request (fates : Fates) (address : String) (session : Session) (line : CommandLine)
  /-- The server of a member stops. -/
  | stop (address : String)
  /-- A member closes its pools. -/
  | closePools (address : String)
  /-- Hosts reach one another from now on, or do not. -/
  | connect (connected : Bool)

/-- The network after an event. -/
def Event.apply (network : Network) : Event → Network
  | request fates address session line => (network.execIn fates address session line).state
  | stop address => network.stop address
  | closePools address => network.closePools address
  | connect connected => { network with connected }

end Network

/-- The network after any events, from the one without keys. -/
def Roster.after [Machine] (roster : Roster) (events : List Network.Event) : Network :=
  events.foldl Network.Event.apply roster.network

end RingStore
