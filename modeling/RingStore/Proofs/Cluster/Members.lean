import RingStore.Cluster.Network
import RingStore.Command.Catalogue
import RingStore.Proofs.Ring

/-!
# Clusters whose members agree

Each member of a cluster is configured with its peers, in an order of its own. If all of them mean
the same members, then they place these on equal rings and agree on the owner of every key.

## Main definitions

* `Cluster`: a cluster as it is configured.
* `Cluster.network`: the members, without keys, on a network where they reach one another.
* `Cluster.owner`: the member that a key belongs to.

## Main results

* `Coordinator.owner_ofPeers_congr`: coordinators that know the same members find the same owner.
* `Cluster.members_perm`: a coordinator lists exactly the members.
* `Cluster.coordinator_owner`: every coordinator finds the same owner.
-/

namespace RingStore

/-- A list without repetitions is left. -/
theorem nodup_eraseDups {α : Type} [BEq α] [LawfulBEq α] (items : List α) :
    items.eraseDups.Nodup := by
  induction hlength : items.length using Nat.strongRecOn generalizing items with
  | _ length ih =>
    cases items with
    | nil => exact List.nodup_nil
    | cons item rest =>
      rw [List.eraseDups_cons, List.nodup_cons]
      constructor
      · simp [List.mem_eraseDups]
      · refine ih _ ?_ _ rfl
        rw [← hlength, List.length_cons]
        exact Nat.lt_succ_of_le (List.length_filter_le ..)

namespace Coordinator

variable {self other : String} {peers otherPeers : List String} (replicas : Nat)

/-- A coordinator lists its own node and the peers that it is configured with. -/
theorem mem_members_ofPeers {address : String} :
    address ∈ (ofPeers self peers replicas).members ↔ address = self ∨ address ∈ peers := by
  simp only [ofPeers, List.mem_append, List.mem_eraseDups, List.mem_filter, List.mem_singleton,
    decide_eq_true_eq]
  by_cases hself : address = self <;> simp [hself]

/-- It lists each of them once. -/
theorem nodup_members_ofPeers : (ofPeers self peers replicas).members.Nodup := by
  refine List.nodup_append.2 ⟨nodup_eraseDups _, by simp, ?_⟩
  rintro address haddress _ hself rfl
  rw [List.mem_singleton.1 hself, List.mem_eraseDups, List.mem_filter] at haddress
  simp at haddress

/-- A member list without repetitions is that of a coordinator if it lists the same members. -/
theorem members_ofPeers_perm {addresses : List String} (hnodup : addresses.Nodup)
    (h : ∀ address, address = self ∨ address ∈ peers ↔ address ∈ addresses) :
    (ofPeers self peers replicas).members.Perm addresses :=
  (List.perm_ext_iff_of_nodup (nodup_members_ofPeers replicas) hnodup).2 fun address =>
    (mem_members_ofPeers replicas).trans (h address)

/-- The ring of a coordinator has points. -/
theorem members_ofPeers_ne_nil : (ofPeers self peers replicas).members ≠ [] :=
  List.ne_nil_of_mem ((mem_members_ofPeers replicas).2 (.inl rfl))

/-- The owner of a key is a member. -/
theorem owner_ofPeers_mem (key : Bytes) :
    (ofPeers self peers replicas).owner key ∈ (ofPeers self peers replicas).members := by
  obtain ⟨member, hmember, howner⟩ := Ring.exists_owner
    (members_ofPeers_ne_nil replicas : (ofPeers self peers replicas).members ≠ []) ringPosition
    replicas key
  rw [owner]
  refine (congrArg (· ∈ _) ?_).mpr hmember
  exact congrArg (Option.getD · self) howner

/-- Coordinators that know the same members find the same owner. -/
theorem owner_ofPeers_congr
    (h : ∀ address, address = self ∨ address ∈ peers ↔ address = other ∨ address ∈ otherPeers)
    (key : Bytes) :
    (ofPeers self peers replicas).owner key = (ofPeers other otherPeers replicas).owner key := by
  have hperm : (ofPeers self peers replicas).members.Perm
      (ofPeers other otherPeers replicas).members :=
    members_ofPeers_perm replicas (nodup_members_ofPeers replicas) fun address =>
      (h address).trans (mem_members_ofPeers replicas).symm
  -- the order in which a member lists the others does not matter to the ring
  have hring : (ofPeers self peers replicas).ring = (ofPeers other otherPeers replicas).ring :=
    Ring.ofMembers_eq_of_perm hperm ringPosition replicas
  obtain ⟨member, -, howner⟩ := Ring.exists_owner
    (members_ofPeers_ne_nil replicas : (ofPeers other otherPeers replicas).members ≠ [])
    ringPosition replicas key
  replace howner : (ofPeers other otherPeers replicas).ring.owner ringPosition key = some member :=
    howner
  rw [owner, owner, hring, howner]
  rfl

end Coordinator

/-- A cluster as it is configured. -/
structure Cluster where
  /-- The addresses of the members. -/
  addresses : List String
  /-- Each is listed once. -/
  nodup : addresses.Nodup
  /-- The peers that each member is configured with, in any order. -/
  peers : String → List String
  /-- With these and itself, a member knows exactly the members. -/
  known : ∀ member ∈ addresses, ∀ address,
    address = member ∨ address ∈ peers member ↔ address ∈ addresses
  /-- Every member's name denotes an address. -/
  parses : ∀ member ∈ addresses, ∃ target, Address.parse member = .ok target
  /-- No two members are at one address. -/
  apart : ∀ member ∈ addresses, ∀ other ∈ addresses,
    Address.parse member = Address.parse other → member = other
  /-- How often each member is placed on the ring. -/
  replicas : Nat
  /-- The number of databases that each member is configured with. -/
  databases : Nat
  /-- How each member keeps connections. -/
  options : String → PoolOptions

namespace Cluster

variable (cluster : Cluster)

/-- The coordinator of a member. -/
def coordinator (member : String) : Coordinator :=
  .ofPeers member (cluster.peers member) cluster.replicas

/-- A member when nothing has been stored yet. -/
def member [Machine] (address : String) : Member :=
  .ofPeers address (cluster.peers address) cluster.replicas (cluster.options address)
    (.empty Catalogue.registry cluster.databases)

/-- The members, without keys, on a network where they reach one another. -/
def network [Machine] : Network where
  hosts := cluster.addresses.map fun address => (address, .member (cluster.member address))
  connected := true

/-- The member that a key belongs to. -/
def owner (key : Bytes) : String :=
  ((Ring.ofMembers ringPosition cluster.addresses cluster.replicas).owner ringPosition key).getD ""

variable {cluster}

/-- A coordinator lists exactly the members of the cluster. -/
theorem members_perm {address : String} (h : address ∈ cluster.addresses) :
    (cluster.coordinator address).members.Perm cluster.addresses :=
  Coordinator.members_ofPeers_perm cluster.replicas cluster.nodup (cluster.known address h)

theorem nodup_members {address : String} (h : address ∈ cluster.addresses) :
    (cluster.coordinator address).members.Nodup :=
  (members_perm h).symm.nodup cluster.nodup

theorem self_coordinator (address : String) : (cluster.coordinator address).self = address :=
  rfl

/-- The peers that a coordinator lists are the other members. -/
theorem mem_peers_iff {address peer : String} (h : address ∈ cluster.addresses) :
    peer ∈ (cluster.coordinator address).peers ↔ peer ∈ cluster.addresses ∧ peer ≠ address := by
  rw [Coordinator.peers, List.mem_filter, (members_perm h).mem_iff, decide_eq_true_iff,
    self_coordinator]

variable {address : String} (h : address ∈ cluster.addresses) (key : Bytes)

include h

/-- The owner of a key is a member. -/
theorem owner_mem : cluster.owner key ∈ cluster.addresses := by
  obtain ⟨member, hmember, howner⟩ :=
    Ring.exists_owner (List.ne_nil_of_mem h) ringPosition cluster.replicas key
  rw [owner, howner]
  exact hmember

/-- Every coordinator finds the same owner. -/
theorem coordinator_owner : (cluster.coordinator address).owner key = cluster.owner key := by
  obtain ⟨member, -, howner⟩ :=
    Ring.exists_owner (List.ne_nil_of_mem h) ringPosition cluster.replicas key
  -- the order in which a member lists the others does not matter to the ring
  have hring : (cluster.coordinator address).ring =
      Ring.ofMembers ringPosition cluster.addresses cluster.replicas :=
    Ring.ofMembers_eq_of_perm (members_perm h) ringPosition cluster.replicas
  rw [Coordinator.owner, hring, owner, howner]
  rfl

end Cluster

end RingStore
