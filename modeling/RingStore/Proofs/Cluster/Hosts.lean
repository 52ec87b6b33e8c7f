import Mathlib.Logic.Function.Basic
import RingStore.Proofs.Cluster.Members

/-!
# The hosts of a healthy cluster

On a network where every member serves, a network is seen as two things: the node that each member
has, and the pool that each member has for each other one. What a member executes itself changes its
own node only; putting another pool in the place of one changes that pool only.

## Main definitions

* `Network.pool?`: the pool of one member for another.
* `Cluster.Stands`: every member serves, with a coordinator of the cluster and a given node.

## Main results

* `Cluster.Stands.execOwn`, `Cluster.Stands.setPool`: what the two changes do.
* `Cluster.Stands.connect`: every member can be connected to.
-/

namespace RingStore

section Entries

variable {α β : Type} [DecidableEq α]

/-- Looking up after the value under a key was replaced. -/
theorem lookup_replace (entries : List (α × β)) (key other : α) (value : β) :
    (entries.map fun entry => if entry.1 = key then (key, value) else entry).lookup other =
      if other = key then (entries.lookup key).map fun _ => value else entries.lookup other := by
  induction entries with
  | nil => simp
  | cons entry rest ih =>
    obtain ⟨first, stored⟩ := entry
    rw [List.map_cons]
    by_cases hfirst : first = key
    · subst hfirst
      rw [if_pos rfl]
      by_cases hother : other = first
      · subst hother
        simp
      · rw [if_neg hother] at ih ⊢
        rw [List.lookup_cons, List.lookup_cons, beq_eq_false_iff_ne.2 hother, ih]
    · rw [if_neg hfirst, List.lookup_cons, ih, List.lookup_cons, List.lookup_cons]
      by_cases hother : other = first
      · subst hother
        simp [hfirst]
      · rw [beq_eq_false_iff_ne.2 hother, beq_eq_false_iff_ne.2 (Ne.symm hfirst)]

/-- What is found under a key is an entry. -/
theorem mem_of_lookup {entries : List (α × β)} {key : α} {value : β}
    (h : entries.lookup key = some value) : (key, value) ∈ entries := by
  obtain ⟨before, after, rfl, -⟩ := List.lookup_eq_some_iff.1 h
  exact List.mem_append_right _ List.mem_cons_self

/-- Something is found under the key of an entry. -/
theorem exists_lookup_of_mem {entries : List (α × β)} {key : α}
    (h : key ∈ entries.map Prod.fst) : ∃ value, entries.lookup key = some value := by
  obtain ⟨entry, hentry, rfl⟩ := List.mem_map.1 h
  exact Option.isSome_iff_exists.1
    (List.lookup_isSome_iff.2 ⟨entry, hentry, beq_self_eq_true _⟩)

/-- What is found under a key in a list of things under their keys. -/
theorem lookup_map_self (keys : List α) (f : α → β) {key : α}
    (h : key ∈ keys) : (keys.map fun key => (key, f key)).lookup key = some (f key) := by
  induction keys with
  | nil => cases h
  | cons first rest ih =>
    rw [List.map_cons, List.lookup_cons]
    by_cases heq : key = first
    · subst heq
      simp
    · rw [beq_eq_false_iff_ne.2 heq]
      exact ih (List.mem_of_ne_of_mem heq h)

/-- Looking for the one entry with a key. -/
theorem find?_eq_lookup {entries : List (α × β)} (key : α) {test : α × β → Bool}
    (h : ∀ entry ∈ entries, test entry = true ↔ entry.1 = key) :
    entries.find? test = (entries.lookup key).map fun value => (key, value) := by
  induction entries with
  | nil => rfl
  | cons entry rest ih =>
    obtain ⟨first, stored⟩ := entry
    rw [List.find?_cons, List.lookup_cons, ih fun entry hentry => h entry (.tail _ hentry)]
    have hfirst := h (first, stored) (.head _)
    by_cases heq : first = key
    · subst heq
      simp [hfirst.2 rfl]
    · rw [Bool.eq_false_iff.2 fun htest => heq (hfirst.1 htest),
        beq_eq_false_iff_ne.2 (Ne.symm heq)]

end Entries

theorem Address.toOption_parse_eq_some_iff {text : String} {address : Address} :
    (Address.parse text).toOption = some address ↔ Address.parse text = .ok address := by
  cases Address.parse text <;> simp [Except.toOption]

namespace Network

/-- The pool of a member for one of its peers. -/
def pool? (network : Network) (address peer : String) : Option (Pool Link) :=
  (network.member? address).bind fun member => member.pools.lookup peer

variable {network : Network} {address other : String}

theorem host?_setHost (host : Host) :
    (network.setHost address host).host? other =
      if other = address then (network.host? address).map fun _ => host
      else network.host? other :=
  lookup_replace network.hosts address other host

theorem host?_of_member? {member : Member} (h : network.member? address = some member) :
    network.host? address = some (.member member) := by
  unfold member? at h
  split at h
  · next hhost =>
    cases h
    exact hhost
  · cases h

/-- The member that takes the place of another one is found there. -/
theorem member?_setHost_self {old : Member} (h : network.member? address = some old)
    (member : Member) :
    (network.setHost address (.member member)).member? address = some member := by
  rw [member?, host?_setHost, if_pos rfl, host?_of_member? h]
  rfl

theorem member?_setHost_of_ne (h : other ≠ address) (host : Host) :
    (network.setHost address host).member? other = network.member? other := by
  rw [member?, member?, host?_setHost, if_neg h]

theorem map_fst_setHost (host : Host) :
    (network.setHost address host).hosts.map Prod.fst = network.hosts.map Prod.fst := by
  rw [setHost, List.map_map]
  refine List.map_congr_left fun entry _ => ?_
  simp only [Function.comp_apply]
  split
  · next heq => exact heq.symm
  · rfl

end Network

namespace Cluster

/-- Every member of the cluster serves, with its coordinator and its node, and hosts reach one
another. -/
structure Stands (cluster : Cluster) (nodes : String → Node) (network : Network) : Prop where
  /-- Hosts reach one another. -/
  connected : network.connected = true
  /-- The hosts are the members. -/
  hosts : network.hosts.map Prod.fst = cluster.addresses
  /-- Each of them serves. -/
  member : ∀ address ∈ cluster.addresses, ∃ pools,
    network.member? address = some ⟨cluster.coordinator address, nodes address, pools, true⟩

namespace Stands

variable {cluster : Cluster} {nodes : String → Node} {network : Network} {address : String}

/-- Another member in the place of one, with the same coordinator. -/
theorem setHost (h : cluster.Stands nodes network) (node : Node) (pools : List (String × Pool Link))
    (haddress : address ∈ cluster.addresses) :
    cluster.Stands (Function.update nodes address node) (network.setHost address
      (.member ⟨cluster.coordinator address, node, pools, true⟩)) where
  connected := h.connected
  hosts := (Network.map_fst_setHost _).trans h.hosts
  member other hother := by
    by_cases heq : other = address
    · subst heq
      obtain ⟨old, hold⟩ := h.member other hother
      exact ⟨pools, by rw [Network.member?_setHost_self hold, Function.update_self]⟩
    · obtain ⟨old, hold⟩ := h.member other hother
      exact ⟨old, by rw [Network.member?_setHost_of_ne heq, Function.update_of_ne heq, hold]⟩

/-- A member that executes a line itself changes its own node, and no pool. -/
theorem execOwn (h : cluster.Stands nodes network) (haddress : address ∈ cluster.addresses)
    (session : Session) (line : CommandLine) :
    let answer := (nodes address).exec session line
    let served := Network.execOwn address network session line
    served.session = answer.session ∧ served.reply = answer.reply ∧
      cluster.Stands (Function.update nodes address answer.state) served.state ∧
      ∀ member peer, served.state.pool? member peer = network.pool? member peer := by
  intro answer served
  obtain ⟨pools, hmember⟩ := h.member address haddress
  have hserved : served = ⟨network.setHost address
      (.member ⟨cluster.coordinator address, answer.state, pools, true⟩), answer.session,
      answer.reply⟩ := by
    simp only [served, Network.execOwn, hmember]
    rfl
  rw [hserved]
  refine ⟨rfl, rfl, h.setHost _ _ haddress, fun member peer => ?_⟩
  -- only the member itself has a new entry, and that has the old pools
  by_cases heq : member = address
  · subst heq
    rw [Network.pool?, Network.member?_setHost_self hmember, Network.pool?, hmember]
    rfl
  · rw [Network.pool?, Network.member?_setHost_of_ne heq, Network.pool?]

/-- Putting another pool in the place of one changes no node and no other pool. -/
theorem setPool (h : cluster.Stands nodes network) (haddress : address ∈ cluster.addresses)
    {peer : String} {old : Pool Link} (hold : network.pool? address peer = some old)
    (pool : Pool Link) :
    let next := network.changeMember address fun member => member.setPool peer pool
    cluster.Stands nodes next ∧ next.pool? address peer = some pool ∧
      ∀ member other, ¬(member = address ∧ other = peer) →
        next.pool? member other = network.pool? member other := by
  intro next
  obtain ⟨pools, hmember⟩ := h.member address haddress
  -- the member keeps its node, and all its pools but one
  have hnext : next = network.setHost address (.member ⟨cluster.coordinator address, nodes address,
      pools.map fun entry => if entry.1 = peer then (peer, pool) else entry, true⟩) := by
    simp only [next, Network.changeMember, hmember]
    rfl
  have hpool : ∀ other, next.pool? address other =
      if other = peer then some pool else network.pool? address other := by
    intro other
    rw [Network.pool?, hmember, Option.bind_some] at hold
    rw [hnext, Network.pool?, Network.member?_setHost_self hmember, Option.bind_some,
      lookup_replace, hold, Network.pool?, hmember, Option.bind_some]
    rfl
  refine ⟨?_, by rw [hpool, if_pos rfl], fun member other hother => ?_⟩
  · have hstands := h.setHost (nodes address)
      (pools.map fun entry => if entry.1 = peer then (peer, pool) else entry) haddress
    rw [Function.update_eq_self, ← hnext] at hstands
    exact hstands
  · by_cases heq : member = address
    · subst heq
      rw [hpool, if_neg fun hpeer => hother ⟨rfl, hpeer⟩]
    · rw [hnext, Network.pool?, Network.member?_setHost_of_ne heq, Network.pool?]

/-- Every member can be connected to. -/
theorem connect (h : cluster.Stands nodes network) {peer : String}
    (hpeer : peer ∈ cluster.addresses) :
    network.connect peer = .ok (Network.newLink peer peer (.member [] .start)) := by
  obtain ⟨target, htarget⟩ := cluster.parses peer hpeer
  obtain ⟨pools, hmember⟩ := h.member peer hpeer
  have hhost : network.hostAt? target =
      some (peer, .member ⟨cluster.coordinator peer, nodes peer, pools, true⟩) := by
    rw [Network.hostAt?, find?_eq_lookup peer]
    · have := Network.host?_of_member? hmember
      rw [Network.host?] at this
      rw [this]
      rfl
    · intro entry hentry
      -- hosts are looked up by address; no two members share one, so that the name is determined
      have hin : entry.1 ∈ cluster.addresses := h.hosts ▸ List.mem_map_of_mem hentry
      rw [decide_eq_true_iff, Address.toOption_parse_eq_some_iff]
      constructor
      · exact fun heq => cluster.apart _ hin _ hpeer (heq.trans htarget.symm)
      · exact fun heq => heq ▸ htarget
  simp only [Network.connect, htarget, hhost, h.connected]
  rfl

end Stands

end Cluster

end RingStore
