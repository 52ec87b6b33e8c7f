import RingStore.Proofs.Cluster.Asking
import RingStore.Proofs.Cluster.Roster
import RingStore.Proofs.Cluster.Placement

/-!
# What members keep, whatever happens

Every member keeps its coordinator and a pool for each of its peers, and it stores only keys that
belong to it. The connections in a pool lead to members at the peer's address. Nothing that happens
on a network changes that: command lines of any kind, requests that fail on the way, servers that
stop, pools that are closed.

The step is one command line at one member. Its errands are done one after the other, each by the
member itself or over a connection; how deeply requests nest is the one thing that the induction is
on. The same lemmas tell when two services of other members are as good as each other.

## Main definitions

* `Roster.Leads`: where a connection for a peer leads.
* `Roster.Keeps`, `Roster.Sound`: what a member keeps, and what all members keep.
* `Roster.Alike`: members at a peer's address do the same with a command line.
* `Roster.Preserves`: members keep what is their own.

## Main results

* `Roster.Sound.memberService_congr`: one command line at one member.
* `Roster.preserves_serviceIn`: any command line, however deeply requests nest.
* `Roster.sound_after`: any events.
* `Roster.keys_at_owner`: every stored key is at its owner.
-/

namespace RingStore

namespace Roster

variable (roster : Roster)

/-- A connection for a peer leads to a member at the peer's address, and nothing is left over at its
far end. -/
structure Leads (peer : String) (link : Link) : Prop where
  /-- A member is at the far end. -/
  host : link.host ∈ roster.addresses
  /-- Its name and the peer's denote one address. -/
  same : SamePlace link.host peer
  /-- Nothing is left over at the far end. -/
  idle : link.Idle

/-- What a member keeps. -/
structure Keeps [Machine] (address : String) (member : Member) : Prop where
  /-- It keeps its coordinator. -/
  coordinator : member.coordinator = roster.coordinator address
  /-- It keeps its commands. -/
  registry : member.node.registry = Catalogue.registry
  /-- It stores its own keys only. -/
  owned : ∀ index, ∀ key ∈ (member.node.keyspaceAt index).keys,
    (roster.coordinator address).owner key = address
  /-- It has a pool for each of its peers. -/
  pools : member.pools.map Prod.fst = (roster.coordinator address).peers
  /-- The connections in a pool lead to its peer. -/
  leads : ∀ entry ∈ member.pools, ∀ link ∈ entry.2.idle, roster.Leads entry.1 link

/-- All hosts are members, and each keeps what is its own. -/
structure Sound [Machine] (network : Network) : Prop where
  /-- The hosts are the members. -/
  hosts : network.hosts.map Prod.fst = roster.addresses
  /-- Each keeps what is its own. -/
  keeps : ∀ entry ∈ network.hosts, ∃ member, entry.2 = .member member ∧
    roster.Keeps entry.1 member

variable {roster} {network : Network} {address peer : String} {member : Member}

theorem Leads.of_host_eq {link after : Link} (h : roster.Leads peer link)
    (hhost : after.host = link.host) (hidle : after.Idle) : roster.Leads peer after where
  host := hhost ▸ h.host
  same := hhost ▸ h.same
  idle := hidle

/-- A member keeps what is its own when a pool takes the place of the one for a peer. -/
theorem Keeps.setPool [Machine] (h : roster.Keeps address member) {pool : Pool Link}
    (hpool : ∀ link ∈ pool.idle, roster.Leads peer link) :
    roster.Keeps address (member.setPool peer pool) where
  coordinator := h.coordinator
  registry := h.registry
  owned := h.owned
  pools := by
    rw [← h.pools, Member.setPool, List.map_map]
    refine List.map_congr_left fun entry _ => ?_
    simp only [Function.comp_apply]
    split
    · next heq => exact heq.symm
    · rfl
  leads entry hentry := by
    obtain ⟨old, hold, rfl⟩ := List.mem_map.1 hentry
    split
    · exact hpool
    · exact h.leads old hold

/-- A member that closes its pools keeps what is its own. -/
theorem Keeps.closePools [Machine] (h : roster.Keeps address member) :
    roster.Keeps address member.closePools where
  coordinator := h.coordinator
  registry := h.registry
  owned := h.owned
  pools := by
    rw [← h.pools, Member.closePools, List.map_map]
    rfl
  leads entry hentry link hlink := by
    obtain ⟨old, -, rfl⟩ := List.mem_map.1 hentry
    exact absurd hlink List.not_mem_nil

/-- A member keeps what is its own when it executes a line that its coordinator leaves to it. -/
theorem Keeps.serve [Machine] (h : roster.Keeps address member) {line : CommandLine}
    {errand : Errand} (herrand : errand ∈ (roster.coordinator address).errands line)
    (hself : errand.member = address) (session : Session) :
    roster.Keeps address
      { member with node := (member.node.serve session errand.line).state } where
  coordinator := h.coordinator
  registry := (Node.registry_exec member.node session errand.line).trans h.registry
  owned index key hkey := by
    have hkeyspace := Node.keyspaceAt_exec h.registry session errand.line index
    replace hkey : key ∈ ((member.node.exec session errand.line).state.keyspaceAt index).keys :=
      hkey
    -- one database executes the line, and what that stores belongs to the member
    rw [hkeyspace] at hkey
    split at hkey
    · exact (Coordinator.owner_of_mem_keys_after herrand hself hkey).elim (h.owned index key) id
    · exact h.owned index key hkey
  pools := h.pools
  leads := h.leads

/-- At first no member stores a key, and no pool has a connection. -/
theorem keeps_member [Machine] (address : String) :
    roster.Keeps address (roster.member address) where
  coordinator := rfl
  registry := rfl
  owned index key hkey := by
    have hempty : (roster.member address).node.keyspaceAt index =
        .empty Keyspace.usualStripes := Node.keyspaceAt_empty _ _ _
    rw [hempty, Keyspace.mem_keys_iff, Keyspace.get?_empty] at hkey
    cases hkey
  pools := by
    show ((roster.coordinator address).peers.map _).map Prod.fst = _
    rw [List.map_map]
    exact List.map_id _
  leads entry hentry link hlink := by
    obtain ⟨peer, -, rfl⟩ := List.mem_map.1 hentry
    exact absurd hlink List.not_mem_nil

theorem sound_network [Machine] (roster : Roster) : roster.Sound roster.network where
  hosts := by
    rw [network, List.map_map]
    exact List.map_id _
  keeps entry hentry := by
    obtain ⟨address, -, rfl⟩ := List.mem_map.1 hentry
    exact ⟨_, rfl, keeps_member address⟩

namespace Sound

variable [Machine] (h : roster.Sound network)

include h

/-- Who is found at an address is a member, and keeps what is its own. -/
theorem keeps_of_member? (hmember : network.member? address = some member) :
    address ∈ roster.addresses ∧ roster.Keeps address member := by
  have hentry := mem_of_lookup (Network.host?_of_member? hmember)
  obtain ⟨found, hfound, hkeeps⟩ := h.keeps _ hentry
  cases hfound
  exact ⟨h.hosts ▸ List.mem_map_of_mem hentry, hkeeps⟩

/-- Every member is found at its address. -/
theorem exists_member? (haddress : address ∈ roster.addresses) :
    ∃ member, network.member? address = some member ∧ roster.Keeps address member := by
  rw [← h.hosts] at haddress
  obtain ⟨host, hhost⟩ := exists_lookup_of_mem haddress
  obtain ⟨member, hmember, hkeeps⟩ := h.keeps _ (mem_of_lookup hhost)
  replace hmember : host = .member member := hmember
  exact ⟨member, by rw [Network.member?, Network.host?, hhost, hmember], hkeeps⟩

/-- A member in the place of one. -/
theorem setHost (hkeeps : roster.Keeps address member) :
    roster.Sound (network.setHost address (.member member)) where
  hosts := (Network.map_fst_setHost _).trans h.hosts
  keeps entry hentry := by
    obtain ⟨old, hold, rfl⟩ := List.mem_map.1 hentry
    split
    · exact ⟨member, rfl, hkeeps⟩
    · exact h.keeps old hold

/-- A change that a member survives, wherever it is made. -/
theorem changeMember {change : Member → Member}
    (hchange : ∀ member, network.member? address = some member →
      roster.Keeps address member → roster.Keeps address (change member)) :
    roster.Sound (network.changeMember address change) := by
  unfold Network.changeMember
  split
  · next member hmember =>
    exact h.setHost (hchange member hmember (h.keeps_of_member? hmember).2)
  · exact h

/-- Another pool in the place of the one for a peer. -/
theorem setPool {pool : Pool Link} (hpool : ∀ link ∈ pool.idle, roster.Leads peer link) :
    roster.Sound (network.changeMember address fun member => member.setPool peer pool) :=
  h.changeMember fun _ _ hkeeps => hkeeps.setPool hpool

/-- There is a pool for a peer. -/
theorem exists_pool? (haddress : address ∈ roster.addresses)
    (hpeer : peer ∈ (roster.coordinator address).peers) :
    ∃ pool, network.pool? address peer = some pool := by
  obtain ⟨member, hmember, hkeeps⟩ := h.exists_member? haddress
  rw [Network.pool?, hmember, Option.bind_some]
  exact exists_lookup_of_mem (hkeeps.pools ▸ hpeer)

/-- The connections in the pool for a peer lead to it. -/
theorem leads_of_pool? {pool : Pool Link} (hpool : network.pool? address peer = some pool) :
    ∀ link ∈ pool.idle, roster.Leads peer link := by
  obtain ⟨member, hmember, hlookup⟩ := Option.bind_eq_some_iff.1 hpool
  exact (h.keeps_of_member? hmember).2.leads (peer, pool) (mem_of_lookup hlookup)

/-- A host that is found is a member, and its name denotes the address looked for. -/
theorem exists_member_of_hostAt? {target : Address} {name : String} {host : Host}
    (hhost : network.hostAt? target = some (name, host)) :
    name ∈ roster.addresses ∧ Address.parse name = .ok target ∧
      ∃ member, host = .member member := by
  have hentry := List.mem_of_find?_eq_some hhost
  obtain ⟨member, hmember, -⟩ := h.keeps _ hentry
  have hfound := List.find?_some hhost
  replace hfound : (Address.parse name).toOption = some target := of_decide_eq_true hfound
  exact ⟨h.hosts ▸ List.mem_map_of_mem hentry, Address.toOption_parse_eq_some_iff.1 hfound,
    member, hmember⟩

/-- A new connection leads to the peer that it was opened for. -/
theorem connect {link : Link} (hlink : network.connect peer = .ok link) :
    roster.Leads peer link := by
  unfold Network.connect at hlink
  split at hlink
  · cases hlink
  next target htarget =>
  cases hhost : network.hostAt? target with
  | none =>
    rw [hhost] at hlink
    cases hlink
  | some entry =>
    obtain ⟨name, host⟩ := entry
    obtain ⟨hname, hparse, member, rfl⟩ := h.exists_member_of_hostAt? hhost
    rw [hhost] at hlink
    dsimp only at hlink
    -- a connection is opened only if the member serves and the network is connected
    split at hlink
    · cases hlink
    · split at hlink
      · cases hlink
        exact ⟨hname, ⟨target, hparse, htarget⟩, _, rfl⟩
      · cases hlink

end Sound

variable (roster) in
/-- Members at a peer's address do the same with a command line by either of two services, and keep
what is their own. -/
def Alike [Machine] (first second : String → Service Network) (peer : String)
    (line : CommandLine) : Prop :=
  ∀ host ∈ roster.addresses, SamePlace host peer → ∀ network, roster.Sound network → ∀ session,
    let served := first host network session line
    served = second host network session line ∧ roster.Sound served.state

variable (roster) in
/-- Members keep what is their own, whichever of them does what. -/
def Preserves [Machine] (service : String → Service Network) : Prop :=
  ∀ network, roster.Sound network → ∀ address session line,
    roster.Sound (service address network session line).state

/-- A service by which members keep what is their own is as good as itself. -/
theorem Preserves.alike [Machine] {service : String → Service Network}
    (h : roster.Preserves service)
    (peer : String) (line : CommandLine) : roster.Alike service service peer line :=
  fun host _ _ network hnetwork session => ⟨rfl, h network hnetwork host session line⟩

section Relay

variable {first second : String → Service Network} {link : Link} {line : CommandLine}

/-- One request on a connection for a peer. -/
theorem Alike.ask [Machine] (halike : roster.Alike first second peer line)
    (h : roster.Sound network) (hlink : roster.Leads peer link) (hne : line ≠ []) :
    let asked := Network.ask first network link line
    asked = Network.ask second network link line ∧
      roster.Leads peer asked.2.1 ∧ roster.Sound asked.2.2 := by
  obtain ⟨member, hmember, -⟩ := h.exists_member? hlink.host
  rcases Network.ask_cases hmember hlink.idle hne with
    ⟨result, after, hhost, hidle, heq⟩ | ⟨session, answer, hanswer, heq⟩
  · -- the request has not been executed
    rw [heq first, heq second]
    exact ⟨rfl, hlink.of_host_eq hhost hidle, h⟩
  · obtain ⟨hsame, hsound⟩ := halike link.host hlink.host hlink.same network h session
    obtain ⟨hhost, hidle⟩ := hanswer (first link.host network session line)
    rw [heq first, heq second]
    simp only [← hsame]
    exact ⟨trivial, hlink.of_host_eq hhost hidle, hsound⟩

/-- The services of members are used in asking only. -/
theorem failed_access (service : String → Service Network) (home cause : String) :
    (Network.access service home peer).failed cause = (Refusal.peerFailed peer cause).reply :=
  rfl

theorem putBack_access (first second : String → Service Network) (home : String) :
    (Network.access second home peer).putBack = (Network.access first home peer).putBack := by
  funext network returned
  simp only [PeerAccess.putBack, Network.access]

/-- A selection and a command line on a connection for a peer. -/
theorem Alike.converse [Machine] (halike : roster.Alike first second peer line) {session : Session}
    (hselect : roster.Alike first second peer (PeerAccess.selection session))
    (h : roster.Sound network) (hlink : roster.Leads peer link) (hne : line ≠ [])
    (home : String) :
    let talk := (Network.access first home peer).converse network link session line
    talk = (Network.access second home peer).converse network link session line ∧
      (∀ kept, talk.2.1 = .whole kept → roster.Leads peer kept) ∧
      roster.Sound talk.2.2 := by
  obtain ⟨hsame, hafter, hnext⟩ := hselect.ask h hlink (List.cons_ne_nil _ _)
  have hask : ∀ service, (Network.access service home peer).ask = Network.ask service :=
    fun _ => rfl
  simp only [PeerAccess.converse, failed_access, hask, ← hsame]
  generalize Network.ask first network link (PeerAccess.selection session) = selected at *
  obtain ⟨result, after, next⟩ := selected
  -- a connection is kept only if every request on it was answered
  cases result with
  | error failure =>
    refine ⟨rfl, fun kept hkept => ?_, hnext⟩
    cases hkept
  | ok reply =>
    dsimp only
    split
    · -- the selection is refused, and the line is not sent
      refine ⟨rfl, fun kept hkept => ?_, hnext⟩
      cases hkept
      exact hafter
    · obtain ⟨hsame, hlast, hfinal⟩ := halike.ask hnext hafter hne
      rw [← hsame]
      generalize Network.ask first next after line = asked at *
      obtain ⟨result, last, final⟩ := asked
      cases result with
      | error failure =>
        refine ⟨rfl, fun kept hkept => ?_, hfinal⟩
        cases hkept
      | ok reply =>
        refine ⟨rfl, fun kept hkept => ?_, hfinal⟩
        cases hkept
        exact hlast

/-- A connection that is handed out. -/
theorem Sound.borrow [Machine] (h : roster.Sound network) {service : String → Service Network}
    {home : String} {pool : Pool Link}
    (hpool : (Network.access service home peer).pool? network = some pool)
    {step : PoolStep Link (Loan Link)} {opened : Network}
    (hborrow : pool.borrow (fun _ => true) (Network.access service home peer).connect network =
      (step, opened)) :
    opened = network ∧ (∀ link, step.result = .granted link → roster.Leads peer link) ∧
      roster.Sound ((Network.access service home peer).setPool network step.pool) := by
  obtain ⟨hidle, hgranted, hopened⟩ := Pool.borrow_all (h.leads_of_pool? hpool)
    (fun link hlink => h.connect hlink) hborrow
  -- opening a connection does nothing to the network
  exact ⟨hopened.elim id id, hgranted, h.setPool hidle⟩

/-- A connection that comes back, or does not. -/
theorem Sound.putBack [Machine] (h : roster.Sound network) (service : String → Service Network)
    (home : String) {returned : PeerAccess.Return Link}
    (hreturned : ∀ kept, returned = .whole kept → roster.Leads peer kept) :
    roster.Sound ((Network.access service home peer).putBack network returned) := by
  unfold PeerAccess.putBack
  split
  · exact h
  · next pool hpool =>
    have hleads := h.leads_of_pool? hpool
    cases returned with
    | whole kept => exact h.setPool (Pool.giveBack_all hleads (hreturned kept rfl))
    | broken lost => exact h.setPool hleads

/-- A command line relayed to a peer. -/
theorem Alike.relay [Machine] (halike : roster.Alike first second peer line) {session : Session}
    (hselect : roster.Alike first second peer (PeerAccess.selection session))
    (h : roster.Sound network) (hne : line ≠ []) (home : String) :
    let relayed := (Network.access first home peer).relay network session line
    relayed = (Network.access second home peer).relay network session line ∧
      roster.Sound relayed.2 := by
  -- the services are used in the conversation only
  have hpools : (Network.access second home peer).pool? =
    (Network.access first home peer).pool? := rfl
  have hconnect : (Network.access second home peer).connect =
    (Network.access first home peer).connect := rfl
  have hsetPool : (Network.access second home peer).setPool =
    (Network.access first home peer).setPool := rfl
  have hpeer : ∀ service, (Network.access service home peer).peer = peer := fun _ => rfl
  simp only [PeerAccess.relay, hpools, hconnect, hsetPool, hpeer, failed_access,
    putBack_access first second]
  cases hpool : (Network.access first home peer).pool? network with
  | none => exact ⟨rfl, h⟩
  | some pool =>
    dsimp only
    generalize hborrow : pool.borrow (fun _ => true) (Network.access first home peer).connect
      network = borrowed
    obtain ⟨step, opened⟩ := borrowed
    obtain ⟨rfl, hgranted, hlent⟩ := h.borrow hpool hborrow
    dsimp only
    cases hresult : step.result with
    | wait => exact ⟨rfl, hlent⟩
    | refused error => exact ⟨rfl, hlent⟩
    | granted link =>
      obtain ⟨hsame, hkept, hnext⟩ :=
        halike.converse hselect hlent (hgranted link hresult) hne home
      dsimp only
      rw [hsame] at hkept hnext ⊢
      exact ⟨rfl, hnext.putBack _ _ hkept⟩

end Relay

section Service

variable {first second : String → Service Network} {home : String} {line : CommandLine}

/-- A member executes on its own databases what its coordinator leaves to it. -/
theorem Sound.execOwn [Machine] (h : roster.Sound network) {errand : Errand}
    (herrand : errand ∈ (roster.coordinator home).errands line) (hself : errand.member = home)
    (session : Session) :
    roster.Sound (Network.execOwn home network session errand.line).state := by
  unfold Network.execOwn
  split
  · exact h
  · next member hmember =>
    exact h.setHost ((h.keeps_of_member? hmember).2.serve herrand hself session)

/-- One errand of a member. The services of other members are as good as each other if they are for
what one of these is asked. -/
theorem Sound.errand_congr [Machine] (h : roster.Sound network) {errand : Errand}
    (herrand : errand ∈ (roster.coordinator home).errands line)
    (halike : errand.member ≠ home → roster.Alike first second errand.member errand.line ∧
      ∀ session, roster.Alike first second errand.member (PeerAccess.selection session))
    (session : Session) :
    let served := (roster.coordinator home).relay (Network.surroundings first home) errand.member
      network session errand.line
    served = (roster.coordinator home).relay (Network.surroundings second home) errand.member
      network session errand.line ∧ roster.Sound served.state := by
  by_cases hself : errand.member = home
  · have hrelay : ∀ surroundings : Surroundings Network,
        (roster.coordinator home).relay surroundings errand.member network session errand.line =
          surroundings.here network session errand.line :=
      fun surroundings => if_pos hself
    -- what it does itself needs no service of others
    simp only [hrelay]
    exact ⟨rfl, h.execOwn herrand hself session⟩
  · have hrelay : ∀ surroundings : Surroundings Network,
        (roster.coordinator home).relay surroundings errand.member network session errand.line =
          let asked := surroundings.there errand.member network session errand.line
          ⟨asked.2, session, asked.1⟩ :=
      fun surroundings => if_neg hself
    obtain ⟨hline, hselect⟩ := halike hself
    have hne := (Coordinator.entrusts_of_mem_errands herrand).line_ne_nil
    obtain ⟨hsame, hsound⟩ := hline.relay (hselect session) h hne home
    simp only [hrelay, Network.surroundings, ← hsame]
    exact ⟨trivial, hsound⟩

/-- The services of other members are as good as each other to a member, if they are for each of its
errands, and it leaves every member what is its own. -/
theorem Sound.memberService_congr [Machine] (h : roster.Sound network)
    (halike : ∀ errand ∈ (roster.coordinator home).errands line, errand.member ≠ home →
      roster.Alike first second errand.member errand.line ∧
        ∀ session, roster.Alike first second errand.member (PeerAccess.selection session))
    (session : Session) :
    let served := Network.memberService first home network session line
    served = Network.memberService second home network session line ∧
      roster.Sound served.state := by
  simp only [Network.memberService]
  cases hmember : network.member? home with
  | none => exact ⟨rfl, h⟩
  | some member =>
    dsimp only
    rw [(h.keeps_of_member? hmember).2.coordinator]
    exact Coordinator.exec_congr (fun errand herrand _ session hnetwork =>
      hnetwork.errand_congr herrand (halike errand herrand) session) h session

namespace Preserves

variable [Machine] {service : String → Service Network} (h : roster.Preserves service)

include h

/-- Any errands for a command line. -/
theorem carryOut (hnetwork : roster.Sound network) {errands : List Errand}
    (herrands : errands ⊆ (roster.coordinator home).errands line) (session : Session) :
    roster.Sound ((roster.coordinator home).carryOut (Network.surroundings service home) errands
      network session).1 := by
  induction errands generalizing network session with
  | nil => exact hnetwork
  | cons errand rest ih =>
    obtain ⟨herrand, hrest⟩ := List.cons_subset.1 herrands
    have hfirst := hnetwork.errand_congr herrand
      (fun _ => ⟨h.alike _ _, fun _ => h.alike _ _⟩) session
    exact ih hfirst.2 hrest _

/-- Any command line at any member. -/
theorem memberService : roster.Preserves (Network.memberService service) := by
  intro network hnetwork address session line
  exact (hnetwork.memberService_congr
    (fun _ _ _ => ⟨h.alike _ _, fun _ => h.alike _ _⟩) session).2

/-- Command lines that meet fates. -/
theorem meet (fates : Network.Fates) :
    roster.Preserves fun address => Fate.meet (fates address) (service address) := by
  intro network hnetwork address session line
  unfold Fate.meet
  dsimp only
  split
  · exact h network hnetwork address session line
  · exact hnetwork

end Preserves

/-- Any command line, however deeply requests nest and whatever becomes of them. -/
theorem preserves_serviceIn [Machine] (fates : Network.Fates) (depth : Nat) :
    roster.Preserves (Network.serviceIn fates depth) := by
  induction depth with
  | zero =>
    -- a member that does not answer does nothing either
    have hsilent : roster.Preserves fun _ network session _ => ⟨network, session, .silent⟩ :=
      fun _ hnetwork _ _ _ => hnetwork
    exact hsilent.meet fates
  | succ depth ih => exact ih.memberService.meet fates

end Service

/-- Whatever happens, members keep what is their own. -/
theorem Sound.apply [Machine] (h : roster.Sound network) (event : Network.Event) :
    roster.Sound (event.apply network) := by
  -- the servers and the wires have no part in what members keep
  cases event with
  | request fates address session line =>
    exact (preserves_serviceIn fates network.depth).memberService network h address session line
  | stop address =>
    exact h.changeMember fun _ _ hkeeps =>
      ⟨hkeeps.coordinator, hkeeps.registry, hkeeps.owned, hkeeps.closePools.pools,
        hkeeps.closePools.leads⟩
  | closePools address => exact h.changeMember fun _ _ hkeeps => hkeeps.closePools
  | connect connected => exact ⟨h.hosts, h.keeps⟩

/-- However much happens, members keep what is their own. -/
theorem sound_after [Machine] (roster : Roster) (events : List Network.Event) :
    roster.Sound (roster.after events) := by
  have hfoldl : ∀ (events : List Network.Event) (network : Network), roster.Sound network →
      roster.Sound (events.foldl Network.Event.apply network) := by
    intro events
    induction events with
    | nil => exact fun _ h => h
    | cons event rest ih => exact fun network h => ih _ (h.apply event)
  exact hfoldl events _ roster.sound_network

/-- Every key that is stored anywhere is stored by its owner, and that is its owner by every
member's reckoning. -/
theorem keys_at_owner [Machine] (roster : Roster) (events : List Network.Event) :
    let network := roster.after events
    (∀ address, address ∈ roster.addresses ↔ ∃ member, network.member? address = some member) ∧
    ∀ address member, network.member? address = some member →
      ∀ index, ∀ key ∈ (member.node.keyspaceAt index).keys,
        ∀ other asked, network.member? other = some asked →
          asked.coordinator.owner key = address := by
  intro network
  have h : roster.Sound network := roster.sound_after events
  refine ⟨fun address => ⟨fun haddress => ?_, fun ⟨member, hmember⟩ => ?_⟩,
    fun address member hmember index key hkey other asked hasked => ?_⟩
  · obtain ⟨member, hmember, -⟩ := h.exists_member? haddress
    exact ⟨member, hmember⟩
  · exact (h.keeps_of_member? hmember).1
  · obtain ⟨haddress, hkeeps⟩ := h.keeps_of_member? hmember
    obtain ⟨hother, hasked⟩ := h.keeps_of_member? hasked
    -- whoever is asked, the owner is the one that the member itself finds
    rw [hasked.coordinator, owner_congr hother haddress]
    exact hkeeps.owned index key hkey

/-- Two members on one machine. -/
def pair : Roster where
  addresses := ["127.0.0.1:7101", "127.0.0.1:7102"]
  nodup := by decide
  peers _ := ["127.0.0.1:7101", "127.0.0.1:7102"]
  known member hmember address := ⟨fun h => h.elim (fun heq => heq ▸ hmember) id, .inr⟩
  replicas := 1
  databases _ := 1
  options _ := ⟨1, 1⟩

/-- After the network has been cut, a value is stored by the owner of its key, which is asked to. -/
theorem keys_at_owner_pair :
    let home := (pair.coordinator "127.0.0.1:7101").owner [107]
    let storing : CommandLine := [Text.toBytes "SET", [107], [118]]
    let network := pair.after
      [.connect false, .request (fun _ _ _ _ => .whole) home .start storing]
    ∃ member, network.member? home = some member ∧
      (member.node.keyspaceAt 0).keys = [[107]] ∧
      ∀ other asked, network.member? other = some asked →
        asked.coordinator.owner [107] = home := by
  intro home storing network
  have hfirst : "127.0.0.1:7101" ∈ pair.addresses := List.mem_cons_self
  have hhome : home ∈ pair.addresses := owner_mem hfirst [107]
  have howner : (pair.coordinator "127.0.0.1:7101").owner [107] = home := rfl
  -- who owns the key does not matter
  clear_value home
  have hroute : route? (Text.lowercase (Text.ofBytes (Text.toBytes "SET"))) = some .firstKey := by
    decide +kernel
  -- the owner executes the line itself
  let stored := ((Node.empty Catalogue.registry 1).exec .start storing).state
  have hcut : ({ pair.network with connected := false } : Network).member? home =
      some (pair.member home) := member?_network hhome
  have hnetwork : network = ({ pair.network with connected := false } : Network).setHost home
      (.member { pair.member home with node := stored }) := by
    show (Network.memberService _ home { pair.network with connected := false } _ _).state = _
    simp only [Network.memberService, hcut]
    show ((pair.coordinator home).exec _ _ _ _).state = _
    rw [Coordinator.exec_firstKey _ _ _ _ hroute, owner_congr hhome hfirst, howner]
    show ((pair.coordinator home).relay _ (pair.coordinator home).self _ _ _).state = _
    rw [Coordinator.relay_self]
    simp only [Network.surroundings, Network.execOwn, hcut]
    rfl
  have hmember : network.member? home = some { pair.member home with node := stored } := by
    rw [hnetwork]
    exact Network.member?_setHost_self hcut _
  have hkeys : (stored.keyspaceAt 0).keys = [[107]] := by decide +kernel
  refine ⟨_, hmember, hkeys, (keys_at_owner pair _).2 home _ hmember 0 [107] ?_⟩
  show [107] ∈ (stored.keyspaceAt 0).keys
  rw [hkeys]
  exact List.mem_cons_self

end Roster

end RingStore
