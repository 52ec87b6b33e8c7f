import RingStore.Proofs.Cluster.Upkeep

/-!
# One hop

Members that are configured with the same members find the same owner for every key, in whichever
order each lists the others. So a line that one member has another one execute is executed there and
goes no further: nothing goes round in circles, and no member is asked that there is no pool for.

## Main definitions

* `Roster.Hops`: where a command line goes from the member that gets it.

## Main results

* `Roster.memberService_of_asked`: what a member is asked for it does by itself.
* `Roster.Sound.hops`, `Roster.serviceIn_eq_one`: a line takes one hop, whatever has happened.
* `Roster.agree_and_hop_once`: agreement of the members, and one hop.
-/

namespace RingStore

/-- A line of which every owner has its part is answered by a number or an error. -/
theorem Node.isTally_reply_exec [Machine] {node : Node}
    (hregistry : node.registry = Catalogue.registry)
    {name : Bytes} (hroute : route? (Text.lowercase (Text.ofBytes name)) = some .splitKeys)
    (session : Session) (keys : List Bytes) :
    (node.exec session (name :: keys)).reply.IsTally := by
  obtain ⟨command, tally, hfind, -, hcounts, -⟩ := Catalogue.splitKeys_command hroute
  have hselect := isSelect_eq_false_of_find? hfind
  by_cases hlt : session.database < node.count
  · rw [(exec_selected hregistry hlt hselect keys).2.1, Keyspace.reply_call hfind]
    split
    · rw [hcounts.outcome]
      exact .number _
    · exact .error _
  · -- there is no such database
    have hrefused : node.exec session (name :: keys) = node.refuse session .indexOutOfRange := by
      rw [count] at hlt
      simp only [exec, hselect, execSelected, dif_neg hlt]
      rfl
    rw [hrefused]
    exact .error _

/-- The other members have pools, one each. -/
theorem Member.exists_pool_ofPeers {self peer : String} {peers : List String} {replicas : Nat}
    (options : PoolOptions) (node : Node)
    (hpeer : peer ∈ (Coordinator.ofPeers self peers replicas).members) (hne : peer ≠ self) :
    ((ofPeers self peers replicas options node).pools.lookup peer).isSome := by
  have hlisted : peer ∈ (Coordinator.ofPeers self peers replicas).peers :=
    List.mem_filter.2 ⟨hpeer, decide_eq_true hne⟩
  exact Option.isSome_of_eq_some (lookup_map_self _ (fun _ => Pool.empty options) hlisted)

namespace Roster

variable {roster : Roster} {network : Network} {home : String} {errand : Errand}
  {line : CommandLine}

/-- What a member is asked for it does by itself, whatever other members would do: it executes the
line as it gets it, or what has been forwarded to it. -/
theorem memberService_of_asked [Machine] (hhome : home ∈ roster.addresses)
    (h : errand ∈ (roster.coordinator home).errands line) (hother : errand.member ≠ home)
    (hmember : errand.member ∈ roster.addresses) :
    ∃ inner, (errand.line = inner ∨ inner = line ∧ errand.line = Coordinator.forward line) ∧
      ∀ (reached : Network) (member : Member), reached.member? errand.member = some member →
        member.coordinator = roster.coordinator errand.member →
        member.node.registry = Catalogue.registry → ∀ service session,
          Network.memberService service errand.member reached session errand.line =
            Network.execOwn errand.member reached session inner := by
  have hasked : (roster.coordinator errand.member).self = errand.member := rfl
  -- the member that is asked knows the same owners
  obtain ⟨inner, hinner, hexec⟩ :=
    Coordinator.exec_of_asked h hother hasked fun key => owner_congr hmember hhome key
  refine ⟨inner, hinner,
    fun reached member hfound hcoordinator hregistry service session => ?_⟩
  simp only [Network.memberService, hfound, hcoordinator]
  refine hexec (Network.surroundings service errand.member) reached session
    fun name keys hroute => ?_
  simp only [Network.surroundings, Network.execOwn, hfound]
  exact Node.isTally_reply_exec hregistry hroute session keys

/-- A member executes a selection by itself. -/
theorem memberService_selection [Machine] (h : roster.Sound network) {address : String}
    (haddress : address ∈ roster.addresses) (service : String → Service Network)
    (session selected : Session) :
    Network.memberService service address network session (PeerAccess.selection selected) =
      Network.execOwn address network session (PeerAccess.selection selected) := by
  have hroute : route? (Text.lowercase (Text.ofBytes (Text.toBytes "SELECT"))) = some .here := by
    decide +kernel
  obtain ⟨member, hmember, -⟩ := h.exists_member? haddress
  simp only [Network.memberService, hmember]
  exact Coordinator.exec_here _ _ _ _ hroute _

/-- The errands for a line are for members. -/
theorem mem_addresses_of_mem_errands (hhome : home ∈ roster.addresses)
    (h : errand ∈ (roster.coordinator home).errands line) : errand.member ∈ roster.addresses := by
  cases Coordinator.entrusts_of_mem_errands h with
  | here => exact hhome
  | firstKey => exact owner_mem hhome _
  | splitKeys route some sublist owns =>
    obtain ⟨key, rest, rfl⟩ := List.exists_cons_of_ne_nil some
    exact owns key List.mem_cons_self ▸ owner_mem hhome key
  | sameOwner => exact owner_mem hhome _
  | broadcast route listed => exact (mem_members_iff hhome).1 listed
  | forwarded => exact hhome

/-- It makes no difference to a line how deeply requests may nest beyond one. -/
theorem serviceIn_eq_one [Machine] (hapart : roster.Apart) (h : roster.Sound network)
    (hhome : home ∈ roster.addresses) (fates : Network.Fates) (depth : Nat) (session : Session)
    (line : CommandLine) :
    Network.memberService (Network.serviceIn fates (depth + 1)) home network session line =
      Network.memberService (Network.serviceIn fates 1) home network session line := by
  refine (h.memberService_congr (fun errand herrand hother => ?_) session).1
  have hmember := mem_addresses_of_mem_errands hhome herrand
  -- a connection for the member leads to it, since no other one is at its address
  have halike : ∀ asked : CommandLine, (∀ reached, roster.Sound reached → ∀ session,
      Network.memberService (Network.serviceIn fates depth) errand.member reached session asked =
        Network.memberService (Network.serviceIn fates 0) errand.member reached session asked) →
      roster.Alike (Network.serviceIn fates (depth + 1)) (Network.serviceIn fates 1) errand.member
        asked := by
    intro asked hasked host hhost hsame reached hreached session
    obtain rfl := hapart host hhost _ hmember hsame
    refine ⟨?_, preserves_serviceIn fates (depth + 1) reached hreached ..⟩
    simp only [Network.serviceIn, Fate.meet, hasked reached hreached session]
  obtain ⟨inner, -, hinner⟩ := memberService_of_asked hhome herrand hother hmember
  constructor
  · refine halike _ fun reached hreached session => ?_
    obtain ⟨member, hfound, hkeeps⟩ := hreached.exists_member? hmember
    have hown := hinner reached member hfound hkeeps.coordinator hkeeps.registry
    rw [hown, hown]
  · refine fun selected => halike _ fun reached hreached session => ?_
    rw [memberService_selection hreached hmember, memberService_selection hreached hmember]

variable (roster) in
/-- Where a command line goes from the member that gets it. `service` is what other members do with
what they are asked. -/
structure Hops [Machine] (network : Network) (service : String → Service Network) (home : String)
    (session : Session) (line : CommandLine) : Prop where
  /-- The member has its errands done in order, maybe not all, and does nothing else. -/
  errands : ∃ done, done <+: (roster.coordinator home).errands line ∧
    let served := Network.memberService service home network session line
    (served.state, served.session) = (roster.coordinator home).carryOut
      (Network.surroundings service home) done network session
  /-- No member has two of them. -/
  once : (((roster.coordinator home).errands line).map Errand.member).Nodup
  /-- There is a pool for whoever has one, also after some of them. -/
  pooled : ∀ errand ∈ (roster.coordinator home).errands line, errand.member ≠ home →
    ∀ before, before <+: (roster.coordinator home).errands line →
      let reached := ((roster.coordinator home).carryOut (Network.surroundings service home) before
        network session).1
      (reached.pool? home errand.member).isSome
  /-- What another member is asked for it executes on its own databases: the line that it gets, or
  the one that has been forwarded to it. -/
  executed : ∀ errand ∈ (roster.coordinator home).errands line, errand.member ≠ home →
    ∃ inner, (errand.line = inner ∨ inner = line ∧ errand.line = Coordinator.forward line) ∧
      ∀ (reached : Network) (member : Member), reached.member? errand.member = some member →
        member.coordinator = roster.coordinator errand.member →
        member.node.registry = Catalogue.registry → ∀ service session,
          Network.memberService service errand.member reached session errand.line =
            Network.execOwn errand.member reached session inner
  /-- A line that has been forwarded concerns no other member. -/
  forwarded : ∀ marker arguments, line = marker :: arguments →
    Text.lowercase (Text.ofBytes marker) = forwardedName →
    (∀ errand ∈ (roster.coordinator home).errands line, errand.member = home) ∧
      ∀ other, Network.memberService service home network session line =
        Network.memberService other home network session line

/-- A command line takes one hop at most, if members keep what is their own. -/
theorem Sound.hops [Machine] (h : roster.Sound network) (hhome : home ∈ roster.addresses)
    {service : String → Service Network} (hservice : roster.Preserves service) (session : Session)
    (line : CommandLine) : roster.Hops network service home session line := by
  obtain ⟨member, hmember, hkeeps⟩ := h.exists_member? hhome
  have hexec : ∀ service, Network.memberService service home network session line =
      (roster.coordinator home).exec (Network.surroundings service home) network session line := by
    intro service
    simp only [Network.memberService, hmember, hkeeps.coordinator]
  refine ⟨?_, ?_, fun errand herrand hother before hbefore => ?_,
    fun errand herrand hother => ?_, ?_⟩
  · simp only [hexec]
    exact Coordinator.exec_eq_carryOut _ _ _ _ _
  · exact Coordinator.nodup_errands (Coordinator.nodup_members_ofPeers roster.replicas) line
  · -- errands before this one change no member's list of pools
    have hpeer : errand.member ∈ (roster.coordinator home).peers :=
      (mem_peers_iff hhome).2 ⟨mem_addresses_of_mem_errands hhome herrand, hother⟩
    obtain ⟨pool, hpool⟩ :=
      (hservice.carryOut h hbefore.subset session).exists_pool? hhome hpeer
    exact Option.isSome_of_eq_some hpool
  · exact memberService_of_asked hhome herrand hother (mem_addresses_of_mem_errands hhome herrand)
  · rintro marker arguments rfl hmarker
    have hself : ∀ errand ∈ (roster.coordinator home).errands (marker :: arguments),
        errand.member = (roster.coordinator home).self :=
      fun errand herrand => Coordinator.eq_self_of_forwarded hmarker herrand
    refine ⟨hself, fun other => ?_⟩
    -- the service of others is found in the surroundings only where others are asked
    have hhere : (Network.surroundings service home).here =
      (Network.surroundings other home).here := rfl
    rw [hexec, hexec]
    exact Coordinator.exec_of_errands_self hself hhere network session

/-- Members that are configured with the same members agree on every owner, and each has a pool for
any owner but itself. A command line that one of them gets, whatever has happened, takes one hop at
most: no member is asked twice, a member that is asked executes what it gets by itself, and what is
forwarded to everyone goes no further. If no two members are at one address, it makes no difference
how deeply requests may nest beyond one. -/
theorem agree_and_hop_once [Machine] :
    (∀ (self other : String) (peers otherPeers : List String) (replicas : Nat),
      (∀ address, address = self ∨ address ∈ peers ↔ address = other ∨ address ∈ otherPeers) →
      ∀ (options : PoolOptions) (node : Node) (key : Bytes),
        let member := Member.ofPeers self peers replicas options node
        let owner := member.coordinator.owner key
        owner = (Coordinator.ofPeers other otherPeers replicas).owner key ∧
          (owner = self ∨ (member.pools.lookup owner).isSome)) ∧
    ∀ (roster : Roster) (events : List Network.Event) (home : String), home ∈ roster.addresses →
      ∀ (fates : Network.Fates) (session : Session) (line : CommandLine),
        let network := roster.after events
        roster.Hops network (Network.serviceIn fates network.depth) home session line ∧
          (roster.Apart → ∀ depth, network.execIn fates home session line =
            Network.memberService (Network.serviceIn fates (depth + 1)) home network session
              line) := by
  constructor
  · intro self other peers otherPeers replicas hsame options node key member owner
    refine ⟨Coordinator.owner_ofPeers_congr replicas hsame key, ?_⟩
    by_cases hself : owner = self
    · exact .inl hself
    · exact .inr (Member.exists_pool_ofPeers options node
        (Coordinator.owner_ofPeers_mem replicas key) hself)
  · intro roster events home hhome fates session line network
    have h : roster.Sound network := roster.sound_after events
    refine ⟨h.hops hhome (preserves_serviceIn fates network.depth) session line,
      fun hapart depth => ?_⟩
    -- there is always room for one request, and more room changes nothing
    obtain ⟨deep, hdeep⟩ := network.exists_depth
    rw [Network.execIn, hdeep]
    exact (serviceIn_eq_one hapart h hhome fates deep session line).trans
      (serviceIn_eq_one hapart h hhome fates depth session line).symm

/-- One member is asked for the number of keys after the other one has been asked to store one.
There is a pool for the other member, and that one asks nobody. -/
theorem agree_and_hop_once_pair :
    let fates : Network.Fates := fun _ _ _ _ => .whole
    let network := pair.after
      [.request fates "127.0.0.1:7102" .start [Text.toBytes "SET", [107], [118]]]
    let counting : CommandLine := [Text.toBytes "DBSIZE"]
    (Coordinator.ofPeers "127.0.0.1:7101" ["127.0.0.1:7102"] 1).owner [107] =
        (Coordinator.ofPeers "127.0.0.1:7102" ["127.0.0.1:7101"] 1).owner [107] ∧
      (network.pool? "127.0.0.1:7101" "127.0.0.1:7102").isSome ∧
      network.execIn fates "127.0.0.1:7101" .start counting =
        Network.memberService (Network.serviceIn fates 1) "127.0.0.1:7101" network .start
          counting := by
  intro fates network counting
  obtain ⟨hagree, hhop⟩ := agree_and_hop_once
  have hfirst : "127.0.0.1:7101" ∈ pair.addresses := List.mem_cons_self
  have hsame : ∀ address, address = "127.0.0.1:7101" ∨ address ∈ ["127.0.0.1:7102"] ↔
      address = "127.0.0.1:7102" ∨ address ∈ ["127.0.0.1:7101"] := by
    intro address
    rw [List.mem_singleton, List.mem_singleton]
    exact Or.comm
  have hapart : pair.Apart := by
    have hnames : ∀ member ∈ pair.addresses, ∀ other ∈ pair.addresses,
        Address.parse member = Address.parse other → member = other := by decide +kernel
    rintro member hmember other hother ⟨target, hparse, hparse'⟩
    exact hnames member hmember other hother (hparse.trans hparse'.symm)
  obtain ⟨hops, hone⟩ := hhop pair
    [.request fates "127.0.0.1:7102" .start [Text.toBytes "SET", [107], [118]]] "127.0.0.1:7101"
    hfirst fates .start counting
  refine ⟨(hagree _ _ _ _ 1 hsame ⟨1, 1⟩ (.empty Catalogue.registry 1) [107]).1, ?_,
    hone hapart 0⟩
  have hasked : (⟨"127.0.0.1:7102", Coordinator.forward counting⟩ : Errand) ∈
      (pair.coordinator "127.0.0.1:7101").errands counting := by
    rw [show (pair.coordinator "127.0.0.1:7101").errands counting =
      [⟨"127.0.0.1:7102", Coordinator.forward counting⟩, ⟨"127.0.0.1:7101", counting⟩] by
        decide +kernel]
    exact List.mem_cons_self
  exact hops.pooled _ hasked (by decide) [] List.nil_prefix

end Roster

end RingStore
