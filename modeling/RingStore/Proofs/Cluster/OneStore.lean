import RingStore.Proofs.Attended
import RingStore.Proofs.Cluster.Mirror

/-!
# A healthy cluster behaves as one store

A cluster of members that agree on who they are and that reach one another, and one store with as
many databases, both without keys at first, serve the same clients. Each client has a session of
its own and is attached to one of the members, whichever; the clients' command lines come one at a
time. Every reply of the cluster is then the store's, and after every line the keyspaces that the
members have in a database do not overlap, and together they are the store's. The one exception is
a renaming to a key of another member, which the cluster refuses.

## Main definitions

* `Comparison.run`: a cluster and a store after the same requests.
* `Comparison.Admits`: the requests that keep the limits of connections.
* `Cluster.Partitions`: the members' keyspaces make up one keyspace.

## Main results

* `Comparison.InStep.step`: every request keeps the cluster a mirror of the store.
* `Cluster.acts_as_one_store`: replies and keyspaces of a cluster and of a store.
-/

namespace RingStore

/-- What a member has in the database of a number; nothing if there is no such member. -/
def Network.keyspaceAt [Machine] (network : Network) (address : String) (index : Nat) : Keyspace :=
  ((network.member? address).map fun member => member.node.keyspaceAt index).getD
    (.empty Keyspace.usualStripes)

namespace Cluster

variable (cluster : Cluster)

/-- What a cluster does for a client: the member to which the client is attached executes its
lines. -/
def service (home : Nat → { address // address ∈ cluster.addresses }) : Nat → Service Network :=
  fun client network => network.exec (home client).1

/-- The keyspaces that the members have in a database make up one keyspace. -/
structure Partitions [Machine] (network : Network) (index : Nat) (whole : Keyspace) : Prop where
  /-- No two of them have a key in common. -/
  disjoint : ∀ address ∈ cluster.addresses, ∀ other ∈ cluster.addresses, address ≠ other →
    ∀ key ∈ (network.keyspaceAt address index).keys, key ∉ (network.keyspaceAt other index).keys
  /-- Together they store what is stored in the whole. -/
  union : ∀ key entity, whole.get? key = some entity ↔
    ∃ address ∈ cluster.addresses, (network.keyspaceAt address index).get? key = some entity

end Cluster

/-- A cluster and a store that serve the same clients. -/
structure Comparison where
  /-- The cluster. -/
  cluster : Attended Network
  /-- The store. -/
  store : Attended Node

namespace Comparison

variable (cluster : Cluster) (home : Nat → { address // address ∈ cluster.addresses })

/-- Before any request: neither has keys, and both have as many databases. -/
def start [Machine] : Comparison where
  cluster := .start cluster.network
  store := .start (.empty Catalogue.registry cluster.databases)

/-- After a request to both. The store is not asked for renamings that the cluster refuses. -/
def step (both : Comparison) (request : Request) : Comparison where
  cluster := both.cluster.after (cluster.service home) request
  store :=
    if cluster.Separates request.line then both.store else both.store.after Node.service request

/-- After requests, one at a time. -/
def run [Machine] (requests : List Request) : Comparison :=
  requests.foldl (step cluster home) (start cluster)

/-- A request that names a routed command and keeps the limits of whoever reads it: the line can be
read, also as a forwarded one, every member's reply to it can be read, and keys can be counted in 64
bits. What other members are asked is not longer than what a connection takes at once. -/
structure Admits [Machine] (both : Comparison) (request : Request) : Prop where
  /-- The command is routed. -/
  shared : request.line.Shared
  /-- The line can be read, also as a forwarded one. -/
  line : (Coordinator.forward request.line).Framed
  /-- The connections to other members take what these are asked. -/
  errands : ∀ errand ∈ (cluster.coordinator (home request.client).1).errands request.line,
    errand.member ≠ (home request.client).1 →
      (encodeCommandLine errand.line).length ≤ Connection.usualQueryBuffer
  /-- What the members would reply can be read. -/
  replies : ∀ address ∈ cluster.addresses, (both.cluster.state.execHere address
    (both.cluster.sessions request.client) request.line).reply.WithinLimits
  /-- Not more keys are stored than a machine of 64 bits can hold. -/
  size : (both.store.state.keyspaceAt (both.store.sessions request.client).database).size <
    9223372036854775808

/-- Each of several requests is one that the comparison admits when its turn comes. -/
def AdmitsAll [Machine] (both : Comparison) : List Request → Prop
  | [] => True
  | request :: rest =>
    both.Admits cluster home request ∧ (both.step cluster home request).AdmitsAll rest

/-- The cluster mirrors the store, and the clients' sessions are the same on both. -/
structure InStep [Machine] (both : Comparison) : Prop where
  /-- The cluster mirrors the store. -/
  mirrors : ∃ nodes, cluster.Mirrors nodes both.cluster.state both.store.state
  /-- The sessions are the same. -/
  sessions : both.cluster.sessions = both.store.sessions
  /-- All of them are on databases that there are. -/
  valid : ∀ client, (both.store.sessions client).Valid both.store.state.count

end Comparison

namespace Cluster

variable {cluster : Cluster}

theorem member?_network [Machine] {address : String} (h : address ∈ cluster.addresses) :
    cluster.network.member? address = some (cluster.member address) := by
  rw [Network.member?, Network.host?, network, lookup_map_self _ _ h]

/-- At first every member serves, and no pool has a connection yet. -/
theorem serves_network [Machine] (cluster : Cluster) :
    cluster.Serves (fun _ => .empty Catalogue.registry cluster.databases) cluster.network where
  connected := rfl
  hosts := by
    rw [network, List.map_map]
    exact List.map_id _
  member address haddress := ⟨_, member?_network haddress⟩
  pools member hmember peer hpeer hne := by
    have hlisted : peer ∈ (cluster.coordinator member).peers :=
      (mem_peers_iff hmember).2 ⟨hpeer, hne⟩
    refine ⟨.empty (cluster.options member), ?_, rfl, ?_, fun link hlink => by cases hlink⟩
    · rw [Network.pool?, member?_network hmember]
      exact lookup_map_self _ (fun _ => Pool.empty (cluster.options member)) hlisted
    · exact Nat.ne_of_gt (Pool.capacity_pos _)

/-- The members' shares make up the store's keyspace. -/
theorem Mirrors.partitions [Machine] {nodes : String → Node} {network : Network} {store : Node}
    (h : cluster.Mirrors nodes network store) {home : String} (hhome : home ∈ cluster.addresses)
    (index : Nat) : cluster.Partitions network index (store.keyspaceAt index) := by
  have hshare : ∀ address ∈ cluster.addresses, (network.keyspaceAt address index).IsShare
      (store.keyspaceAt index) fun key => cluster.owner key = address := by
    intro address haddress
    obtain ⟨pools, hmember⟩ := h.member address haddress
    rw [Network.keyspaceAt, hmember]
    exact h.divides.share address haddress index
  constructor
  · -- a key that two members have would have both as its owner
    intro address haddress other hother hne key hkey hkey'
    have howner := ((hshare address haddress).mem_keys_iff.1 hkey).1
    have howner' := ((hshare other hother).mem_keys_iff.1 hkey').1
    exact hne (howner.symm.trans howner')
  · intro key entity
    constructor
    · intro hstored
      have howner := owner_mem hhome key
      exact ⟨_, howner, ((hshare _ howner key).1 rfl).trans hstored⟩
    · rintro ⟨address, haddress, hstored⟩
      -- a member that does not own the key has nothing under it
      by_cases howner : cluster.owner key = address
      · exact ((hshare address haddress key).1 howner).symm.trans hstored
      · rw [(hshare address haddress key).2 howner] at hstored
        cases hstored

end Cluster

namespace Comparison

variable {cluster : Cluster}

theorem inStep_start [Machine] (cluster : Cluster) : (start cluster).InStep cluster where
  mirrors := ⟨_, cluster.serves_network, cluster.divides_empty, rfl⟩
  sessions := rfl
  valid _ := by
    refine ⟨?_, Nat.two_pow_pos 64⟩
    show 0 < (Node.empty Catalogue.registry cluster.databases).count
    rw [Node.count_empty]
    split
    · decide
    · next hne => exact Nat.pos_of_ne_zero hne

variable (home : Nat → { address // address ∈ cluster.addresses }) {both : Comparison}

theorem admitsAll_append [Machine] {before rest : List Request} :
    both.AdmitsAll cluster home (before ++ rest) ↔ both.AdmitsAll cluster home before ∧
      (before.foldl (step cluster home) both).AdmitsAll cluster home rest := by
  induction before generalizing both with
  | nil => simp [AdmitsAll]
  | cons request before ih => rw [List.cons_append, AdmitsAll, AdmitsAll, ih, and_assoc]; rfl

variable {request : Request}

/-- Other members take what they are asked for such a request. -/
theorem Admits.sendable [Machine] (h : both.Admits cluster home request) {errand : Errand}
    (herrand : errand ∈ (cluster.coordinator (home request.client).1).errands request.line)
    (hother : errand.member ≠ (home request.client).1) : errand.line.Sendable where
  ne_nil := (Coordinator.entrusts_of_mem_errands herrand).line_ne_nil
  framed := h.line.sublist (Coordinator.sublist_forward herrand hother)
  length := h.errands errand herrand hother

/-- What a request gets of a cluster that is in step with a store. -/
theorem InStep.serve [Machine] (h : both.InStep cluster)
    (hadmits : both.Admits cluster home request) :
    let served := both.cluster.serve (cluster.service home) request
    let session := both.store.sessions request.client
    (cluster.Separates request.line →
      served = ⟨both.cluster.state, session, Refusal.ownersDiffer.reply⟩) ∧
    (¬cluster.Separates request.line →
      cluster.Matches request.line served (both.store.state.exec session request.line)) := by
  intro served session
  obtain ⟨nodes, hmirrors⟩ := h.mirrors
  have hhome := (home request.client).2
  -- the cluster and the store have the same sessions, so that the client's is the same on both
  have hserved : served =
      both.cluster.state.exec (home request.client).1 session request.line := by
    simp only [served, session, ← h.sessions]
    rfl
  rw [hserved]
  refine ⟨hmirrors.exec_of_separates hhome, fun hjoined => ?_⟩
  refine hmirrors.exec_matches hhome (h.valid request.client) hadmits.shared hjoined
    (hadmits.line.sublist (List.sublist_cons_self _ _)) (fun errand => hadmits.sendable home)
    (fun address haddress => ?_) hadmits.size
  have hreply := hadmits.replies address haddress
  rw [h.sessions] at hreply
  have hown := (hmirrors.toServes.execOwn haddress session request.line).2.1
  exact hown ▸ hreply

/-- Every request keeps the cluster in step with the store. -/
theorem InStep.step [Machine] (h : both.InStep cluster)
    (hadmits : both.Admits cluster home request) :
    (both.step cluster home request).InStep cluster := by
  obtain ⟨hrefused, hmatched⟩ := h.serve home hadmits
  -- a refused renaming reaches neither side; any other line moves both
  by_cases hseparates : cluster.Separates request.line
  · have hcluster : both.cluster.after (cluster.service home) request = both.cluster := by
      rw [Attended.after, hrefused hseparates]
      simp only [← h.sessions, Function.update_eq_self]
    have hstep : both.step cluster home request = both := by
      rw [Comparison.step, hcluster, if_pos hseparates]
    rwa [hstep]
  · have hserved := hmatched hseparates
    have hstep : both.step cluster home request =
        ⟨both.cluster.after (cluster.service home) request,
          both.store.after Node.service request⟩ := by
      rw [Comparison.step, if_neg hseparates]
    rw [hstep]
    refine ⟨hserved.mirrors, ?_, fun client => ?_⟩
    · show Function.update both.cluster.sessions _ _ = Function.update both.store.sessions _ _
      rw [h.sessions, hserved.session]
      rfl
    · show (Function.update both.store.sessions request.client
        (both.store.state.exec _ request.line).session client).Valid
          (both.store.state.exec _ request.line).state.count
      rw [Node.count_exec, Function.update_apply]
      split
      · exact (h.valid request.client).exec request.line
      · exact h.valid client

/-- A line to which every reply is short, whatever is stored, keeps the limits of replies. -/
theorem InStep.withinLimits [Machine] (h : both.InStep cluster) {name : Bytes}
    (hselect : Node.isSelect name = false) {arguments : List Bytes}
    (hshort : ∀ keyspace : Keyspace, (keyspace.reply (name :: arguments)).WithinLimits)
    (client : Nat) : ∀ address ∈ cluster.addresses, (both.cluster.state.execHere address
      (both.cluster.sessions client) (name :: arguments)).reply.WithinLimits := by
  intro address haddress
  obtain ⟨nodes, hmirrors⟩ := h.mirrors
  rw [h.sessions]
  have hown := (hmirrors.toServes.execOwn haddress (both.store.sessions client)
    (name :: arguments)).2.1
  have hgiven := (hmirrors.divides.exec_selected (h.valid client).lt_count hselect arguments
    haddress).2.1
  show (Network.execOwn _ _ _ _).reply.WithinLimits
  rw [hown, hgiven]
  exact hshort _

/-- The store answers a line by what its command replies. -/
theorem InStep.reply_store [Machine] (h : both.InStep cluster) {name : Bytes} {command : Command}
    (hfind : Catalogue.registry.find? (Text.lowercase (Text.ofBytes name)) = some command)
    (arguments : List Bytes) (client : Nat) :
    (both.store.serve Node.service ⟨client, name :: arguments⟩).reply =
      (both.store.state.keyspaceAt (both.store.sessions client).database).reply
        (name :: arguments) := by
  obtain ⟨nodes, hmirrors⟩ := h.mirrors
  exact (Node.exec_selected hmirrors.registry (h.valid client).lt_count
    (Node.isSelect_eq_false_of_find? hfind) arguments).2.1

/-- A line that every member executes is refused if it is too long for a connection behind the
marker. -/
theorem InStep.reply_of_overlong [Machine] (h : both.InStep cluster) {name : Bytes} {merge : Merge}
    (hroute : route? (Text.lowercase (Text.ofBytes name)) = some (.broadcast merge))
    {arguments : List Bytes} {client : Nat} {peer : String} {others : List String}
    (hmembers : (cluster.coordinator (home client).1).members = peer :: others)
    (hne : peer ≠ (home client).1)
    (hlong : Connection.usualQueryBuffer <
      (encodeCommandLine (Coordinator.forward (name :: arguments))).length) :
    (both.cluster.serve (cluster.service home) ⟨client, name :: arguments⟩).reply =
      Refusal.queryTooLong.reply := by
  obtain ⟨nodes, hmirrors⟩ := h.mirrors
  have hhome := (home client).2
  have hpeer : peer ∈ cluster.addresses :=
    (Cluster.members_perm hhome).mem_iff.1 (hmembers ▸ List.mem_cons_self)
  have hsession : (both.cluster.sessions client).Valid (nodes peer).count := by
    rw [h.sessions, hmirrors.divides.count peer hpeer]
    exact h.valid client
  obtain ⟨depth, hdepth⟩ := both.cluster.state.exists_depth
  show (both.cluster.state.exec (home client).1 (both.cluster.sessions client)
    (name :: arguments)).reply = _
  rw [Network.exec, hmirrors.toStands.memberService hhome, hdepth]
  exact hmirrors.toServes.reply_broadcast_of_overlong hhome hroute hmembers hne hsession hlong depth

/-- A cluster stays in step with a store, however many requests are made. -/
theorem InStep.foldl [Machine] (h : both.InStep cluster) {requests : List Request}
    (hadmits : both.AdmitsAll cluster home requests) :
    (requests.foldl (Comparison.step cluster home) both).InStep cluster := by
  induction requests generalizing both with
  | nil => exact h
  | cons request rest ih => exact ih (h.step home hadmits.1) hadmits.2

end Comparison

/-- Clients of a cluster see one store: to every line they get the store's reply, and after every
line the members' keyspaces in a database make up the store's. A renaming to a key of another member
is refused, and nothing changes. -/
theorem Cluster.acts_as_one_store [Machine] (cluster : Cluster)
    (home : Nat → { address // address ∈ cluster.addresses }) (requests : List Request)
    (hadmits : (Comparison.start cluster).AdmitsAll cluster home requests) :
    (∀ before request rest, requests = before ++ request :: rest →
      let both := Comparison.run cluster home before
      let served := both.cluster.serve (cluster.service home) request
      (cluster.Separates request.line →
        served.reply = Refusal.ownersDiffer.reply ∧ served.state = both.cluster.state) ∧
      (¬cluster.Separates request.line →
        request.line.SameReply served.reply (both.store.serve Node.service request).reply)) ∧
    ∀ before rest, requests = before ++ rest → ∀ index,
      let both := Comparison.run cluster home before
      cluster.Partitions both.cluster.state index (both.store.state.keyspaceAt index) := by
  -- after any first part of the requests the cluster is in step, and admits the rest from there
  have hsplit : ∀ before rest, requests = before ++ rest →
      (Comparison.run cluster home before).InStep cluster ∧
        (Comparison.run cluster home before).AdmitsAll cluster home rest := by
    rintro before rest rfl
    obtain ⟨hbefore, hrest⟩ := (Comparison.admitsAll_append home).1 hadmits
    exact ⟨(Comparison.inStep_start cluster).foldl home hbefore, hrest⟩
  refine ⟨fun before request rest heq => ?_, fun before rest heq index => ?_⟩
  · obtain ⟨hinStep, hnext, -⟩ := hsplit before _ heq
    obtain ⟨hrefused, hmatched⟩ := hinStep.serve home hnext
    constructor
    · intro hseparates
      rw [hrefused hseparates]
      exact ⟨rfl, rfl⟩
    · exact fun hjoined => (hmatched hjoined).reply
  · obtain ⟨nodes, hmirrors⟩ := (hsplit before rest heq).1.mirrors
    exact hmirrors.partitions (home 0).2 index

/-- Two members on one machine. -/
def Cluster.pair : Cluster where
  addresses := ["127.0.0.1:7001", "127.0.0.1:7002"]
  nodup := by decide
  peers _ := ["127.0.0.1:7001", "127.0.0.1:7002"]
  known member hmember address := ⟨fun h => h.elim (fun heq => heq ▸ hmember) id, .inr⟩
  parses := by
    simp only [List.forall_mem_cons]
    exact ⟨⟨_, rfl⟩, ⟨_, rfl⟩, nofun⟩
  apart := by decide +kernel
  replicas := 1
  databases := 1
  options _ := ⟨1, 1⟩

/-- One client is attached to the first member, all others are attached to the second one. -/
def Cluster.pairHome (client : Nat) : { address // address ∈ pair.addresses } :=
  if client = 0 then ⟨"127.0.0.1:7001", .head _⟩ else ⟨"127.0.0.1:7002", .tail _ (.head _)⟩

/-- One client stores a value, and another one, attached to the other member, counts the keys. -/
theorem Cluster.acts_as_one_store_pair :
    let storing : Request := ⟨0, [Text.toBytes "SET", [107], [118]]⟩
    let counting : Request := ⟨1, [Text.toBytes "DBSIZE"]⟩
    let both := Comparison.run pair pairHome [storing]
    (Comparison.start pair).AdmitsAll pair pairHome [storing, counting] ∧
      counting.line.SameReply (both.cluster.serve (pair.service pairHome) counting).reply
        (both.store.serve Node.service counting).reply := by
  intro storing counting both
  have hset : Catalogue.registry.find? (Text.lowercase (Text.ofBytes (Text.toBytes "SET"))) =
      some Catalogue.set := by
    rw [show Text.lowercase (Text.ofBytes (Text.toBytes "SET")) = "set" by decide +kernel]
    rfl
  have hsize : Catalogue.registry.find? (Text.lowercase (Text.ofBytes (Text.toBytes "DBSIZE"))) =
      some Catalogue.dbSize := by
    rw [show Text.lowercase (Text.ofBytes (Text.toBytes "DBSIZE")) = "dbsize" by decide +kernel]
    rfl
  -- replies to both lines are short on every keyspace, so that nothing has to be executed
  have hstart := Comparison.inStep_start pair
  have hstoring : (Comparison.start pair).Admits pair pairHome storing := by
    refine ⟨by decide +kernel, ⟨by decide +kernel, by decide +kernel⟩,
      fun errand herrand hother => ?_, ?_, by decide +kernel⟩
    · exact (length_encodeCommandLine_le (Coordinator.sublist_forward herrand hother)).trans
        (by decide +kernel)
    refine hstart.withinLimits (by decide +kernel) (fun keyspace => ?_) 0
    rw [Keyspace.reply_call hset]
    exact True.intro
  have hcounting : both.Admits pair pairHome counting := by
    refine ⟨by decide +kernel, ⟨by decide +kernel, by decide +kernel⟩,
      fun errand herrand hother => ?_, ?_, by decide +kernel⟩
    · exact (length_encodeCommandLine_le (Coordinator.sublist_forward herrand hother)).trans
        (by decide +kernel)
    refine (hstart.step pairHome hstoring).withinLimits (by decide +kernel) (fun keyspace => ?_) 1
    rw [Keyspace.reply_call hsize]
    exact True.intro
  have hadmits : (Comparison.start pair).AdmitsAll pair pairHome [storing, counting] :=
    ⟨hstoring, hcounting, True.intro⟩
  have hreplies := (acts_as_one_store pair pairHome [storing, counting] hadmits).1
  exact ⟨hadmits, (hreplies [storing] counting [] rfl).2 id⟩

/-- A line of two long words that is as long as a connection takes at once is longer behind the
marker. -/
theorem length_encode_counting {first second : Bytes} (hfirst : first.length = 536870912)
    (hsecond : second.length = 536870868) :
    (encodeCommandLine [Text.toBytes "DBSIZE", first, second]).length =
        Connection.usualQueryBuffer ∧
      Connection.usualQueryBuffer <
        (encodeCommandLine
          (Coordinator.forward [Text.toBytes "DBSIZE", first, second])).length := by
  have hname : (Text.toBytes "DBSIZE").length = 6 := by decide +kernel
  have hmarker : (Text.toBytes forwardedName).length = 6 := by decide +kernel
  have hdigits : (Decimal.ofNat 3).length = 1 ∧ (Decimal.ofNat 4).length = 1 ∧
      (Decimal.ofNat 6).length = 1 ∧ (Decimal.ofNat 536870912).length = 9 ∧
      (Decimal.ofNat 536870868).length = 9 := by decide +kernel
  obtain ⟨hthree, hfour, hsix, hhigh, hlow⟩ := hdigits
  constructor
  · simp only [encodeCommandLine, encodeLine, encodeBulk, lineEnd, List.flatMap_cons,
      List.flatMap_nil, List.length_append, List.length_cons, List.length_nil, hname, hfirst,
      hsecond, Nat.reduceAdd, hthree, hsix, hhigh, hlow]
    rfl
  · simp only [Coordinator.forward, encodeCommandLine, encodeLine, encodeBulk, lineEnd,
      List.flatMap_cons, List.flatMap_nil, List.length_append, List.length_cons, List.length_nil,
      hname, hmarker, hfirst, hsecond, Nat.reduceAdd, hfour, hsix, hhigh, hlow]
    decide

/-- It is not enough that lines and replies are within the limits of readers. A client may send a
line that is as long as a connection takes at once, and behind the marker it is too long for the
connection to another member, which refuses it for another reason than the store. -/
theorem Cluster.not_forall_one_store :
    ¬∀ (cluster : Cluster) (home : Nat → { address // address ∈ cluster.addresses })
        (request : Request),
      let both := Comparison.start cluster
      (encodeCommandLine request.line).length ≤ Connection.usualQueryBuffer →
      request.line.Shared → (Coordinator.forward request.line).Framed →
      (∀ address ∈ cluster.addresses, (both.cluster.state.execHere address
        (both.cluster.sessions request.client) request.line).reply.WithinLimits) →
      ¬cluster.Separates request.line →
        request.line.SameReply (both.cluster.serve (cluster.service home) request).reply
          (both.store.serve Node.service request).reply := by
  intro hall
  obtain ⟨first, hfirst⟩ : ∃ word : Bytes, word.length = 536870912 :=
    ⟨List.replicate 536870912 0, List.length_replicate⟩
  obtain ⟨second, hsecond⟩ : ∃ word : Bytes, word.length = 536870868 :=
    ⟨List.replicate 536870868 0, List.length_replicate⟩
  obtain ⟨hplain, hlong⟩ := length_encode_counting hfirst hsecond
  have hlower : Text.lowercase (Text.ofBytes (Text.toBytes "DBSIZE")) = "dbsize" := by
    decide +kernel
  have hfind : Catalogue.registry.find? (Text.lowercase (Text.ofBytes (Text.toBytes "DBSIZE"))) =
      some Catalogue.dbSize := by
    rw [hlower]
    rfl
  have hroute : route? (Text.lowercase (Text.ofBytes (Text.toBytes "DBSIZE"))) =
      some (.broadcast .sumIntegers) := by
    rw [hlower]
    rfl
  have hselect := Node.isSelect_eq_false_of_find? hfind
  -- the line is within the limits of readers, and so is every reply to it
  have hshared : CommandLine.Shared [Text.toBytes "DBSIZE", first, second] := by
    rw [CommandLine.Shared, hroute, hlower]
    decide
  have hframed : (Coordinator.forward [Text.toBytes "DBSIZE", first, second]).Framed := by
    refine ⟨show 4 ≤ Wire.arrayLimit by decide, fun word hword => ?_⟩
    have hname : (Text.toBytes "DBSIZE").length = 6 := by decide +kernel
    have hmarker : (Text.toBytes forwardedName).length = 6 := by decide +kernel
    have hlimit : Wire.bulkLimit = 536870912 := rfl
    simp only [Coordinator.forward, List.mem_cons, List.not_mem_nil, or_false] at hword
    rcases hword with rfl | rfl | rfl | rfl <;> omega
  have hstart := Comparison.inStep_start pair
  have hshort : ∀ keyspace : Keyspace,
      (keyspace.reply [Text.toBytes "DBSIZE", first, second]).WithinLimits := fun keyspace => by
    rw [Keyspace.reply_call hfind]
    exact True.intro
  have hreplies := hstart.withinLimits hselect hshort 0
  have hjoined : ¬pair.Separates [Text.toBytes "DBSIZE", first, second] := by
    rintro ⟨hrename, -⟩
    rw [hlower] at hrename
    exact absurd hrename (by decide)
  have hsame := hall pair pairHome ⟨0, [Text.toBytes "DBSIZE", first, second]⟩ hplain.le hshared
    hframed hreplies hjoined
  -- the other member complains about the length, the store about the number of words
  have hmembers : (pair.coordinator (pairHome 0).1).members =
      ["127.0.0.1:7002", "127.0.0.1:7001"] := by
    decide +kernel
  have hcluster := hstart.reply_of_overlong pairHome hroute hmembers (by decide) hlong
  have hstore := hstart.reply_store hfind [first, second] 0
  have hrefused : ∀ keyspace : Keyspace, keyspace.reply [Text.toBytes "DBSIZE", first, second] =
      (Refusal.wrongArity "dbsize").reply := fun keyspace => by
    rw [Keyspace.reply_call hfind, hlower]
    rfl
  rw [hcluster, hstore, hrefused] at hsame
  have htexts : (Refusal.wrongArity "dbsize").message = Refusal.queryTooLong.message :=
    Value.error.inj hsame.eq_of_error
  exact absurd htexts (by decide +kernel)

end RingStore
