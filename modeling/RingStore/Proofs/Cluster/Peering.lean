import Mathlib.Data.List.Flatten
import RingStore.Proofs.Cluster.Coordinator
import RingStore.Proofs.Cluster.Hosts
import RingStore.Proofs.Connection
import RingStore.Proofs.Decimal.Denotes
import RingStore.Proofs.PeerClient
import RingStore.Proofs.Pool

/-!
# Asking another member

Where every member serves, a line relayed to another member is executed there for a session on the
caller's database, whatever the connection was used for before, and the reply comes back as it was
given. All connections stay clean: nothing is left on them, and the member still answers.

## Main definitions

* `CommandLine.Sendable`: a command line that a member takes from another one.
* `Link.Clean`: a connection on which every request was answered.
* `Cluster.Serves`: every member serves, and all its pools are open and hold clean connections.

## Main results

* `Network.ask_of_clean`, `Cluster.Stands.ask`: one request on a clean connection.
* `Cluster.Serves.relay_there`: one line relayed to another member.
-/

namespace RingStore

/-- A command line that a member takes from another one: it has a word, can be read back, and is not
longer than what a connection takes at once. -/
structure CommandLine.Sendable (line : CommandLine) : Prop where
  /-- There is a word. -/
  ne_nil : line ≠ []
  /-- It can be read back. -/
  framed : line.Framed
  /-- It is not too long for a connection. -/
  length : (encodeCommandLine line).length ≤ Connection.usualQueryBuffer

instance : DecidablePred CommandLine.Sendable := fun line =>
  decidable_of_iff (line ≠ [] ∧ (line.length ≤ Wire.arrayLimit ∧
      ∀ word ∈ line, word.length ≤ Wire.bulkLimit) ∧
      (encodeCommandLine line).length ≤ Connection.usualQueryBuffer)
    ⟨fun ⟨hne, hframed, hlength⟩ => ⟨hne, ⟨hframed.1, hframed.2⟩, hlength⟩,
      fun h => ⟨h.ne_nil, ⟨h.framed.count, h.framed.words⟩, h.length⟩⟩

/-- Some words of a line are not longer than the line. -/
theorem length_encodeCommandLine_le {line part : CommandLine} (h : part.Sublist line) :
    (encodeCommandLine part).length ≤ (encodeCommandLine line).length := by
  -- fewer words have no longer count, and each of them is written as before
  have hcount := Decimal.length_ofNat_mono h.length_le
  have hwords := (h.flatMap encodeBulk).length_le
  simp only [encodeCommandLine, encodeLine, List.length_append, List.length_cons]
  omega

/-- A connection to a member on which every request was answered, with the session that the member
has for it. -/
structure Link.Clean (link : Link) (peer : String) (session : Session) : Prop where
  /-- Nothing is left over. -/
  buffer : link.client.buffer = []
  /-- Nothing is under way, and the connection is neither closed nor broken. -/
  stream : link.client.stream = ⟨[], .quiet, none⟩
  /-- It leads to the member. -/
  host : link.host = peer
  /-- Nothing is left over at the member. -/
  far : link.far = .member [] session

namespace Network

variable {network : Network} {link : Link} {peer : String} {session : Session} {line : CommandLine}

/-- What a member does with one command line that it gets on a clean connection. -/
theorem memberReceives_of_sendable (service : Service Network) (network : Network) (link : Link)
    (session : Session) (hline : line.Sendable) :
    let served := service network session line
    memberReceives service network link [] session (encodeCommandLine line) =
      (deliver { link with far := .member [] served.session } served.reply.encode,
        served.state) := by
  intro served
  -- nothing is buffered, so that the line alone counts for the limit
  have hfits : ¬Connection.usualQueryBuffer < ([] ++ encodeCommandLine line).length :=
    Nat.not_lt.2 hline.length
  simp only [memberReceives, Connection.receive, if_neg hfits]
  have hdrain := Connection.drain_of_encodeCommandLine service Connection.usualQueryBuffer
    (.mk network session (encodeCommandLine line) []) hline.framed hline.ne_nil rfl
  simp only [Connection.withBuffer, List.nil_append, hdrain]
  rfl

/-- A request on a clean connection is executed by the member, and its reply comes back. The
connection is clean again. -/
theorem ask_of_clean (serviceAt : String → Service Network) (hlink : link.Clean peer session)
    {member : Member}
    (hmember : network.member? peer = some member) (hserving : member.serving = true)
    (hline : line.Sendable)
    (hreply : (serviceAt peer network session line).reply.Framed Wire.maxDepth) :
    let served := serviceAt peer network session line
    ask serviceAt network link line =
      (.ok served.reply, { link with far := .member [] served.session }, served.state) := by
  intro served
  obtain ⟨⟨address, buffer, stream⟩, host, far⟩ := link
  obtain ⟨rfl, rfl, rfl, rfl⟩ := hlink
  have hhost := host?_of_member? hmember
  -- an empty encoding could not be read back, and the asker would wait for more
  have hne : served.reply.encode ≠ [] := by
    intro hnil
    have hread := Wire.read_encode_iff.2 hreply
    rw [hnil] at hread
    cases hread
  have hawait := PeerClient.awaitReply_of_encode hreply .quiet
  simp only [ask, farEndReceives, isClosed, hhost, hserving, if_true, Bool.false_eq_true, if_false,
    memberReceives_of_sendable _ _ _ _ hline, deliver, PeerClient.send, PeerClient.receive]
  rw [if_neg hne]
  simp only [List.nil_append]
  rw [hawait]

/-- A request that is longer than what a connection takes at once is refused by the member, which
executes nothing. -/
theorem ask_of_overlong (serviceAt : String → Service Network) (hlink : link.Clean peer session)
    {member : Member}
    (hmember : network.member? peer = some member) (hserving : member.serving = true)
    (hlong : Connection.usualQueryBuffer < (encodeCommandLine line).length) :
    ∃ after, ask serviceAt network link line =
      (.ok Refusal.queryTooLong.reply, after, network) := by
  obtain ⟨⟨address, buffer, stream⟩, host, far⟩ := link
  obtain ⟨rfl, rfl, rfl, rfl⟩ := hlink
  have hhost := host?_of_member? hmember
  have hframed : Refusal.queryTooLong.reply.Framed Wire.maxDepth :=
    Value.framed_error.2 (by decide +kernel)
  have hne : Refusal.queryTooLong.reply.encode ≠ [] := List.cons_ne_nil _ _
  -- the member closes the connection behind its reply
  refine ⟨⟨⟨address, [], [], .closed, none⟩, host, .member [] session⟩, ?_⟩
  simp only [ask, farEndReceives, isClosed, hhost, hserving, if_true, Bool.false_eq_true, if_false,
    memberReceives, Connection.receive, List.nil_append, if_pos hlong, Connection.send,
    Connection.tell, Connection.withBuffer, deliver, if_neg hne, closeFarEnd, PeerClient.send,
    PeerClient.receive, PeerClient.awaitReply_of_encode hframed]

end Network

/-- A session on one of a number of databases, with a number of 64 bits. -/
structure Session.Valid (session : Session) (count : Nat) : Prop where
  /-- There is such a database. -/
  lt_count : session.database < count
  /-- Its number has 64 bits. -/
  lt_size : session.database < UInt64.size

/-- A session is on one of a node's databases after every line if it was before. -/
theorem Session.Valid.exec {session : Session} {node : Node} (h : session.Valid node.count)
    (line : CommandLine) : (node.exec session line).session.Valid node.count := by
  cases line with
  | nil => exact h
  | cons name arguments =>
    by_cases hselect : Node.isSelect name = true
    · simp only [Node.exec, hselect, if_true]
      split
      · unfold Node.select
        split
        · exact h
        · next hindex =>
          split
          · next hlt => exact ⟨hlt, Decimal.lt_of_uint64? hindex⟩
          · exact h
      · exact h
    · simp only [Node.exec, hselect, Node.execSelected, Bool.false_eq_true, if_false]
      split <;> exact h

/-- The line that selects a database can be sent. -/
theorem Session.Valid.sendable_selection {session : Session} {count : Nat}
    (h : session.Valid count) : (PeerAccess.selection session).Sendable := by
  have hdigits := Decimal.length_ofNat_le h.lt_size
  have hname : (Text.toBytes "SELECT").length = 6 := by decide +kernel
  refine ⟨List.cons_ne_nil _ _, ⟨?_, ?_⟩, ?_⟩
  · show 2 ≤ Wire.arrayLimit
    decide
  · intro word hword
    -- a database number of 64 bits has at most twenty digits
    have hlength : word.length ≤ 20 := by
      rcases List.mem_cons.1 hword with rfl | hword
      · omega
      · rw [List.mem_singleton.1 hword]
        exact hdigits
    exact Nat.le_trans hlength (by decide)
  · have hcount : ∀ number ≤ 20, (Decimal.ofNat number).length ≤ 20 := fun number hnumber =>
      Decimal.length_ofNat_le (Nat.lt_of_le_of_lt hnumber (by decide))
    have htwo := hcount 2 (by decide)
    have hsix := hcount 6 (by decide)
    have hlast := hcount _ hdigits
    have hlimit : Connection.usualQueryBuffer = 1073741824 := rfl
    simp only [PeerAccess.selection, encodeCommandLine, encodeBulk, encodeLine, lineEnd,
      List.length_append, List.length_cons, List.length_nil, List.flatMap_cons, List.flatMap_nil,
      hname, Nat.reduceAdd]
    omega

/-- What a node does with the line that selects a database. -/
theorem Node.exec_selection {node : Node} {session : Session} (h : session.Valid node.count)
    (before : Session) :
    node.exec before (PeerAccess.selection session) = node.answer session .ok := by
  have hselect : isSelect (Text.toBytes "SELECT") = true := by decide +kernel
  simp only [PeerAccess.selection, exec, hselect, if_true, select,
    Decimal.uint64?_ofNat h.lt_size, if_pos h.lt_count]

/-- Requests can nest. -/
theorem Network.exists_depth (network : Network) : ∃ depth, network.depth = depth + 1 := by
  -- the depth starts at one and only grows
  have hfold : ∀ (entries : List (String × Member)) (total : Nat),
      total ≤ entries.foldl (fun total entry => total + entry.2.permits) total := by
    intro entries
    induction entries with
    | nil => exact Nat.le_refl
    | cons entry rest ih => exact fun total => Nat.le_trans (Nat.le_add_right ..) (ih _)
  exact Nat.exists_eq_add_one.2 (hfold network.members 1)

/-- A pool that is open, has a permit left and holds clean connections only. -/
structure Pool.Healthy (pool : Pool Link) (peer : String) : Prop where
  /-- It is open. -/
  opened : pool.closed = false
  /-- A permit is left. -/
  permits : pool.permits ≠ 0
  /-- Its connections are clean. -/
  clean : ∀ link ∈ pool.idle, ∃ session, link.Clean peer session

/-- A connection over which nothing has gone yet is clean. -/
theorem Network.clean_newLink (peer : String) :
    (newLink peer peer (.member [] .start)).Clean peer .start :=
  ⟨rfl, rfl, rfl, rfl⟩

namespace Pool

variable {σ : Type} {pool : Pool Link} {peer : String}

/-- A healthy pool hands out a clean connection. What it keeps is clean, and it is still open. -/
theorem Healthy.borrow (h : pool.Healthy peer) {create : σ → Except Failure Link × σ} {state : σ}
    (hcreate : create state = (.ok (Network.newLink peer peer (.member [] .start)), state)) :
    ∃ step link session, pool.borrow (fun _ => true) create state = (step, state) ∧
      step.result = .granted link ∧ link.Clean peer session ∧ step.pool.closed = false ∧
      ∀ idle ∈ step.pool.idle, ∃ session, idle.Clean peer session := by
  -- an idle connection is clean by the invariant, a new one because nothing has gone over it
  cases hidle : pool.idle with
  | nil =>
    exact ⟨_, _, .start, borrow_of_create_ok h.opened h.permits hidle hcreate, rfl,
      Network.clean_newLink peer, h.opened, h.clean⟩
  | cons link rest =>
    obtain ⟨session, hlink⟩ := h.clean link (hidle ▸ List.mem_cons_self)
    refine ⟨_, link, session, borrow_of_idle h.opened h.permits hidle, rfl, hlink, h.opened, ?_⟩
    exact fun idle hin => h.clean idle (hidle ▸ List.mem_cons_of_mem _ hin)

/-- A pool that takes a clean connection back is healthy. -/
theorem healthy_giveBack (hopen : pool.closed = false)
    (hclean : ∀ idle ∈ pool.idle, ∃ session, idle.Clean peer session) {link : Link}
    {session : Session} (hlink : link.Clean peer session) :
    (pool.giveBack link).pool.Healthy peer := by
  rw [giveBack_of_open hopen]
  refine ⟨hopen, Nat.succ_ne_zero _, fun idle hidle => ?_⟩
  dsimp only at hidle
  split at hidle
  · rcases List.mem_cons.1 hidle with rfl | hidle
    · exact ⟨session, hlink⟩
    · exact hclean idle hidle
  · exact hclean idle hidle

end Pool

namespace Cluster

variable {cluster : Cluster} {nodes : String → Node} {network : Network} {session : Session}
  {line inner : CommandLine} {count : Nat}

/-- A line that a member gets is in the end executed by its own node, as another line. -/
def Passes (cluster : Cluster) (nodes : String → Node) (service : String → Service Network)
    (member : String) (session : Session) (line inner : CommandLine) : Prop :=
  ∀ network, cluster.Stands nodes network →
    Network.memberService service member network session line =
      Network.execOwn member network session inner

/-- A member that is asked executes a line by its coordinator. -/
theorem Stands.memberService (h : cluster.Stands nodes network) {address : String}
    (haddress : address ∈ cluster.addresses) (service : String → Service Network)
    (session : Session) (line : CommandLine) :
    Network.memberService service address network session line =
      (cluster.coordinator address).exec (Network.surroundings service address) network session
        line := by
  obtain ⟨pools, hmember⟩ := h.member address haddress
  simp only [Network.memberService, hmember]

/-- Over a clean connection a member executes a line that comes down to its own node, and the
connection is clean again. -/
theorem Stands.ask (h : cluster.Stands nodes network) {peer : String}
    (hpeer : peer ∈ cluster.addresses) {link : Link} (hlink : link.Clean peer session)
    (hline : line.Sendable) (depth : Nat)
    (hexec : Network.serviceAt depth peer network session line =
      Network.execOwn peer network session inner)
    (hreply : ((nodes peer).exec session inner).reply.Framed Wire.maxDepth) :
    let answer := (nodes peer).exec session inner
    ∃ after next, Network.ask (Network.serviceAt depth) network link line =
        (.ok answer.reply, after, next) ∧
      after.Clean peer answer.session ∧
      cluster.Stands (Function.update nodes peer answer.state) next ∧
      ∀ member other, next.pool? member other = network.pool? member other := by
  intro answer
  obtain ⟨pools, hmember⟩ := h.member peer hpeer
  obtain ⟨hsession, hgiven, hstands, hpools⟩ := h.execOwn hpeer session inner
  rw [← hexec] at hsession hgiven hstands hpools
  have hask := Network.ask_of_clean (Network.serviceAt depth) hlink hmember rfl hline
    (by rw [hgiven]; exact hreply)
  dsimp only at hask
  rw [hgiven, hsession] at hask
  exact ⟨_, _, hask, ⟨hlink.buffer, hlink.stream, hlink.host, rfl⟩, hstands, hpools⟩

/-- Over a clean connection a member selects the caller's database, whatever the connection was used
for before, and nothing else is changed. -/
theorem Stands.ask_selection (h : cluster.Stands nodes network) {peer : String}
    (hpeer : peer ∈ cluster.addresses) {link : Link} {before : Session}
    (hlink : link.Clean peer before) (hsession : session.Valid (nodes peer).count) (depth : Nat) :
    ∃ after next, Network.ask (Network.serviceAt (depth + 1)) network link
        (PeerAccess.selection session) = (.ok .ok, after, next) ∧
      after.Clean peer session ∧ cluster.Stands nodes next ∧
      ∀ member other, next.pool? member other = network.pool? member other := by
  -- the selection is executed by the member's node, which is not changed by it
  have hexec : Network.serviceAt (depth + 1) peer network before (PeerAccess.selection session) =
      Network.execOwn peer network before (PeerAccess.selection session) := by
    have hroute : route? (Text.lowercase (Text.ofBytes (Text.toBytes "SELECT"))) = some .here := by
      decide +kernel
    rw [Network.serviceAt, h.memberService hpeer, PeerAccess.selection,
      Coordinator.exec_here _ _ _ _ hroute]
    rfl
  have hselected := Node.exec_selection hsession before
  have hok : Value.ok.Framed Wire.maxDepth := Value.framed_simple.2 (by decide +kernel)
  obtain ⟨after, next, hask, hafter, hstands, hpools⟩ :=
    h.ask hpeer hlink hsession.sendable_selection (depth + 1) hexec (by rw [hselected]; exact hok)
  rw [hselected] at hask hafter hstands
  rw [Node.answer, Function.update_eq_self] at hstands
  exact ⟨after, next, hask, hafter, hstands, hpools⟩

/-- Over a clean connection a member executes a line on the caller's database, and the connection
is clean again. -/
theorem Stands.converse (h : cluster.Stands nodes network) (home : String) {peer : String}
    (hpeer : peer ∈ cluster.addresses) {link : Link} {before : Session}
    (hlink : link.Clean peer before) (hsession : session.Valid (nodes peer).count)
    (hline : line.Sendable) (depth : Nat)
    (hpasses : cluster.Passes nodes (Network.serviceAt depth) peer session line inner)
    (hreply : ((nodes peer).exec session inner).reply.Framed Wire.maxDepth) :
    let answer := (nodes peer).exec session inner
    ∃ after selected next,
      (Network.access (Network.serviceAt (depth + 1)) home peer).converse network link session
        line = (answer.reply, .whole after, next) ∧
      after.Clean peer selected ∧
      cluster.Stands (Function.update nodes peer answer.state) next ∧
      ∀ member other, next.pool? member other = network.pool? member other := by
  intro answer
  obtain ⟨chosen, between, hask₁, hlink₁, hstands₁, hpools₁⟩ :=
    h.ask_selection hpeer hlink hsession depth
  -- whatever the connection was used for before, the line is now executed for the caller's session
  obtain ⟨after, next, hask₂, hafter, hstands₂, hpools₂⟩ :=
    hstands₁.ask hpeer hlink₁ hline (depth + 1) (hpasses between hstands₁) hreply
  refine ⟨after, answer.session, next, ?_, hafter, hstands₂, fun member other =>
    (hpools₂ member other).trans (hpools₁ member other)⟩
  simp only [PeerAccess.converse, Network.access, hask₁, hask₂]
  rfl

/-- Every member serves, and its pools for the other members are healthy. -/
structure Serves (cluster : Cluster) (nodes : String → Node) (network : Network) : Prop
    extends cluster.Stands nodes network where
  /-- The pools are healthy. -/
  pools : ∀ member ∈ cluster.addresses, ∀ peer ∈ cluster.addresses, peer ≠ member →
    ∃ pool, network.pool? member peer = some pool ∧ pool.Healthy peer

namespace Serves

/-- A line relayed to another member is executed there on the caller's database. -/
theorem relay_there (h : cluster.Serves nodes network) {home peer : String}
    (hhome : home ∈ cluster.addresses) (hpeer : peer ∈ cluster.addresses) (hne : peer ≠ home)
    (hsession : session.Valid (nodes peer).count) (hline : line.Sendable) (depth : Nat)
    (hpasses : cluster.Passes nodes (Network.serviceAt depth) peer session line inner)
    (hreply : ((nodes peer).exec session inner).reply.Framed Wire.maxDepth) :
    let answer := (nodes peer).exec session inner
    ∃ next, (Network.access (Network.serviceAt (depth + 1)) home peer).relay network session line =
        (answer.reply, next) ∧
      cluster.Serves (Function.update nodes peer answer.state) next := by
  intro answer
  obtain ⟨pool, hpool, hhealthy⟩ := h.pools home hhome peer hpeer hne
  let access := Network.access (Network.serviceAt (depth + 1)) home peer
  have hcreate : access.connect network =
      (.ok (Network.newLink peer peer (.member [] .start)), network) := by
    show (network.connect peer, network) = _
    rw [h.toStands.connect hpeer]
  obtain ⟨step, link, before, hborrow, hgranted, hlink, hopen, hclean⟩ := hhealthy.borrow hcreate
  -- three changes follow: the pool lends a connection, the peer executes, the pool takes it back
  obtain ⟨hstands₁, hpool₁, hothers₁⟩ := h.toStands.setPool hhome hpool step.pool
  obtain ⟨after, selected, next, hconverse, hafter, hstands₂, hpools₂⟩ :=
    hstands₁.converse home hpeer hlink hsession hline depth hpasses hreply
  have hpool₂ : next.pool? home peer = some step.pool := (hpools₂ home peer).trans hpool₁
  obtain ⟨hstands₃, hpool₃, hothers₃⟩ :=
    hstands₂.setPool hhome hpool₂ (step.pool.giveBack after).pool
  have hrelay : access.relay network session line = (answer.reply,
      next.changeMember home fun member =>
        member.setPool peer (step.pool.giveBack after).pool) := by
    have hpool' : access.pool? network = some pool := hpool
    have hnext : access.pool? next = some step.pool := hpool₂
    have hconverse' : access.converse (access.setPool network step.pool) link session line =
        (answer.reply, .whole after, next) := hconverse
    simp only [PeerAccess.relay, hpool', hborrow, hgranted, hconverse', PeerAccess.putBack, hnext]
    rfl
  refine ⟨_, hrelay, hstands₃, fun member hmember other hother hdistinct => ?_⟩
  by_cases heq : member = home ∧ other = peer
  · obtain ⟨rfl, rfl⟩ := heq
    exact ⟨_, hpool₃, Pool.healthy_giveBack hopen hclean hafter⟩
  · obtain ⟨old, hold, hhealthy⟩ := h.pools member hmember other hother hdistinct
    exact ⟨old, by rw [hothers₃ _ _ heq, hpools₂, hothers₁ _ _ heq, hold], hhealthy⟩

/-- A line that is longer than what a connection takes at once is refused by the member to which it
is relayed. -/
theorem relay_of_overlong (h : cluster.Serves nodes network) {home peer : String}
    (hhome : home ∈ cluster.addresses) (hpeer : peer ∈ cluster.addresses) (hne : peer ≠ home)
    (hsession : session.Valid (nodes peer).count)
    (hlong : Connection.usualQueryBuffer < (encodeCommandLine line).length) (depth : Nat) :
    ((Network.access (Network.serviceAt (depth + 1)) home peer).relay network session line).1 =
      Refusal.queryTooLong.reply := by
  obtain ⟨pool, hpool, hhealthy⟩ := h.pools home hhome peer hpeer hne
  let access := Network.access (Network.serviceAt (depth + 1)) home peer
  have hcreate : access.connect network =
      (.ok (Network.newLink peer peer (.member [] .start)), network) := by
    show (network.connect peer, network) = _
    rw [h.toStands.connect hpeer]
  obtain ⟨step, link, before, hborrow, hgranted, hlink, -, -⟩ := hhealthy.borrow hcreate
  obtain ⟨hstands₁, -, -⟩ := h.toStands.setPool hhome hpool step.pool
  -- the selection is short and goes through, so that it is the line that is refused
  obtain ⟨chosen, between, hselected, hlink₁, hstands₂, -⟩ :=
    hstands₁.ask_selection hpeer hlink hsession depth
  obtain ⟨pools, hmember⟩ := hstands₂.member peer hpeer
  obtain ⟨after, hasked⟩ := Network.ask_of_overlong (Network.serviceAt (depth + 1)) hlink₁ hmember
    rfl hlong
  have hconverse : (access.converse (access.setPool network step.pool) link session line).1 =
      Refusal.queryTooLong.reply := by
    have hselected' : access.ask (access.setPool network step.pool) link
      (PeerAccess.selection session) = (.ok .ok, chosen, between) := hselected
    have hasked' : access.ask between chosen line =
      (.ok Refusal.queryTooLong.reply, after, between) := hasked
    simp only [PeerAccess.converse, hselected', hasked']
    rfl
  have hpool' : access.pool? network = some pool := hpool
  show (access.relay network session line).1 = _
  simp only [PeerAccess.relay, hpool', hborrow, hgranted]
  exact hconverse

/-- A member that executes a line itself leaves all pools as they are. -/
theorem execOwn (h : cluster.Serves nodes network) {address : String}
    (haddress : address ∈ cluster.addresses) (session : Session) (line : CommandLine) :
    let answer := (nodes address).exec session line
    let served := Network.execOwn address network session line
    served.session = answer.session ∧ served.reply = answer.reply ∧
      cluster.Serves (Function.update nodes address answer.state) served.state := by
  intro answer served
  obtain ⟨hsession, hreply, hstands, hpools⟩ := h.toStands.execOwn haddress session line
  refine ⟨hsession, hreply, hstands, fun member hmember peer hpeer hne => ?_⟩
  obtain ⟨pool, hpool, hhealthy⟩ := h.pools member hmember peer hpeer hne
  exact ⟨pool, (hpools member peer).trans hpool, hhealthy⟩

end Serves

end Cluster

end RingStore
