import RingStore.Proofs.Cluster.Division
import RingStore.Proofs.Cluster.Peering

/-!
# Having members take part

A coordinator has one member execute a line, or every member, or each member the part of the line
that concerns its keys. Where every member serves, each of them executes what it is asked to by its
own node, for the session of the caller.

## Main results

* `Cluster.Serves.relay`: one member executes a line.
* `Cluster.Serves.relayAll`: several members execute a line one after the other.
* `Cluster.Serves.relay_part`, `Cluster.Serves.sumGroups`: each owner executes its part, and the
  numbers are added up.
-/

namespace RingStore.Cluster

variable {cluster : Cluster} {nodes : String → Node} {network : Network} {session : Session}

section Passes

variable {member : String} (hmember : member ∈ cluster.addresses)
  (service : String → Service Network) {name : Bytes}

include hmember

/-- The owner of the first key executes the line itself. -/
theorem passes_firstKey (hroute : route? (Text.lowercase (Text.ofBytes name)) = some .firstKey)
    {key : Bytes} (howner : cluster.owner key = member) (more : List Bytes) :
    cluster.Passes nodes service member session (name :: key :: more) (name :: key :: more) := by
  intro network h
  have hself : (cluster.coordinator member).owner key = (cluster.coordinator member).self :=
    (coordinator_owner hmember key).trans howner
  rw [h.memberService hmember, Coordinator.exec_firstKey _ _ _ _ hroute, hself,
    Coordinator.relay_self]
  rfl

/-- The owner of both keys executes the line itself. -/
theorem passes_sameOwner (hroute : route? (Text.lowercase (Text.ofBytes name)) = some .sameOwner)
    {source target : Bytes} (hsource : cluster.owner source = member)
    (htarget : cluster.owner target = member) :
    cluster.Passes nodes service member session [name, source, target]
      [name, source, target] := by
  intro network h
  -- every member has the same ring, so that the owner knows itself as the owner
  have hself : ∀ key, cluster.owner key = member →
      (cluster.coordinator member).owner key = (cluster.coordinator member).self :=
    fun key howner => (coordinator_owner hmember key).trans howner
  rw [h.memberService hmember, Coordinator.exec_sameOwner _ _ _ _ hroute
    ((hself source hsource).trans (hself target htarget).symm), hself source hsource,
    Coordinator.relay_self]
  rfl

/-- The owner of all keys executes the line itself, if that gives a number. -/
theorem passes_splitKeys (hroute : route? (Text.lowercase (Text.ofBytes name)) = some .splitKeys)
    {keys : List Bytes} (hne : keys ≠ []) (howner : ∀ key ∈ keys, cluster.owner key = member)
    {number : Int64}
    (hreply : ((nodes member).exec session (name :: keys)).reply = .integer number) :
    cluster.Passes nodes service member session (name :: keys) (name :: keys) := by
  intro network h
  have hself : ∀ key ∈ keys,
      (cluster.coordinator member).owner key = (cluster.coordinator member).self :=
    fun key hkey => (coordinator_owner hmember key).trans (howner key hkey)
  -- only a number comes back unchanged: the coordinator adds it to zero
  have hown : (Network.execOwn member network session (name :: keys)).reply.IsTally := by
    rw [(h.execOwn hmember session (name :: keys)).2.1.trans hreply]
    exact .number number
  rw [h.memberService hmember, Coordinator.exec_splitKeys_self _ _ _ _ hroute hne hself hown]
  rfl

/-- A member executes a line itself that is forwarded to every member. -/
theorem passes_forward {merge : Merge}
    (hroute : route? (Text.lowercase (Text.ofBytes name)) = some (.broadcast merge))
    (arguments : List Bytes) :
    cluster.Passes nodes service member session (Coordinator.forward (name :: arguments))
      (name :: arguments) := by
  intro network h
  rw [h.memberService hmember, Coordinator.exec_forward _ _ _ _ hroute]
  rfl

end Passes

/-- The keys of a line are grouped by the owners, which are members. -/
theorem part_of_groupKeys {home : String} (hhome : home ∈ cluster.addresses)
    (arguments : List Bytes) :
    ∀ group ∈ (cluster.coordinator home).groupKeys arguments,
      group.1 ∈ cluster.addresses ∧ group.2 ≠ [] ∧
        ∀ key ∈ group.2, cluster.owner key = group.1 := by
  intro group hgroup
  obtain ⟨-, hsome, howner⟩ :=
    ((cluster.coordinator home).grouped_groupKeys arguments).group group hgroup
  have howns : ∀ key ∈ group.2, cluster.owner key = group.1 := fun key hkey =>
    (coordinator_owner hhome key).symm.trans (howner key hkey)
  obtain ⟨key, hkey⟩ := List.exists_mem_of_ne_nil _ hsome
  exact ⟨howns key hkey ▸ owner_mem hhome key, hsome, howns⟩

namespace Serves

variable {home : String} (h : cluster.Serves nodes network) (hhome : home ∈ cluster.addresses)

include h hhome

/-- A member has a member execute a line, itself or another one. -/
theorem relay {peer : String} (hpeer : peer ∈ cluster.addresses)
    (hsession : session.Valid (nodes peer).count) {line inner : CommandLine}
    (hline : peer ≠ home → line.Sendable) (hself : peer = home → line = inner) (depth : Nat)
    (hpasses : peer ≠ home →
      cluster.Passes nodes (Network.serviceAt depth) peer session line inner)
    (hstays : ((nodes peer).exec session inner).session = session)
    (hreply : ((nodes peer).exec session inner).reply.Framed Wire.maxDepth) :
    let answer := (nodes peer).exec session inner
    ∃ next, (cluster.coordinator home).relay
        (Network.surroundings (Network.serviceAt (depth + 1)) home) peer network session line =
          ⟨next, session, answer.reply⟩ ∧
      cluster.Serves (Function.update nodes peer answer.state) next := by
  intro answer
  -- a member asks itself without a connection, and needs no marker
  by_cases heq : peer = home
  · subst heq
    have hown := (cluster.coordinator peer).relay_self
      (Network.surroundings (Network.serviceAt (depth + 1)) peer) network session inner
    rw [self_coordinator] at hown
    obtain ⟨hsame, hanswer, hserves⟩ := h.execOwn hpeer session inner
    refine ⟨_, ?_, hserves⟩
    rw [hself rfl, hown]
    show Network.execOwn peer network session inner = _
    generalize Network.execOwn peer network session inner = served at *
    obtain ⟨next, selected, given⟩ := served
    rw [show selected = session from hsame.trans hstays, show given = answer.reply from hanswer]
  · obtain ⟨next, hthere, hserves⟩ :=
      h.relay_there hhome hpeer heq hsession (hline heq) depth (hpasses heq) hreply
    refine ⟨next, ?_, hserves⟩
    simp only [Coordinator.relay, self_coordinator, if_neg heq, Network.surroundings, hthere]
    rfl

/-- Members execute a line one after the other. -/
theorem relayAll {name : Bytes} {merge : Merge}
    (hroute : route? (Text.lowercase (Text.ofBytes name)) = some (.broadcast merge))
    {arguments : List Bytes} (depth : Nat) {members : List String} (hnodup : members.Nodup)
    (hmembers : ∀ member ∈ members, member ∈ cluster.addresses)
    (hline : ∀ member ∈ members, member ≠ home →
      (Coordinator.forward (name :: arguments)).Sendable)
    (hask : ∀ member ∈ members, session.Valid (nodes member).count ∧
      ((nodes member).exec session (name :: arguments)).session = session ∧
      ((nodes member).exec session (name :: arguments)).reply.Framed Wire.maxDepth) :
    ∃ next, (cluster.coordinator home).relayAll
        (Network.surroundings (Network.serviceAt (depth + 1)) home) (name :: arguments) network
          session members =
        (members.map fun member =>
          (member, ((nodes member).exec session (name :: arguments)).reply), next, session) ∧
      cluster.Serves (fun member =>
        if member ∈ members then ((nodes member).exec session (name :: arguments)).state
        else nodes member) next := by
  -- each member that has executed the line is updated before the next one is asked
  induction members generalizing nodes network with
  | nil => exact ⟨network, rfl, by simpa using h⟩
  | cons member rest ih =>
    obtain ⟨hmember, hrest⟩ := List.forall_mem_cons.1 hmembers
    obtain ⟨hnew, hnodup⟩ := List.nodup_cons.1 hnodup
    obtain ⟨hsend, hline⟩ := List.forall_mem_cons.1 hline
    obtain ⟨⟨hvalid, hstays, hreply⟩, hask⟩ := List.forall_mem_cons.1 hask
    let lineFor := (cluster.coordinator home).lineFor member (name :: arguments)
    have hself : member = home → lineFor = name :: arguments := fun heq => if_pos heq
    have hother : member ≠ home → lineFor = Coordinator.forward (name :: arguments) :=
      fun hne => if_neg hne
    obtain ⟨next, hrelay, hserves⟩ := h.relay hhome hmember hvalid
      (fun hne => hother hne ▸ hsend hne) hself depth
      (fun hne => hother hne ▸ passes_forward hmember _ hroute arguments) hstays hreply
    -- the members still to come have not executed anything yet
    have hlater : ∀ other ∈ rest, Function.update nodes member
        ((nodes member).exec session (name :: arguments)).state other = nodes other :=
      fun other hin => Function.update_of_ne (fun heq : other = member => hnew (heq ▸ hin)) ..
    obtain ⟨last, hlast, hserves⟩ := ih hserves hnodup hrest hline fun other hin => by
      rw [hlater other hin]
      exact hask other hin
    refine ⟨last, ?_, ?_⟩
    · rw [Coordinator.relayAll]
      simp only [lineFor] at hrelay
      rw [hrelay]
      simp only [hlast, List.map_cons]
      congr 2
      exact List.map_congr_left fun other hin => by rw [hlater other hin]
    · refine (congrArg (cluster.Serves · last) (funext fun other => ?_)).mp hserves
      by_cases heq : other = member
      · subst heq
        simp [hnew]
      · by_cases hin : other ∈ rest <;> simp [heq, hin]

/-- A line that every member executes is refused by the first of the others, if it is too long for a
connection behind the marker. -/
theorem reply_broadcast_of_overlong {name : Bytes} {merge : Merge}
    (hroute : route? (Text.lowercase (Text.ofBytes name)) = some (.broadcast merge))
    {arguments : List Bytes} {peer : String} {others : List String}
    (hmembers : (cluster.coordinator home).members = peer :: others) (hne : peer ≠ home)
    (hsession : session.Valid (nodes peer).count)
    (hlong : Connection.usualQueryBuffer <
      (encodeCommandLine (Coordinator.forward (name :: arguments))).length) (depth : Nat) :
    ((cluster.coordinator home).exec (Network.surroundings (Network.serviceAt (depth + 1)) home)
      network session (name :: arguments)).reply = Refusal.queryTooLong.reply := by
  have hpeer : peer ∈ cluster.addresses :=
    (members_perm hhome).mem_iff.1 (hmembers ▸ List.mem_cons_self)
  have hrefused := h.relay_of_overlong hhome hpeer hne hsession hlong depth
  have hother : peer ≠ (cluster.coordinator home).self := hne
  have hline : (cluster.coordinator home).lineFor peer (name :: arguments) =
      Coordinator.forward (name :: arguments) := if_neg hother
  have hrelay : ((cluster.coordinator home).relay
      (Network.surroundings (Network.serviceAt (depth + 1)) home) peer network session
        (Coordinator.forward (name :: arguments))).reply = Refusal.queryTooLong.reply := by
    rw [Coordinator.relay, if_neg hother]
    exact hrefused
  -- the first error among the replies is the reply
  rw [Coordinator.exec_broadcast _ _ _ _ hroute, hmembers, Coordinator.relayAll, hline]
  simp only [List.map_cons, hrelay]
  rfl

section Parts

variable [Machine] {count : Nat} {whole : Nat → Keyspace}
  (hdivides : cluster.Divides count nodes whole)
  (hsession : session.Valid count) {name : Bytes}
  (hroute : route? (Text.lowercase (Text.ofBytes name)) = some .splitKeys) {command : Command}
  (hfind : Catalogue.registry.find? (Text.lowercase (Text.ofBytes name)) = some command)
  (hlocal : command.LocalTo id) {tally : Keyspace → List Bytes → Nat}
  (hcounts : command.Counts tally) (harity : command.arity = .atLeast 1) (depth : Nat)

include hdivides hsession hroute hfind hlocal hcounts harity

/-- The owner of keys executes the part of a line that concerns them and answers by their number.
The members then hold shares of what the keys leave of the store. -/
theorem relay_part {owner : String} (howner : owner ∈ cluster.addresses) {keys : List Bytes}
    (hne : keys ≠ []) (howns : ∀ key ∈ keys, cluster.owner key = owner)
    (hsend : owner ≠ home → CommandLine.Sendable (name :: keys)) :
    ∃ next after, (cluster.coordinator home).relay
        (Network.surroundings (Network.serviceAt (depth + 1)) home) owner network session
          (name :: keys) =
        ⟨next, session, .count (tally (whole session.database) keys)⟩ ∧
      cluster.Serves after next ∧
      cluster.Divides count after (Function.update whole session.database
        (command.run (whole session.database) keys).keyspace) := by
  have hallows : command.arity.allows keys.length = true := by
    rw [harity]
    exact decide_eq_true (List.length_pos_iff.2 hne)
  obtain ⟨hreply, hleft⟩ := hdivides.exec_owner hsession.lt_count hfind keys hlocal howner howns
  rw [Keyspace.reply_call hfind, if_pos hallows, hcounts.outcome] at hreply
  rw [Keyspace.after_call_eq hfind, if_pos hallows] at hleft
  obtain ⟨next, hrelay, hserves⟩ := h.relay hhome howner (hdivides.count owner howner ▸ hsession)
    hsend (fun _ => rfl) depth (fun _ => passes_splitKeys howner _ hroute hne howns hreply)
    (hdivides.exec_selected hsession.lt_count (Node.isSelect_eq_false_of_find? hfind) keys
      howner).1
    (hreply ▸ Value.framed_integer)
  rw [hreply] at hrelay
  exact ⟨next, _, hrelay, hserves, hleft⟩

/-- Each owner executes the part of a line that concerns its keys, and the numbers are added up. -/
theorem sumGroups {groups : List (String × List Bytes)}
    (hgroups : ∀ group ∈ groups, group.1 ∈ cluster.addresses ∧ group.2 ≠ [] ∧
      ∀ key ∈ group.2, cluster.owner key = group.1)
    (hsend : ∀ group ∈ groups, group.1 ≠ home → CommandLine.Sendable (name :: group.2))
    (total : Nat) (htotal : total + (groups.flatMap Prod.snd).length < 9223372036854775808) :
    ∃ next after, (cluster.coordinator home).sumGroups
        (Network.surroundings (Network.serviceAt (depth + 1)) home) name (.ofNat total) network
          session groups =
        ⟨next, session,
          .reply (.count (total + tally (whole session.database) (groups.flatMap Prod.snd)))⟩ ∧
      cluster.Serves after next ∧
      cluster.Divides count after (Function.update whole session.database
        (command.run (whole session.database) (groups.flatMap Prod.snd)).keyspace) := by
  induction groups generalizing nodes network whole total with
  | nil =>
    have hnone : tally (whole session.database) [] = 0 :=
      Nat.le_zero.1 (hcounts.le_length _ _)
    refine ⟨network, nodes, ?_, h, ?_⟩
    · rw [List.flatMap_nil, hnone]
      rfl
    · rwa [List.flatMap_nil, hcounts.nil, Function.update_eq_self]
  | cons group rest ih =>
    obtain ⟨owner, keys⟩ := group
    obtain ⟨⟨howner, hne, howns⟩, hrest⟩ := List.forall_mem_cons.1 hgroups
    obtain ⟨hsend, hlater⟩ := List.forall_mem_cons.1 hsend
    -- the number of an owner is bounded by its keys, which keeps the running total in range
    have hlength := hcounts.le_length (whole session.database) keys
    simp only [List.flatMap_cons, List.length_append] at htotal
    obtain ⟨next, asked, hrelay, hserves, hdivides₁⟩ := h.relay_part hhome hdivides hsession hroute
      hfind hlocal hcounts harity depth howner hne howns hsend
    obtain ⟨last, after, hlast, hserves, hdivides₂⟩ := ih hserves hdivides₁ hrest hlater
      (total + tally (whole session.database) keys) (by omega)
    rw [Function.update_self] at hlast hdivides₂
    rw [Function.update_idem] at hdivides₂
    refine ⟨last, after, ?_, hserves, hdivides₂.trans_agrees fun index => ?_⟩
    · -- the store counts these keys first, then the others on what they left
      have hsum : addChecked (.ofNat total) (.ofNat (tally (whole session.database) keys)) =
          some (.ofNat (total + tally (whole session.database) keys)) :=
        addChecked_ofNat (by omega)
      rw [List.flatMap_cons, hcounts.append, ← Nat.add_assoc, ← hlast, Coordinator.sumGroups]
      simp only [hrelay, Value.count, hsum]
    · rw [Function.update_apply, Function.update_apply, List.flatMap_cons]
      split
      · exact (hcounts.keyspace_append _ _ _).symm
      · exact .refl _

end Parts

end Serves

end RingStore.Cluster
