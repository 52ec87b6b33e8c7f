import RingStore.Proofs.Cluster.Relaying
import RingStore.Proofs.Cluster.Transparency

/-!
# A cluster and one store

A cluster mirrors one store if every member serves and the members hold the store's databases in
shares. A line that a client gives to any member is then answered as by the store, and what it
leaves of the cluster mirrors what it leaves of the store. The strategies are treated one by one.

## Main definitions

* `Cluster.Mirrors`: a cluster mirrors a store.
* `CommandLine.Shared`: the lines that a cluster executes as a store does.
* `CommandLine.SameReply`: equal replies, those of `KEYS` in any order.
* `Cluster.Separates`: the renamings that a cluster refuses.

## Main results

* `Cluster.Mirrors.exec_matches`: a line has the same effect on both.
* `Cluster.Mirrors.exec_of_separates`: what becomes of the renamings.
-/

namespace RingStore

/-- The lines that a cluster executes as one store does: their names are routed. Which key a member
answers to `RANDOMKEY` is not promised, and what members forward to one another is no client's. -/
def CommandLine.Shared : CommandLine → Prop
  | [] => True
  | name :: _ =>
    let small := Text.lowercase (Text.ofBytes name)
    (route? small).isSome ∧ small ≠ "randomkey" ∧ small ≠ forwardedName

instance : DecidablePred CommandLine.Shared
  | [] => inferInstanceAs (Decidable True)
  | _ :: _ => inferInstanceAs (Decidable (_ ∧ _ ∧ _))

/-- A reply to a line is the expected one; `KEYS` may list the same keys in another order. -/
inductive CommandLine.SameReply : CommandLine → (reply expected : Value) → Prop where
  /-- The replies are equal. -/
  | equal (line : CommandLine) (reply : Value) : SameReply line reply reply
  /-- Two lists of the same keys. -/
  | keys {name : Bytes} (hname : Text.lowercase (Text.ofBytes name) = "keys")
      (arguments : List Bytes) {items others : List Value} (hperm : items.Perm others) :
      SameReply (name :: arguments) (.array items) (.array others)

/-- An error is the expected reply only where the same error is. -/
theorem CommandLine.SameReply.eq_of_error {line : CommandLine} {text : String} {expected : Value}
    (h : line.SameReply (.error text) expected) : expected = .error text := by
  cases h
  rfl

section Merging

variable {α : Type} {members : List α} {parts : α → Keyspace} {whole : Keyspace}
  {owner : Bytes → α} (hnodup : members.Nodup) (howner : ∀ key, owner key ∈ members)
  (hshare : ∀ member ∈ members, (parts member).IsShare whole fun key => owner key = member)
  {name : Bytes} {arguments : List Bytes}

/-- Everywhere too few or too many arguments are refused alike. -/
theorem combine_reply_of_not_allows [Machine] (whole : Keyspace) (hne : members ≠ [])
    (merge : Merge) {command : Command}
    (hfind : Catalogue.registry.find? (Text.lowercase (Text.ofBytes name)) = some command)
    (hnot : command.arity.allows arguments.length = false) :
    (merge.combine (members.map fun member => (parts member).reply (name :: arguments))).toReply =
      whole.reply (name :: arguments) := by
  have hreply : ∀ keyspace : Keyspace, keyspace.reply (name :: arguments) =
      .error (Refusal.wrongArity (Text.lowercase (Text.ofBytes name))).message := by
    intro keyspace
    rw [Keyspace.reply_call hfind, if_neg (Bool.eq_false_iff.1 hnot)]
    rfl
  have hall : ∀ reply ∈ members.map fun member => (parts member).reply (name :: arguments),
      reply = .error (Refusal.wrongArity (Text.lowercase (Text.ofBytes name))).message := by
    intro reply hin
    obtain ⟨member, -, rfl⟩ := List.mem_map.1 hin
    exact hreply (parts member)
  rw [merge.combine_of_forall_error (by simpa using hne) hall, hreply]
  rfl

/-- Everybody acknowledges that all keys are removed. -/
theorem combine_reply_flushDb [Machine] (whole : Keyspace)
    (hfind : Catalogue.registry.find? (Text.lowercase (Text.ofBytes name)) = some Catalogue.flushDb)
    (hallows : Catalogue.flushDb.arity.allows arguments.length = true) :
    (Merge.allOk.combine
        (members.map fun member => (parts member).reply (name :: arguments))).toReply =
      whole.reply (name :: arguments) := by
  have hreply : ∀ keyspace : Keyspace, keyspace.reply (name :: arguments) = .ok := by
    intro keyspace
    rw [Keyspace.reply_call hfind, if_pos hallows]
    rfl
  rw [hreply, Merge.combine_allOk fun reply hin => ?_]
  · rfl
  · obtain ⟨member, -, rfl⟩ := List.mem_map.1 hin
    exact hreply (parts member)

include hnodup howner hshare

/-- The numbers of keys of all members add up to the number of all keys. -/
theorem combine_reply_dbSize [Machine] (hsize : whole.size < 9223372036854775808)
    (hfind : Catalogue.registry.find? (Text.lowercase (Text.ofBytes name)) = some Catalogue.dbSize)
    (hallows : Catalogue.dbSize.arity.allows arguments.length = true) :
    (Merge.sumIntegers.combine
        (members.map fun member => (parts member).reply (name :: arguments))).toReply =
      whole.reply (name :: arguments) := by
  have hreply : ∀ keyspace : Keyspace,
      keyspace.reply (name :: arguments) = .count keyspace.size := by
    intro keyspace
    rw [Keyspace.reply_call hfind, if_pos hallows]
    rfl
  -- every key has exactly one owner, so that the sum counts each key once
  have hsum : whole.size = (members.map fun member => (parts member).size).sum :=
    Keyspace.size_eq_sum hnodup howner hshare
  have hmap : (members.map fun member => (parts member).reply (name :: arguments)) =
      (members.map fun member => (parts member).size).map .count := by
    rw [List.map_map]
    exact List.map_congr_left fun member _ => hreply (parts member)
  rw [hmap, hreply, hsum, Merge.combine_sumIntegers (hsum ▸ hsize)]
  rfl

/-- The keys of all members that a pattern matches are all keys that it matches. -/
theorem combine_reply_keys [Machine]
    (hfind : Catalogue.registry.find? (Text.lowercase (Text.ofBytes name)) = some Catalogue.keys)
    (hallows : Catalogue.keys.arity.allows arguments.length = true) :
    ∃ items others : List Value, items.Perm others ∧
      (Merge.concatArrays.combine
        (members.map fun member => (parts member).reply (name :: arguments))).toReply =
          .array items ∧
      whole.reply (name :: arguments) = .array others := by
  obtain ⟨pattern, rfl⟩ := List.length_eq_one_iff.1 (beq_iff_eq.1 hallows)
  let listed (keyspace : Keyspace) : List Value :=
    (keyspace.keys.filter (Glob.covers pattern)).map .bulk
  have hreply : ∀ keyspace : Keyspace,
      keyspace.reply [name, pattern] = .array (listed keyspace) := by
    intro keyspace
    rw [Keyspace.reply_call hfind, if_pos hallows]
    rfl
  refine ⟨members.flatMap fun member => listed (parts member), listed whole, ?_, ?_, hreply whole⟩
  · -- the order is lost here: members list their keys in the order of their own tables
    have hkeys := Keyspace.keys_perm_flatMap hnodup howner hshare
    have hall := (hkeys.filter (Glob.covers pattern)).map Value.bulk
    rw [List.filter_flatMap, List.map_flatMap] at hall
    exact hall.symm
  · have hmap : (members.map fun member => (parts member).reply [name, pattern]) =
        members.map fun member => .array (listed (parts member)) :=
      List.map_congr_left fun member _ => hreply (parts member)
    rw [hmap, Merge.combine_concatArrays]
    rfl

variable (arguments) in
/-- A line that every member executes calls a command that can be run on shares, and the replies of
all shares are merged into the one of the whole. -/
theorem sameReply_broadcast [Machine] {merge : Merge} (hsize : whole.size < 9223372036854775808)
    (hroute : route? (Text.lowercase (Text.ofBytes name)) = some (.broadcast merge)) :
    ∃ command, Catalogue.registry.find? (Text.lowercase (Text.ofBytes name)) = some command ∧
      command.Divisible ∧ CommandLine.SameReply (name :: arguments)
        (merge.combine
          (members.map fun member => (parts member).reply (name :: arguments))).toReply
        (whole.reply (name :: arguments)) := by
  have hne : members ≠ [] := List.ne_nil_of_mem (howner [])
  -- the commands differ in how their replies are merged, but are refused alike
  have hcommand : ∃ command, Catalogue.registry.find? (Text.lowercase (Text.ofBytes name)) =
      some command ∧ command.Divisible ∧ (command.arity.allows arguments.length = true →
        CommandLine.SameReply (name :: arguments)
          (merge.combine
            (members.map fun member => (parts member).reply (name :: arguments))).toReply
          (whole.reply (name :: arguments))) := by
    rcases Catalogue.broadcast_command hroute with ⟨-, rfl, hfind⟩ | ⟨-, rfl, hfind⟩ |
      ⟨hname, rfl, hfind⟩
    · refine ⟨_, hfind, Catalogue.divisible_flushDb, fun hallows => ?_⟩
      rw [combine_reply_flushDb whole hfind hallows]
      exact .equal _ _
    · refine ⟨_, hfind, Catalogue.divisible_dbSize, fun hallows => ?_⟩
      rw [combine_reply_dbSize hnodup howner hshare hsize hfind hallows]
      exact .equal _ _
    · refine ⟨_, hfind, Catalogue.divisible_keys, fun hallows => ?_⟩
      obtain ⟨items, others, hitems, hreply, hwhole⟩ :=
        combine_reply_keys hnodup howner hshare hfind hallows
      rw [hreply, hwhole]
      exact .keys hname arguments hitems
  obtain ⟨command, hfind, hdivisible, hsame⟩ := hcommand
  refine ⟨command, hfind, hdivisible, ?_⟩
  cases hallows : command.arity.allows arguments.length with
  | true => exact hsame hallows
  | false =>
    rw [combine_reply_of_not_allows whole hne merge hfind hallows]
    exact .equal _ _

end Merging

namespace Cluster

/-- The line renames a key to one that belongs to another member. -/
def Separates (cluster : Cluster) : CommandLine → Prop
  | [name, source, target] =>
    Text.lowercase (Text.ofBytes name) ∈ ["rename", "renamenx"] ∧
      cluster.owner source ≠ cluster.owner target
  | _ => False

instance (cluster : Cluster) : DecidablePred cluster.Separates := fun line => by
  unfold Separates
  split <;> infer_instance

/-- The members serve and hold the databases of a store in shares. -/
structure Mirrors [Machine] (cluster : Cluster) (nodes : String → Node) (network : Network)
    (store : Node) : Prop extends cluster.Serves nodes network where
  /-- The members hold shares. -/
  divides : cluster.Divides store.count nodes store.keyspaceAt
  /-- The store knows the commands of the catalogue. -/
  registry : store.registry = Catalogue.registry

/-- A line had the same effect on a cluster as on a store that it mirrored. -/
structure Matches [Machine] (cluster : Cluster) (line : CommandLine) (served : Served Network)
    (answer : Answer Node) : Prop where
  /-- The replies are the same. -/
  reply : line.SameReply served.reply answer.reply
  /-- So are the sessions. -/
  session : served.session = answer.session
  /-- The cluster mirrors the store still. -/
  mirrors : ∃ nodes, cluster.Mirrors nodes served.state answer.state

namespace Mirrors

variable [Machine] {cluster : Cluster} {nodes : String → Node} {network : Network} {store : Node}
  (h : cluster.Mirrors nodes network store) {home : String} (hhome : home ∈ cluster.addresses)
  {session : Session} (hsession : session.Valid store.count) (depth : Nat) {name : Bytes}
  {arguments : List Bytes}

include h hsession

/-- Where members hold shares of what a line leaves of the store, and give its reply, the line had
the same effect. -/
theorem matches_of_divides (hselect : Node.isSelect name = false) {served : Served Network}
    (hstays : served.session = session)
    (hreply : CommandLine.SameReply (name :: arguments) served.reply
      ((store.keyspaceAt session.database).reply (name :: arguments))) {after : String → Node}
    (hserves : cluster.Serves after served.state)
    (hdivides : cluster.Divides store.count after (Function.update store.keyspaceAt session.database
      ((store.keyspaceAt session.database).after (name :: arguments)))) :
    cluster.Matches (name :: arguments) served (store.exec session (name :: arguments)) := by
  obtain ⟨hsame, hgiven, hleft⟩ :=
    Node.exec_selected h.registry hsession.lt_count hselect arguments
  refine ⟨?_, hstays.trans hsame.symm, after, ⟨hserves, ?_, ?_⟩⟩
  · rwa [hgiven]
  · rwa [Node.count_exec, hleft]
  · rw [Node.registry_exec, h.registry]

/-- A line with too few or too many arguments is refused by both. -/
theorem matches_of_not_allows {command : Command}
    (hfind : Catalogue.registry.find? (Text.lowercase (Text.ofBytes name)) = some command)
    (hnot : command.arity.allows arguments.length = false) :
    cluster.Matches (name :: arguments)
      ⟨network, session, (Refusal.wrongArity (Text.lowercase (Text.ofBytes name))).reply⟩
      (store.exec session (name :: arguments)) := by
  refine h.matches_of_divides hsession (Node.isSelect_eq_false_of_find? hfind) rfl ?_ h.toServes ?_
  · rw [Keyspace.reply_call hfind, if_neg (Bool.eq_false_iff.1 hnot)]
    exact .equal _ _
  · rw [Keyspace.after_call_eq hfind, if_neg (Bool.eq_false_iff.1 hnot), Function.update_eq_self]
    exact h.divides

include hhome

/-- A line that one member executes because it owns the keys. -/
theorem matches_of_owner {command : Command}
    (hfind : Catalogue.registry.find? (Text.lowercase (Text.ofBytes name)) = some command)
    {keysOf : List Bytes → List Bytes} (hlocal : command.LocalTo keysOf) {owner : String}
    (howner : owner ∈ cluster.addresses)
    (hkeys : ∀ key ∈ keysOf arguments, cluster.owner key = owner)
    (hline : owner ≠ home → CommandLine.Sendable (name :: arguments))
    (hreply : ((nodes owner).exec session (name :: arguments)).reply.WithinLimits)
    (hpasses : cluster.Passes nodes (Network.serviceAt depth) owner session (name :: arguments)
      (name :: arguments)) :
    cluster.Matches (name :: arguments) ((cluster.coordinator home).relay
        (Network.surroundings (Network.serviceAt (depth + 1)) home) owner network session
          (name :: arguments))
      (store.exec session (name :: arguments)) := by
  have hselect := Node.isSelect_eq_false_of_find? hfind
  have hplain := Node.plain_reply_of_find? (h.divides.registry owner howner) session hfind arguments
  obtain ⟨hgiven, hdivides⟩ :=
    h.divides.exec_owner hsession.lt_count hfind arguments hlocal howner hkeys
  -- the owner executes the line itself, directly or behind a connection
  obtain ⟨next, hrelay, hserves⟩ := h.toServes.relay hhome howner
    (h.divides.count owner howner ▸ hsession) hline (fun _ => rfl) depth (fun _ => hpasses)
    (h.divides.exec_selected hsession.lt_count hselect arguments howner).1
    (hplain.framed_iff.2 hreply)
  have hsame : CommandLine.SameReply (name :: arguments)
      ((nodes owner).exec session (name :: arguments)).reply
      ((store.keyspaceAt session.database).reply (name :: arguments)) := by
    rw [hgiven]
    exact .equal _ _
  rw [hrelay]
  exact h.matches_of_divides hsession hselect rfl hsame hserves hdivides

/-- A line that the asked member executes itself, whatever the arguments. -/
theorem matches_here (hroute : route? (Text.lowercase (Text.ofBytes name)) = some .here)
    (hname : Text.lowercase (Text.ofBytes name) ≠ "randomkey") :
    cluster.Matches (name :: arguments)
      ((cluster.coordinator home).exec (Network.surroundings (Network.serviceAt depth) home) network
        session (name :: arguments))
      (store.exec session (name :: arguments)) := by
  rw [Coordinator.exec_here _ _ _ _ hroute]
  show cluster.Matches _ (Network.execOwn home network session (name :: arguments)) _
  obtain ⟨hstays, hreply, hserves⟩ := h.toServes.execOwn hhome session (name :: arguments)
  cases hselect : Node.isSelect name with
  | true =>
    -- a selection depends on the number of databases, which is the same everywhere
    obtain ⟨hsame, hgiven, hleft⟩ :=
      Node.exec_of_isSelect (h.divides.count home hhome) session hselect arguments
    have hkept := (Node.exec_of_isSelect (Eq.refl store.count) session hselect arguments).2.2
    rw [hleft, Function.update_eq_self] at hserves
    refine ⟨?_, hstays.trans hsame, nodes, ?_⟩
    · rw [hreply, hgiven]
      exact .equal _ _
    · rw [hkept]
      exact ⟨hserves, h.divides, h.registry⟩
  | false =>
    -- all other lines of this strategy neither read nor change keys
    obtain ⟨hafter, hsame⟩ := Keyspace.idle_of_here hroute hname arguments
    obtain ⟨hkept, hgiven, -⟩ :=
      h.divides.exec_selected hsession.lt_count hselect arguments hhome
    refine h.matches_of_divides hsession hselect (hstays.trans hkept) ?_ hserves ?_
    · rw [hreply, hgiven, hsame _ (store.keyspaceAt session.database)]
      exact .equal _ _
    · refine h.divides.of_selected hsession.lt_count hselect arguments fun member hmember => ?_
      rw [hafter, hafter]
      have hshare := h.divides.share member hmember session.database
      by_cases heq : member = home
      · subst heq
        exact .inl ⟨Function.update_self .., hshare⟩
      · exact .inr ⟨Function.update_of_ne heq .., hshare⟩

section Sent

variable (hline : ∀ errand ∈ (cluster.coordinator home).errands (name :: arguments),
    errand.member ≠ home → errand.line.Sendable)

include hline

/-- A line whose keys are divided among their owners. -/
theorem matches_splitKeys (hframed : CommandLine.Framed (name :: arguments))
    (hroute : route? (Text.lowercase (Text.ofBytes name)) = some .splitKeys) :
    cluster.Matches (name :: arguments)
      ((cluster.coordinator home).exec (Network.surroundings (Network.serviceAt (depth + 1)) home)
        network session (name :: arguments))
      (store.exec session (name :: arguments)) := by
  obtain ⟨command, tally, hfind, hlocal, hcounts, harity⟩ := Catalogue.splitKeys_command hroute
  -- without keys there is nothing to divide, and the coordinator refuses as the command would
  by_cases hne : arguments = []
  · subst hne
    rw [Coordinator.exec_of_route _ _ _ _ hroute]
    exact h.matches_of_not_allows hsession hfind (by rw [harity]; rfl)
  have hallows : command.arity.allows arguments.length = true := by
    rw [harity]
    exact decide_eq_true (List.length_pos_iff.2 hne)
  have hparts := part_of_groupKeys hhome arguments
  have hsend : ∀ group ∈ (cluster.coordinator home).groupKeys arguments, group.1 ≠ home →
      CommandLine.Sendable (name :: group.2) := fun group hgroup =>
    hline ⟨group.1, name :: group.2⟩ <| by
      simp only [Coordinator.errands, hroute, Coordinator.errandsBy]
      exact List.mem_map_of_mem hgroup
  -- from here on only what makes the groups a division of the keys is used
  have hgrouped := (cluster.coordinator home).grouped_groupKeys arguments
  generalize hgroups : (cluster.coordinator home).groupKeys arguments = groups
    at hgrouped hparts hsend
  -- the sum cannot overflow: a line has far fewer keys than an integer can count
  have hbound : 0 + (groups.flatMap Prod.snd).length < 9223372036854775808 := by
    have hcount := hframed.count
    have hlimit : Wire.arrayLimit < 9223372036854775808 := by decide
    rw [List.length_cons] at hcount
    rw [hgrouped.perm.length_eq]
    omega
  obtain ⟨next, after, hsum, hserves, hdivides⟩ := h.toServes.sumGroups hhome h.divides hsession
    hroute hfind hlocal hcounts harity depth hparts hsend 0 hbound
  -- the store takes the keys in the order of the line, the members by groups; the count is the same
  rw [Nat.zero_add, hcounts.perm _ hgrouped.perm] at hsum
  have hzero : (0 : Int64) = .ofNat 0 := rfl
  rw [Coordinator.exec_splitKeys _ _ _ _ hroute hne, hgroups, hzero, hsum]
  have hsame : CommandLine.SameReply (name :: arguments)
      (.count (tally (store.keyspaceAt session.database) arguments))
      ((store.keyspaceAt session.database).reply (name :: arguments)) := by
    rw [Keyspace.reply_call hfind, if_pos hallows, hcounts.outcome]
    exact .equal _ _
  refine h.matches_of_divides hsession (Node.isSelect_eq_false_of_find? hfind) rfl hsame hserves
    (hdivides.trans_agrees fun index => ?_)
  rw [Function.update_apply, Function.update_apply, Keyspace.after_call_eq hfind, if_pos hallows]
  split
  · exact hcounts.keyspace_perm _ hgrouped.perm
  · exact .refl _

variable (hreplies : ∀ member ∈ cluster.addresses,
    ((nodes member).exec session (name :: arguments)).reply.WithinLimits)

include hreplies

/-- A line that is sent to the owner of its first key. -/
theorem matches_firstKey
    (hroute : route? (Text.lowercase (Text.ofBytes name)) = some .firstKey) :
    cluster.Matches (name :: arguments)
      ((cluster.coordinator home).exec (Network.surroundings (Network.serviceAt (depth + 1)) home)
        network session (name :: arguments))
      (store.exec session (name :: arguments)) := by
  obtain ⟨command, hfind, hlocal, hnone⟩ := Catalogue.firstKey_command hroute
  cases arguments with
  | nil =>
    rw [Coordinator.exec_of_route _ _ _ _ hroute]
    exact h.matches_of_not_allows hsession hfind hnone
  | cons key more =>
    have howner := owner_mem hhome key
    have hsend : cluster.owner key ≠ home → CommandLine.Sendable (name :: key :: more) :=
      hline ⟨cluster.owner key, name :: key :: more⟩ <| by
        simp only [Coordinator.errands, hroute, Coordinator.errandsBy, coordinator_owner hhome]
        exact List.mem_singleton_self _
    rw [Coordinator.exec_firstKey _ _ _ _ hroute, coordinator_owner hhome]
    refine h.matches_of_owner hhome hsession depth hfind hlocal howner ?_ hsend
      (hreplies _ howner) (passes_firstKey howner _ hroute rfl more)
    intro other hother
    rw [List.mem_singleton.1 hother]

/-- A line that is sent to the one owner of its two keys. -/
theorem matches_sameOwner
    (hroute : route? (Text.lowercase (Text.ofBytes name)) = some .sameOwner)
    (hjoined : ¬cluster.Separates (name :: arguments)) :
    cluster.Matches (name :: arguments)
      ((cluster.coordinator home).exec (Network.surroundings (Network.serviceAt (depth + 1)) home)
        network session (name :: arguments))
      (store.exec session (name :: arguments)) := by
  obtain ⟨command, hfind, hlocal, harity⟩ := Catalogue.sameOwner_command hroute
  match arguments with
  | [source, target] =>
    -- the coordinator joins the keys for the same reason for which the line does not separate them
    have hsame : cluster.owner source = cluster.owner target :=
      Decidable.byContradiction fun hne =>
        hjoined ⟨Catalogue.sameOwner_iff.1 hroute, hne⟩
    have howner := owner_mem hhome source
    have hboth : (cluster.coordinator home).owner source =
        (cluster.coordinator home).owner target := by
      rw [coordinator_owner hhome, coordinator_owner hhome, hsame]
    have hsend : cluster.owner source ≠ home → CommandLine.Sendable [name, source, target] :=
      hline ⟨cluster.owner source, [name, source, target]⟩ <| by
        simp only [Coordinator.errands, hroute, Coordinator.errandsBy, coordinator_owner hhome,
          if_pos hsame]
        exact List.mem_singleton_self _
    rw [Coordinator.exec_sameOwner _ _ _ _ hroute hboth, coordinator_owner hhome]
    refine h.matches_of_owner hhome hsession depth hfind hlocal howner ?_ hsend
      (hreplies _ howner) (passes_sameOwner howner _ hroute rfl hsame.symm)
    simp [hsame]
  | [] | [_] | _ :: _ :: _ :: _ =>
    rw [Coordinator.exec_of_route _ _ _ _ hroute]
    exact h.matches_of_not_allows hsession hfind (by rw [harity]; rfl)

end Sent

/-- A line that every member executes. -/
theorem exec_broadcast {merge : Merge}
    (hroute : route? (Text.lowercase (Text.ofBytes name)) = some (.broadcast merge))
    {command : Command}
    (hfind : Catalogue.registry.find? (Text.lowercase (Text.ofBytes name)) = some command)
    (hdivisible : command.Divisible)
    (hline : ∀ errand ∈ (cluster.coordinator home).errands (name :: arguments),
      errand.member ≠ home → errand.line.Sendable)
    (hreplies : ∀ member ∈ cluster.addresses,
      ((nodes member).exec session (name :: arguments)).reply.WithinLimits) :
    ∃ next after, (cluster.coordinator home).exec
        (Network.surroundings (Network.serviceAt (depth + 1)) home) network session
          (name :: arguments) =
        ⟨next, session, (merge.combine ((cluster.coordinator home).members.map fun member =>
          ((nodes member).keyspaceAt session.database).reply (name :: arguments))).toReply⟩ ∧
      cluster.Serves after next ∧
      cluster.Divides store.count after (Function.update store.keyspaceAt session.database
        ((store.keyspaceAt session.database).after (name :: arguments))) := by
  have hin : ∀ member ∈ (cluster.coordinator home).members, member ∈ cluster.addresses :=
    fun member hmember => (members_perm hhome).mem_iff.1 hmember
  -- what each member replies depends on its own share only, not on who is asked before
  have hasked := fun member hmember => h.divides.exec_selected hsession.lt_count
    (Node.isSelect_eq_false_of_find? hfind) arguments (hin member hmember)
  have hsend : ∀ member ∈ (cluster.coordinator home).members, member ≠ home →
      (Coordinator.forward (name :: arguments)).Sendable := fun member hmember hne =>
    hline _ (Coordinator.mem_errands_of_broadcast hroute hmember hne) hne
  obtain ⟨next, hall, hserves⟩ := h.toServes.relayAll hhome hroute depth
    (nodup_members hhome) hin hsend fun member hmember =>
      ⟨h.divides.count member (hin member hmember) ▸ hsession, (hasked member hmember).1,
        (Node.plain_reply_of_find? (h.divides.registry member (hin member hmember)) session hfind
          arguments).framed_iff.2 (hreplies member (hin member hmember))⟩
  refine ⟨next, _, ?_, hserves, h.divides.exec_everywhere hsession.lt_count hfind arguments
    hdivisible fun member hmember => if_pos ((members_perm hhome).mem_iff.2 hmember)⟩
  have hgiven : ((cluster.coordinator home).members.map fun member =>
      (member, ((nodes member).exec session (name :: arguments)).reply)).map Prod.snd =
        (cluster.coordinator home).members.map fun member =>
          ((nodes member).keyspaceAt session.database).reply (name :: arguments) := by
    rw [List.map_map]
    exact List.map_congr_left fun member hmember => (hasked member hmember).2.1
  rw [Coordinator.exec_broadcast _ _ _ _ hroute, hall, ← hgiven]

/-- A line that every member executes has the same effect as on the store. -/
theorem matches_broadcast {merge : Merge}
    (hroute : route? (Text.lowercase (Text.ofBytes name)) = some (.broadcast merge))
    (hline : ∀ errand ∈ (cluster.coordinator home).errands (name :: arguments),
      errand.member ≠ home → errand.line.Sendable)
    (hreplies : ∀ member ∈ cluster.addresses,
      ((nodes member).exec session (name :: arguments)).reply.WithinLimits)
    (hsize : (store.keyspaceAt session.database).size < 9223372036854775808) :
    cluster.Matches (name :: arguments)
      ((cluster.coordinator home).exec (Network.surroundings (Network.serviceAt (depth + 1)) home)
        network session (name :: arguments))
      (store.exec session (name :: arguments)) := by
  have hperm := members_perm hhome
  have howner : ∀ key, cluster.owner key ∈ (cluster.coordinator home).members :=
    fun key => hperm.mem_iff.2 (owner_mem hhome key)
  have hshare : ∀ member ∈ (cluster.coordinator home).members,
      ((nodes member).keyspaceAt session.database).IsShare (store.keyspaceAt session.database)
        fun key => cluster.owner key = member :=
    fun member hmember => h.divides.share member (hperm.mem_iff.1 hmember) session.database
  obtain ⟨command, hfind, hdivisible, hreply⟩ :=
    sameReply_broadcast (nodup_members hhome) howner hshare arguments hsize hroute
  obtain ⟨next, after, hexec, hserves, hdivides⟩ :=
    h.exec_broadcast hhome hsession depth hroute hfind hdivisible hline hreplies
  rw [hexec]
  exact h.matches_of_divides hsession (Node.isSelect_eq_false_of_find? hfind) rfl hreply hserves
    hdivides

omit hsession in
/-- A renaming whose keys have different owners is refused, and changes nothing. -/
theorem exec_of_separates {line : CommandLine} (hseparates : cluster.Separates line) :
    network.exec home session line = ⟨network, session, Refusal.ownersDiffer.reply⟩ := by
  match line, hseparates with
  | [name, source, target], ⟨hname, howners⟩ =>
    rw [Network.exec, h.toStands.memberService hhome]
    refine Coordinator.exec_sameOwner_of_ne _ _ _ _ (Catalogue.sameOwner_iff.2 hname) ?_
    rwa [coordinator_owner hhome, coordinator_owner hhome]

/-- A line that a cluster executes as a store does has the same effect on both. -/
theorem exec_matches {line : CommandLine} (hshared : line.Shared)
    (hjoined : ¬cluster.Separates line) (hframed : line.Framed)
    (hline : ∀ errand ∈ (cluster.coordinator home).errands line,
      errand.member ≠ home → errand.line.Sendable)
    (hreplies : ∀ member ∈ cluster.addresses,
      ((nodes member).exec session line).reply.WithinLimits)
    (hsize : (store.keyspaceAt session.database).size < 9223372036854775808) :
    cluster.Matches line (network.exec home session line) (store.exec session line) := by
  -- one level of relaying is always left, whatever the number of members
  obtain ⟨depth, hdepth⟩ := network.exists_depth
  rw [Network.exec, h.toStands.memberService hhome, hdepth]
  cases line with
  | nil => exact ⟨.equal _ _, rfl, nodes, h⟩
  | cons name arguments =>
    obtain ⟨hrouted, hrandom, hforwarded⟩ := hshared
    obtain ⟨route, hroute⟩ := Option.isSome_iff_exists.1 hrouted
    cases route with
    | here => exact h.matches_here hhome hsession _ hroute hrandom
    | firstKey => exact h.matches_firstKey hhome hsession depth hline hreplies hroute
    | splitKeys => exact h.matches_splitKeys hhome hsession depth hline hframed hroute
    | sameOwner => exact h.matches_sameOwner hhome hsession depth hline hreplies hroute hjoined
    | broadcast merge => exact h.matches_broadcast hhome hsession depth hroute hline hreplies hsize
    | forwarded =>
      -- the only name with this strategy is the marker, which clients do not give
      have hmem := Catalogue.mem_routes_of_route? hroute
      simp only [routes, List.mem_cons, Prod.mk.injEq, reduceCtorEq, and_false, and_true, false_or,
        or_false, List.not_mem_nil] at hmem
      exact absurd hmem hforwarded

end Mirrors

end Cluster

end RingStore
