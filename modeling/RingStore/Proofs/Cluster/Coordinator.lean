import Mathlib.Algebra.GroupWithZero.Nat
import RingStore.Cluster.Coordinator
import RingStore.Proofs.Text.Utf8

/-!
# What a coordinator leaves to its own node

A member that owns all keys of a command line has its own node execute the line as it is. So it does
with a line that another member forwards to everyone. Keys are divided among their owners without
loss: the groups put together are the keys in another order.

## Main results

* `Coordinator.exec_firstKey`, `Coordinator.exec_sameOwner`, `Coordinator.exec_splitKeys`,
  `Coordinator.exec_broadcast`: who executes a line.
* `Coordinator.exec_forward`: what the own node executes.
* `Coordinator.grouped_groupKeys`: how keys are divided.
* `Merge.combine_allOk`, `Merge.combine_sumIntegers`, `Merge.combine_concatArrays`: how replies
  become one.
-/

namespace RingStore

/-- Groups of keys by owner that hold some keys, each key in the group of its owner. -/
structure Grouped (owner : Bytes → String) (keys : List Bytes)
    (groups : List (String × List Bytes)) : Prop where
  /-- A group holds some of the keys, in order, and all of them have its owner. -/
  group : ∀ group ∈ groups,
    group.2.Sublist keys ∧ group.2 ≠ [] ∧ ∀ key ∈ group.2, owner key = group.1
  /-- The groups together hold all keys. -/
  perm : (groups.flatMap Prod.snd).Perm keys

/-- The replies that are given to a line by which things are counted. -/
inductive Value.IsTally : Value → Prop where
  /-- There is a number. -/
  | number (number : Int64) : IsTally (.integer number)
  /-- The line is refused. -/
  | error (text : String) : IsTally (.error text)

/-- Adding a number to nothing gives the number. -/
theorem addChecked_zero (number : Int64) : addChecked 0 number = some number := by
  have hsum : (0 : Int64).toInt + number.toInt = number.toInt := Int.zero_add _
  rw [addChecked]
  simp only [hsum]
  rw [if_pos ⟨number.minValue_le_toInt, number.toInt_le⟩, Int64.ofInt_toInt]

/-- Numbers of things are added exactly while their sum is a 64-bit signed number. -/
theorem addChecked_ofNat {left right : Nat} (h : left + right < 9223372036854775808) :
    addChecked (.ofNat left) (.ofNat right) = some (.ofNat (left + right)) := by
  have hleft : (Int64.ofNat left).toInt = left := Int64.toInt_ofNat_of_lt (by omega)
  have hright : (Int64.ofNat right).toInt = right := Int64.toInt_ofNat_of_lt (by omega)
  have hlow : Int64.minValue.toInt = -9223372036854775808 := rfl
  have hhigh : Int64.maxValue.toInt = 9223372036854775807 := rfl
  rw [addChecked]
  simp only [hleft, hright, hlow, hhigh]
  rw [if_pos (by omega)]
  rfl

namespace Merge

/-- If every member refuses in the same way, so does the cluster. -/
theorem combine_of_forall_error (merge : Merge) {replies : List Value} (hne : replies ≠ [])
    {text : String} (h : ∀ reply ∈ replies, reply = .error text) :
    merge.combine replies = .reply (.error text) := by
  obtain ⟨first, rest, rfl⟩ := List.exists_cons_of_ne_nil hne
  rw [h first List.mem_cons_self]
  rfl

/-- If every member acknowledges, so does the cluster. -/
theorem combine_allOk {replies : List Value} (h : ∀ reply ∈ replies, reply = .ok) :
    allOk.combine replies = .reply .ok := by
  have hnone : replies.find? Value.isError = none :=
    List.find?_eq_none.2 fun reply hreply => by rw [h reply hreply]; decide
  have hall : replies.all Value.isOk = true :=
    List.all_eq_true.2 fun reply hreply => by rw [h reply hreply]; rfl
  simp only [combine, hnone, hall, if_true]

/-- Numbers of all members are added up, if the sum is a 64-bit signed number. -/
theorem combine_sumIntegers {numbers : List Nat} (h : numbers.sum < 9223372036854775808) :
    sumIntegers.combine (numbers.map .count) = .reply (.count numbers.sum) := by
  have hnone : (numbers.map Value.count).find? Value.isError = none := by
    refine List.find?_eq_none.2 fun reply hreply => ?_
    obtain ⟨number, -, rfl⟩ := List.mem_map.1 hreply
    exact Bool.false_ne_true
  have hints : (numbers.map Value.count).filterMap Value.integer? = numbers.map Int64.ofNat := by
    rw [List.filterMap_map]
    exact congrFun (List.filterMap_eq_map (f := Int64.ofNat)) numbers
  -- no partial sum leaves the range if the whole sum does not
  have hfold : ∀ (numbers : List Nat) (total : Nat), total + numbers.sum < 9223372036854775808 →
      (numbers.map Int64.ofNat).foldlM addChecked (.ofNat total) =
        some (.ofNat (total + numbers.sum)) := by
    intro numbers
    induction numbers with
    | nil => exact fun _ _ => rfl
    | cons number rest ih =>
      intro total hbound
      rw [List.sum_cons, ← Nat.add_assoc] at hbound
      rw [List.map_cons, List.foldlM_cons, addChecked_ofNat (by omega), List.sum_cons,
        ← Nat.add_assoc]
      exact ih _ hbound
  have hsum := hfold numbers 0 (by rwa [Nat.zero_add])
  rw [Nat.zero_add] at hsum
  simp only [combine, hnone, hints]
  rw [show (0 : Int64) = .ofNat 0 from rfl, hsum]
  rfl

/-- Arrays of all members are put one after the other. -/
theorem combine_concatArrays {α : Type} (members : List α) (items : α → List Value) :
    concatArrays.combine (members.map fun member => .array (items member)) =
      .reply (.array (members.flatMap items)) := by
  have hnone :
      (members.map fun member => Value.array (items member)).find? Value.isError = none := by
    refine List.find?_eq_none.2 fun reply hreply => ?_
    obtain ⟨member, -, rfl⟩ := List.mem_map.1 hreply
    exact Bool.false_ne_true
  simp only [combine, hnone, List.flatMap_map]
  rfl

end Merge

namespace Coordinator

/-- What there is after a key was added to the keys of its owner. -/
theorem mem_addKey {owner : String} {key : Bytes} {groups : List (String × List Bytes)}
    {group : String × List Bytes} (h : group ∈ addKey owner key groups) :
    group ∈ groups ∨ group = (owner, [key]) ∨
      ∃ keys, (owner, keys) ∈ groups ∧ group = (owner, keys ++ [key]) := by
  induction groups with
  | nil => exact .inr (.inl (List.mem_singleton.1 h))
  | cons first rest ih =>
    -- either this is the group of the owner, or the key goes to a later one
    unfold addKey at h
    split at h
    · next heq =>
      rcases List.mem_cons.1 h with rfl | h
      · refine .inr (.inr ⟨first.2, ?_, rfl⟩)
        rw [← heq]
        exact List.mem_cons_self
      · exact .inl (List.mem_cons_of_mem _ h)
    · rcases List.mem_cons.1 h with rfl | h
      · exact .inl List.mem_cons_self
      · rcases ih h with hin | hnew | ⟨keys, hkeys, heq⟩
        · exact .inl (List.mem_cons_of_mem _ hin)
        · exact .inr (.inl hnew)
        · exact .inr (.inr ⟨keys, List.mem_cons_of_mem _ hkeys, heq⟩)

theorem flatMap_addKey (owner : String) (key : Bytes) (groups : List (String × List Bytes)) :
    ((addKey owner key groups).flatMap Prod.snd).Perm (groups.flatMap Prod.snd ++ [key]) := by
  induction groups with
  | nil => exact .refl _
  | cons first rest ih =>
    unfold addKey
    split
    · rw [List.flatMap_cons, List.flatMap_cons, List.append_assoc, List.append_assoc]
      exact List.perm_append_comm.append_left _
    · rw [List.flatMap_cons, List.flatMap_cons, List.append_assoc]
      exact ih.append_left _

/-- Adding a key keeps the groups in order. -/
theorem grouped_addKey {owner : Bytes → String} {keys : List Bytes}
    {groups : List (String × List Bytes)} (h : Grouped owner keys groups) (key : Bytes) :
    Grouped owner (keys ++ [key]) (addKey (owner key) key groups) where
  group group hgroup := by
    rcases mem_addKey hgroup with hin | rfl | ⟨old, hold, rfl⟩
    · obtain ⟨hsub, hne, howner⟩ := h.group group hin
      exact ⟨hsub.trans (List.sublist_append_left _ _), hne, howner⟩
    · exact ⟨List.sublist_append_right _ _, List.cons_ne_nil _ _, by simp⟩
    · obtain ⟨hsub, -, howner⟩ := h.group _ hold
      refine ⟨hsub.append_right _, by simp, fun other hother => ?_⟩
      rcases List.mem_append.1 hother with hother | hother
      · exact howner other hother
      · rw [List.mem_singleton.1 hother]
  perm := (flatMap_addKey _ _ _).trans (h.perm.append_right _)

variable (coordinator : Coordinator)

/-- A coordinator groups keys by their owners. -/
theorem grouped_groupKeys (keys : List Bytes) :
    Grouped coordinator.owner keys (coordinator.groupKeys keys) := by
  -- the induction is on the keys still to come, over all groups of those before them
  have hfold : ∀ (keys before : List Bytes) (groups : List (String × List Bytes)),
      Grouped coordinator.owner before groups → Grouped coordinator.owner (before ++ keys)
        (keys.foldl (fun groups key => addKey (coordinator.owner key) key groups) groups) := by
    intro keys
    induction keys with
    | nil =>
      intro before groups h
      rwa [List.append_nil]
    | cons key rest ih =>
      intro before groups h
      rw [← List.singleton_append, ← List.append_assoc]
      exact ih _ _ (grouped_addKey h key)
  exact hfold keys [] [] ⟨nofun, .refl _⟩

/-- Keys of one owner make one group. -/
theorem groupKeys_of_owner {owner : String} {key : Bytes} {rest : List Bytes}
    (h : ∀ other ∈ key :: rest, coordinator.owner other = owner) :
    coordinator.groupKeys (key :: rest) = [(owner, key :: rest)] := by
  -- the one group there is takes every further key
  have hfold : ∀ keys before : List Bytes, (∀ other ∈ keys, coordinator.owner other = owner) →
      keys.foldl (fun groups key => addKey (coordinator.owner key) key groups) [(owner, before)] =
        [(owner, before ++ keys)] := by
    intro keys
    induction keys with
    | nil =>
      intro before _
      rw [List.foldl_nil, List.append_nil]
    | cons key rest ih =>
      intro before hkeys
      rw [List.foldl_cons, hkeys key List.mem_cons_self]
      simp only [addKey, if_true]
      rw [ih _ fun other hother => hkeys other (List.mem_cons_of_mem _ hother), List.append_assoc,
        List.singleton_append]
  rw [groupKeys, List.foldl_cons, h key List.mem_cons_self]
  exact hfold rest [key] fun other hother => h other (List.mem_cons_of_mem _ hother)

section Exec

variable {σ : Type} (surroundings : Surroundings σ) (state : σ) (session : Session)

/-- A line whose command is routed is executed by its strategy. -/
theorem exec_of_route {name : Bytes} {route : Route}
    (hroute : route? (Text.lowercase (Text.ofBytes name)) = some route) (arguments : List Bytes) :
    coordinator.exec surroundings state session (name :: arguments) =
      let routed := coordinator.follow surroundings state session name arguments route
      ⟨routed.state, routed.session, routed.outcome.toReply⟩ := by
  simp only [exec, routeLine, hroute]

theorem relay_self (line : CommandLine) :
    coordinator.relay surroundings coordinator.self state session line =
      surroundings.here state session line :=
  if_pos rfl

variable {name : Bytes}

theorem exec_here (hroute : route? (Text.lowercase (Text.ofBytes name)) = some .here)
    (arguments : List Bytes) :
    coordinator.exec surroundings state session (name :: arguments) =
      surroundings.here state session (name :: arguments) := by
  rw [exec_of_route _ _ _ _ hroute]
  rfl

/-- The owner of the first key executes the line. -/
theorem exec_firstKey (hroute : route? (Text.lowercase (Text.ofBytes name)) = some .firstKey)
    (key : Bytes) (more : List Bytes) :
    coordinator.exec surroundings state session (name :: key :: more) =
      coordinator.relay surroundings (coordinator.owner key) state session
        (name :: key :: more) := by
  rw [exec_of_route _ _ _ _ hroute]
  rfl

/-- The owner of both keys executes the line. -/
theorem exec_sameOwner (hroute : route? (Text.lowercase (Text.ofBytes name)) = some .sameOwner)
    {source target : Bytes} (howners : coordinator.owner source = coordinator.owner target) :
    coordinator.exec surroundings state session [name, source, target] =
      coordinator.relay surroundings (coordinator.owner source) state session
        [name, source, target] := by
  rw [exec_of_route _ _ _ _ hroute]
  simp only [follow, if_pos howners]
  rfl

/-- Keys of two owners are not brought together. -/
theorem exec_sameOwner_of_ne
    (hroute : route? (Text.lowercase (Text.ofBytes name)) = some .sameOwner)
    {source target : Bytes}
    (howners : coordinator.owner source ≠ coordinator.owner target) :
    coordinator.exec surroundings state session [name, source, target] =
      ⟨state, session, Refusal.ownersDiffer.reply⟩ := by
  rw [exec_of_route _ _ _ _ hroute]
  simp only [follow, if_neg howners]
  rfl

/-- Every owner executes its part of the line. -/
theorem exec_splitKeys (hroute : route? (Text.lowercase (Text.ofBytes name)) = some .splitKeys)
    {keys : List Bytes} (hne : keys ≠ []) :
    coordinator.exec surroundings state session (name :: keys) =
      let routed := coordinator.sumGroups surroundings name 0 state session
        (coordinator.groupKeys keys)
      ⟨routed.state, routed.session, routed.outcome.toReply⟩ := by
  obtain ⟨key, rest, rfl⟩ := List.exists_cons_of_ne_nil hne
  rw [exec_of_route _ _ _ _ hroute]
  rfl

/-- The owner of all keys executes the line itself, if that gives a number or an error. -/
theorem exec_splitKeys_self (hroute : route? (Text.lowercase (Text.ofBytes name)) = some .splitKeys)
    {keys : List Bytes} (hne : keys ≠ [])
    (howner : ∀ key ∈ keys, coordinator.owner key = coordinator.self)
    (hreply : (surroundings.here state session (name :: keys)).reply.IsTally) :
    coordinator.exec surroundings state session (name :: keys) =
      surroundings.here state session (name :: keys) := by
  rw [exec_splitKeys _ _ _ _ hroute hne]
  obtain ⟨key, rest, rfl⟩ := List.exists_cons_of_ne_nil hne
  simp only [groupKeys_of_owner _ howner, sumGroups, relay_self]
  generalize surroundings.here state session (name :: key :: rest) = served at *
  obtain ⟨next, after, reply⟩ := served
  -- there is one group: its number is added to zero, its error is the reply
  cases hreply with
  | number number =>
    simp only [addChecked_zero]
    rfl
  | error text => rfl

/-- Every member executes the line. -/
theorem exec_broadcast {merge : Merge}
    (hroute : route? (Text.lowercase (Text.ofBytes name)) = some (.broadcast merge))
    (arguments : List Bytes) :
    coordinator.exec surroundings state session (name :: arguments) =
      let (replies, last, selected) :=
        coordinator.relayAll surroundings (name :: arguments) state session coordinator.members
      ⟨last, selected, (merge.combine (replies.map Prod.snd)).toReply⟩ := by
  rw [exec_of_route _ _ _ _ hroute]
  rfl

/-- A line that is forwarded to every member is executed by the node itself. -/
theorem exec_forward {merge : Merge}
    (hroute : route? (Text.lowercase (Text.ofBytes name)) = some (.broadcast merge))
    (arguments : List Bytes) :
    coordinator.exec surroundings state session (forward (name :: arguments)) =
      surroundings.here state session (name :: arguments) := by
  have hforward : route? (Text.lowercase (Text.ofBytes (Text.toBytes forwardedName))) =
      some .forwarded := by decide +kernel
  rw [forward, exec_of_route _ _ _ _ hforward]
  simp only [follow, execForwarded, hroute]
  rfl

end Exec

end Coordinator

end RingStore
