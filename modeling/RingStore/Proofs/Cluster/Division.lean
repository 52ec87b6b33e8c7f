import RingStore.Proofs.Cluster.Members
import RingStore.Proofs.Command.Call

/-!
# A store divided among the members of a cluster

Every database of one store can be held by the members of a cluster in shares: each member holds the
keys that it owns. If one member executes a line whose keys it owns, or if all members execute one
that concerns all keys, the shares are again those of the store that executed the line.

## Main definitions

* `Cluster.Divides`: the members hold the databases of a store in shares.

## Main results

* `Cluster.Divides.exec_owner`: a line is executed by the owner of its keys.
* `Cluster.Divides.exec_everywhere`: a line is executed by every member.
-/

namespace RingStore

/-- A name that calls a command selects no database. -/
theorem Node.isSelect_eq_false_of_find? [Machine] {name : Bytes} {command : Command}
    (hfind : Catalogue.registry.find? (Text.lowercase (Text.ofBytes name)) = some command) :
    isSelect name = false := by
  refine Bool.eq_false_iff.2 fun hselect => ?_
  rw [lowercase_of_isSelect hselect, Catalogue.find?_select] at hfind
  cases hfind

/-- Run on all shares of a keyspace, a command leaves shares of what it leaves of the whole. -/
def Command.Divisible (command : Command) : Prop :=
  ∀ {part whole : Keyspace} {owns : Bytes → Prop}, part.IsShare whole owns →
    ∀ arguments, (command.run part arguments).keyspace.IsShare
      (command.run whole arguments).keyspace owns

namespace Catalogue

theorem divisible_flushDb : flushDb.Divisible :=
  fun _ _ => Keyspace.isShare_of_forall_none (Keyspace.get?_clear _) (Keyspace.get?_clear _)

theorem divisible_dbSize : dbSize.Divisible :=
  fun h _ => h

theorem divisible_keys : keys.Divisible := by
  intro part whole owns h arguments
  cases arguments <;> exact h

end Catalogue

namespace Cluster

/-- The members hold the databases of a store in shares: each of them has as many databases, and in
each database what the store has there under the keys that the member owns. -/
structure Divides [Machine] (cluster : Cluster) (count : Nat) (nodes : String → Node)
    (whole : Nat → Keyspace) : Prop where
  /-- The members know the commands of the catalogue. -/
  registry : ∀ member ∈ cluster.addresses, (nodes member).registry = Catalogue.registry
  /-- They have as many databases as the store. -/
  count : ∀ member ∈ cluster.addresses, (nodes member).count = count
  /-- They hold shares. -/
  share : ∀ member ∈ cluster.addresses, ∀ index,
    ((nodes member).keyspaceAt index).IsShare (whole index) fun key => cluster.owner key = member

variable {cluster : Cluster}

/-- A cluster without keys divides a store without keys. -/
theorem divides_empty [Machine] (cluster : Cluster) :
    cluster.Divides (Node.empty Catalogue.registry cluster.databases).count
      (fun _ => .empty Catalogue.registry cluster.databases)
      (Node.empty Catalogue.registry cluster.databases).keyspaceAt where
  registry _ _ := rfl
  count _ _ := rfl
  share member _ index := by
    rw [Node.keyspaceAt_empty]
    exact Keyspace.isShare_of_forall_none (Keyspace.get?_empty _) (Keyspace.get?_empty _)

namespace Divides

variable [Machine] {count : Nat} {nodes : String → Node} {whole : Nat → Keyspace}
  (h : cluster.Divides count nodes whole)

include h

/-- The shares are those of every store with the same maps. -/
theorem trans_agrees {other : Nat → Keyspace}
    (hagrees : ∀ index, (whole index).Agrees (other index)) :
    cluster.Divides count nodes other where
  registry := h.registry
  count := h.count
  share member hmember index := (h.share member hmember index).trans_agrees (hagrees index)

variable {session : Session} (hlt : session.database < count) {name : Bytes}

section Selected

variable (hselect : Node.isSelect name = false) (arguments : List Bytes)

include hlt hselect

/-- What a member does with a line that is no selection. -/
theorem exec_selected {member : String} (hmember : member ∈ cluster.addresses) :
    let answer := (nodes member).exec session (name :: arguments)
    let keyspace := (nodes member).keyspaceAt session.database
    answer.session = session ∧ answer.reply = keyspace.reply (name :: arguments) ∧
      answer.state.keyspaceAt = Function.update (nodes member).keyspaceAt session.database
        (keyspace.after (name :: arguments)) :=
  Node.exec_selected (h.registry member hmember) (h.count member hmember ▸ hlt) hselect arguments

/-- After members have executed a line, or have not, they hold shares of what the line leaves of the
store if they do so in the selected database. -/
theorem of_selected {after : String → Node} {left : Keyspace}
    (hafter : ∀ member ∈ cluster.addresses,
      after member = ((nodes member).exec session (name :: arguments)).state ∧
          (((nodes member).keyspaceAt session.database).after (name :: arguments)).IsShare left
            (fun key => cluster.owner key = member) ∨
        after member = nodes member ∧ ((nodes member).keyspaceAt session.database).IsShare left
          fun key => cluster.owner key = member) :
    cluster.Divides count after (Function.update whole session.database left) where
  registry member hmember := by
    rcases hafter member hmember with ⟨heq, -⟩ | ⟨heq, -⟩
    · rw [heq, Node.registry_exec, h.registry member hmember]
    · rw [heq, h.registry member hmember]
  count member hmember := by
    rcases hafter member hmember with ⟨heq, -⟩ | ⟨heq, -⟩
    · rw [heq, Node.count_exec, h.count member hmember]
    · rw [heq, h.count member hmember]
  share member hmember index := by
    have hold := h.share member hmember index
    -- the other databases are as they were, on the members and on the store
    rw [Function.update_apply]
    rcases hafter member hmember with ⟨heq, hshare⟩ | ⟨heq, hshare⟩
    · rw [heq, (h.exec_selected hlt hselect arguments hmember).2.2, Function.update_apply]
      split
      · exact hshare
      · exact hold
    · rw [heq]
      split
      · next hindex =>
        rw [hindex]
        exact hshare
      · exact hold

end Selected

variable {command : Command}
  (hfind : Catalogue.registry.find? (Text.lowercase (Text.ofBytes name)) = some command)
  (arguments : List Bytes)

include hlt hfind

/-- A line is executed by the owner of its keys. -/
theorem exec_owner {keysOf : List Bytes → List Bytes} (hlocal : command.LocalTo keysOf)
    {member : String} (hmember : member ∈ cluster.addresses)
    (howner : ∀ key ∈ keysOf arguments, cluster.owner key = member) :
    let answer := (nodes member).exec session (name :: arguments)
    answer.reply = (whole session.database).reply (name :: arguments) ∧
      cluster.Divides count (Function.update nodes member answer.state)
        (Function.update whole session.database
          ((whole session.database).after (name :: arguments))) := by
  intro answer
  have hselect := Node.isSelect_eq_false_of_find? hfind
  have hshare := fun member hmember => h.share member hmember session.database
  constructor
  · exact (h.exec_selected hlt hselect arguments hmember).2.1.trans
      (hlocal.reply_eq hfind (hshare member hmember) howner)
  · refine h.of_selected hlt hselect arguments fun other hother => ?_
    -- the owner's share changes with the store; no other member has a share of the changed keys
    by_cases heq : other = member
    · subst heq
      left
      exact ⟨Function.update_self .., hlocal.isShare_after hfind (hshare other hother) howner⟩
    · right
      refine ⟨Function.update_of_ne heq .., ?_⟩
      refine hlocal.isShare_after_of_not_owns hfind (hshare other hother) fun key hkey hother => ?_
      exact heq (hother.symm.trans (howner key hkey))

/-- A line that concerns all keys is executed by every member. -/
theorem exec_everywhere (hdivisible : command.Divisible) {after : String → Node}
    (hafter : ∀ member ∈ cluster.addresses,
      after member = ((nodes member).exec session (name :: arguments)).state) :
    cluster.Divides count after (Function.update whole session.database
      ((whole session.database).after (name :: arguments))) := by
  refine h.of_selected hlt (Node.isSelect_eq_false_of_find? hfind) arguments fun member hmember =>
    .inl ⟨hafter member hmember, ?_⟩
  have hshare := h.share member hmember session.database
  rw [Keyspace.after_call_eq hfind, Keyspace.after_call_eq hfind]
  split
  · exact hdivisible hshare arguments
  · exact hshare

end Divides

end Cluster

end RingStore
