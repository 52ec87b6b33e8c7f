import Mathlib.Logic.Function.Basic
import RingStore.Proofs.Command.Local
import RingStore.Proofs.Replies

/-!
# Command lines that call a command

The database that a session has selected runs the command that a line names if it is given as many
arguments as it takes, and refuses the line otherwise. What a line does is thus what the command
does, on a share of a keyspace as on the whole.

## Main definitions

* `Keyspace.reply`: the reply to a command line.

## Main results

* `Node.exec_selected`: what a node does with a line that is no selection.
* `Command.LocalTo.reply_eq`, `Command.LocalTo.isShare_after`: calling a local command on a share.
-/

namespace RingStore

namespace Keyspace

/-- The reply of a database of the catalogue to a command line. -/
@[irreducible]
def reply [Machine] (keyspace : Keyspace) (line : CommandLine) : Value :=
  match Catalogue.registry.resolve line with
  | .ok (command, arguments) => (command.run keyspace arguments).outcome.toReply
  | .error refusal => refusal.reply

section Found

variable [Machine] {name : Bytes} {command : Command}
  (hfind : Catalogue.registry.find? (Text.lowercase (Text.ofBytes name)) = some command)
  (keyspace : Keyspace) (arguments : List Bytes)

include hfind

/-- The reply to a line that calls a command. -/
theorem reply_call : keyspace.reply (name :: arguments) =
    if command.arity.allows arguments.length then
      (command.run keyspace arguments).outcome.toReply
    else (Refusal.wrongArity (Text.lowercase (Text.ofBytes name))).reply := by
  simp only [reply, Registry.resolve, hfind]
  by_cases harity : command.arity.allows arguments.length <;> simp [harity]

/-- What a line that calls a command leaves. -/
theorem after_call_eq : keyspace.after (name :: arguments) =
    if command.arity.allows arguments.length then (command.run keyspace arguments).keyspace
    else keyspace := by
  simp only [after, Registry.resolve, hfind]
  by_cases harity : command.arity.allows arguments.length <;> simp [harity]

end Found

/-- A line that the asked member itself executes, whatever the arguments, neither reads nor changes
what is stored, unless it asks for some key. -/
theorem idle_of_here [Machine] {name : Bytes}
    (hroute : route? (Text.lowercase (Text.ofBytes name)) = some .here)
    (hname : Text.lowercase (Text.ofBytes name) ≠ "randomkey") (arguments : List Bytes) :
    (∀ keyspace : Keyspace, keyspace.after (name :: arguments) = keyspace) ∧
      ∀ left right : Keyspace,
        left.reply (name :: arguments) = right.reply (name :: arguments) := by
  have hmem := Catalogue.mem_routes_of_route? hroute
  -- of the routes, only those of `PING` and of `SELECT` are left
  simp only [routes, List.mem_cons, Prod.mk.injEq, reduceCtorEq, and_false, and_true, or_false,
    List.not_mem_nil, hname] at hmem
  rcases hmem with hping | hselect
  · have hfind : Catalogue.registry.find? (Text.lowercase (Text.ofBytes name)) =
        some Catalogue.ping := by
      rw [hping]
      exact Catalogue.find?_of_mem_smallNames (by decide)
    refine ⟨fun keyspace => ?_, fun left right => ?_⟩
    · rw [after_call_eq hfind]
      split <;> rfl
    · rw [reply_call hfind, reply_call hfind]
      rfl
  · have hfind : Catalogue.registry.find? (Text.lowercase (Text.ofBytes name)) = none := by
      rw [hselect, Catalogue.find?_select]
    refine ⟨fun keyspace => ?_, fun left right => ?_⟩
    · simp only [after, Registry.resolve, hfind]
    · simp only [reply, Registry.resolve, hfind]

end Keyspace

/-- A database of the catalogue replies by what is stored. -/
theorem Database.reply_exec [Machine] (database : Database) (line : CommandLine) :
    (database.exec Catalogue.registry line).outcome.toReply = database.keyspace.reply line := by
  rw [exec_eq, Keyspace.reply]
  cases Catalogue.registry.resolve line <;> rfl

namespace Node

/-- What a node does with a line that is no selection: the database that the session has selected
executes it. -/
theorem exec_selected [Machine] {node : Node} (hregistry : node.registry = Catalogue.registry)
    {session : Session} (hlt : session.database < node.count) {name : Bytes}
    (hselect : isSelect name = false) (arguments : List Bytes) :
    let answer := node.exec session (name :: arguments)
    let keyspace := node.keyspaceAt session.database
    answer.session = session ∧ answer.reply = keyspace.reply (name :: arguments) ∧
      answer.state.keyspaceAt = Function.update node.keyspaceAt session.database
        (keyspace.after (name :: arguments)) := by
  have htarget : node.target? session (name :: arguments) = some session.database := by
    simp only [target?, hselect, Bool.false_eq_true, if_false, if_pos hlt]
  refine ⟨?_, ?_, ?_⟩
  · rw [exec_of_target?_eq_some htarget]
  · rw [exec_of_target?_eq_some htarget, keyspaceAt_of_lt hlt, ← Database.reply_exec, ← hregistry]
    rfl
  · funext index
    rw [keyspaceAt_exec hregistry, htarget, Function.update_apply]
    by_cases hindex : index = session.database
    · subst hindex
      rw [if_pos rfl, if_pos rfl]
    · rw [if_neg hindex, if_neg fun heq => hindex (Option.some.inj heq).symm]

/-- What a node does with a selection depends on the number of its databases only. -/
theorem exec_of_isSelect {node other : Node} (hcount : node.count = other.count)
    (session : Session) {name : Bytes} (hselect : isSelect name = true) (arguments : List Bytes) :
    let answer := node.exec session (name :: arguments)
    answer.session = (other.exec session (name :: arguments)).session ∧
      answer.reply = (other.exec session (name :: arguments)).reply ∧ answer.state = node := by
  have htarget : node.target? session (name :: arguments) = none := by
    simp only [target?, hselect, if_true]
  refine ⟨?_, ?_, (exec_of_target?_eq_none htarget).1⟩
  all_goals
    simp only [exec, hselect, if_true]
    split
    · simp only [select, hcount]
      split
      · rfl
      · split <;> rfl
    · rfl

/-- A node replies plainly to a line that calls a command. -/
theorem plain_reply_of_find? [Machine] {node : Node}
    (hregistry : node.registry = Catalogue.registry)
    (session : Session) {name : Bytes} {command : Command}
    (hfind : Catalogue.registry.find? (Text.lowercase (Text.ofBytes name)) = some command)
    (arguments : List Bytes) : (node.exec session (name :: arguments)).reply.Plain := by
  rcases plain_or_splits hregistry session (name :: arguments) with hplain | hsplits
  · exact hplain
  · -- a reply that is not plain quotes an unknown name, but this one is known
    generalize (node.exec session (name :: arguments)).reply = reply at hsplits
    cases hsplits with
    | unknownCommand hname =>
      rw [← Text.lineEnd_infix_toBytes_ofBytes, ← Text.lineEnd_infix_toBytes_lowercase] at hname
      exact absurd hname (Catalogue.not_lineEnd_of_find? hfind)

end Node

namespace Command.LocalTo

variable [Machine] {command : Command} {keysOf : List Bytes → List Bytes}
  (h : command.LocalTo keysOf)
  {name : Bytes}
  (hfind : Catalogue.registry.find? (Text.lowercase (Text.ofBytes name)) = some command)
  {part whole : Keyspace} {owns : Bytes → Prop} (hshare : part.IsShare whole owns)
  {arguments : List Bytes}

include h hfind hshare

/-- A call is answered on a share that owns its keys as on the whole. -/
theorem reply_eq (howns : ∀ key ∈ keysOf arguments, owns key) :
    part.reply (name :: arguments) = whole.reply (name :: arguments) := by
  rw [Keyspace.reply_call hfind, Keyspace.reply_call hfind, h.outcome_eq hshare howns]

/-- What a call leaves of a share that owns its keys is a share of what it leaves of the whole. -/
theorem isShare_after (howns : ∀ key ∈ keysOf arguments, owns key) :
    (part.after (name :: arguments)).IsShare (whole.after (name :: arguments)) owns := by
  rw [Keyspace.after_call_eq hfind, Keyspace.after_call_eq hfind]
  split
  · exact h.isShare hshare howns
  · exact hshare

/-- A share that owns none of its keys is not concerned by a call. -/
theorem isShare_after_of_not_owns (hnot : ∀ key ∈ keysOf arguments, ¬owns key) :
    part.IsShare (whole.after (name :: arguments)) owns := by
  rw [Keyspace.after_call_eq hfind]
  split
  · exact h.isShare_of_not_owns hshare hnot
  · exact hshare

end Command.LocalTo

end RingStore
