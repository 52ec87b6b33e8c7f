import RingStore.Proofs.Command.Handlers
import RingStore.Proofs.Node.Refusals

/-!
# The general error

A node answers a command that is stopped by a general error, which tells nothing of what went wrong.
For the commands of the catalogue this answer is never given. In whatever state a node is, and
whatever line it executes for whatever session, the handlers of the commands index no argument and
no pattern beyond its end, and add up to no number that a word does not hold. What they work on is
held in memory, so that words hold its size; nothing else is supposed of it.

## Main definitions

* `Node.guarded`: the node whose commands are carried out by their handlers.
* `Node.Fits`: words are large enough for what the node executes a line on.

## Main results

* `Node.exec_guarded`: a node executes by handlers what it executes by commands.
* `Node.Refuses.message_ne_fault`: a refusal is no general error.
* `JournaledNode.never_faults`: the general error is never answered, and no handler is stopped.
-/

namespace RingStore

namespace Node

/-- The node whose commands are carried out by their handlers, where words hold numbers up to the
greatest. -/
def guarded [Machine] (greatest : Nat) (node : Node) : Node :=
  { node with registry := node.registry.guarded greatest }

/-- Words are large enough for the databases and for the arguments of the line. -/
def Fits (greatest : Nat) (node : Node) (line : CommandLine) : Prop :=
  ∀ database ∈ node.databases, Handler.Fits greatest database.keyspace line.tail

variable {node : Node} {session : Session} {line : CommandLine}

/-- A node executes by handlers what it executes by commands. -/
theorem exec_guarded [Machine] {greatest : Nat} (hregistry : node.registry = Catalogue.registry)
    (hfits : node.Fits greatest line) : (node.guarded greatest).exec session line =
      let answer := node.exec session line
      ⟨answer.state.guarded greatest, answer.session, answer.writes, answer.outcome⟩ := by
  match line with
  | [] => rfl
  | name :: arguments =>
    cases hselect : isSelect name with
    | true =>
      simp only [exec, hselect, if_true]
      split
      · simp only [select]
        split
        · rfl
        · -- a node has as many databases, however its commands are carried out
          show (if _ < node.count then _ else _) = _
          split <;> rfl
      · rfl
    | false =>
      simp only [exec, hselect, Bool.false_eq_true, if_false, execSelected]
      by_cases hlt : session.database < node.databases.size
      · have hexec := Database.exec_guarded (hfits _ (Array.getElem_mem hlt))
        have hlt' : session.database < (node.guarded greatest).databases.size := hlt
        rw [dif_pos hlt, dif_pos hlt']
        simp only [guarded, hregistry, hexec]
      · have hlt' : ¬session.database < (node.guarded greatest).databases.size := hlt
        rw [dif_neg hlt, dif_neg hlt']
        rfl

/-- The texts of refusals differ in length from that of the general error, or in their first
words. -/
theorem Refuses.message_ne_fault [Machine] {refusal : Refusal}
    (h : node.Refuses session line refusal) :
    refusal.message ≠ Refusal.fault.message := by
  -- what quotes a name is longer than the general error already in front of the name
  have hlong : ∀ front name back : String, 11 < front.length →
      front ++ name ++ back ≠ Refusal.fault.message := by
    intro front name back hfront heq
    have hlength := congrArg String.length heq
    rw [String.length_append, String.length_append] at hlength
    have hfault : Refusal.fault.message.length = 11 := by decide
    omega
  cases h with
  | noName => decide
  | selectsNoneOrMany => decide
  | selectsNoNumber => decide
  | selectsBeyond => decide
  | isBeyond => decide
  | renamesMissing => decide
  | namesNone => exact hlong "ERR unknown command '" _ "'" (by decide)
  | givesWrongCount => exact hlong "ERR wrong number of arguments for '" _ "' command" (by decide)

/-- A node of the catalogue never answers the general error. -/
theorem reply_ne_fault [Machine] (hregistry : node.registry = Catalogue.registry) :
    (node.exec session line).reply ≠ Refusal.fault.reply := by
  intro hreply
  -- the general error would be an error, and every error is a refusal
  have herror : (node.exec session line).reply.isError = true := by
    rw [hreply]
    rfl
  obtain ⟨refusal, hrefuses⟩ := exists_refuses_of_isError hregistry herror
  rw [exec_of_refuses hregistry hrefuses] at hreply
  exact hrefuses.message_ne_fault (Value.error.inj hreply)

end Node

namespace JournaledNode

/-- Whatever a node, with or without a journal, has executed, and whatever line it executes next for
whatever session, no command faults and the general error is not answered. The handlers of the
commands, which index their arguments by positions and count in words, answer the same. None of
them is stopped, if it is given as many arguments as its command takes. No pattern and no text makes
the scan by positions go beyond an end. -/
theorem never_faults [Machine] {journaled : JournaledNode} (h : journaled.Reachable)
    (session : Session) (line : CommandLine) :
    (journaled.exec session line).outcome ≠ .fault ∧
      (journaled.exec session line).reply ≠ Refusal.fault.reply ∧
      (∀ greatest, journaled.node.Fits greatest line →
        let answer := journaled.exec session line
        (journaled.node.guarded greatest).exec session line =
          ⟨answer.state.node.guarded greatest, answer.session, answer.writes, answer.outcome⟩) ∧
      (∀ command ∈ Catalogue.all, ∃ handler, Handler.named? command.name = some handler ∧
        handler.Carries command) ∧
      ∀ greatest pattern text, pattern.length < greatest → text.length ≤ greatest →
        Glob.scan greatest pattern text = .ok (Glob.covers pattern text) := by
  have hreply : (journaled.exec session line).reply ≠ Refusal.fault.reply :=
    Node.reply_ne_fault h.registry
  refine ⟨fun hfault => hreply ?_, hreply, fun greatest hfits => ?_, Handler.exists_named?,
    fun _ _ _ => Glob.scan_eq⟩
  · rw [Answer.reply, hfault]
    rfl
  · exact Node.exec_guarded h.registry hfits

/-- A node whose words have 64 bits lists the keys for a range that is half written in a class that
is open. A backslash at the end of a pattern is scanned, too. -/
theorem never_faults_of_half_range :
    ∃ opened, openAt 2 ⟨true, .everySecond⟩ .vacant = .ok opened ∧
      let line := List.map Text.toBytes
      let journaled := (opened.exec .start (line ["SET", "k", "v"])).state
      let listing := line ["KEYS", "[a-"]
      journaled.Reachable ∧ journaled.node.Fits (2 ^ 64 - 1) listing ∧
        (journaled.exec .start listing).outcome ≠ .fault ∧
        (journaled.exec .start listing).reply ≠ Refusal.fault.reply ∧
        ((journaled.node.guarded (2 ^ 64 - 1)).exec .start listing).outcome =
          (journaled.exec .start listing).outcome ∧
        Glob.scan (2 ^ 64 - 1) [107, 92] [107, 92] = .ok true := by
  have hopened : openAt 2 ⟨true, .everySecond⟩ .vacant = .ok _ := rfl
  refine ⟨_, hopened, ?_⟩
  intro line journaled listing
  have hreachable : journaled.Reachable := .exec (.opened hopened) _ _
  have hfits : journaled.node.Fits (2 ^ 64 - 1) listing := by
    -- all that is held is one key of one byte
    have hkeyspaces : ∀ database ∈ journaled.node.databases.toList,
        database.keyspace.size ≤ 2 ^ 64 - 1 ∧
          ∀ key ∈ database.keyspace.keys, key.length ≤ 2 ^ 64 - 1 := by
      decide +kernel
    intro database hmem
    obtain ⟨hsize, hkey⟩ := hkeyspaces database hmem.val
    exact ⟨hsize, hkey, by decide, by decide⟩
  obtain ⟨houtcome, hreply, hguarded, -, hscan⟩ := never_faults hreachable .start listing
  refine ⟨hreachable, hfits, houtcome, hreply, by rw [hguarded _ hfits], ?_⟩
  rw [hscan _ _ _ (by decide) (by decide)]
  decide

end JournaledNode

end RingStore
