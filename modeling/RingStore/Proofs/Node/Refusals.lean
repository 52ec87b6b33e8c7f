import RingStore.Proofs.Attended
import RingStore.Proofs.Command.Errors
import RingStore.Proofs.Journal.Restart
import RingStore.Server

/-!
# Errors change nothing

A node answers a command line by an error exactly if it refuses the line, for one of few reasons:
the line has no name, selects no database, is for a database that the node does not have, names no
command, gives a command too few or too many arguments, or renames a key that does not occur. Every
reason is found before anything is changed or logged. So a refused line leaves the databases, the
session and the journal as they were, and lines that are refused might as well not have been given.

## Main definitions

* `Node.Refuses`: the lines that a node refuses for a session, with the reason.
* `JournaledNode.Reachable`: the states of a node with its journal, from its opening on.
* `Attended.heeded`: the requests that are not answered by an error.

## Main results

* `Node.exec_of_refuses`, `Node.exists_refuses_of_isError`: a line is refused exactly if it is
  answered by an error, and leaves everything as it is.
* `JournaledNode.errors_change_nothing`: the same for a node with its journal, and for any requests.
-/

namespace RingStore

namespace Node

/-- The lines that a node of the catalogue refuses for a session, with the reason. -/
inductive Refuses [Machine] (node : Node) (session : Session) : CommandLine → Refusal → Prop where
  /-- There is no name. -/
  | noName : Refuses node session [] .emptyCommand
  /-- A selection takes one argument. -/
  | selectsNoneOrMany {name : Bytes} (hselect : isSelect name = true) {arguments : List Bytes}
      (hcount : arguments.length ≠ 1) :
      Refuses node session (name :: arguments) (.wrongArity "select")
  /-- The argument of a selection is no number. -/
  | selectsNoNumber {name argument : Bytes} (hselect : isSelect name = true)
      (hnumber : Decimal.uint64? argument = none) :
      Refuses node session [name, argument] .invalidIndex
  /-- The node has no database of the number. -/
  | selectsBeyond {name argument : Bytes} {index : Nat} (hselect : isSelect name = true)
      (hnumber : Decimal.uint64? argument = some index) (hbeyond : node.count ≤ index) :
      Refuses node session [name, argument] .indexOutOfRange
  /-- The node does not have the database that the session has selected. -/
  | isBeyond {name : Bytes} (hselect : isSelect name = false)
      (hbeyond : node.count ≤ session.database) (arguments : List Bytes) :
      Refuses node session (name :: arguments) .indexOutOfRange
  /-- No command has the name. -/
  | namesNone {name : Bytes} (hselect : isSelect name = false)
      (hlt : session.database < node.count)
      (hfind : Catalogue.registry.find? (Text.lowercase (Text.ofBytes name)) = none)
      (arguments : List Bytes) :
      Refuses node session (name :: arguments)
        (.unknownCommand (Text.lowercase (Text.ofBytes name)))
  /-- The command does not take that many arguments. -/
  | givesWrongCount {name : Bytes} {command : Command} {arguments : List Bytes}
      (hselect : isSelect name = false) (hlt : session.database < node.count)
      (hfind : Catalogue.registry.find? (Text.lowercase (Text.ofBytes name)) = some command)
      (harity : command.arity.allows arguments.length = false) :
      Refuses node session (name :: arguments) (.wrongArity (Text.lowercase (Text.ofBytes name)))
  /-- The key to be renamed does not occur in the database that the session has selected. -/
  | renamesMissing {name source : Bytes} {command : Command} (hselect : isSelect name = false)
      (hlt : session.database < node.count)
      (hfind : Catalogue.registry.find? (Text.lowercase (Text.ofBytes name)) = some command)
      (hrenames : command ∈ Catalogue.renamings)
      (hmissing : (node.keyspaceAt session.database).get? source = none) (target : Bytes) :
      Refuses node session [name, source, target] .noSuchKey

variable {node : Node} {session : Session} {line : CommandLine} {refusal : Refusal}

/-- What the selected database does with a line that is for it. -/
theorem exec_of_lt (hlt : session.database < node.count) {name : Bytes}
    (hselect : isSelect name = false) (arguments : List Bytes) :
    node.exec session (name :: arguments) =
      let execution := node.databases[session.database].exec node.registry (name :: arguments)
      ⟨{ node with databases := node.databases.set session.database execution.database },
        session, execution.writes, execution.outcome⟩ := by
  have htarget : node.target? session (name :: arguments) = some session.database := by
    simp only [target?, hselect, Bool.false_eq_true, if_false, if_pos hlt]
  exact exec_of_target?_eq_some htarget

/-- What the selected database refuses, its node refuses. -/
theorem exec_of_refuse (hlt : session.database < node.count) {name : Bytes}
    (hselect : isSelect name = false) {arguments : List Bytes}
    (h : node.databases[session.database].exec node.registry (name :: arguments) =
      node.databases[session.database].refuse refusal) :
    node.exec session (name :: arguments) = node.refuse session refusal := by
  rw [exec_of_lt hlt hselect, h]
  exact congrArg (fun databases => (⟨{ node with databases }, _, _, _⟩ : Answer Node))
    (Array.set_getElem_self hlt)

/-- What a database does with a line that calls a command. -/
theorem database_exec_of_find? [Machine] (hregistry : node.registry = Catalogue.registry)
    (database : Database) {name : Bytes} {command : Command}
    (hfind : Catalogue.registry.find? (Text.lowercase (Text.ofBytes name)) = some command)
    (arguments : List Bytes) :
    database.exec node.registry (name :: arguments) =
      if command.arity.allows arguments.length then database.run command arguments
      else database.refuse (.wrongArity (Text.lowercase (Text.ofBytes name))) := by
  simp only [Database.exec, hregistry, hfind]

/-- A refused line is answered by the reason, and leaves everything as it is. -/
theorem exec_of_refuses [Machine] (hregistry : node.registry = Catalogue.registry)
    (h : node.Refuses session line refusal) :
    node.exec session line = node.refuse session refusal := by
  cases h with
  | noName => rfl
  | @selectsNoneOrMany name hselect arguments hcount =>
    simp only [exec, hselect, if_true]
    split
    · exact absurd rfl hcount
    · rfl
  | selectsNoNumber hselect hnumber => simp only [exec, hselect, if_true, select, hnumber]
  | selectsBeyond hselect hnumber hbeyond =>
    simp only [exec, hselect, if_true, select, hnumber, if_neg (Nat.not_lt.2 hbeyond)]
  | isBeyond hselect hbeyond arguments =>
    have hbeyond : ¬session.database < node.databases.size := Nat.not_lt.2 hbeyond
    simp only [exec, hselect, Bool.false_eq_true, if_false, execSelected, dif_neg hbeyond]
  | namesNone hselect hlt hfind arguments =>
    refine exec_of_refuse hlt hselect ?_
    simp only [Database.exec, hregistry, hfind]
  | givesWrongCount hselect hlt hfind harity =>
    refine exec_of_refuse hlt hselect ?_
    rw [database_exec_of_find? hregistry _ hfind, harity]
    rfl
  | renamesMissing hselect hlt hfind hrenames hmissing target =>
    rw [keyspaceAt_of_lt hlt] at hmissing
    -- the line comes as far as the command, which is the one that refuses it
    refine exec_of_refuse hlt hselect ?_
    have harity : ∀ command ∈ Catalogue.renamings, command.arity.allows 2 = true := by
      simp [Catalogue.renamings, Catalogue.rename, Catalogue.renameNx, Arity.allows]
    rw [database_exec_of_find? hregistry _ hfind, List.length_cons, List.length_singleton,
      if_pos (harity _ hrenames), Database.run,
      Catalogue.run_of_mem_renamings hrenames hmissing]
    rfl

/-- A line that is answered by an error is refused. -/
theorem exists_refuses_of_isError [Machine] (hregistry : node.registry = Catalogue.registry)
    (h : (node.exec session line).reply.isError = true) :
    ∃ refusal, node.Refuses session line refusal := by
  rcases line with _ | ⟨name, arguments⟩
  · exact ⟨_, .noName⟩
  cases hselect : isSelect name with
  | true =>
    by_cases hcount : arguments.length = 1
    · obtain ⟨argument, rfl⟩ := List.length_eq_one_iff.1 hcount
      cases hnumber : Decimal.uint64? argument with
      | none => exact ⟨_, .selectsNoNumber hselect hnumber⟩
      | some index =>
        refine ⟨_, .selectsBeyond hselect hnumber (Nat.le_of_not_lt fun hlt => ?_)⟩
        -- the selection succeeds, and is acknowledged
        simp only [exec, hselect, if_true, select, hnumber, if_pos hlt] at h
        cases h
    · exact ⟨_, .selectsNoneOrMany hselect hcount⟩
  | false =>
    by_cases hlt : session.database < node.count
    · cases hfind : Catalogue.registry.find? (Text.lowercase (Text.ofBytes name)) with
      | none => exact ⟨_, .namesNone hselect hlt hfind arguments⟩
      | some command =>
        cases harity : command.arity.allows arguments.length with
        | false => exact ⟨_, .givesWrongCount hselect hlt hfind harity⟩
        | true =>
          -- only the renamings answer an error themselves
          rw [exec_of_lt hlt hselect, database_exec_of_find? hregistry _ hfind, if_pos harity] at h
          obtain ⟨hrenames, source, target, rfl, hmissing⟩ := Catalogue.exists_missing_of_isError
            (Catalogue.mem_all_of_find? hfind) harity h
          rw [← keyspaceAt_of_lt hlt] at hmissing
          exact ⟨_, .renamesMissing hselect hlt hfind hrenames hmissing target⟩
    · exact ⟨_, .isBeyond hselect (Nat.le_of_not_lt hlt) arguments⟩

end Node

/-- The requests of a list that are not answered by an error. -/
def Attended.heeded {σ : Type} (attended : Attended σ) (service : Nat → Service σ) :
    List Request → List Request
  | [] => []
  | request :: rest =>
    let later := (attended.after service request).heeded service rest
    if (attended.serve service request).reply.isError then later else request :: later

namespace JournaledNode

/-- What a node with a journal does for all clients. -/
def service : Nat → Service JournaledNode :=
  fun _ => serve

/-- The states of a node with its journal: it is opened on what lies at some path, executes lines
for any sessions, also for those that have selected a database that it does not have, lets its
recorder work, and is closed at any time. -/
inductive Reachable [Machine] : JournaledNode → Prop where
  /-- It is opened. -/
  | opened {databases : Nat} {options : JournalOptions} {place : Journal.Place}
      {journaled : JournaledNode} (h : openAt databases options place = .ok journaled) :
      Reachable journaled
  /-- It executes a line. -/
  | exec {journaled : JournaledNode} (h : Reachable journaled) (session : Session)
      (line : CommandLine) : Reachable (journaled.exec session line).state
  /-- Its recorder takes a step. -/
  | record {journaled : JournaledNode} (h : Reachable journaled)
      (glance : Journal.Recorder.Glance) : Reachable (journaled.record glance)
  /-- It is closed. -/
  | close {journaled : JournaledNode} (h : Reachable journaled) : Reachable journaled.close

/-- An opened node has the commands of the catalogue. -/
theorem registry_openAt [Machine] {databases : Nat} {options : JournalOptions}
    {place : Journal.Place}
    {journaled : JournaledNode} (h : openAt databases options place = .ok journaled) :
    journaled.node.registry = Catalogue.registry := by
  obtain ⟨enabled, policy⟩ := options
  cases enabled with
  | true =>
    obtain ⟨records, content, rfl⟩ := eq_of_openAt h
    exact ((Node.regular_empty databases).replay records).registry
  | false =>
    cases h
    rfl

variable {journaled : JournaledNode}

theorem Reachable.registry [Machine] (h : journaled.Reachable) :
    journaled.node.registry = Catalogue.registry := by
  induction h with
  | opened h => exact registry_openAt h
  | exec _ session line ih => exact (Node.registry_exec _ session line).trans ih
  | record _ _ ih => exact ih
  | close _ ih => exact ih

/-- A refused line leaves the journal as it is, too. -/
theorem exec_of_refuses [Machine] (hregistry : journaled.node.registry = Catalogue.registry)
    {session : Session} {line : CommandLine} {refusal : Refusal}
    (h : journaled.node.Refuses session line refusal) :
    journaled.exec session line = ⟨journaled, session, [], .reply refusal.reply⟩ := by
  simp only [exec, Node.exec_of_refuses hregistry h, Node.refuse, Node.answer, List.map_nil,
    List.foldl_nil, Option.map_id']

/-- Requests that are answered by an error might as well not have been made. -/
theorem Reachable.afterAll_heeded [Machine] (h : journaled.Reachable) (sessions : Nat → Session)
    (requests : List Request) :
    let attended : Attended JournaledNode := ⟨journaled, sessions⟩
    attended.afterAll service (attended.heeded service requests) =
      attended.afterAll service requests := by
  intro attended
  induction requests generalizing journaled sessions with
  | nil => rfl
  | cons request rest ih =>
    have hrest : (attended.after service request).afterAll service
        ((attended.after service request).heeded service rest) =
          (attended.after service request).afterAll service rest :=
      ih (h.exec (sessions request.client) request.line) _
    cases herror : (attended.serve service request).reply.isError with
    | true =>
      -- the request is left out, and changes nothing where it is made
      obtain ⟨refusal, hrefuses⟩ := Node.exists_refuses_of_isError h.registry herror
      have hsame : attended.after service request = attended := by
        have hexec := exec_of_refuses h.registry hrefuses
        simp only [Attended.after, Attended.serve, service, serve, attended, hexec,
          Function.update_eq_self]
      rw [hsame] at hrest
      simp only [Attended.heeded, herror, if_true, hsame, hrest]
      exact congrArg (Attended.afterAll · service rest) hsame.symm
    | false =>
      simp only [Attended.heeded, herror, Bool.false_eq_true, if_false]
      exact hrest

/-- A line that is answered by an error leaves the databases, the recorder of the journal and the
session as they were, and hands nothing to the journal. It is answered so exactly if it is refused,
by the reason for that. What any requests lead to, those of them lead to that are not answered by
an error. -/
theorem errors_change_nothing [Machine] (h : journaled.Reachable) :
    (∀ session line, (journaled.exec session line).reply.isError = true →
      (journaled.exec session line).state = journaled ∧
        (journaled.exec session line).session = session ∧
        (journaled.exec session line).writes = []) ∧
    (∀ session line, (journaled.exec session line).reply.isError = true ↔
      ∃ refusal, journaled.node.Refuses session line refusal ∧
        (journaled.exec session line).reply = refusal.reply) ∧
    ∀ sessions requests,
      let attended : Attended JournaledNode := ⟨journaled, sessions⟩
      attended.afterAll service (attended.heeded service requests) =
        attended.afterAll service requests := by
  have hrefuses : ∀ {session line}, (journaled.exec session line).reply.isError = true →
      ∃ refusal, journaled.node.Refuses session line refusal :=
    Node.exists_refuses_of_isError h.registry
  refine ⟨fun session line herror => ?_, fun session line => ⟨fun herror => ?_, ?_⟩,
    h.afterAll_heeded⟩
  · obtain ⟨refusal, hrefusal⟩ := hrefuses herror
    rw [exec_of_refuses h.registry hrefusal]
    exact ⟨rfl, rfl, rfl⟩
  · obtain ⟨refusal, hrefusal⟩ := hrefuses herror
    exact ⟨refusal, hrefusal, by rw [exec_of_refuses h.registry hrefusal]; rfl⟩
  · rintro ⟨refusal, -, hreply⟩
    rw [hreply]
    rfl

/-- A node that stores one key refuses to rename another one to it, and a client whose session is
on a database that the node does not have gets nothing done. -/
theorem errors_change_nothing_of_missing :
    ∃ opened, openAt 2 ⟨true, .everySecond⟩ .vacant = .ok opened ∧
      let line := List.map Text.toBytes
      let journaled := (opened.exec .start (line ["SET", "k", "v"])).state
      journaled.Reachable ∧
        (journaled.exec .start (line ["RENAMENX", "absent", "k"])).state = journaled ∧
        (journaled.exec .start (line ["RENAMENX", "absent", "k"])).writes = [] ∧
        (journaled.exec ⟨7⟩ (line ["SET", "k", "w"])).state = journaled ∧
        (journaled.exec ⟨7⟩ (line ["SET", "k", "w"])).session = ⟨7⟩ := by
  have hopened : openAt 2 ⟨true, .everySecond⟩ .vacant = .ok _ := rfl
  refine ⟨_, hopened, ?_⟩
  intro line journaled
  have hreachable : journaled.Reachable := .exec (.opened hopened) _ _
  have hmissing :
      (journaled.exec .start (line ["RENAMENX", "absent", "k"])).reply.isError = true := by
    decide +kernel
  have hbeyond : (journaled.exec ⟨7⟩ (line ["SET", "k", "w"])).reply.isError = true := by
    decide +kernel
  obtain ⟨hkeeps, -, -⟩ := errors_change_nothing hreachable
  exact ⟨hreachable, (hkeeps _ _ hmissing).1, (hkeeps _ _ hmissing).2.2, (hkeeps _ _ hbeyond).1,
    (hkeeps _ _ hbeyond).2.1⟩

end JournaledNode

end RingStore
