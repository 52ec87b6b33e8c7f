import RingStore.Proofs.Attended
import RingStore.Proofs.Node

/-!
# Databases and sessions apart

Many clients of one node share its databases, each on the database that its session has selected at
the time. A session is moved by its own selections only. A database takes notice of nothing but the
lines that were executed in it: after any requests, in any order, it is what it would be if it had
executed these lines alone, and it has given the same replies. This holds whatever the commands are,
also for those that fault after they have changed something.

A command's reply is a function of the keyspace and the arguments here, also where the machine
chooses it: which key `RANDOMKEY` answers is not promised, and the same choice is made on both
sides.

## Main definitions

* `Database.converse`: a database alone, and its replies.
* `Attended.dealings`: the lines that one database of a node executes for all clients, with the
  replies to them.

## Main results

* `Node.session_exec`: what a line does to the session for which it is executed.
* `Node.getElem?_databases_exec`: what it does to each database.
* `Attended.converse_dealings`: a database among others does what it does alone.
* `Attended.databases_and_sessions_apart`: the same for all requests from the start, with the
  sessions.
-/

namespace RingStore

/-- A database alone, after command lines executed one after the other, and its replies to them. -/
def Database.converse (registry : Registry) (database : Database) :
    List CommandLine → Database × List Value
  | [] => (database, [])
  | line :: rest =>
    let execution := database.exec registry line
    let (last, replies) := execution.database.converse registry rest
    (last, execution.outcome.toReply :: replies)

/-- The line is for the database that its session has selected: it has a name, and that is not the
one by which databases are selected. -/
def CommandLine.IsForDatabase : CommandLine → Bool
  | [] => false
  | name :: _ => !Node.isSelect name

namespace Node

variable {node : Node} {session : Session} {line : CommandLine}

/-- A line leaves its session where it is, unless it is a selection that succeeds. -/
theorem session_exec (node : Node) (session : Session) (line : CommandLine) :
    (node.exec session line).session = session ∨
      ∃ name argument index, line = [name, argument] ∧ isSelect name = true ∧
        Decimal.uint64? argument = some index ∧ index < node.count ∧
        (node.exec session line).session = ⟨index⟩ ∧ (node.exec session line).reply = .ok := by
  rcases line with _ | ⟨name, arguments⟩
  · exact .inl rfl
  by_cases hselect : isSelect name = true
  · simp only [exec, hselect, if_true]
    split
    · next argument =>
      unfold select
      split
      · exact .inl rfl
      · next index hindex =>
        split
        · next hlt => exact .inr ⟨name, argument, index, rfl, hselect, hindex, hlt, rfl, rfl⟩
        · exact .inl rfl
    · exact .inl rfl
  · -- a line for a database leaves the session alone
    left
    simp only [exec, if_neg hselect, execSelected]
    split <;> rfl

/-- A session stays on one of the node's databases. -/
theorem session_exec_lt {session : Session} (h : session.database < node.count)
    (line : CommandLine) : (node.exec session line).session.database < node.count := by
  rcases node.session_exec session line with hsame | ⟨_, _, index, -, -, -, hlt, hmoved, -⟩
  · rwa [hsame]
  · rwa [hmoved]

/-- A session that is on one of the node's databases has it execute the lines that are for one. -/
theorem target?_eq_some_iff (h : session.database < node.count) {index : Nat} :
    node.target? session line = some index ↔
      session.database = index ∧ line.IsForDatabase = true := by
  rcases line with _ | ⟨name, arguments⟩
  · simp [target?, CommandLine.IsForDatabase]
  · by_cases hselect : isSelect name = true
    · simp [target?, CommandLine.IsForDatabase, hselect]
    · simp [target?, CommandLine.IsForDatabase, hselect, h]

/-- A line is executed by its target, and all other databases stay as they are. -/
theorem getElem?_databases_exec (node : Node) (session : Session) (line : CommandLine)
    (index : Nat) :
    (node.exec session line).state.databases[index]? =
      if node.target? session line = some index then
        node.databases[index]?.map fun database => (database.exec node.registry line).database
      else node.databases[index]? := by
  rcases htarget : node.target? session line with _ | number
  · rw [(exec_of_target?_eq_none htarget).1]
    rfl
  · obtain ⟨hlt, -⟩ := lt_of_target?_eq_some htarget
    rw [exec_of_target?_eq_some htarget]
    by_cases hsame : number = index
    · subst hsame
      rw [if_pos rfl, Array.getElem?_set_self hlt, Array.getElem?_eq_getElem hlt]
      rfl
    · rw [if_neg fun heq => hsame (Option.some.inj heq), Array.getElem?_set_ne hlt hsame]

/-- The reply to a line that has a target is the target's. -/
theorem reply_exec_of_target?_eq_some {index : Nat} {database : Database}
    (htarget : node.target? session line = some index)
    (hdatabase : node.databases[index]? = some database) :
    (node.exec session line).reply = (database.exec node.registry line).outcome.toReply := by
  obtain ⟨hlt, rfl⟩ := Array.getElem?_eq_some_iff.1 hdatabase
  rw [exec_of_target?_eq_some htarget]
  rfl

end Node

namespace Attended

/-- The lines for the database of a number that are given while requests are made to its node, by
clients that have selected it at the time, with the replies to them. -/
def dealings (attended : Attended Node) (index : Nat) : List Request → List (CommandLine × Value)
  | [] => []
  | request :: rest =>
    let later := (attended.after Node.service request).dealings index rest
    if (attended.sessions request.client).database = index ∧ request.line.IsForDatabase = true then
      (request.line, (attended.serve Node.service request).reply) :: later
    else later

/-- All sessions are on databases of the node. -/
def OnDatabases (attended : Attended Node) : Prop :=
  ∀ client, (attended.sessions client).database < attended.state.count

section Requests

variable {attended : Attended Node}

/-- A request moves no session but its client's. -/
theorem sessions_after (attended : Attended Node) (request : Request) (client : Nat) :
    (attended.after Node.service request).sessions client =
      if client = request.client then
        (attended.state.exec (attended.sessions request.client) request.line).session
      else attended.sessions client :=
  Function.update_apply ..

/-- Requests keep the number of databases. -/
theorem count_afterAll (attended : Attended Node) (requests : List Request) :
    (attended.afterAll Node.service requests).state.count = attended.state.count := by
  induction requests generalizing attended with
  | nil => rfl
  | cons request rest ih =>
    exact (ih (attended.after Node.service request)).trans (Node.count_exec ..)

theorem OnDatabases.after (h : attended.OnDatabases) (request : Request) :
    (attended.after Node.service request).OnDatabases := by
  intro client
  rw [show (attended.after Node.service request).state.count = attended.state.count from
    Node.count_exec .., sessions_after]
  split
  · exact Node.session_exec_lt (h request.client) request.line
  · exact h client

theorem OnDatabases.afterAll (h : attended.OnDatabases) (requests : List Request) :
    (attended.afterAll Node.service requests).OnDatabases := by
  induction requests generalizing attended with
  | nil => exact h
  | cons request rest ih => exact ih (h.after request)

/-- A database among others does what it does alone on the lines that are given to it. -/
theorem OnDatabases.converse_dealings (h : attended.OnDatabases) {index : Nat} {database : Database}
    (hdatabase : attended.state.databases[index]? = some database) (requests : List Request) :
    let dealings := attended.dealings index requests
    let alone := database.converse attended.state.registry (dealings.map Prod.fst)
    (attended.afterAll Node.service requests).state.databases[index]? = some alone.1 ∧
      dealings.map Prod.snd = alone.2 := by
  induction requests generalizing attended database with
  | nil => exact ⟨hdatabase, rfl⟩
  | cons request rest ih =>
    have hregistry : (attended.after Node.service request).state.registry =
        attended.state.registry := Node.registry_exec ..
    have hafter : (attended.after Node.service request).state.databases[index]? = _ :=
      attended.state.getElem?_databases_exec (attended.sessions request.client) request.line index
    have htarget : attended.state.target? _ request.line = some index ↔ _ :=
      Node.target?_eq_some_iff (h request.client)
    by_cases hhere : (attended.sessions request.client).database = index ∧
        request.line.IsForDatabase = true
    · -- the database executes the line, here as well as alone
      rw [if_pos (htarget.2 hhere), hdatabase, Option.map_some] at hafter
      have hreply : (attended.serve Node.service request).reply = _ :=
        Node.reply_exec_of_target?_eq_some (htarget.2 hhere) hdatabase
      obtain ⟨hlast, hreplies⟩ := ih (h.after request) hafter
      rw [hregistry] at hlast hreplies
      simp only [dealings, if_pos hhere, List.map_cons, Database.converse]
      exact ⟨hlast, by rw [hreply, hreplies]⟩
    · -- the database has no part in the request
      rw [if_neg (mt htarget.1 hhere), hdatabase] at hafter
      obtain ⟨hlast, hreplies⟩ := ih (h.after request) hafter
      rw [hregistry] at hlast hreplies
      simp only [dealings, if_neg hhere]
      exact ⟨hlast, hreplies⟩

end Requests

/-- Clients that begin on database zero of a node and give any lines in any order, those that select
databases, those that are refused and those that fault among them: a session is moved only by a
selection of its own client that succeeds, to the database that is named, and stays on one of the
node's databases. Every database has come to what it would be, and has given the replies that it
would give, if it had executed alone the lines given by clients that had selected it at the time. A
fault is answered by the general error. -/
theorem databases_and_sessions_apart (node : Node) (hnode : 0 < node.count)
    (requests : List Request) :
    let now := (start node).afterAll Node.service requests
    (∀ client, (now.sessions client).database < node.count) ∧
      (∀ (request : Request) (client : Nat),
        (now.after Node.service request).sessions client ≠ now.sessions client →
          client = request.client ∧ (now.serve Node.service request).reply = .ok ∧
            ∃ name argument, request.line = [name, argument] ∧ Node.isSelect name = true ∧
              Decimal.uint64? argument =
                some ((now.after Node.service request).sessions client).database) ∧
      ∀ (index : Nat) (database : Database), node.databases[index]? = some database →
        let dealings := (start node).dealings index requests
        let alone := database.converse node.registry (dealings.map Prod.fst)
        now.state.databases[index]? = some alone.1 ∧ dealings.map Prod.snd = alone.2 := by
  intro now
  have hstart : (start node).OnDatabases := fun _ => hnode
  refine ⟨fun client => ?_, fun request client hmoved => ?_, fun index database hdatabase => ?_⟩
  · calc
      (now.sessions client).database < now.state.count := hstart.afterAll requests client
      _ = node.count := count_afterAll ..
  · -- nobody else's session changes, and one's own only by a selection that succeeds
    rw [sessions_after] at hmoved ⊢
    by_cases hclient : client = request.client
    · subst hclient
      rw [if_pos rfl] at hmoved ⊢
      rcases now.state.session_exec (now.sessions request.client) request.line with
        hsame | ⟨name, argument, index, hline, hselect, hargument, -, hsession, hreply⟩
      · exact absurd hsame hmoved
      · rw [hsession]
        exact ⟨rfl, hreply, name, argument, hline, hselect, hargument⟩
    · rw [if_neg hclient] at hmoved
      exact absurd rfl hmoved
  · exact hstart.converse_dealings hdatabase requests

/-- A command that stores something under its first argument and then faults. -/
def tear : Command where
  name := "TEAR"
  arity := .atLeast 1
  isWrite := true
  isReadModifyWrite := false
  run
    | keyspace, key :: _ => ⟨(keyspace.put key ⟨[112]⟩).2, [], .fault⟩
    | keyspace, [] => .fault keyspace

/-- One client writes to database zero and faults. Another one is refused a selection, makes one
that succeeds, and finds nothing where it is then. The first one finds what it has written. -/
theorem databases_and_sessions_apart_of_fault :
    let node := Node.empty (Catalogue.registry.register tear) 2
    let requests : List Request := [⟨0, [Text.toBytes "TEAR", [107]]⟩,
      ⟨1, [Text.toBytes "SELECT", [50]]⟩, ⟨1, [Text.toBytes "SELECT", [49]]⟩,
      ⟨1, [Text.toBytes "GET", [107]]⟩, ⟨0, [Text.toBytes "GET", [107]]⟩]
    let lines := [[Text.toBytes "TEAR", [107]], [Text.toBytes "GET", [107]]]
    let dealings := (start node).dealings 0 requests
    0 < node.count ∧ dealings.map Prod.fst = lines ∧
      dealings.map Prod.snd = ((Database.empty 0).converse node.registry lines).2 ∧
      dealings.map (fun dealing => dealing.2.encode) =
        [Text.toBytes "-ERR unknown\r\n", Text.toBytes "$1\r\np\r\n"] := by
  intro node requests lines dealings
  have hnode : 0 < node.count := by decide +kernel
  have hlines : dealings.map Prod.fst = lines := by decide +kernel
  obtain ⟨-, -, halone⟩ := databases_and_sessions_apart node hnode requests
  obtain ⟨-, hreplies⟩ := halone 0 (.empty 0) (by simp [node, Node.empty])
  rw [show ((start node).dealings 0 requests).map Prod.fst = lines from hlines] at hreplies
  exact ⟨hnode, hlines, hreplies, by decide +kernel⟩

end Attended

end RingStore
