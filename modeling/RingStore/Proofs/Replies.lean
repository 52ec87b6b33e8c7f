import RingStore.Cluster.Relay
import RingStore.Proofs.Cluster.Errands
import RingStore.Proofs.Command.Plain
import RingStore.Proofs.Connection
import RingStore.Proofs.Node

/-!
# Which replies break their frame

A reply is sent as it is, and nobody marks where it ends but the reply itself. Here the replies that
are not read back as themselves are found, for a node, for what a coordinator and a relay word
themselves, and for a whole connection. A byte string or an array is read back if it is not longer
than a reader takes. A text is read back unless it holds the end of a line, and the only texts that
can hold one are errors that quote a name or an address.

## Main definitions

* `Node.Splits`, `Coordinator.Splits`: the errors that quote the end of a line, with the command
  lines that get them.
* `Coordinator.AccountedBy`: what a coordinator replies after what it has heard.
* `PeerAccess.heard`, `PeerAccess.Refuses`: what a relay hears, and its errors.

## Main results

* `Node.plain_or_splits`, `Coordinator.accountedBy_plan`, `PeerAccess.heard_or_refused`: all other
  replies hold no end of a line.
* `read_reply_iff`: which replies are read back.
-/

namespace RingStore

namespace Node

/-- The error for an unknown command whose name holds the end of a line, with the command lines that
get it. -/
inductive Splits : CommandLine → Value → Prop where
  /-- The error quotes the name in small letters. -/
  | unknownCommand {name : Bytes} (h : lineEnd <:+: name) (arguments : List Bytes) :
      Splits (name :: arguments)
        (Refusal.unknownCommand (Text.lowercase (Text.ofBytes name))).reply

/-- A database answers plainly, unless no command has the name. -/
theorem plain_or_unknownCommand_of_exec [Machine] (database : Database) (name : Bytes)
    (arguments : List Bytes) :
    let reply := (database.exec Catalogue.registry (name :: arguments)).outcome.toReply
    reply.Plain ∨ reply = (Refusal.unknownCommand (Text.lowercase (Text.ofBytes name))).reply := by
  intro reply
  simp only [reply, Database.exec]
  split
  · exact .inr rfl
  · next command hfind =>
    -- a name under which a command is found holds no end of a line, and only the name is quoted
    left
    split
    · exact Catalogue.answersPlainly_of_mem_all command (Catalogue.mem_all_of_find? hfind) _ _
    · refine Refusal.plain_reply ?_
      rw [Refusal.lineEnd_infix_of_quoting (Text.lowercase (Text.ofBytes name))
        (by simp [Refusal.quoting])]
      exact Catalogue.not_lineEnd_of_find? hfind

/-- What a node replies to a line that selects no database. -/
theorem reply_of_not_isSelect (node : Node) (session : Session) {name : Bytes}
    (h : isSelect name = false) (arguments : List Bytes) :
    (node.exec session (name :: arguments)).reply =
      if hlt : session.database < node.databases.size then
        (node.databases[session.database].exec node.registry (name :: arguments)).outcome.toReply
      else Refusal.indexOutOfRange.reply := by
  simp only [exec, h, execSelected, Bool.false_eq_true, if_false]
  split <;> rfl

/-- What a node replies to a line that selects a database is plain. -/
theorem plain_reply_of_isSelect (node : Node) (session : Session) {name : Bytes}
    (h : isSelect name = true) (arguments : List Bytes) :
    (node.exec session (name :: arguments)).reply.Plain := by
  simp only [exec, h, if_true]
  split
  · unfold select
    split
    · exact Refusal.plain_of_fixed (by simp [Refusal.fixed])
    · split
      · exact Catalogue.plain_ok
      · exact Refusal.plain_of_fixed (by simp [Refusal.fixed])
  · exact Refusal.plain_of_fixed (by simp [Refusal.fixed])

/-- A name that holds the end of a line is unknown to every database. -/
theorem reply_of_lineEnd [Machine] {node : Node} (hregistry : node.registry = Catalogue.registry)
    {session : Session} (hlt : session.database < node.databases.size) {name : Bytes}
    (h : lineEnd <:+: name) (arguments : List Bytes) :
    (node.exec session (name :: arguments)).reply =
      (Refusal.unknownCommand (Text.lowercase (Text.ofBytes name))).reply := by
  have hselect : isSelect name = false := by
    rw [isSelect, Bytes.equalsIgnoringAsciiCase, beq_eq_false_iff_ne]
    intro heq
    -- the word for selecting holds no end of a line, in small letters as in any
    have hin := h.map Bytes.toAsciiLower
    rw [heq] at hin
    exact absurd hin (by decide +kernel)
  rw [reply_of_not_isSelect node session hselect, dif_pos hlt, hregistry]
  simp only [Database.exec]
  split
  · rfl
  · -- what the name would have to be is the name of a command, and those hold no end of a line
    next command hfind =>
    rw [← Text.lineEnd_infix_toBytes_ofBytes, ← Text.lineEnd_infix_toBytes_lowercase] at h
    exact absurd h (Catalogue.not_lineEnd_of_find? hfind)

/-- Every reply of a node is plain or quotes the end of a line. -/
theorem plain_or_splits [Machine] {node : Node} (hregistry : node.registry = Catalogue.registry)
    (session : Session) (line : CommandLine) :
    (node.exec session line).reply.Plain ∨ Splits line (node.exec session line).reply := by
  cases line with
  | nil => exact .inl (Refusal.plain_of_fixed (by simp [Refusal.fixed]))
  | cons name arguments =>
    cases hselect : isSelect name with
    | true => exact .inl (plain_reply_of_isSelect node session hselect _)
    | false =>
      rw [reply_of_not_isSelect node session hselect, hregistry]
      split
      · rcases plain_or_unknownCommand_of_exec node.databases[session.database] name arguments with
          hplain | hunknown
        · exact .inl hplain
        · -- the error quotes what the client sent, replaced where it is no text and in small
          -- letters; neither makes or removes the end of a line
          rw [hunknown]
          by_cases hname : lineEnd <:+: name
          · exact .inr (.unknownCommand hname arguments)
          · refine .inl (Refusal.plain_reply ?_)
            rw [Refusal.lineEnd_infix_of_quoting_lowercase name (by simp [Refusal.quoting])]
            exact hname
      · exact .inl (Refusal.plain_of_fixed (by simp [Refusal.fixed]))

/-- A node answers every command line. -/
theorem reply_ne_silent [Machine] {node : Node} (hregistry : node.registry = Catalogue.registry)
    (session : Session) (line : CommandLine) : (node.exec session line).reply ≠ .silent := by
  intro hsilent
  rcases plain_or_splits hregistry session line with h | h <;>
    · rw [hsilent] at h
      cases h

end Node

variable {σ : Type}

namespace Coordinator

/-- The errors worded by a coordinator itself that quote the end of a line, with the replies that it
has heard from members and the command lines that get them. -/
inductive Splits (heard : List Value) : CommandLine → Value → Prop where
  /-- The command is not routed. -/
  | notSupported {name : Bytes} (h : lineEnd <:+: name) (arguments : List Bytes) :
      Splits heard (name :: arguments)
        (Refusal.notSupported (Text.lowercase (Text.ofBytes name))).reply
  /-- The command is not forwarded. -/
  | notForwardable {name : Bytes} (h : lineEnd <:+: name) (forwarder : Bytes)
      (arguments : List Bytes) :
      Splits heard (forwarder :: name :: arguments)
        (Refusal.notForwardable (Text.lowercase (Text.ofBytes name))).reply
  /-- The reply of an owner of keys is no number. -/
  | notACount {owner : String} {reply : Value} (hreply : reply ∈ heard)
      (h : lineEnd <:+: Text.toBytes (Refusal.notACount owner reply).message)
      (line : CommandLine) : Splits heard line (Refusal.notACount owner reply).reply

/-- A reply that a member gave, that is an array of what members gave, that is framed, or that
quotes the end of a line. -/
inductive Accounted (heard : List Value) (line : CommandLine) : Value → Prop where
  /-- A member gave it. -/
  | given {reply : Value} (h : reply ∈ heard) : Accounted heard line reply
  /-- It is an array. -/
  | array (items : List Value) : Accounted heard line (.array items)
  /-- It is framed. -/
  | framed {reply : Value} (h : reply.Framed Wire.maxDepth) : Accounted heard line reply
  /-- It quotes the end of a line. -/
  | splits {reply : Value} (h : Splits heard line reply) : Accounted heard line reply

variable {heard : List Value} {line : CommandLine}

/-- What has been heard before makes no difference. -/
theorem Accounted.cons {reply : Value} (h : Accounted heard line reply) (first : Value) :
    Accounted (first :: heard) line reply := by
  cases h with
  | given h => exact .given (List.mem_cons_of_mem first h)
  | array items => exact .array items
  | framed h => exact .framed h
  | splits h =>
    refine .splits ?_
    cases h with
    | notSupported h arguments => exact .notSupported h arguments
    | notForwardable h forwarder arguments => exact .notForwardable h forwarder arguments
    | notACount hreply h _ => exact .notACount (List.mem_cons_of_mem first hreply) h line

theorem accounted_of_clean {refusal : Refusal} (h : ¬lineEnd <:+: Text.toBytes refusal.message) :
    Accounted heard line refusal.reply :=
  .framed (Value.framed_error.2 h)

theorem accounted_of_fixed {refusal : Refusal} (h : refusal ∈ Refusal.fixed) :
    Accounted heard line refusal.reply :=
  accounted_of_clean (Refusal.not_lineEnd_of_fixed refusal h)

/-- A refusal that quotes the name of a command is framed, or quotes the end of a line with it. -/
theorem accounted_of_quoting {name : Bytes} {refusal : Refusal}
    (hquotes : refusal ∈ Refusal.quoting (Text.lowercase (Text.ofBytes name)))
    (hsplits : lineEnd <:+: name → Splits heard line refusal.reply) :
    Accounted heard line refusal.reply := by
  by_cases hname : lineEnd <:+: name
  · exact .splits (hsplits hname)
  · refine accounted_of_clean ?_
    rwa [Refusal.lineEnd_infix_of_quoting_lowercase name hquotes]

/-- One reply made of those of all members is an error of one of them, or worded here. -/
theorem accounted_combine (merge : Merge) (replies : List Value) :
    Accounted replies line (merge.combine replies).toReply := by
  unfold Merge.combine
  -- the first error of a member counts, whatever the others have replied
  split
  · next error herror => exact .given (List.mem_of_find?_eq_some herror)
  · split
    · split
      · exact .framed (Catalogue.plain_ok.framed_iff.2 True.intro)
      · exact accounted_of_fixed (by simp [Refusal.fixed])
    · split
      · exact .framed Value.framed_integer
      · exact accounted_of_fixed (by simp [Refusal.fixed])
    · exact .array _

section Plans

variable (coordinator : Coordinator) (surroundings : Surroundings σ) (state : σ)
  (session : Session)

/-- The reply that a plan comes to is accounted for by what is heard on the way. -/
def AccountedBy (line : CommandLine) (plan : Plan) : Prop :=
  Accounted (plan.heard coordinator surroundings state session) line
    (plan.run coordinator surroundings state session).outcome.toReply

/-- The reply to the only errand is the reply. -/
theorem accountedBy_askOnce (errand : Errand) :
    AccountedBy coordinator surroundings state session line (askOnce errand) :=
  .given (List.mem_singleton_self _)

/-- All replies that have been heard are put together at the end. -/
theorem outcome_askAll (merge : Merge) (errands : List Errand) (replies : List Value) :
    let plan := askAll merge errands replies
    (plan.run coordinator surroundings state session).outcome =
      merge.combine (replies ++ plan.heard coordinator surroundings state session) := by
  induction errands generalizing state session replies with
  | nil => simp only [askAll, Plan.run, Plan.heard, List.append_nil]
  | cons errand rest ih =>
    simp only [askAll, Plan.run, Plan.heard]
    rw [ih, List.append_assoc, List.singleton_append]

theorem accountedBy_askAll (merge : Merge) (errands : List Errand) :
    AccountedBy coordinator surroundings state session line (askAll merge errands []) := by
  rw [AccountedBy, outcome_askAll, List.nil_append]
  exact accounted_combine merge _

/-- The sum over the owners of keys is a number, a fault, an error of an owner, or a complaint about
its reply. -/
theorem accountedBy_askOwners (errands : List Errand) (total : Int64) :
    AccountedBy coordinator surroundings state session line (askOwners total errands) := by
  -- the first owner that does not answer by a number ends the sum with what it said
  induction errands generalizing total state session with
  | nil => exact .framed Value.framed_integer
  | cons errand rest ih =>
    simp only [AccountedBy, askOwners, Plan.run, Plan.heard]
    generalize coordinator.relay surroundings errand.member state session errand.line = served
    obtain ⟨next, after, reply⟩ := served
    have hcomplaint : Accounted [reply] line (Refusal.notACount errand.member reply).reply := by
      by_cases h : lineEnd <:+: Text.toBytes (Refusal.notACount errand.member reply).message
      · exact .splits (.notACount (List.mem_singleton_self _) h line)
      · exact accounted_of_clean h
    cases reply with
    | integer count =>
      dsimp only
      split
      · exact (ih _ _ _).cons _
      · exact accounted_of_fixed (by simp [Refusal.fixed])
    | error text => exact .given (List.mem_singleton_self _)
    | _ => exact hcomplaint

end Plans

/-- No name that is routed holds the end of a line. -/
theorem not_lineEnd_of_route? {name : String} {route : Route} (h : route? name = some route) :
    ¬lineEnd <:+: Text.toBytes name := by
  -- a finite table: no name in it has a line feed
  have hnames : ∀ name ∈ routes.map Prod.fst, '\n' ∉ name.toList := by
    decide +kernel
  obtain ⟨entry, hmem, heq⟩ := List.lookup_isSome_iff.1 (Option.isSome_of_eq_some h)
  rw [eq_of_beq heq]
  exact Text.not_lineEnd_of_not_mem (hnames entry.1 (List.mem_map_of_mem hmem))

/-- Every reply of a coordinator comes from a member, is an array, is framed, or quotes the end of a
line. -/
theorem accountedBy_plan (coordinator : Coordinator) (surroundings : Surroundings σ) (state : σ)
    (session : Session) (line : CommandLine) :
    AccountedBy coordinator surroundings state session line (coordinator.plan line) := by
  cases line with
  | nil => exact accounted_of_fixed (by simp [Refusal.fixed])
  | cons name arguments =>
    rw [plan]
    cases hroute : route? (Text.lowercase (Text.ofBytes name)) with
    | none =>
      exact accounted_of_quoting (by simp [Refusal.quoting])
        fun hname => .notSupported hname arguments
    | some route =>
      -- once a name is routed, what is refused about the arguments quotes a name of the table
      have harity : ¬lineEnd <:+: Text.toBytes
          (Refusal.wrongArity (Text.lowercase (Text.ofBytes name))).message := by
        rw [Refusal.lineEnd_infix_of_quoting (Text.lowercase (Text.ofBytes name))
          (by simp [Refusal.quoting])]
        exact not_lineEnd_of_route? hroute
      cases route with
      | here => exact accountedBy_askOnce _ _ _ _ _
      | firstKey =>
        cases arguments with
        | nil => exact accounted_of_clean harity
        | cons key _ => exact accountedBy_askOnce _ _ _ _ _
      | splitKeys =>
        cases arguments with
        | nil => exact accounted_of_clean harity
        | cons _ _ => exact accountedBy_askOwners _ _ _ _ _ 0
      | sameOwner =>
        simp only [planBy]
        split
        · split
          · exact accountedBy_askOnce _ _ _ _ _
          · exact accounted_of_fixed (by simp [Refusal.fixed])
        · exact accounted_of_clean harity
      | broadcast merge => exact accountedBy_askAll _ _ _ _ merge _
      | forwarded =>
        cases arguments with
        | nil => exact accounted_of_fixed (by simp [Refusal.fixed])
        | cons inner more =>
          simp only [planBy]
          split
          · exact accountedBy_askOnce _ _ _ _ _
          · exact accounted_of_quoting (by simp [Refusal.quoting])
              fun hname => .notForwardable hname name more

end Coordinator

namespace PeerAccess

variable {κ : Type}

/-- The errors by which a relay itself says that the peer could not be asked. -/
def Refuses (access : PeerAccess σ κ) (refusal : Refusal) : Prop :=
  refusal = .unknownPeer access.peer ∨ ∃ cause, refusal = .peerFailed access.peer cause

variable (access : PeerAccess σ κ) (state : σ) (session : Session) (line : CommandLine)

/-- The replies of the peer that come in over a connection while a command line is relayed, the one
to the selection first. -/
def heardOver (connection : κ) : List Value :=
  match access.ask state connection (selection session) with
  | (.error _, _, _) => []
  | (.ok selected, after, next) =>
    if selected.isError then [selected]
    else
      match access.ask next after line with
      | (.error _, _, _) => [selected]
      | (.ok reply, _, _) => [selected, reply]

/-- The replies of the peer that come in while a command line is relayed. -/
def heard : List Value :=
  match access.pool? state with
  | none => []
  | some pool =>
    let (step, opened) := pool.borrow (fun _ => true) access.connect state
    match step.result with
    | .granted connection =>
      access.heardOver (access.setPool opened step.pool) session line connection
    | _ => []

theorem heard_or_refused_of_converse (connection : κ) :
    (access.heardOver state session line connection).getLast? =
        some (access.converse state connection session line).1 ∨
      ∃ refusal, access.Refuses refusal ∧
        (access.converse state connection session line).1 = refusal.reply := by
  unfold converse heardOver
  rcases access.ask state connection (selection session) with ⟨_ | selected, after, next⟩
  · exact .inr ⟨_, .inr ⟨_, rfl⟩, rfl⟩
  · -- what was heard last is the refusal of the selection, or the reply to the line
    cases hrefused : selected.isError with
    | true =>
      simp only [hrefused, if_true]
      exact .inl rfl
    | false =>
      simp only [hrefused, Bool.false_eq_true, if_false]
      rcases access.ask next after line with ⟨_ | reply, last, final⟩
      · exact .inr ⟨_, .inr ⟨_, rfl⟩, rfl⟩
      · exact .inl rfl

/-- The reply of a relay is the last one that the peer sent, or an error of the relay itself. -/
theorem heard_or_refused :
    (access.heard state session line).getLast? = some (access.relay state session line).1 ∨
      ∃ refusal, access.Refuses refusal ∧ (access.relay state session line).1 = refusal.reply := by
  unfold relay heard
  cases access.pool? state with
  | none => exact .inr ⟨_, .inl rfl, rfl⟩
  | some pool =>
    dsimp only
    generalize pool.borrow (fun _ => true) access.connect state = borrowed
    obtain ⟨⟨lent, events, loan⟩, opened⟩ := borrowed
    cases loan with
    | wait => exact .inr ⟨_, .inr ⟨_, rfl⟩, rfl⟩
    | refused error => exact .inr ⟨_, .inr ⟨_, rfl⟩, rfl⟩
    | granted connection =>
      exact access.heard_or_refused_of_converse (access.setPool opened lent) session line connection

end PeerAccess

namespace Connection

variable [Machine] {node : Node} (hregistry : node.registry = Catalogue.registry)
  {session : Session}

include hregistry

/-- What a node answers to a request is plain, or quotes the end of a line. -/
theorem plain_or_splits_of_answerFrame {request reply : Value}
    (h : ((mk node session [] []).answerFrame Node.serve request).2 = some reply) :
    reply.Plain ∨ ∃ line, request.commandLine? = some line ∧ Node.Splits line reply := by
  unfold answerFrame at h
  split at h
  · next line hline =>
    have hreply : reply = (node.exec session line).reply := by
      dsimp only at h
      split at h
      · cases h
      · exact (Option.some.inj h).symm
    rw [hreply]
    exact (Node.plain_or_splits hregistry session line).imp id fun h => ⟨line, hline, h⟩
  · split at h
    · cases h
    · cases h
      exact .inl (Refusal.plain_of_fixed (by simp [Refusal.fixed]))

/-- So does everything that a node sends for requests answered one after the other. -/
theorem plain_or_splits_of_mem_replies {requests : List Value} {entry : Value × Value}
    (h : entry ∈ replies Node.serve node session requests) :
    entry.2.Plain ∨ ∃ line, entry.1.commandLine? = some line ∧ Node.Splits line entry.2 := by
  induction requests generalizing node session with
  | nil => cases h
  | cons request rest ih =>
    rcases List.mem_append.1 h with h | h
    · obtain ⟨reply, hreply, rfl⟩ := Option.map_eq_some_iff.1 (Option.mem_toList.1 h)
      exact plain_or_splits_of_answerFrame hregistry hreply
    · -- no request changes which commands the node knows
      refine ih ?_ h
      unfold answerFrame
      split
      · exact (Node.registry_exec node session _).trans hregistry
      · split <;> exact hregistry

omit [Machine] hregistry in
/-- What is sent about malformed bytes is framed. -/
theorem framed_of_mem_complaints {left : Bytes} {reply : Value} (h : reply ∈ complaints left) :
    reply.Framed Wire.maxDepth := by
  unfold complaints at h
  split at h
  · next reason _ =>
    rw [List.mem_singleton.1 h]
    exact ((Refusal.plain_protocol reason).framed_iff).2 trivial
  · cases h

/-- If no reply of a node quotes the end of a line, the replies are read back from what a connection
sends exactly if none is too long. -/
theorem readAll_sent_iff (requests : List Value) (left : Bytes) :
    let answered := replies Node.serve node session requests
    let sent := answered.map Prod.snd ++ complaints left
    (∀ entry ∈ answered, ∀ line, entry.1.commandLine? = some line → ¬Node.Splits line entry.2) →
      (Wire.readAll (sent.flatMap Value.encode) = (sent, []) ↔
        ∀ entry ∈ answered, entry.2.WithinLimits) := by
  intro answered sent hsplits
  -- without quoted line ends, only lengths decide
  have hplain : ∀ entry ∈ answered, entry.2.Plain := fun entry hentry =>
    (plain_or_splits_of_mem_replies hregistry hentry).resolve_right
      fun ⟨line, hline, h⟩ => hsplits entry hentry line hline h
  rw [Wire.readAll_encode_iff]
  constructor
  · intro h entry hentry
    exact (hplain entry hentry).framed_iff.1
      (h _ (List.mem_append_left _ (List.mem_map_of_mem hentry)))
  · intro h reply hreply
    rcases List.mem_append.1 hreply with hreply | hreply
    · obtain ⟨entry, hentry, rfl⟩ := List.mem_map.1 hreply
      exact (hplain entry hentry).framed_iff.2 (h entry hentry)
    · exact framed_of_mem_complaints hreply

end Connection

namespace Coordinator

variable {heard : List Value} {line : CommandLine} {reply : Value}

/-- A reply that no member gave is sent. Unless it quotes the end of a line, it is read back exactly
if it is no array whose items are too many or not framed. -/
theorem Accounted.read_encode_iff (h : Accounted heard line reply) :
    reply ∈ heard ∨
      reply ≠ .silent ∧
        (¬Splits heard line reply → (Wire.read reply.encode = .done reply [] ↔
          ∀ items, reply = .array items →
            items.length ≤ Wire.arrayLimit ∧ ∀ item ∈ items, item.Framed (Wire.maxDepth - 1))) := by
  cases h with
  | given h => exact .inl h
  | array items =>
    refine .inr ⟨nofun, fun _ => ?_⟩
    rw [Wire.read_encode_iff, Wire.maxDepth, Value.framed_array]
    constructor
    · rintro h _ ⟨⟩
      exact h
    · exact fun h => h items rfl
  | framed h =>
    refine .inr ⟨?_, fun _ => ?_⟩
    · rintro rfl
      exact Value.not_framed_silent h
    · rw [Wire.read_encode_iff]
      refine ⟨?_, fun _ => h⟩
      rintro h items rfl
      exact Value.framed_array.1 h
  | splits h =>
    refine .inr ⟨?_, fun hnot => absurd h hnot⟩
    rintro rfl
    cases h

end Coordinator

/-- Every reply of a node is sent. Unless it quotes the end of a line it is read back, as one value
with nothing left over, exactly if it is not longer than a reader takes. A coordinator passes on a
reply that it has heard from a member in the course of the same command, or words one itself, with
which it is the same; and a relay passes on what it has heard last from the peer in the course of
the same relay, or words an error, which is never too long. If no reply of a node quotes the end of
a line, then what a connection sends is read back as one reply for each request that was answered
and at most one complaint about malformed bytes, exactly if no reply is too long. -/
theorem read_reply_iff [Machine] (databases : Array Database) (session : Session)
    (line : CommandLine) :
    let node : Node := ⟨Catalogue.registry, databases⟩
    let reply := (node.exec session line).reply
    (reply ≠ .silent ∧
      (¬Node.Splits line reply →
        (Wire.read reply.encode = .done reply [] ↔ reply.WithinLimits))) ∧
    (∀ (σ : Type) (coordinator : Coordinator) (surroundings : Surroundings σ) (state : σ),
      let reply := (coordinator.exec surroundings state session line).reply
      let heard := (coordinator.plan line).heard coordinator surroundings state session
      reply ∈ heard ∨
        reply ≠ .silent ∧
          (¬Coordinator.Splits heard line reply → (Wire.read reply.encode = .done reply [] ↔
            ∀ items, reply = .array items → items.length ≤ Wire.arrayLimit ∧
              ∀ item ∈ items, item.Framed (Wire.maxDepth - 1)))) ∧
    (∀ (σ κ : Type) (access : PeerAccess σ κ) (state : σ),
      let reply := (access.relay state session line).1
      (access.heard state session line).getLast? = some reply ∨
        ∃ refusal, access.Refuses refusal ∧ reply = refusal.reply ∧
          (¬lineEnd <:+: Text.toBytes refusal.message →
            Wire.read reply.encode = .done reply [])) ∧
    (∀ (bytes : Bytes) (limit : Nat),
      let requests := Wire.readAll bytes
      let answered := Connection.replies Node.serve node session requests.1
      let replies := answered.map Prod.snd ++ Connection.complaints requests.2
      let sent := ((Connection.mk node session bytes []).drain Node.serve ⟨limit, none⟩).1.sent
      sent = replies.flatMap Value.encode ∧
        ((∀ entry ∈ answered, ∀ line, entry.1.commandLine? = some line →
            ¬Node.Splits line entry.2) →
          (Wire.readAll sent = (replies, []) ↔ ∀ entry ∈ answered, entry.2.WithinLimits))) := by
  intro node reply
  refine ⟨?_, fun σ coordinator surroundings state => ?_, fun σ κ access state => ?_,
    fun bytes limit => ?_⟩
  · refine ⟨Node.reply_ne_silent rfl session line, fun hsplits => ?_⟩
    rw [Wire.read_encode_iff]
    exact ((Node.plain_or_splits rfl session line).resolve_right hsplits).framed_iff
  · -- what is heard along the plan is what is heard in the call, the call being the plan
    have haccounted := coordinator.accountedBy_plan surroundings state session line
    rw [Coordinator.AccountedBy, ← Coordinator.routeLine_eq_run] at haccounted
    exact haccounted.read_encode_iff
  · rcases access.heard_or_refused state session line with hheard | ⟨refusal, hrefuses, hreply⟩
    · exact .inl hheard
    · refine .inr ⟨refusal, hrefuses, hreply, fun hline => ?_⟩
      rw [hreply, Wire.read_encode_iff]
      exact Value.framed_error.2 hline
  · intro requests answered replies sent
    have hsent : sent = replies.flatMap Value.encode :=
      Connection.sent_drain Node.serve limit (.mk node session bytes [])
    refine ⟨hsent, ?_⟩
    rw [hsent]
    exact Connection.readAll_sent_iff rfl requests.1 requests.2

/-- Not every reply is read back: a client can put the end of a line into the name of a command. -/
theorem not_forall_read_reply :
    ¬∀ (databases : Array Database) (session : Session) (line : CommandLine),
      let reply := ((⟨Catalogue.registry, databases⟩ : Node).exec session line).reply
      reply ≠ .silent → Wire.read reply.encode = .done reply [] := by
  intro h
  -- the name `a`, the end of a line, and `b`
  have hname : lineEnd <:+: ([97, 13, 10, 98] : Bytes) := by decide
  have hread := h #[.empty 0] .start [[97, 13, 10, 98]]
  dsimp only at hread
  rw [Node.reply_of_lineEnd rfl (by decide) hname, Wire.read_encode_iff] at hread
  refine Value.framed_error.1 (hread (nomatch ·)) ?_
  rw [Refusal.lineEnd_infix_of_quoting_lowercase [97, 13, 10, 98] (by simp [Refusal.quoting])]
  exact hname

end RingStore
