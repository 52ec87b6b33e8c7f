import RingStore.Cluster.Routing
import RingStore.Node
import RingStore.Proofs.Command.Redo
import RingStore.Proofs.Text.Lowercase
import RingStore.Proofs.Wire.RoundTrip

/-!
# Plain replies

A reply is *plain* if only its lengths can break its frame: no text in it holds the end of a line,
and an array holds byte strings only. The commands of the catalogue answer by plain values, whatever
is stored and whatever they are asked. A refusal is plain unless it quotes a name that holds the end
of a line.

## Main definitions

* `Value.Plain`, `Value.WithinLimits`: plain values, and lengths that a reader takes.
* `Command.AnswersPlainly`: a command whose replies are plain.
* `Refusal.quoting`: the refusals that quote a name.

## Main results

* `Value.Plain.framed_iff`: which plain values are framed.
* `Catalogue.answersPlainly_of_mem_all`: the commands of the catalogue answer plainly.
* `Refusal.lineEnd_infix_of_quoting`: which of them hold the end of a line.
-/

namespace RingStore

namespace Value

/-- The byte strings and arrays of a value are not longer than a reader takes. -/
def WithinLimits : Value → Prop
  | bulk bytes => bytes.length ≤ Wire.bulkLimit
  | array items => items.length ≤ Wire.arrayLimit ∧
    ∀ bytes, bulk bytes ∈ items → bytes.length ≤ Wire.bulkLimit
  | _ => True

/-- A value without the end of a line in a text, and with byte strings only in an array. -/
inductive Plain : Value → Prop where
  /-- A short text. -/
  | simple {text : String} (h : ¬lineEnd <:+: Text.toBytes text) : Plain (.simple text)
  /-- A refusal. -/
  | error {text : String} (h : ¬lineEnd <:+: Text.toBytes text) : Plain (.error text)
  /-- A number. -/
  | integer (number : Int64) : Plain (.integer number)
  /-- A byte string. -/
  | bulk (bytes : Bytes) : Plain (.bulk bytes)
  /-- Nothing. -/
  | null : Plain .null
  /-- Several byte strings. -/
  | array (words : List Bytes) : Plain (.array (words.map .bulk))

/-- Only its lengths can break the frame of a plain value. -/
theorem Plain.framed_iff {value : Value} (h : value.Plain) :
    value.Framed Wire.maxDepth ↔ value.WithinLimits := by
  cases h with
  | simple h => simp [WithinLimits, h]
  | error h => simp [WithinLimits, h]
  | integer number => simp [WithinLimits]
  | bulk bytes => simp [WithinLimits]
  | null => simp [WithinLimits]
  | array words =>
    rw [Wire.maxDepth, framed_array]
    simp [WithinLimits]

end Value

/-- A refusal whose text holds no end of a line is plain. -/
theorem Refusal.plain_reply {refusal : Refusal}
    (h : ¬lineEnd <:+: Text.toBytes refusal.message) : refusal.reply.Plain :=
  .error h

/-- The refusals that quote nothing a client or a member said. -/
def Refusal.fixed : List Refusal :=
  [emptyCommand, noSuchKey, invalidIndex, indexOutOfRange, fault, queryTooLong, notACommand,
    ownersDiffer, memberNotOk, wrongArity "select", wrongArity forwardedName]

/-- None of these holds the end of a line. -/
theorem Refusal.not_lineEnd_of_fixed :
    ∀ refusal ∈ fixed, ¬lineEnd <:+: Text.toBytes refusal.message := by
  have hfeed : ∀ refusal ∈ fixed, '\n' ∉ refusal.message.toList := by decide +kernel
  exact fun refusal hrefusal => Text.not_lineEnd_of_not_mem (hfeed refusal hrefusal)

theorem Refusal.plain_of_fixed {refusal : Refusal} (h : refusal ∈ fixed) : refusal.reply.Plain :=
  plain_reply (not_lineEnd_of_fixed refusal h)

/-- A command always answers by a plain value. -/
def Command.AnswersPlainly (command : Command) : Prop :=
  ∀ keyspace arguments, (command.run keyspace arguments).outcome.toReply.Plain

namespace Catalogue

theorem plain_ok : Value.ok.Plain :=
  .simple (Text.not_lineEnd_of_not_mem (by decide))

theorem plain_fault : Refusal.fault.reply.Plain :=
  Refusal.plain_of_fixed (by simp [Refusal.fixed])

theorem plain_noSuchKey : Refusal.noSuchKey.reply.Plain :=
  Refusal.plain_of_fixed (by simp [Refusal.fixed])

/-- What is stored under a key, or that there is nothing. -/
theorem plain_found (found : Option Entity) :
    ((found.map fun entity => Value.bulk entity.data).getD .null).Plain := by
  cases found with
  | none => exact .null
  | some entity => exact .bulk entity.data

theorem answersPlainly_type : type.AnswersPlainly := by
  intro keyspace arguments
  match arguments with
  | [] => exact plain_fault
  | key :: _ =>
    refine .simple (Text.not_lineEnd_of_not_mem ?_)
    cases keyspace.get? key with
    | none => decide
    | some entity =>
      show '\n' ∉ "string".toList
      decide

theorem answersPlainly_rename : rename.AnswersPlainly := by
  intro keyspace arguments
  match arguments with
  | [] | [_] => exact plain_fault
  | source :: target :: _ =>
    simp only [rename]
    split
    · exact plain_noSuchKey
    · exact plain_ok

theorem answersPlainly_renameNx : renameNx.AnswersPlainly := by
  intro keyspace arguments
  match arguments with
  | [] | [_] => exact plain_fault
  | source :: target :: _ =>
    simp only [renameNx]
    split
    · exact plain_noSuchKey
    · split <;> exact .integer _

theorem answersPlainly_keys : keys.AnswersPlainly := by
  intro keyspace arguments
  match arguments with
  | [] => exact plain_fault
  | pattern :: _ => exact .array _

theorem answersPlainly_randomKey [Machine] : randomKey.AnswersPlainly := by
  intro keyspace arguments
  simp only [randomKey]
  split
  · exact .bulk _
  · exact .null

theorem answersPlainly_set : set.AnswersPlainly := by
  intro keyspace arguments
  match arguments with
  | [] | [_] => exact plain_fault
  | _ :: _ :: _ => exact plain_ok

theorem answersPlainly_setNx : setNx.AnswersPlainly := by
  intro keyspace arguments
  match arguments with
  | [] | [_] => exact plain_fault
  | key :: value :: _ =>
    simp only [setNx]
    split <;> exact .integer _

theorem answersPlainly_get : get.AnswersPlainly := by
  intro keyspace arguments
  match arguments with
  | [] => exact plain_fault
  | key :: _ => exact plain_found (keyspace.get? key)

theorem answersPlainly_getSet : getSet.AnswersPlainly := by
  intro keyspace arguments
  match arguments with
  | [] | [_] => exact plain_fault
  | key :: _ :: _ => exact plain_found (keyspace.get? key)

theorem answersPlainly_strLen : strLen.AnswersPlainly := by
  intro keyspace arguments
  match arguments with
  | [] => exact plain_fault
  | _ :: _ => exact .integer _

/-- Every command of the catalogue answers by plain values. -/
theorem answersPlainly_of_mem_all [Machine] : ∀ command ∈ all, command.AnswersPlainly := by
  simp only [all, List.forall_mem_cons]
  exact ⟨fun _ _ => .simple (Text.not_lineEnd_of_not_mem (by decide)), fun _ _ => plain_ok,
    fun _ _ => .integer _, fun _ _ => .integer _, fun _ _ => .integer _, answersPlainly_type,
    answersPlainly_rename, answersPlainly_renameNx, answersPlainly_keys, answersPlainly_randomKey,
    answersPlainly_set, answersPlainly_setNx, answersPlainly_get, answersPlainly_getSet,
    answersPlainly_strLen, by simp⟩

/-- No name under which a command is found holds the end of a line. -/
theorem not_lineEnd_of_find? [Machine] {name : String} {command : Command}
    (h : registry.find? name = some command) : ¬lineEnd <:+: Text.toBytes name := by
  have hnames : ∀ small ∈ smallNames, '\n' ∉ small.toList := by
    decide +kernel
  rw [← Text.lineEnd_infix_toBytes_lowercase]
  exact Text.not_lineEnd_of_not_mem (hnames _ (mem_smallNames_of_find? h))

end Catalogue

namespace Refusal

/-- The refusals that quote a name. -/
def quoting (name : String) : List Refusal :=
  [unknownCommand name, wrongArity name, notSupported name, notForwardable name]

/-- A refusal that quotes a name holds the end of a line exactly if the name does. -/
theorem lineEnd_infix_of_quoting (name : String) {refusal : Refusal} (h : refusal ∈ quoting name) :
    lineEnd <:+: Text.toBytes refusal.message ↔ lineEnd <:+: Text.toBytes name := by
  simp only [quoting, List.mem_cons, List.not_mem_nil, or_false] at h
  -- each of them puts the name between two fixed texts
  rcases h with rfl | rfl | rfl | rfl <;>
    exact Text.lineEnd_infix_toBytes_between name (by decide) (by decide)

/-- A refusal that quotes a name in small letters holds the end of a line exactly if the bytes of
the name do, as they came. -/
theorem lineEnd_infix_of_quoting_lowercase (name : Bytes) {refusal : Refusal}
    (h : refusal ∈ quoting (Text.lowercase (Text.ofBytes name))) :
    lineEnd <:+: Text.toBytes refusal.message ↔ lineEnd <:+: name := by
  rw [lineEnd_infix_of_quoting _ h, Text.lineEnd_infix_toBytes_lowercase,
    Text.lineEnd_infix_toBytes_ofBytes]

/-- The decimal form of a number holds no line feed. -/
theorem not_mem_repr (number : Int) : '\n' ∉ number.repr.toList := by
  have hdigits (value : Nat) : '\n' ∉ value.repr.toList := by
    intro h
    -- a line feed is no digit
    rw [Nat.toList_repr] at h
    exact absurd (Nat.isDigit_of_mem_toDigits (by decide) (by decide) h) (by decide)
  rw [Int.repr_eq_if]
  split
  · exact hdigits _
  · rw [String.toList_append, List.mem_append]
    rintro (h | h)
    · exact absurd h (by decide)
    · exact hdigits _ h

/-- A text that opens without a carriage return holds the end of a line exactly if what follows
does. -/
theorem lineEnd_infix_append {front : String} (hfront : '\r' ∉ front.toList) (text : String) :
    lineEnd <:+: Text.toBytes (front ++ text) ↔ lineEnd <:+: Text.toBytes text := by
  rw [← String.append_empty (s := front ++ text)]
  exact Text.lineEnd_infix_toBytes_between text hfront (by decide)

/-- The refusal of malformed bytes holds no end of a line. -/
theorem plain_protocol (reason : Malformed) : (protocol reason).reply.Plain := by
  have hreason : ¬lineEnd <:+: Text.toBytes reason.message := by
    cases reason with
    | bulkLength length =>
      exact (not_congr (lineEnd_infix_append (by decide) length.toInt.repr)).2
        (Text.not_lineEnd_of_not_mem (not_mem_repr _))
    | arrayLength count =>
      exact (not_congr (lineEnd_infix_append (by decide) count.toInt.repr)).2
        (Text.not_lineEnd_of_not_mem (not_mem_repr _))
    | unknownMark mark =>
      refine (not_congr (lineEnd_infix_append (by decide)
        (String.singleton (Char.ofNat mark.toNat)))).2 ?_
      rw [Text.lineEnd_infix_toBytes, String.toList_singleton]
      exact fun h => absurd h.length_le (by simp)
    | _ => exact Text.not_lineEnd_of_not_mem (by decide)
  exact plain_reply
    ((not_congr (lineEnd_infix_append (by decide) reason.message)).2 hreason)

end Refusal

end RingStore
