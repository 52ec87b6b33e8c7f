import RingStore.Decimal
import RingStore.Text.Utf8

/-!
# Values on the wire

What a client and a member, or two members, say to each other: requests are arrays of bulk strings,
replies are any value. `Value.silent` is the reply of a command that is answered by nothing.

## Main definitions

* `Value`: the values of the protocol.
* `Value.commandLine?`: the command line that a request asks to run.
* `Value.encode`, `encodeCommandLine`: the bytes sent for a value and for a command line.
* `Value.summary`: a short account of a value for a person to read.
-/

namespace RingStore

/-- A value of the protocol. -/
inductive Value where
  /-- A short text. -/
  | simple (text : String)
  /-- A refusal with its reason. -/
  | error (text : String)
  /-- A 64-bit signed number. -/
  | integer (number : Int64)
  /-- A byte string. -/
  | bulk (bytes : Bytes)
  /-- Nothing was found. -/
  | null
  /-- Values in order. -/
  | array (items : List Value)
  /-- No reply at all. -/
  | silent
  deriving Inhabited

namespace Value

/-- The acknowledgement `OK`. -/
def ok : Value :=
  simple "OK"

/-- A number of things, as a reply. -/
def count (number : Nat) : Value :=
  integer (Int64.ofNat number)

/-- The value is a refusal. -/
def isError : Value → Bool
  | error _ => true
  | _ => false

/-- The value is the acknowledgement `OK`. -/
def isOk : Value → Bool
  | simple text => text == "OK"
  | _ => false

/-- The number that the value is, if it is one. -/
def integer? : Value → Option Int64
  | integer number => some number
  | _ => none

/-- The byte string that the value is, if it is one. -/
def bulk? : Value → Option Bytes
  | bulk bytes => some bytes
  | _ => none

/-- The items of an array. -/
def items? : Value → Option (List Value)
  | array items => some items
  | _ => none

/-- The command line that a request asks to run: requests are arrays of one bulk string or more. -/
def commandLine? : Value → Option CommandLine
  | array (first :: rest) => (first :: rest).mapM bulk?
  | _ => none

/-- A short account of the value, with lengths in place of contents. -/
def summary : Value → String
  | simple text => s!"SimpleString({text})"
  | error text => s!"Error({text})"
  | integer number => s!"Integer({number.toInt})"
  | bulk bytes => s!"BulkString({bytes.length} bytes)"
  | null => "Null"
  | array items => s!"Array({items.length} elements)"
  | silent => "NoReply"

end Value

/-- The bytes that end a line: carriage return, line feed. -/
def lineEnd : Bytes :=
  [13, 10]

/-- One line: the byte that tells its kind, its content and the line's end. -/
def encodeLine (mark : UInt8) (content : Bytes) : Bytes :=
  mark :: (content ++ lineEnd)

/-- A bulk string: its length on a line, then its bytes. -/
def encodeBulk (bytes : Bytes) : Bytes :=
  encodeLine 36 (Decimal.ofNat bytes.length) ++ (bytes ++ lineEnd)

/-- The bytes of a command line: an array of bulk strings. -/
def encodeCommandLine (line : CommandLine) : Bytes :=
  encodeLine 42 (Decimal.ofNat line.length) ++ line.flatMap encodeBulk

mutual

/-- The bytes sent for a value; nothing is sent for `silent`. -/
def Value.encode : Value → Bytes
  | .simple text => encodeLine 43 (Text.toBytes text)
  | .error text => encodeLine 45 (Text.toBytes text)
  | .integer number => encodeLine 58 (Decimal.ofInt number.toInt)
  | .bulk bytes => encodeBulk bytes
  | .null => encodeLine 36 (Decimal.ofInt (-1))
  | .array items => encodeLine 42 (Decimal.ofNat items.length) ++ Value.encodeAll items
  | .silent => []

/-- The bytes sent for values one after the other. -/
def Value.encodeAll : List Value → Bytes
  | [] => []
  | item :: rest => item.encode ++ Value.encodeAll rest

end

end RingStore
