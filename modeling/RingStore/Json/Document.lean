import RingStore.Json.Token

/-!
# JSON documents

The second half of reading JSON: tokens are put together into one value. A stack holds the arrays
and objects that are still open, so nesting has no bound. An object keeps all its members in order,
repeated names included.

## Main definitions

* `Json.Document`: the values.
* `Json.parse?`: reading a text that is one value.
-/

namespace RingStore.Json

/-- A JSON value. -/
inductive Document where
  /-- The literal `null`. -/
  | null
  /-- A truth value. -/
  | bool (value : Bool)
  /-- A number, with its value if it is written as a whole number without sign. -/
  | number (whole : Option Nat)
  /-- A string, with its text if it denotes one. -/
  | string (text : Option String)
  /-- Values in order. -/
  | array (items : List Document)
  /-- Named values in order. -/
  | object (members : List (Option String × Document))
  deriving Inhabited

/-- An array or object that is still open; what it holds so far is given latest first. -/
inductive Frame where
  /-- An array. -/
  | array (items : List Document)
  /-- An object before the name of a member. -/
  | object (members : List (Option String × Document))
  /-- An object before the value of a named member. -/
  | member (members : List (Option String × Document)) (name : Option String)

/-- What may come next. -/
inductive Expectation where
  /-- A value. -/
  | value
  /-- A value or the end of an array. -/
  | itemOrEnd
  /-- A name. -/
  | name
  /-- A name or the end of an object. -/
  | nameOrEnd
  /-- The colon after a name. -/
  | colon
  /-- A comma, or the end of the innermost array or object. -/
  | commaOrEnd
  /-- Nothing, because the text's value is complete. -/
  | nothing (document : Document)

/-- The reader between two tokens. -/
structure Reader where
  /-- Arrays and objects that are still open, innermost first. -/
  stack : List Frame
  /-- What may come next. -/
  expectation : Expectation

namespace Reader

/-- The reader before the first token. -/
def start : Reader :=
  ⟨[], .value⟩

/-- Puts a complete value where it belongs. -/
def complete (stack : List Frame) (document : Document) : Option Reader :=
  match stack with
  | [] => some ⟨[], .nothing document⟩
  | .array items :: outer => some ⟨.array (document :: items) :: outer, .commaOrEnd⟩
  | .member members name :: outer =>
    some ⟨.object ((name, document) :: members) :: outer, .commaOrEnd⟩
  | .object _ :: _ => none

/-- Takes the first token of a value. -/
def acceptValue (stack : List Frame) : Token → Option Reader
  | .null => complete stack .null
  | .bool value => complete stack (.bool value)
  | .number whole => complete stack (.number whole)
  | .string text => complete stack (.string text)
  | .openArray => some ⟨.array [] :: stack, .itemOrEnd⟩
  | .openObject => some ⟨.object [] :: stack, .nameOrEnd⟩
  | _ => none

/-- Takes the end of the innermost array or object. -/
def acceptEnd (stack : List Frame) (token : Token) : Option Reader :=
  match token, stack with
  | .closeArray, .array items :: outer => complete outer (.array items.reverse)
  | .closeObject, .object members :: outer => complete outer (.object members.reverse)
  | _, _ => none

/-- Takes the name of a member. -/
def acceptName (stack : List Frame) (token : Token) : Option Reader :=
  match token, stack with
  | .string name, .object members :: outer => some ⟨.member members name :: outer, .colon⟩
  | _, _ => none

/-- Takes the comma between two items or members. -/
def acceptComma (stack : List Frame) : Option Reader :=
  match stack with
  | .array _ :: _ => some ⟨stack, .value⟩
  | .object _ :: _ => some ⟨stack, .name⟩
  | _ => none

/-- Takes one token, if it may come next. -/
def accept (reader : Reader) (token : Token) : Option Reader :=
  match reader.expectation with
  | .value => acceptValue reader.stack token
  | .itemOrEnd =>
    if token = .closeArray then acceptEnd reader.stack token else acceptValue reader.stack token
  | .name => acceptName reader.stack token
  | .nameOrEnd =>
    if token = .closeObject then acceptEnd reader.stack token else acceptName reader.stack token
  | .colon => if token = .colon then some ⟨reader.stack, .value⟩ else none
  | .commaOrEnd =>
    if token = .comma then acceptComma reader.stack else acceptEnd reader.stack token
  | .nothing _ => none

/-- The value that was read, if it is complete. -/
def result? (reader : Reader) : Option Document :=
  match reader.expectation with
  | .nothing document => some document
  | _ => none

end Reader

/-- Reads a text that is one value. -/
def parse? (text : String) : Option Document :=
  (tokens? text).bind fun tokens => (tokens.foldlM Reader.accept .start).bind Reader.result?

end RingStore.Json
