import RingStore.Journal.File
import RingStore.Json.Document
import RingStore.Text.Utf8

/-!
# Settings

The settings of a node are read from a JSON text. They are an object whose members name fields, or
an array that gives the fields in order. A field that is not given keeps its usual value; a field
given twice, a value of the wrong kind and a number outside 64 bits are refused. Members of other
names are passed over.

## Main definitions

* `Settings`: the fields with their usual values.
* `Settings.load`: reading settings.
-/

namespace RingStore

/-- The settings of a node. -/
structure Settings where
  /-- The address where clients are served. -/
  bind : String
  /-- The address that other members use for this node, if it is not `bind`. -/
  selfAddress : Option String
  /-- The addresses of the other members; a node without any stands alone. -/
  peers : List String
  /-- The number of databases. -/
  databases : Nat
  /-- Changes are made durable. -/
  appendOnly : Bool
  /-- The path of the journal. -/
  appendFilename : String
  /-- When commits wait for the storage device. -/
  appendSync : Journal.SyncPolicy
  /-- How many connections to one peer may be in use at once. -/
  poolMaxActive : Nat
  /-- How many idle connections to one peer are kept. -/
  poolMaxIdle : Nat
  /-- How long a peer may take to connect and to reply, in milliseconds. -/
  peerTimeoutMs : Nat
  /-- How much is reported. -/
  logLevel : String

/-- Why settings are refused. -/
inductive SettingsError where
  /-- The bytes are not text. -/
  | unreadable
  /-- The text does not give settings. -/
  | invalid
  deriving DecidableEq

namespace Settings

/-- The settings of a node for which nothing is configured. -/
def usual : Settings where
  bind := "127.0.0.1:6379"
  selfAddress := none
  peers := []
  databases := 16
  appendOnly := false
  appendFilename := "appendonly.aof"
  appendSync := .everySecond
  poolMaxActive := 16
  poolMaxIdle := 8
  peerTimeoutMs := 3000
  logLevel := "info"

/-- The node is a member of a cluster. -/
def isCluster (settings : Settings) : Bool :=
  !settings.peers.isEmpty

/-- The address that other members use for this node. -/
def address (settings : Settings) : String :=
  settings.selfAddress.getD settings.bind

open Json

/-- A text. -/
def text? : Document → Option String
  | .string text => text
  | _ => none

/-- A text or `null`. -/
def optionalText? : Document → Option (Option String)
  | .null => some none
  | document => (text? document).map some

/-- Texts in order. -/
def texts? : Document → Option (List String)
  | .array items => items.mapM text?
  | _ => none

/-- A whole number of 64 bits. -/
def number? : Document → Option Nat
  | .number (some whole) => if whole < UInt64.size then some whole else none
  | _ => none

/-- A truth value. -/
def bool? : Document → Option Bool
  | .bool value => some value
  | _ => none

/-- The policy of a name. -/
def namedPolicy? : String → Option Journal.SyncPolicy
  | "always" => some .always
  | "everysec" => some .everySecond
  | "no" => some .no
  | _ => none

/-- A policy: its name, or an object whose only member has that name and the value `null`. -/
def policy? : Document → Option Journal.SyncPolicy
  | .string text => text.bind namedPolicy?
  | .object [(name, .null)] => name.bind namedPolicy?
  | _ => none

/-- The names of the fields, in order. -/
def fieldNames : List String :=
  ["bind", "self_addr", "peers", "databases", "append_only", "append_filename", "append_fsync",
    "pool_max_active", "pool_max_idle", "peer_timeout_ms", "log_level"]

/-- Gives one field a value, if the value is of the field's kind. -/
def assign? (settings : Settings) (name : String) (value : Document) : Option Settings :=
  match name with
  | "bind" => (text? value).map fun bind => { settings with bind }
  | "self_addr" => (optionalText? value).map fun selfAddress => { settings with selfAddress }
  | "peers" => (texts? value).map fun peers => { settings with peers }
  | "databases" => (number? value).map fun databases => { settings with databases }
  | "append_only" => (bool? value).map fun appendOnly => { settings with appendOnly }
  | "append_filename" => (text? value).map fun appendFilename => { settings with appendFilename }
  | "append_fsync" => (policy? value).map fun appendSync => { settings with appendSync }
  | "pool_max_active" => (number? value).map fun poolMaxActive => { settings with poolMaxActive }
  | "pool_max_idle" => (number? value).map fun poolMaxIdle => { settings with poolMaxIdle }
  | "peer_timeout_ms" => (number? value).map fun peerTimeoutMs => { settings with peerTimeoutMs }
  | "log_level" => (text? value).map fun logLevel => { settings with logLevel }
  | _ => some settings

/-- Gives the named fields their values. No field may be given twice, and a name must be text. -/
def ofMembers? (settings : Settings) (given : List String) :
    List (Option String × Document) → Option Settings
  | [] => some settings
  | (none, _) :: _ => none
  | (some name, value) :: rest =>
    if name ∈ given then none
    else
      (settings.assign? name value).bind fun assigned =>
        assigned.ofMembers? (if name ∈ fieldNames then name :: given else given) rest

/-- The settings that a document gives. -/
def ofDocument? : Document → Option Settings
  | .object members => usual.ofMembers? [] members
  | .array items =>
    if items.length ≤ fieldNames.length then
      (fieldNames.zip items).foldlM (fun settings (name, value) => settings.assign? name value)
        usual
    else none
  | _ => none

/-- Reads settings. -/
def load (bytes : Bytes) : Except SettingsError Settings :=
  if Text.isValid bytes then
    match (parse? (Text.ofBytes bytes)).bind ofDocument? with
    | some settings => .ok settings
    | none => .error .invalid
  else .error .unreadable

end Settings

end RingStore
