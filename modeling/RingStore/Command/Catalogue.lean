import RingStore.Command.Registry
import RingStore.Glob

/-!
# The catalogue of commands

The fifteen commands that every node knows. A command that changed the keyspace logs one command
line that changes a copy of the earlier keyspace in the same way; a command that changed nothing
logs nothing, except `FLUSHDB` and `RENAME`, which log themselves whenever they succeed.
`GETSET` is logged as the `SET` that it amounts to.
-/

namespace RingStore.Catalogue

/-- The command line that calls a command of the catalogue with arguments. -/
def call (name : String) (arguments : List Bytes) : CommandLine :=
  Text.toBytes name :: arguments

/-- Answers that the node is there. -/
def ping : Command where
  name := "PING"
  arity := .exactly 0
  isWrite := false
  isReadModifyWrite := false
  run keyspace _ := .answer keyspace (.simple "PONG")

/-- Removes all keys. -/
def flushDb : Command where
  name := "FLUSHDB"
  arity := .exactly 0
  isWrite := true
  isReadModifyWrite := true
  run keyspace arguments := ⟨keyspace.clear, [call "flushdb" arguments], .reply .ok⟩

/-- Answers the number of keys. -/
def dbSize : Command where
  name := "DBSIZE"
  arity := .exactly 0
  isWrite := false
  isReadModifyWrite := false
  run keyspace _ := .answer keyspace (.count keyspace.size)

/-- Removes keys and answers how many there were. -/
def del : Command where
  name := "DEL"
  arity := .atLeast 1
  isWrite := true
  isReadModifyWrite := false
  run keyspace arguments :=
    let (count, remaining) := keyspace.eraseAll arguments
    ⟨remaining, if 0 < count then [call "del" arguments] else [], .reply (.count count)⟩

/-- Answers how many of the arguments are keys, each counted as often as it is given. -/
def existsKeys : Command where
  name := "EXISTS"
  arity := .atLeast 1
  isWrite := false
  isReadModifyWrite := false
  run keyspace arguments := .answer keyspace (.count (arguments.countP keyspace.contains))

/-- Answers the type of what is stored under a key. -/
def type : Command where
  name := "TYPE"
  arity := .exactly 1
  isWrite := false
  isReadModifyWrite := false
  run
    | keyspace, key :: _ =>
      .answer keyspace (.simple (((keyspace.get? key).map Entity.typeName).getD "none"))
    | keyspace, [] => .fault keyspace

/-- Moves what is stored under one key to another, whatever was there. -/
def rename : Command where
  name := "RENAME"
  arity := .exactly 2
  isWrite := true
  isReadModifyWrite := true
  run
    | keyspace, source :: target :: more =>
      match keyspace.get? source with
      | none => .refuse keyspace .noSuchKey
      | some entity =>
        let stored := (keyspace.put target entity).2
        ⟨if source = target then stored else (stored.erase source).2,
          [call "rename" (source :: target :: more)], .reply .ok⟩
    | keyspace, _ => .fault keyspace

/-- Moves what is stored under one key to another unless that key occurs. -/
def renameNx : Command where
  name := "RENAMENX"
  arity := .exactly 2
  isWrite := true
  isReadModifyWrite := true
  run
    | keyspace, source :: target :: more =>
      match keyspace.get? source with
      | none => .refuse keyspace .noSuchKey
      | some entity =>
        match keyspace.putIfAbsent target entity with
        | (false, _) => .answer keyspace (.count 0)
        | (true, stored) =>
          ⟨(stored.erase source).2, [call "renamenx" (source :: target :: more)],
            .reply (.count 1)⟩
    | keyspace, _ => .fault keyspace

/-- Answers the keys that a glob pattern matches. -/
def keys : Command where
  name := "KEYS"
  arity := .exactly 1
  isWrite := false
  isReadModifyWrite := false
  run
    | keyspace, pattern :: _ =>
      .answer keyspace (.array ((keyspace.keys.filter (Glob.covers pattern)).map .bulk))
    | keyspace, [] => .fault keyspace

/-- Answers some key. Which one is up to the machine. -/
def randomKey [Machine] : Command where
  name := "RANDOMKEY"
  arity := .exactly 0
  isWrite := false
  isReadModifyWrite := false
  run keyspace _ :=
    match keyspace.sample [Machine.draw keyspace.keys] with
    | key :: _ => .answer keyspace (.bulk key)
    | [] => .answer keyspace .null

/-- Stores a value under a key, whatever was there. -/
def set : Command where
  name := "SET"
  arity := .exactly 2
  isWrite := true
  isReadModifyWrite := false
  run
    | keyspace, key :: value :: more =>
      ⟨(keyspace.put key ⟨value⟩).2, [call "set" (key :: value :: more)], .reply .ok⟩
    | keyspace, _ => .fault keyspace

/-- Stores a value under a key unless the key occurs. -/
def setNx : Command where
  name := "SETNX"
  arity := .exactly 2
  isWrite := true
  isReadModifyWrite := false
  run
    | keyspace, key :: value :: more =>
      match keyspace.putIfAbsent key ⟨value⟩ with
      | (true, stored) => ⟨stored, [call "setnx" (key :: value :: more)], .reply (.count 1)⟩
      | (false, _) => .answer keyspace (.count 0)
    | keyspace, _ => .fault keyspace

/-- Answers what is stored under a key. -/
def get : Command where
  name := "GET"
  arity := .exactly 1
  isWrite := false
  isReadModifyWrite := false
  run
    | keyspace, key :: _ =>
      .answer keyspace (((keyspace.get? key).map fun entity => .bulk entity.data).getD .null)
    | keyspace, [] => .fault keyspace

/-- Stores a value under a key and answers what was there. -/
def getSet : Command where
  name := "GETSET"
  arity := .exactly 2
  isWrite := true
  isReadModifyWrite := true
  run
    | keyspace, key :: value :: more =>
      ⟨(keyspace.put key ⟨value⟩).2, [call "set" (key :: value :: more)],
        .reply (((keyspace.get? key).map fun entity => .bulk entity.data).getD .null)⟩
    | keyspace, _ => .fault keyspace

/-- Answers the length of what is stored under a key. -/
def strLen : Command where
  name := "STRLEN"
  arity := .exactly 1
  isWrite := false
  isReadModifyWrite := false
  run
    | keyspace, key :: _ =>
      .answer keyspace (.count (((keyspace.get? key).map (·.data.length)).getD 0))
    | keyspace, [] => .fault keyspace

/-- The commands that every node knows. -/
def all [Machine] : List Command :=
  [ping, flushDb, dbSize, del, existsKeys, type, rename, renameNx, keys, randomKey,
    set, setNx, get, getSet, strLen]

/-- The registry of the catalogue. -/
def registry [Machine] : Registry :=
  Registry.empty.registerAll all

end RingStore.Catalogue
