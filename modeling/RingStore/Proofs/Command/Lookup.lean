import RingStore.Command.Catalogue
import RingStore.Database
import RingStore.Proofs.Text.Idempotence
import RingStore.Proofs.Text.Utf8

/-!
# Finding a command by its name

Commands are registered one after the other, each under its name in small letters, and one that is
registered later takes the place of an earlier one of the same small form. A name that a client
gives is put in small letters twice, by the database and by the registry. As the second time changes
nothing, both sides meet in one form: a name finds the last command whose name has the small form
that it has itself, and none exactly if there is no such command.

## Main definitions

* `Registry.lastNamed?`: the last of several commands whose names have a small form.
* `Registry.Registers`: a registry holds what was registered.
* `Catalogue.table`: the commands of the catalogue under their names in small letters.

## Main results

* `Registry.Registers.register`, `Registry.Registers.registerAll`: one more command is registered,
  and many.
* `Registry.Registers.find?_eq`: what a name finds.
* `Registry.resolves_by_small_form`: what a database does with a name.
* `Catalogue.find?_eq_lookup`: which command of the catalogue a name finds.
-/

namespace RingStore.Registry

/-- The last of several commands whose names have a small form. -/
def lastNamed? (commands : List Command) (small : String) : Option Command :=
  commands.reverse.find? fun command => Text.lowercase command.name = small

section LastNamed

variable {commands : List Command} {command found : Command} {small : String}

/-- A command that is added is the last one of its small form, and changes nothing for others. -/
theorem lastNamed?_concat : lastNamed? (commands ++ [command]) small =
    if Text.lowercase command.name = small then some command else lastNamed? commands small := by
  rw [lastNamed?, List.reverse_concat, List.find?_cons]
  by_cases hname : Text.lowercase command.name = small <;> simp [hname, lastNamed?]

theorem lowercase_name_of_lastNamed? (h : lastNamed? commands small = some found) :
    Text.lowercase found.name = small := by
  simpa using List.find?_some h

/-- There is a last command of a small form if there is one at all. -/
theorem isSome_lastNamed?_iff : (lastNamed? commands small).isSome = true ↔
    ∃ command ∈ commands, Text.lowercase command.name = small := by
  simp [lastNamed?]

/-- The last command of a small form is looked up in the table of all commands, turned round. -/
theorem lastNamed?_eq_lookup (commands : List Command) (small : String) :
    lastNamed? commands small =
      (commands.map fun command =>
        (Text.lowercase command.name, command)).reverse.lookup small := by
  rw [lastNamed?, ← List.map_reverse]
  induction commands.reverse with
  | nil => rfl
  | cons command rest ih =>
    rw [List.map_cons, List.lookup_cons, List.find?_cons, ih]
    by_cases hname : Text.lowercase command.name = small
    · simp [hname]
    · have hother : (small == Text.lowercase command.name) = false :=
        beq_eq_false_iff_ne.2 (Ne.symm hname)
      simp [hname, hother]

end LastNamed

/-- A registry holds what was registered: under each small form the last command of that form, and
nothing else. -/
structure Registers (registry : Registry) (commands : List Command) : Prop where
  /-- Under a small form stands the last command whose name has it. -/
  held : ∀ small found,
    (small, found) ∈ registry.commands ↔ lastNamed? commands small = some found
  /-- No two commands stand under one small form. -/
  nodup : (registry.commands.map Prod.fst).Nodup

theorem registers_empty : empty.Registers [] where
  held small found := by simp [empty, lastNamed?]
  nodup := List.nodup_nil

namespace Registers

variable {registry : Registry} {commands : List Command} (h : registry.Registers commands)

include h

/-- One more command is registered: it takes the place of the one of its small form. -/
theorem register (command : Command) :
    (registry.register command).Registers (commands ++ [command]) where
  held small found := by
    rw [lastNamed?_concat, Registry.register, List.mem_cons, List.mem_filter, h.held,
      Prod.mk.injEq]
    by_cases hname : Text.lowercase command.name = small
    · simp [hname, eq_comm]
    · simp [hname, Ne.symm hname]
  nodup := by
    rw [Registry.register, List.map_cons, List.nodup_cons]
    refine ⟨fun hmem => ?_, (List.filter_sublist.map Prod.fst).nodup h.nodup⟩
    -- the entries that are kept are those of other small forms
    obtain ⟨entry, hentry, hname⟩ := List.mem_map.1 hmem
    have hother := (List.mem_filter.1 hentry).2
    rw [decide_eq_true_eq] at hother
    exact hother hname

theorem registerAll (added : List Command) :
    (registry.registerAll added).Registers (commands ++ added) := by
  induction added generalizing registry commands with
  | nil => rwa [List.append_nil]
  | cons command rest ih =>
    rw [List.append_cons]
    exact ih (h.register command)

/-- An entry stands under the small form of its command's name. -/
theorem lowercase_name {entry : String × Command} (hentry : entry ∈ registry.commands) :
    Text.lowercase entry.2.name = entry.1 :=
  lowercase_name_of_lastNamed? ((h.held entry.1 entry.2).1 hentry)

/-- A name finds the last command whose name has the same small form. -/
theorem find?_eq (name : String) :
    registry.find? name = lastNamed? commands (Text.lowercase name) := by
  rw [find?]
  cases hfind : registry.commands.find? fun entry => entry.1 = Text.lowercase name with
  | some entry =>
    have hname : entry.1 = Text.lowercase name := by simpa using List.find?_some hfind
    have hheld := (h.held entry.1 entry.2).1 (List.mem_of_find?_eq_some hfind)
    rw [← hname, hheld, Option.map_some]
  | none =>
    cases hlast : lastNamed? commands (Text.lowercase name) with
    | none => rfl
    | some found =>
      -- the registry holds it, and so it would be found
      have hmem := (h.held _ found).2 hlast
      have hmissing := List.find?_eq_none.1 hfind _ hmem
      simp at hmissing

/-- What a database does with a name: the second time that it is put in small letters changes
nothing. -/
theorem exec_cons (database : Database) (name : Bytes) (arguments : List Bytes) :
    let small := Text.lowercase (Text.ofBytes name)
    database.exec registry (name :: arguments) =
      match lastNamed? commands small with
      | none => database.refuse (.unknownCommand small)
      | some command =>
        if command.arity.allows arguments.length then database.run command arguments
        else database.refuse (.wrongArity small) := by
  intro small
  have hfind : registry.find? small = lastNamed? commands small := by
    rw [h.find?_eq, Text.lowercase_lowercase]
  rw [← hfind]
  rfl

/-- The name of a registered command, as a client gives it, finds a command of its small form. -/
theorem find?_toBytes (name : String) :
    registry.find? (Text.lowercase (Text.ofBytes (Text.toBytes name))) =
      lastNamed? commands (Text.lowercase name) := by
  rw [Text.ofBytes_toBytes, h.find?_eq, Text.lowercase_lowercase]

end Registers

/-- Any commands are registered, in any order, with or without those of the catalogue before them.
A database that is given a name, whatever bytes it is written in, runs the last of them whose name
has the same small form, if it is given as many arguments as it takes, and knows no command of the
name exactly if there is none of that form. Nothing that the registry holds is out of reach under
its own name, no registered name is unknown, and no two commands of one small form are held. -/
theorem resolves_by_small_form [Machine] (onCatalogue : Bool) (added : List Command) :
    let registry := (if onCatalogue then Catalogue.registry else empty).registerAll added
    let registered := (if onCatalogue then Catalogue.all else []) ++ added
    (∀ (database : Database) (name : Bytes) (arguments : List Bytes),
      let small := Text.lowercase (Text.ofBytes name)
      database.exec registry (name :: arguments) =
        match lastNamed? registered small with
        | none => database.refuse (.unknownCommand small)
        | some command =>
          if command.arity.allows arguments.length then database.run command arguments
          else database.refuse (.wrongArity small)) ∧
    (∀ name : Bytes,
      (registry.find? (Text.lowercase (Text.ofBytes name))).isSome = true ↔
        ∃ command ∈ registered, Text.lowercase command.name = Text.lowercase (Text.ofBytes name)) ∧
    (∀ command ∈ registered, ∃ found,
      registry.find? (Text.lowercase (Text.ofBytes (Text.toBytes command.name))) = some found ∧
        lastNamed? registered (Text.lowercase command.name) = some found) ∧
    (∀ entry ∈ registry.commands,
      registry.find? (Text.lowercase (Text.ofBytes (Text.toBytes entry.2.name))) =
        some entry.2) ∧
    (registry.commands.map fun entry => Text.lowercase entry.2.name).Nodup := by
  intro registry registered
  have hbase : (if onCatalogue then Catalogue.registry else empty).Registers
      (if onCatalogue then Catalogue.all else []) := by
    cases onCatalogue with
    | false => exact registers_empty
    | true => exact registers_empty.registerAll Catalogue.all
  -- all the rest follows from the registry holding the last command of every small form
  have h : registry.Registers registered := hbase.registerAll added
  refine ⟨h.exec_cons, fun name => ?_, fun command hmem => ?_, fun entry hentry => ?_, ?_⟩
  · rw [h.find?_eq, Text.lowercase_lowercase]
    exact isSome_lastNamed?_iff
  · obtain ⟨found, hfound⟩ := Option.isSome_iff_exists.1
      (isSome_lastNamed?_iff.2 ⟨command, hmem, rfl⟩)
    exact ⟨found, by rw [h.find?_toBytes, hfound], hfound⟩
  · rw [h.find?_toBytes, h.lowercase_name hentry]
    exact (h.held entry.1 entry.2).1 hentry
  · have hnames : (registry.commands.map fun entry => Text.lowercase entry.2.name) =
        registry.commands.map Prod.fst :=
      List.map_congr_left fun entry hentry => h.lowercase_name hentry
    rw [hnames]
    exact h.nodup

/-- Two names, of which one ends in the capital sigma and one in its small letter for the end of a
word, have one small form, so that the one registered later is found under both. With the other
small letter at its end the name is another one, which is unknown. -/
example :
    let registry := empty.registerAll
      [{ Catalogue.ping with name := "ΟΔΟΣ" }, { Catalogue.ping with name := "οδος" }]
    let found := fun name =>
      (registry.find? (Text.lowercase (Text.ofBytes (Text.toBytes name)))).map Command.name
    found "ΟΔΟΣ" = some "οδος" ∧ found "οδος" = some "οδος" ∧ found "οδοσ" = none := by
  decide +kernel

end RingStore.Registry

namespace RingStore.Catalogue

/-- The names of the commands in small letters. -/
def smallNames : List String :=
  ["ping", "flushdb", "dbsize", "del", "exists", "type", "rename", "renamenx", "keys", "randomkey",
    "set", "setnx", "get", "getset", "strlen"]

/-- The commands under their names in small letters, the last one first. -/
def table [Machine] : List (String × Command) :=
  (smallNames.zip all).reverse

theorem map_lowercase_name [Machine] :
    all.map (fun command => Text.lowercase command.name) = smallNames := by
  have hnames : all.map Command.name = ["PING", "FLUSHDB", "DBSIZE", "DEL", "EXISTS", "TYPE",
      "RENAME", "RENAMENX", "KEYS", "RANDOMKEY", "SET", "SETNX", "GET", "GETSET", "STRLEN"] := rfl
  calc
    all.map (fun command => Text.lowercase command.name) =
        (all.map Command.name).map Text.lowercase := (List.map_map ..).symm
    _ = smallNames := by
      rw [hnames]
      decide +kernel

theorem find?_eq_lastNamed? [Machine] (name : String) :
    registry.find? name = Registry.lastNamed? all (Text.lowercase name) :=
  (Registry.registers_empty.registerAll all).find?_eq name

/-- A name is looked up in small letters among the names of the commands. -/
theorem find?_eq_lookup [Machine] {name small : String} (h : Text.lowercase name = small) :
    registry.find? name = table.lookup small := by
  have hpairs : all.map (fun command => (Text.lowercase command.name, command)) =
      smallNames.zip all := by
    rw [← map_lowercase_name, List.zip_map_left]
    rfl
  rw [find?_eq_lastNamed?, Registry.lastNamed?_eq_lookup, hpairs, h, table]

theorem lowercase_of_mem_smallNames :
    ∀ small ∈ smallNames, Text.lowercase small = small := by
  decide +kernel

/-- The name of a command in small letters finds the command. -/
theorem find?_of_mem_smallNames [Machine] {small : String} (h : small ∈ smallNames) :
    registry.find? small = table.lookup small :=
  find?_eq_lookup (lowercase_of_mem_smallNames small h)

/-- Databases are not selected by a command of the catalogue. -/
theorem find?_select [Machine] : registry.find? "select" = none :=
  find?_eq_lookup (by decide +kernel : Text.lowercase "select" = "select")

/-- A command that a name resolves to is one of the catalogue. -/
theorem mem_all_of_find? [Machine] {name : String} {command : Command}
    (h : registry.find? name = some command) : command ∈ all := by
  rw [find?_eq_lastNamed?, Registry.lastNamed?] at h
  exact List.mem_reverse.1 (List.mem_of_find?_eq_some h)

/-- A name that resolves to a command is the name of one in small letters. -/
theorem mem_smallNames_of_find? [Machine] {name : String} {command : Command}
    (h : registry.find? name = some command) : Text.lowercase name ∈ smallNames := by
  have hmem := mem_all_of_find? h
  rw [find?_eq_lastNamed?] at h
  rw [← map_lowercase_name, ← Registry.lowercase_name_of_lastNamed? h]
  exact List.mem_map_of_mem hmem

end RingStore.Catalogue
