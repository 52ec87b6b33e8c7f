import RingStore.Cluster.Routing
import RingStore.Proofs.Command.Redo
import RingStore.Proofs.Keyspace.Share

/-!
# Commands on shares of a keyspace

A command is *local* to some of its arguments if it reads and changes nothing but the keys that
these name. On a share that owns all of them it answers as on the whole, and what it leaves is again
a share of what it leaves of the whole. A command *counts* if it answers a number that can be put
together from the numbers for parts of its arguments.

## Main definitions

* `Command.LocalTo`: the keys that a command touches.
* `Command.Counts`: the number that a command answers can be divided.

## Main results

* `Command.LocalTo.outcome_eq`, `Command.LocalTo.isShare`, `Command.LocalTo.isShare_of_not_owns`:
  running a local command on a share.
* `Command.LocalTo.of_reads`, `Command.LocalTo.of_two`: what is to be looked at.
* `Catalogue.firstKey_command`, `Catalogue.splitKeys_command`, `Catalogue.sameOwner_command`: the
  routed commands are local.
-/

namespace RingStore

/-- A command reads and changes nothing but the keys that some of its arguments name. -/
structure Command.LocalTo (command : Command) (keysOf : List Bytes → List Bytes) : Prop where
  /-- It answers by what is stored under these keys. -/
  outcome : ∀ {left right : Keyspace} {arguments : List Bytes},
    (∀ key ∈ keysOf arguments, left.get? key = right.get? key) →
      (command.run left arguments).outcome = (command.run right arguments).outcome
  /-- What it stores under them depends on what was stored under them. -/
  inside : ∀ {left right : Keyspace} {arguments : List Bytes},
    (∀ key ∈ keysOf arguments, left.get? key = right.get? key) →
      ∀ key ∈ keysOf arguments, (command.run left arguments).keyspace.get? key =
        (command.run right arguments).keyspace.get? key
  /-- Everything else stays. -/
  outside : ∀ (keyspace : Keyspace) (arguments : List Bytes), ∀ key ∉ keysOf arguments,
    (command.run keyspace arguments).keyspace.get? key = keyspace.get? key

namespace Command.LocalTo

variable {command : Command} {keysOf : List Bytes → List Bytes} {part whole : Keyspace}
  {owns : Bytes → Prop} {arguments : List Bytes}

/-- On a share that owns its keys a command answers as on the whole. -/
theorem outcome_eq (h : command.LocalTo keysOf) (hshare : part.IsShare whole owns)
    (howns : ∀ key ∈ keysOf arguments, owns key) :
    (command.run part arguments).outcome = (command.run whole arguments).outcome :=
  h.outcome fun key hkey => (hshare key).1 (howns key hkey)

/-- What a command leaves of a share that owns its keys is a share of what it leaves of the
whole. -/
theorem isShare (h : command.LocalTo keysOf) (hshare : part.IsShare whole owns)
    (howns : ∀ key ∈ keysOf arguments, owns key) :
    (command.run part arguments).keyspace.IsShare (command.run whole arguments).keyspace owns := by
  intro key
  by_cases hkey : key ∈ keysOf arguments
  · have hsame := h.inside (fun key hkey => (hshare key).1 (howns key hkey)) key hkey
    exact ⟨fun _ => hsame, fun hnot => absurd (howns key hkey) hnot⟩
  · rw [h.outside part arguments key hkey, h.outside whole arguments key hkey]
    exact hshare key

/-- A share that owns none of its keys is not concerned. -/
theorem isShare_of_not_owns (h : command.LocalTo keysOf) (hshare : part.IsShare whole owns)
    (hnot : ∀ key ∈ keysOf arguments, ¬owns key) :
    part.IsShare (command.run whole arguments).keyspace owns := by
  intro key
  by_cases hkey : key ∈ keysOf arguments
  · exact ⟨fun howns => absurd howns (hnot key hkey), (hshare key).2⟩
  · rw [h.outside whole arguments key hkey]
    exact hshare key

/-- A command that changes nothing is local to the keys by which it answers. -/
theorem of_reads
    (hreads : ∀ keyspace arguments, (command.run keyspace arguments).keyspace = keyspace)
    (houtcome : ∀ {left right : Keyspace} {arguments : List Bytes},
      (∀ key ∈ keysOf arguments, left.get? key = right.get? key) →
        (command.run left arguments).outcome = (command.run right arguments).outcome) :
    command.LocalTo keysOf where
  outcome := houtcome
  inside hsame key hkey := by rw [hreads, hreads, hsame key hkey]
  outside keyspace arguments key _ := by rw [hreads]

/-- A command that faults with fewer than two arguments need only be looked at with two or more. -/
theorem of_two (hnone : ∀ keyspace, command.run keyspace [] = .fault keyspace)
    (hone : ∀ keyspace first, command.run keyspace [first] = .fault keyspace)
    (houtcome : ∀ {left right : Keyspace} {first second : Bytes} {more : List Bytes},
      (∀ key ∈ keysOf (first :: second :: more), left.get? key = right.get? key) →
        (command.run left (first :: second :: more)).outcome =
          (command.run right (first :: second :: more)).outcome)
    (hinside : ∀ {left right : Keyspace} {first second : Bytes} {more : List Bytes},
      (∀ key ∈ keysOf (first :: second :: more), left.get? key = right.get? key) →
        ∀ key ∈ keysOf (first :: second :: more),
          (command.run left (first :: second :: more)).keyspace.get? key =
            (command.run right (first :: second :: more)).keyspace.get? key)
    (houtside : ∀ (keyspace : Keyspace) (first second : Bytes) (more : List Bytes),
      ∀ key ∉ keysOf (first :: second :: more),
        (command.run keyspace (first :: second :: more)).keyspace.get? key = keyspace.get? key) :
    command.LocalTo keysOf where
  outcome {left right arguments} h := by
    -- a fault is the same on every keyspace, and leaves each as it is
    match arguments with
    | [] =>
      rw [hnone, hnone]
      rfl
    | [first] =>
      rw [hone, hone]
      rfl
    | first :: second :: more => exact houtcome h
  inside {left right arguments} h key hkey := by
    match arguments with
    | [] =>
      rw [hnone, hnone]
      exact h key hkey
    | [first] =>
      rw [hone, hone]
      exact h key hkey
    | first :: second :: more => exact hinside h key hkey
  outside keyspace arguments key hkey := by
    match arguments with
    | [] =>
      rw [hnone]
      rfl
    | [first] =>
      rw [hone]
      rfl
    | first :: second :: more => exact houtside keyspace first second more key hkey

end Command.LocalTo

/-- A command answers a number that can be divided: the number for some arguments and then others is
the sum, and the order of the arguments does not matter. -/
structure Command.Counts (command : Command) (tally : Keyspace → List Bytes → Nat) : Prop where
  /-- The number is the reply. -/
  outcome : ∀ keyspace arguments,
    (command.run keyspace arguments).outcome = .reply (.count (tally keyspace arguments))
  /-- It is not greater than the number of arguments. -/
  le_length : ∀ keyspace arguments, tally keyspace arguments ≤ arguments.length
  /-- The number for some arguments and then others is the sum. -/
  append : ∀ keyspace front back, tally keyspace (front ++ back) =
    tally keyspace front + tally (command.run keyspace front).keyspace back
  /-- So is what is left. -/
  keyspace_append : ∀ keyspace front back, (command.run keyspace (front ++ back)).keyspace.Agrees
    (command.run (command.run keyspace front).keyspace back).keyspace
  /-- The order does not matter for the number. -/
  perm : ∀ keyspace {arguments others : List Bytes}, arguments.Perm others →
    tally keyspace arguments = tally keyspace others
  /-- Nor does it for what is left. -/
  keyspace_perm : ∀ keyspace {arguments others : List Bytes}, arguments.Perm others →
    (command.run keyspace arguments).keyspace.Agrees (command.run keyspace others).keyspace
  /-- Nothing is done without arguments. -/
  nil : ∀ keyspace, (command.run keyspace []).keyspace = keyspace

namespace Catalogue

/-- The key that a command with one key touches. -/
def firstOf (arguments : List Bytes) : List Bytes :=
  arguments.take 1

/-- A command that changes nothing and answers by what is stored under its first argument. -/
theorem localTo_firstOf {command : Command}
    (hnone : ∀ keyspace, command.run keyspace [] = .fault keyspace)
    (hreads : ∀ keyspace key more, (command.run keyspace (key :: more)).keyspace = keyspace)
    (houtcome : ∀ {left right : Keyspace} {key : Bytes}, left.get? key = right.get? key →
      ∀ more, (command.run left (key :: more)).outcome =
        (command.run right (key :: more)).outcome) : command.LocalTo firstOf := by
  refine .of_reads (fun keyspace arguments => ?_) fun {left right arguments} h => ?_
  · cases arguments with
    | nil =>
      rw [hnone]
      rfl
    | cons key more => exact hreads keyspace key more
  · cases arguments with
    | nil =>
      rw [hnone, hnone]
      rfl
    | cons key more => exact houtcome (h key (by simp [firstOf])) more

theorem localTo_get : get.LocalTo firstOf :=
  localTo_firstOf (fun _ => rfl) (fun _ _ _ => rfl) fun h _ => by
    simp only [get, Effect.answer, h]

theorem localTo_strLen : strLen.LocalTo firstOf :=
  localTo_firstOf (fun _ => rfl) (fun _ _ _ => rfl) fun h _ => by
    simp only [strLen, Effect.answer, h]

theorem localTo_type : type.LocalTo firstOf :=
  localTo_firstOf (fun _ => rfl) (fun _ _ _ => rfl) fun h _ => by
    simp only [type, Effect.answer, h]

theorem localTo_existsKeys : existsKeys.LocalTo id := by
  refine .of_reads (fun keyspace arguments => rfl) fun {left right arguments} h => ?_
  have hcount : arguments.countP left.contains = arguments.countP right.contains :=
    List.countP_congr fun key hkey => by rw [Keyspace.contains_congr (h key hkey)]
  simp only [existsKeys, Effect.answer, hcount]

theorem localTo_set : set.LocalTo firstOf := by
  refine .of_two (fun _ => rfl) (fun _ _ => rfl) (fun _ => rfl) (fun h key hkey => ?_)
    fun keyspace first value more key hkey => ?_
  · simp only [set, Keyspace.get?_put, h key hkey]
  · have hne : key ≠ first := by simpa [firstOf] using hkey
    simp only [set, Keyspace.get?_put, if_neg hne]

theorem localTo_getSet : getSet.LocalTo firstOf := by
  refine .of_two (fun _ => rfl) (fun _ _ => rfl) (fun {_ _ first _ _} h => ?_)
    (fun h key hkey => ?_) fun keyspace first value more key hkey => ?_
  · simp only [getSet, h first (by simp [firstOf])]
  · simp only [getSet, Keyspace.get?_put, h key hkey]
  · have hne : key ≠ first := by simpa [firstOf] using hkey
    simp only [getSet, Keyspace.get?_put, if_neg hne]

/-- Storing unless the key occurs, seen as a map. -/
theorem get?_run_setNx (keyspace : Keyspace) (first value : Bytes) (more : List Bytes)
    (key : Bytes) :
    (setNx.run keyspace (first :: value :: more)).keyspace.get? key =
      if key = first ∧ ¬keyspace.contains first then some ⟨value⟩ else keyspace.get? key := by
  cases hcontains : keyspace.contains first with
  | true => simp [setNx, Keyspace.putIfAbsent_of_contains hcontains, Effect.answer]
  | false => simp [setNx, Keyspace.putIfAbsent_of_not_contains hcontains, Keyspace.get?_put]

theorem localTo_setNx : setNx.LocalTo firstOf := by
  refine .of_two (fun _ => rfl) (fun _ _ => rfl) (fun {left right first value more} h => ?_)
    (fun {left right first value more} h key hkey => ?_)
    fun keyspace first value more key hkey => ?_
  · have hsame := Keyspace.contains_congr (h first (by simp [firstOf]))
    cases hright : right.contains first with
    | true =>
      simp only [setNx, Keyspace.putIfAbsent_of_contains hright,
        Keyspace.putIfAbsent_of_contains (hsame.trans hright), Effect.answer]
    | false =>
      simp only [setNx, Keyspace.putIfAbsent_of_not_contains hright,
        Keyspace.putIfAbsent_of_not_contains (hsame.trans hright)]
  · have hsame := Keyspace.contains_congr (h first (by simp [firstOf]))
    rw [get?_run_setNx, get?_run_setNx, hsame, h key hkey]
  · have hne : key ≠ first := by simpa [firstOf] using hkey
    rw [get?_run_setNx, if_neg fun h => hne h.1]

/-- Moving what is stored under one key to another, seen as a map. -/
theorem get?_run_rename (keyspace : Keyspace) (source target : Bytes) (more : List Bytes)
    (key : Bytes) :
    (rename.run keyspace (source :: target :: more)).keyspace.get? key =
      match keyspace.get? source with
      | none => keyspace.get? key
      | some entity =>
        if key = target then some entity else if key = source then none else keyspace.get? key := by
  simp only [rename]
  cases keyspace.get? source with
  | none => rfl
  | some entity =>
    dsimp only
    by_cases heq : source = target
    · subst heq
      rw [if_pos rfl, Keyspace.get?_put]
      by_cases hkey : key = source <;> simp [hkey]
    · rw [if_neg heq, Keyspace.get?_erase, Keyspace.get?_put]
      by_cases htarget : key = target
      · simp [htarget, Ne.symm heq]
      · simp [htarget]

theorem localTo_rename : rename.LocalTo id := by
  refine .of_two (fun _ => rfl) (fun _ _ => rfl) (fun {left right source target more} h => ?_)
    (fun {left right source target more} h key hkey => ?_)
    fun keyspace source target more key hkey => ?_
  · simp only [rename, h source (by simp)]
    cases right.get? source <;> rfl
  · rw [get?_run_rename, get?_run_rename, h source (by simp), h key hkey]
  · simp only [id, List.mem_cons, not_or] at hkey
    rw [get?_run_rename]
    cases keyspace.get? source with
    | none => rfl
    | some entity =>
      dsimp only
      rw [if_neg hkey.2.1, if_neg hkey.1]

/-- Moving what is stored under one key to another that does not occur, seen as a map. -/
theorem get?_run_renameNx (keyspace : Keyspace) (source target : Bytes) (more : List Bytes)
    (key : Bytes) :
    (renameNx.run keyspace (source :: target :: more)).keyspace.get? key =
      match keyspace.get? source, keyspace.contains target with
      | some entity, false =>
        if key = source then none else if key = target then some entity else keyspace.get? key
      | _, _ => keyspace.get? key := by
  simp only [renameNx]
  cases keyspace.get? source with
  | none => rfl
  | some entity =>
    cases hcontains : keyspace.contains target with
    | true =>
      dsimp only
      rw [Keyspace.putIfAbsent_of_contains hcontains]
      rfl
    | false =>
      dsimp only
      rw [Keyspace.putIfAbsent_of_not_contains hcontains]
      dsimp only
      rw [Keyspace.get?_erase, Keyspace.get?_put]

theorem localTo_renameNx : renameNx.LocalTo id := by
  refine .of_two (fun _ => rfl) (fun _ _ => rfl) (fun {left right source target more} h => ?_)
    (fun {left right source target more} h key hkey => ?_)
    fun keyspace source target more key hkey => ?_
  · have hsame := Keyspace.contains_congr (h target (by simp))
    simp only [renameNx, h source (by simp)]
    cases right.get? source with
    | none => rfl
    | some entity =>
      dsimp only
      cases hright : right.contains target with
      | true =>
        rw [Keyspace.putIfAbsent_of_contains hright,
          Keyspace.putIfAbsent_of_contains (hsame.trans hright)]
        rfl
      | false =>
        rw [Keyspace.putIfAbsent_of_not_contains hright,
          Keyspace.putIfAbsent_of_not_contains (hsame.trans hright)]
  · have hsame := Keyspace.contains_congr (h target (by simp))
    rw [get?_run_renameNx, get?_run_renameNx, h source (by simp), hsame, h key hkey]
  · simp only [id, List.mem_cons, not_or] at hkey
    rw [get?_run_renameNx]
    split
    · rw [if_neg hkey.1, if_neg hkey.2.1]
    · rfl

theorem localTo_del : del.LocalTo id where
  outcome {left right arguments} h := by
    have hcount : (left.eraseAll arguments).1 = (right.eraseAll arguments).1 :=
      Keyspace.eraseAll_fst_congr h
    simp only [del, hcount]
  inside {left right arguments} _ key hkey := by
    simp only [del, Keyspace.get?_eraseAll, if_pos (show key ∈ arguments from hkey)]
  outside keyspace arguments key hkey := by
    simp only [del, Keyspace.get?_eraseAll, if_neg (show key ∉ arguments from hkey)]

theorem counts_del : del.Counts fun keyspace arguments => (keyspace.eraseAll arguments).1 where
  outcome _ _ := rfl
  le_length := Keyspace.eraseAll_fst_le
  append keyspace front back := by
    rw [Keyspace.eraseAll_append]
    rfl
  keyspace_append keyspace front back := by
    simp only [del, Keyspace.eraseAll_append]
    exact .refl _
  perm keyspace _ _ h := keyspace.eraseAll_fst_perm h
  keyspace_perm keyspace _ _ h := by
    intro key
    simp only [del, Keyspace.get?_eraseAll, h.mem_iff]
  nil _ := rfl

theorem counts_existsKeys :
    existsKeys.Counts fun keyspace arguments => arguments.countP keyspace.contains where
  outcome _ _ := rfl
  le_length _ _ := List.countP_le_length
  append _ _ _ := List.countP_append
  keyspace_append _ _ _ := .refl _
  perm _ _ _ h := h.countP_eq _
  keyspace_perm _ _ _ _ := .refl _
  nil _ := rfl

theorem mem_routes_of_route? {name : String} {route : Route} (h : route? name = some route) :
    (name, route) ∈ routes := by
  obtain ⟨front, back, hroutes, -⟩ := List.lookup_eq_some_iff.1 h
  rw [hroutes]
  exact List.mem_append_right _ List.mem_cons_self

/-- The commands that are sent to the owner of their first key are local to it. They take one
argument or more. -/
theorem firstKey_command [Machine] {name : String} (h : route? name = some .firstKey) :
    ∃ command, registry.find? name = some command ∧ command.LocalTo firstOf ∧
      command.arity.allows 0 = false := by
  have hmem := mem_routes_of_route? h
  simp only [routes, List.mem_cons, Prod.mk.injEq, reduceCtorEq, and_false, and_true, false_or,
    or_false, List.not_mem_nil] at hmem
  rcases hmem with rfl | rfl | rfl | rfl | rfl | rfl
  · exact ⟨get, find?_of_mem_smallNames (by decide), localTo_get, rfl⟩
  · exact ⟨set, find?_of_mem_smallNames (by decide), localTo_set, rfl⟩
  · exact ⟨setNx, find?_of_mem_smallNames (by decide), localTo_setNx, rfl⟩
  · exact ⟨getSet, find?_of_mem_smallNames (by decide), localTo_getSet, rfl⟩
  · exact ⟨strLen, find?_of_mem_smallNames (by decide), localTo_strLen, rfl⟩
  · exact ⟨type, find?_of_mem_smallNames (by decide), localTo_type, rfl⟩

/-- The commands that are divided among the owners of their keys are local to these and count. -/
theorem splitKeys_command [Machine] {name : String} (h : route? name = some .splitKeys) :
    ∃ command tally, registry.find? name = some command ∧ command.LocalTo id ∧
      command.Counts tally ∧ command.arity = .atLeast 1 := by
  have hmem := mem_routes_of_route? h
  simp only [routes, List.mem_cons, Prod.mk.injEq, reduceCtorEq, and_false, and_true, false_or,
    or_false, List.not_mem_nil] at hmem
  rcases hmem with rfl | rfl
  · exact ⟨del, _, find?_of_mem_smallNames (by decide), localTo_del, counts_del, rfl⟩
  · exact ⟨existsKeys, _, find?_of_mem_smallNames (by decide), localTo_existsKeys,
    counts_existsKeys, rfl⟩

/-- The commands that are sent to the one owner of both keys are local to them. They take two
arguments. -/
theorem sameOwner_command [Machine] {name : String} (h : route? name = some .sameOwner) :
    ∃ command, registry.find? name = some command ∧ command.LocalTo id ∧
      command.arity = .exactly 2 := by
  have hmem := mem_routes_of_route? h
  simp only [routes, List.mem_cons, Prod.mk.injEq, reduceCtorEq, and_false, and_true, false_or,
    or_false, List.not_mem_nil] at hmem
  rcases hmem with rfl | rfl
  · exact ⟨rename, find?_of_mem_smallNames (by decide), localTo_rename, rfl⟩
  · exact ⟨renameNx, find?_of_mem_smallNames (by decide), localTo_renameNx, rfl⟩

/-- The names of the commands that are sent to the one owner of both keys. -/
theorem sameOwner_iff {name : String} :
    route? name = some .sameOwner ↔ name ∈ ["rename", "renamenx"] := by
  constructor
  · intro h
    have hmem := mem_routes_of_route? h
    simpa only [routes, List.mem_cons, Prod.mk.injEq, reduceCtorEq, and_false, and_true, false_or,
      or_false, List.not_mem_nil] using hmem
  · intro h
    simp only [List.mem_cons, List.not_mem_nil, or_false] at h
    rcases h with rfl | rfl <;> decide

/-- The commands that every member executes, and how their replies become one. -/
theorem broadcast_command [Machine] {name : String} {merge : Merge}
    (h : route? name = some (.broadcast merge)) :
    name = "flushdb" ∧ merge = .allOk ∧ registry.find? name = some flushDb ∨
      name = "dbsize" ∧ merge = .sumIntegers ∧ registry.find? name = some dbSize ∨
      name = "keys" ∧ merge = .concatArrays ∧ registry.find? name = some keys := by
  have hmem := mem_routes_of_route? h
  simp only [routes, List.mem_cons, Prod.mk.injEq, reduceCtorEq, and_false, false_or, or_false,
    List.not_mem_nil, Route.broadcast.injEq] at hmem
  rcases hmem with ⟨rfl, rfl⟩ | ⟨rfl, rfl⟩ | ⟨rfl, rfl⟩
  · exact .inl ⟨rfl, rfl, find?_of_mem_smallNames (by decide)⟩
  · exact .inr (.inl ⟨rfl, rfl, find?_of_mem_smallNames (by decide)⟩)
  · exact .inr (.inr ⟨rfl, rfl, find?_of_mem_smallNames (by decide)⟩)

end Catalogue

end RingStore
