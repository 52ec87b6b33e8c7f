import RingStore.Proofs.Wire.Grammar

/-!
# Values are read back

A value is read back from its bytes, whatever follows them, exactly if its bytes show where it ends.
One half is that the rules derive such a value from its bytes, the other that they derive no other
value from anything.

## Main definitions

* `Wire.AsksToRun`: the bytes of a command line are read back as a request to run it.

## Main results

* `Wire.Derives.of_framed`: a framed value is derived from its bytes.
* `Wire.read_encode`: a framed value is read back, whatever follows.
* `Wire.framed_of_readValue`: whatever is read is framed.
* `Wire.read_encode_iff`: exactly the framed values are read back.
* `Wire.read_encodeCommandLine`: a command line is read back as a request that asks to run it.
* `Wire.read_back_iff`: which values and which command lines are read back, whatever follows.
-/

namespace RingStore

theorem Value.encodeAll_eq_flatMap (items : List Value) :
    encodeAll items = items.flatMap encode := by
  induction items with
  | nil => rfl
  | cons item rest ih => rw [encodeAll, ih, List.flatMap_cons]

namespace Wire

/-- A line is sent as its mark, its content and its end. -/
theorem encodeLine_append (mark : UInt8) (content rest : Bytes) :
    encodeLine mark content ++ rest = mark :: (content ++ (lineEnd ++ rest)) := by
  simp [encodeLine]

/-- A framed value is derived from its bytes. -/
theorem Derives.of_framed {depth : Nat} {value : Value} (h : value.Framed depth) :
    Derives depth value value.encode := by
  match depth, value with
  | depth, .simple text =>
    have hline : Derives depth (.simple (Text.ofBytes (Text.toBytes text))) _ :=
      .simple (Value.framed_simple.1 h)
    rwa [Text.ofBytes_toBytes] at hline
  | depth, .error text =>
    have hline : Derives depth (.error (Text.ofBytes (Text.toBytes text))) _ :=
      .error (Value.framed_error.1 h)
    rwa [Text.ofBytes_toBytes] at hline
  | depth, .integer number => exact .integer (Decimal.denotes_ofInt number.toInt)
  | depth, .bulk bytes =>
    have hbulk : Derives depth (.bulk bytes) _ :=
      .bulk (Decimal.denotes_ofNat bytes.length) (Value.framed_bulk.1 h)
    simpa [Value.encode, encodeBulk, encodeLine] using hbulk
  | depth, .null => exact .null (Decimal.denotes_ofInt (-1))
  | 0, .array items => exact absurd h id
  | depth + 1, .array items =>
    obtain ⟨hcount, hitems⟩ := Value.framed_array.1 h
    -- each item is derived from its own bytes, where fewer arrays may lie in one another
    let parts := items.map fun item => (item, item.encode)
    have hparts : ∀ part ∈ parts, Derives depth part.1 part.2 :=
      List.forall_mem_map.2 fun item hitem => Derives.of_framed (hitems item hitem)
    have hlength : parts.length = items.length := List.length_map ..
    have harray : Derives (depth + 1) (.array (parts.map Prod.fst)) _ :=
      .array (hlength ▸ Decimal.denotes_ofNat items.length) (hlength ▸ hcount) hparts
    simpa [parts, Value.encode, Value.encodeAll_eq_flatMap, encodeLine, List.flatMap_map,
      Function.comp_def] using harray
  | depth, .silent => exact absurd h Value.not_framed_silent

/-- What is derived from bytes is framed. -/
theorem Derives.framed {depth : Nat} {value : Value} {taken : Bytes}
    (h : Derives depth value taken) : value.Framed depth := by
  induction h with
  | simple hline =>
    exact Value.framed_simple.2 fun hin => hline (Text.lineEnd_infix_toBytes_ofBytes.1 hin)
  | error hline =>
    exact Value.framed_error.2 fun hin => hline (Text.lineEnd_infix_toBytes_ofBytes.1 hin)
  | integer => exact Value.framed_integer
  | bulk _ hlimit => exact Value.framed_bulk.2 hlimit
  | null => exact Value.framed_null
  | nullArray => exact Value.framed_null
  | array _ hlimit _ ih =>
    refine Value.framed_array.2 ⟨?_, List.forall_mem_map.2 ih⟩
    rw [List.length_map]
    exact hlimit

/-- Whatever is read is framed. -/
theorem framed_of_readValue {depth : Nat} {bytes rest : Bytes} {value : Value}
    (h : readValue depth bytes = .done value rest) : value.Framed depth := by
  obtain ⟨_, _, hderives⟩ := readValue_eq_done_iff.1 h
  exact hderives.framed

/-- What is sent for a framed value starts with a mark. -/
theorem exists_mark_of_framed {depth : Nat} {value : Value} (h : value.Framed depth) :
    ∃ mark rest, value.encode = mark :: rest ∧ isMark mark = true := by
  cases value with
  | silent => exact absurd h Value.not_framed_silent
  | _ => exact ⟨_, _, rfl, rfl⟩

/-- A framed value is the first value of any bytes that start with its own. -/
theorem read_encode {value : Value} (h : value.Framed maxDepth) (rest : Bytes) :
    read (value.encode ++ rest) = .done value rest := by
  have hvalue := (Derives.of_framed h).readValue_append rest
  obtain ⟨mark, tail, hencode, hmark⟩ := exists_mark_of_framed h
  rw [hencode, List.cons_append] at hvalue ⊢
  rw [read, if_pos hmark, hvalue]

/-- Exactly the framed values are read back from their bytes. -/
theorem read_encode_iff {value : Value} :
    read value.encode = .done value [] ↔ value.Framed maxDepth := by
  constructor
  · intro h
    cases value with
    | silent => cases h
    | _ => exact framed_of_readValue (h : readValue maxDepth _ = _)
  · intro h
    have := read_encode h []
    rwa [List.append_nil] at this

end Wire

namespace Value

/-- A command line is sent as an array of bulk strings. -/
theorem encode_request (line : CommandLine) :
    (array (line.map bulk)).encode = encodeCommandLine line := by
  rw [encode, encodeAll_eq_flatMap, encodeCommandLine, List.length_map, List.flatMap_map]
  rfl

/-- Only bulk strings have bytes that can be taken out. -/
theorem bulk?_eq_some_iff {item : Value} {bytes : Bytes} :
    item.bulk? = some bytes ↔ item = bulk bytes := by
  cases item <;> simp [bulk?]

/-- The bytes of several values can be taken out exactly if all of them are bulk strings. -/
theorem mapM_bulk?_eq_some_iff {items : List Value} {words : List Bytes} :
    items.mapM bulk? = some words ↔ items = words.map bulk := by
  induction items generalizing words with
  | nil => simp [eq_comm]
  | cons item more ih =>
    rw [List.mapM_cons]
    cases words with
    | nil => simp [Option.bind_eq_some_iff]
    | cons word others => simp [Option.bind_eq_some_iff, bulk?_eq_some_iff, ih]

/-- What asks to run a command line is the array of its words, and one word is asked for at
least. -/
theorem commandLine?_eq_some_iff {request : Value} {line : CommandLine} :
    request.commandLine? = some line ↔ line ≠ [] ∧ request = array (line.map bulk) := by
  constructor
  · intro h
    unfold commandLine? at h
    split at h
    · next first rest =>
      have hitems := mapM_bulk?_eq_some_iff.1 h
      refine ⟨?_, congrArg array hitems⟩
      rintro rfl
      cases hitems
    · cases h
  · rintro ⟨hne, rfl⟩
    cases line with
    | nil => exact absurd rfl hne
    | cons word rest => exact mapM_bulk?_eq_some_iff.2 rfl

/-- An array of bulk strings asks to run the command line of their bytes. -/
theorem commandLine?_request {line : CommandLine} (h : line ≠ []) :
    (array (line.map bulk)).commandLine? = some line :=
  commandLine?_eq_some_iff.2 ⟨h, rfl⟩

end Value

/-- A command line can be read back as a request: it has few enough words, which are short
enough. -/
structure CommandLine.Framed (line : CommandLine) : Prop where
  /-- The words are few enough. -/
  count : line.length ≤ Wire.arrayLimit
  /-- They are short enough. -/
  words : ∀ word ∈ line, word.length ≤ Wire.bulkLimit

/-- The array of a command line's words keeps the limits exactly if the command line does. -/
theorem Value.framed_request {depth : Nat} {line : CommandLine} :
    (Value.array (line.map .bulk)).Framed (depth + 1) ↔ line.Framed := by
  simp only [Value.framed_array, List.length_map, List.forall_mem_map, Value.framed_bulk]
  exact ⟨fun h => ⟨h.1, h.2⟩, fun h => ⟨h.count, h.words⟩⟩

namespace Wire

/-- A command line is read back as a request that asks to run it, whatever follows. -/
theorem read_encodeCommandLine {line : CommandLine} (h : line.Framed) (rest : Bytes) :
    read (encodeCommandLine line ++ rest) = .done (.array (line.map .bulk)) rest := by
  rw [← Value.encode_request]
  exact read_encode (Value.framed_request.2 h) rest

/-- Only the command lines within the limits are read back, each as the array of its words. -/
theorem read_encodeCommandLine_iff {line : CommandLine} :
    read (encodeCommandLine line) = .done (.array (line.map .bulk)) [] ↔ line.Framed := by
  rw [← Value.encode_request, read_encode_iff]
  exact Value.framed_request

/-- The bytes of a command line are read back as a request that asks to run it. -/
def AsksToRun (line : CommandLine) (rest : Bytes) : Prop :=
  ∃ request, read (encodeCommandLine line ++ rest) = .done request rest ∧
    request.commandLine? = some line

/-- Exactly the framed values are read back in front of whatever follows them, which is left as it
is. So are exactly the command lines that are within the limits and hold one word at least. The
empty one is read back as the empty array, which asks to run nothing. -/
theorem read_back_iff :
    (∀ value : Value, (∀ rest, read (value.encode ++ rest) = .done value rest) ↔
      value.Framed maxDepth) ∧
    (∀ line : CommandLine, (∀ rest, AsksToRun line rest) ↔ line ≠ [] ∧ line.Framed) ∧
    ∀ rest, read (encodeCommandLine [] ++ rest) = .done (.array []) rest ∧
      (Value.array []).commandLine? = none := by
  refine ⟨fun value => ⟨fun h => ?_, read_encode⟩, fun line => ⟨fun h => ?_, ?_⟩, fun rest => ?_⟩
  · have hvalue := h []
    rwa [List.append_nil, read_encode_iff] at hvalue
  · obtain ⟨request, hread, hline⟩ := h []
    obtain ⟨hne, rfl⟩ := Value.commandLine?_eq_some_iff.1 hline
    rw [List.append_nil, read_encodeCommandLine_iff] at hread
    exact ⟨hne, hread⟩
  · rintro ⟨hne, hframed⟩ rest
    exact ⟨_, read_encodeCommandLine hframed rest, Value.commandLine?_request hne⟩
  · exact ⟨read_encodeCommandLine ⟨Nat.zero_le _, by simp⟩ rest, rfl⟩

/-- The empty command line is within the limits and yet not asked for by its own bytes. -/
theorem not_forall_asksToRun : ¬∀ line : CommandLine, line.Framed → AsksToRun line [] := by
  intro h
  obtain ⟨request, -, hline⟩ := h [] ⟨Nat.zero_le _, by simp⟩
  exact (Value.commandLine?_eq_some_iff.1 hline).1 rfl

end Wire

end RingStore
