import RingStore.Proofs.Journal.Restart

/-!
# Crashes

A crash in the middle of an append leaves the first bytes of the journal's file, which end anywhere
in a record. The node that is opened next finds the records that survived whole, executes them again
and cuts off the torn one, so that what it writes follows them directly. Hence no crash hides what
is written after it, however many crashes there are and wherever they cut the file.

The invariant is that a closed file is the bytes of whole records. Opening the node establishes it
again after every crash. Cutting closed files covers a crash of a running node as well, because what
it has in its file at any moment is what closing it would leave, cut short.

## Main definitions

* `Record.wholeWithin`: the records that survive whole when a file is cut.
* `Life`, `Life.perform`, `Life.performAll`: a crash and a run after it, and several of them.

## Main results

* `Record.prefix_wholeWithin_iff`: the survivors are all that fit in what is left.
* `JournaledNode.recover_cut`: what a node finds in a file that was cut.
* `Life.openAt_performAll_cut`: opening a node after any number of crashes.
-/

namespace RingStore

open Journal

namespace Record

variable (checksum : Bytes → UInt64)

/-- The records of which all bytes are among the first `kept` ones of a file of records. -/
def wholeWithin : (kept : Nat) → List Record → List Record
  | _, [] => []
  | kept, record :: rest =>
    let size := (record.encode checksum).length
    if size ≤ kept then record :: wholeWithin (kept - size) rest else []

theorem length_encodeAll_cons (record : Record) (rest : List Record) :
    (encodeAll checksum (record :: rest)).length =
      (record.encode checksum).length + (encodeAll checksum rest).length := by
  rw [encodeAll, List.flatMap_cons, List.length_append]
  rfl

/-- The survivors are the first records, as many as fit in the bytes that are left. -/
theorem prefix_wholeWithin_iff {kept : Nat} {records front : List Record} :
    front <+: wholeWithin checksum kept records ↔
      front <+: records ∧ (encodeAll checksum front).length ≤ kept := by
  induction records generalizing kept front with
  | nil =>
    rw [wholeWithin, List.prefix_nil]
    refine (and_iff_left_of_imp ?_).symm
    rintro rfl
    exact Nat.zero_le _
  | cons record rest ih =>
    cases front with
    | nil => exact iff_of_true (List.nil_prefix) ⟨List.nil_prefix, Nat.zero_le _⟩
    | cons first others =>
      simp only [wholeWithin, List.cons_prefix_cons, length_encodeAll_cons]
      split
      · next hfits =>
        rw [List.cons_prefix_cons, ih, and_assoc]
        refine and_congr_right fun heq => and_congr_right fun _ => ?_
        subst heq
        omega
      · next hfits =>
        refine iff_of_false (by simp) ?_
        rintro ⟨⟨rfl, _⟩, hlength⟩
        omega

theorem fits_wholeWithin {records : List Record} (h : ∀ record ∈ records, record.line.Fits)
    (kept : Nat) : ∀ record ∈ wholeWithin checksum kept records, record.line.Fits :=
  fun record hmem =>
    h record (((prefix_wholeWithin_iff checksum).1 List.prefix_rfl).1.subset hmem)

/-- What is left of a file that was cut: the survivors, and then bytes that are no record. -/
theorem exists_take_encodeAll {records : List Record} (h : ∀ record ∈ records, record.line.Fits)
    (kept : Nat) :
    ∃ torn reason, (encodeAll checksum records).take kept =
        encodeAll checksum (wholeWithin checksum kept records) ++ torn ∧
      decode checksum torn = .error reason := by
  induction records generalizing kept with
  | nil => exact ⟨[], _, List.take_nil, decode_nil checksum⟩
  | cons record rest ih =>
    obtain ⟨hrecord, hrest⟩ := List.forall_mem_cons.1 h
    have hbytes : encodeAll checksum (record :: rest) =
        record.encode checksum ++ encodeAll checksum rest := List.flatMap_cons
    simp only [wholeWithin, hbytes]
    split
    · next hfits =>
      -- the first record survives, and the tear is further on
      obtain ⟨torn, reason, htake, htorn⟩ := ih hrest (kept - (record.encode checksum).length)
      refine ⟨torn, reason, ?_, htorn⟩
      rw [List.take_append, List.take_of_length_le hfits, htake, ← List.append_assoc]
      rfl
    · next hcut =>
      -- the tear is within the first record or in front of it
      have hpart : (record.encode checksum).take kept ≠ record.encode checksum := by
        intro heq
        have := congrArg List.length heq
        rw [List.length_take] at this
        omega
      obtain ⟨reason, htorn⟩ := decode_eq_error_of_part hrecord (List.take_prefix _ _) hpart
      exact ⟨_, reason, List.take_append_of_le_length (by omega), htorn⟩

end Record

/-- Of a file, only its first bytes are left. -/
def Journal.Place.cut (kept : Nat) : Place → Place
  | .file content => .file (content.take kept)
  | place => place

/-- What lies at the path of a running node is the file that closing it would leave, cut short. -/
theorem JournaledNode.Promises.exists_place_eq_cut [Machine] {journaled : JournaledNode}
    {records : List Record} (h : journaled.Promises records) (before : Place) :
    ∃ kept, journaled.place before =
      .cut kept (.file (Record.encodeAll journalChecksum records)) := by
  obtain ⟨recorder, hrecorder, -, hpromised⟩ := h.recorder
  refine ⟨recorder.writer.content.length, ?_⟩
  rw [place, hrecorder, Place.cut, ← hpromised, Recorder.promised, Writer.written,
    List.append_assoc, List.take_left]

/-- What a node finds in a file of records that was cut: the survivors, which are all that it leaves
in the file. -/
theorem JournaledNode.recover_cut {records : List Record}
    (h : ∀ record ∈ records, record.line.Fits) (kept : Nat) :
    let survivors := Record.wholeWithin journalChecksum kept records
    recover (.cut kept (.file (Record.encodeAll journalChecksum records))) =
      .ok (survivors, .file (Record.encodeAll journalChecksum survivors)) := by
  obtain ⟨torn, reason, htake, htorn⟩ := Record.exists_take_encodeAll journalChecksum h kept
  rw [Place.cut, htake]
  exact recover_append (Record.fits_wholeWithin _ h kept) htorn

/-- Records can keep whatever the line logs. -/
def CommandLine.LogFits [Machine] (line : CommandLine) : Prop :=
  ∀ keyspace : Keyspace, ∀ logged ∈ keyspace.logged line, logged.Fits

theorem CommandLine.Loggable.logFits [Machine] {line : CommandLine} (h : line.Loggable) :
    line.LogFits := by
  intro keyspace logged hlogged
  obtain ⟨word, name, hname, arguments, rfl, rfl⟩ := Keyspace.exists_call_of_mem_logged hlogged
  exact h.call hname

namespace Run

/-- Records can keep whatever the event logs. -/
def Event.LogFits [Machine] : Event → Prop
  | .command _ line => line.LogFits
  | .record _ => True

namespace State

/-- The records that an event hands to the recorder. -/
def handed (state : State) : Event → List Record
  | .command client line =>
    (state.journaled.exec (state.sessions client) line).writes.map Record.ofWrite
  | .record _ => []

/-- The records that events hand to the recorder, in order. -/
def handedAll (state : State) : List Event → List Record
  | [] => []
  | event :: rest => state.handed event ++ (state.step event).handedAll rest

variable {state : State} {records : List Record}

/-- What an event hands to the recorder is promised after all that was. -/
theorem promises_step [Machine] (h : state.journaled.Promises records) (event : Event) :
    (state.step event).journaled.Promises (records ++ state.handed event) := by
  cases event with
  | command client line => exact h.exec (state.sessions client) line
  | record glance =>
    rw [handed, List.append_nil]
    exact h.record glance

theorem fits_handed [Machine] (h : state.journaled.Promises records) {event : Event}
    (hevent : event.LogFits) :
    ∀ record ∈ state.handed event, record.line.Fits := by
  intro record hmem
  cases event with
  | record glance => cases hmem
  | command client line =>
    obtain ⟨write, hwrite, rfl⟩ := List.mem_map.1 hmem
    have hwrites := Node.writes_exec h.regular (state.sessions client) line
    have hmem' : write ∈ (state.journaled.node.exec (state.sessions client) line).writes := hwrite
    rw [hwrites] at hmem'
    split at hmem'
    · obtain ⟨logged, hlogged, rfl⟩ := List.mem_map.1 hmem'
      exact hevent _ logged hlogged
    · cases hmem'

/-- After all events, everything that they handed to the recorder is promised, and records can keep
it. -/
theorem promises_foldl_step [Machine] (h : state.journaled.Promises records) {events : List Event}
    (hevents : ∀ event ∈ events, event.LogFits) :
    (events.foldl step state).journaled.Promises (records ++ state.handedAll events) ∧
      ∀ record ∈ state.handedAll events, record.line.Fits := by
  induction events generalizing state records with
  | nil =>
    rw [handedAll, List.append_nil]
    exact ⟨h, by simp⟩
  | cons event rest ih =>
    obtain ⟨hevent, hrest⟩ := List.forall_mem_cons.1 hevents
    obtain ⟨hpromises, hfits⟩ := ih (promises_step h event) hrest
    rw [handedAll, ← List.append_assoc]
    exact ⟨hpromises, List.forall_mem_append.2 ⟨fits_handed h hevent, hfits⟩⟩

end State

end Run

/-- A crash, and a run of a node on the file that is left. -/
structure Life where
  /-- How many bytes of the file the crash leaves; all of them if there are fewer. -/
  kept : Nat
  /-- The run after the crash. -/
  run : Run

namespace Life

/-- Records can keep whatever is logged. -/
def LogFits [Machine] (life : Life) : Prop :=
  ∀ event ∈ life.run.events, event.LogFits

/-- A life, on a file and with the records that make it up: the file that is left, and the records
that survived the crash followed by those that were handed to the recorder since. -/
def perform [Machine] (before : Place × List Record) (life : Life) :
    Except Failure (Place × List Record) := do
  let torn := before.1.cut life.kept
  let opened ← life.run.begin torn
  let start : Run.State := ⟨opened, fun _ => .start, []⟩
  let ended := life.run.events.foldl Run.State.step start
  return ((ended.journaled.closeAfter life.run.closing).place torn,
    Record.wholeWithin journalChecksum life.kept before.2 ++ start.handedAll life.run.events)

/-- Lives one after the other, on a file of records at first. -/
def performAll [Machine] (records : List Record) (lives : List Life) :
    Except Failure (Place × List Record) :=
  lives.foldlM perform (.file (Record.encodeAll journalChecksum records), records)

/-- A life leaves a file of whole records: the survivors, directly followed by all that was logged
since. -/
theorem exists_perform [Machine] {life : Life} (hlife : life.LogFits) {records : List Record}
    (h : ∀ record ∈ records, record.line.Fits) :
    ∃ log, perform (.file (Record.encodeAll journalChecksum records), records) life =
        .ok (.file (Record.encodeAll journalChecksum log), log) ∧
      ∀ record ∈ log, record.line.Fits := by
  obtain ⟨opened, hopened, hpromises, -⟩ := JournaledNode.exists_openAt
    (JournaledNode.recover_cut h life.kept) rfl life.run.databases life.run.policy
  have hstart : (⟨opened, fun _ => .start, []⟩ : Run.State).journaled.Promises
    (Record.wholeWithin journalChecksum life.kept records) := hpromises
  obtain ⟨hended, hlogged⟩ := Run.State.promises_foldl_step hstart hlife
  have hsurvivors := Record.fits_wholeWithin journalChecksum h life.kept
  refine ⟨_, ?_, List.forall_mem_append.2 ⟨hsurvivors, hlogged⟩⟩
  rw [perform, Run.begin, hopened]
  exact congrArg (fun after => Except.ok (after, _)) (hended.place_closeAfter life.run.closing _)

/-- Any lives leave a file of whole records. -/
theorem exists_performAll [Machine] {lives : List Life} (hlives : ∀ life ∈ lives, life.LogFits)
    {records : List Record} (h : ∀ record ∈ records, record.line.Fits) :
    ∃ log, performAll records lives = .ok (.file (Record.encodeAll journalChecksum log), log) ∧
      ∀ record ∈ log, record.line.Fits := by
  induction lives generalizing records with
  | nil => exact ⟨records, rfl, h⟩
  | cons life rest ih =>
    obtain ⟨hlife, hrest⟩ := List.forall_mem_cons.1 hlives
    obtain ⟨log, hperform, hlog⟩ := exists_perform hlife h
    obtain ⟨last, hlast, hfits⟩ := ih hrest hlog
    refine ⟨last, ?_, hfits⟩
    rw [performAll, List.foldlM_cons, hperform]
    exact hlast

/-- However many crashes there were, every node could be opened, and the file that is left is the
bytes of the records that survived them, directly followed by those that were logged since. After
one more crash a node can be opened again. It finds the first of these records, as many as are left
whole. Every database holds what they lead to when they are executed in order, and the file holds
them and nothing else. -/
theorem openAt_performAll_cut [Machine] (records : List Record)
    (hrecords : ∀ record ∈ records, record.line.Fits) (lives : List Life)
    (hlives : ∀ life ∈ lives, life.LogFits) (kept databases : Nat) (policy : SyncPolicy) :
    ∃ log survivors opened,
      performAll records lives = .ok (.file (Record.encodeAll journalChecksum log), log) ∧
      (∀ front, front <+: survivors ↔
        front <+: log ∧ (Record.encodeAll journalChecksum front).length ≤ kept) ∧
      let torn := Place.cut kept (.file (Record.encodeAll journalChecksum log))
      JournaledNode.openAt databases ⟨true, policy⟩ torn = .ok opened ∧
      opened.place torn = .file (Record.encodeAll journalChecksum survivors) ∧
      opened.node.count = (if databases = 0 then Node.usualDatabases else databases) ∧
      ∀ index < opened.node.count, opened.node.keyspaceAt index =
        (Database.executeAll index (linesFor index (survivors.map Record.entry))).keyspace := by
  obtain ⟨log, hperform, hlog⟩ := exists_performAll hlives hrecords
  obtain ⟨opened, hopened, -, hcount, hrecorder, hkeys⟩ := JournaledNode.exists_openAt
    (JournaledNode.recover_cut hlog kept) rfl databases policy
  refine ⟨log, _, opened, hperform, fun front => Record.prefix_wholeWithin_iff _, hopened, ?_,
    hcount, hkeys⟩
  rw [JournaledNode.place, hrecorder]
  rfl

/-- A file of two records for different databases. -/
def twoRecords : List Record :=
  let line := List.map Text.toBytes
  [⟨1, line ["set", "a", "1"]⟩, ⟨0, line ["set", "x", "lost"]⟩]

/-- Two lives on that file. The first crash leaves seven bytes of the second record, the next one
all of what the first life wrote but a byte of the checksum. -/
def tornLives : List Life :=
  let line := List.map Text.toBytes
  [⟨40, ⟨2, .always, [.command 0 (line ["SET", "b", "2"]), .record .prompt], []⟩⟩,
    ⟨65, ⟨2, .no, [.command 1 (line ["GET", "a"]), .command 1 (line ["SETNX", "c", "3"])],
      [.prompt]⟩⟩]

/-- What stood in front of the tears is there, and so is what was written after the last one. -/
theorem openAt_performAll_cut_tornLives :
    (∀ record ∈ twoRecords, record.line.Fits) ∧ (∀ life ∈ tornLives, life.LogFits) ∧
    ∃ place log opened,
      performAll twoRecords tornLives = .ok (place, log) ∧
      JournaledNode.openAt 2 ⟨true, .everySecond⟩ (.cut 1000 place) = .ok opened ∧
      (opened.node.keyspaceAt 1).get? (Text.toBytes "a") = some ⟨Text.toBytes "1"⟩ ∧
      (opened.node.keyspaceAt 0).get? (Text.toBytes "x") = none ∧
      (opened.node.keyspaceAt 0).get? (Text.toBytes "b") = none ∧
      (opened.node.keyspaceAt 0).get? (Text.toBytes "c") = some ⟨Text.toBytes "3"⟩ := by
  have hrecords : ∀ record ∈ twoRecords, record.line.Fits := by decide +kernel
  have hlives : ∀ life ∈ tornLives, life.LogFits := by
    have hloggable : ∀ life ∈ tornLives, ∀ event ∈ life.run.events, event.Fits := by decide +kernel
    intro life hlife event hevent
    have := hloggable life hlife event hevent
    cases event with
    | command client line => exact CommandLine.Loggable.logFits this
    | record glance => trivial
  have hlog : (performAll twoRecords tornLives).toOption.map Prod.snd =
      some [⟨1, ["set", "a", "1"].map Text.toBytes⟩,
        ⟨0, ["setnx", "c", "3"].map Text.toBytes⟩] := by
    decide +kernel
  obtain ⟨log, survivors, opened, hperform, hsurvivors, hopened, -, hcount, hkeys⟩ :=
    openAt_performAll_cut twoRecords hrecords tornLives hlives 1000 2 .everySecond
  rw [if_neg (by decide)] at hcount
  rw [hperform] at hlog
  obtain rfl := Option.some.inj hlog
  have hwhole := (hsurvivors _).2 ⟨List.prefix_rfl, by decide +kernel⟩
  have hall := ((hsurvivors _).1 List.prefix_rfl).1.eq_of_length_le hwhole.length_le
  refine ⟨hrecords, hlives, _, _, opened, hperform, hopened, ?_⟩
  rw [hkeys 1 (by omega), hkeys 0 (by omega), hall]
  decide +kernel

end Life

end RingStore
