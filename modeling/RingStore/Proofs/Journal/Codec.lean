import RingStore.Journal.Scan

/-!
# Records are read back

A record whose words are few and short enough for the four bytes of a length is read back from its
bytes, whatever follows them. Nothing else is ever read: bytes of which a record is read start with
the bytes of that record. Hence no record is read of a part of a record's bytes, and a file of whole
records with such a part behind them is read back record by record up to that part. The checksum may
be any function.

## Main definitions

* `CommandLine.Fits`: the number of words and their lengths fit in four bytes.
* `Record.decodeSized`: the record at the start of bytes, with the number of bytes that it takes.

## Main results

* `Record.decode_encode`: a record is read back from its bytes.
* `Record.eq_of_decode`: only the bytes of a record are read as that record.
* `Record.codec_exact`: both with the number of bytes, and no record in a part of these.
* `Journal.scan_append`: a file of whole records and a torn one is read back.
-/

namespace RingStore

/-- The number of words of a command line and their lengths fit in four bytes. -/
structure CommandLine.Fits (line : CommandLine) : Prop where
  /-- The words can be counted. -/
  count : line.length < Bytes.capacity 4
  /-- Their lengths can be written. -/
  words : ∀ word ∈ line, word.length < Bytes.capacity 4

instance (line : CommandLine) : Decidable line.Fits :=
  decidable_of_iff (line.length < Bytes.capacity 4 ∧ ∀ word ∈ line, word.length < Bytes.capacity 4)
    ⟨fun h => ⟨h.1, h.2⟩, fun h => ⟨h.count, h.words⟩⟩

namespace Record

/-- The record at the start of bytes, and how many bytes it takes. -/
def decodeSized (checksum : Bytes → UInt64) (bytes : Bytes) : Except Unreadable (Record × Nat) :=
  (decode checksum bytes).map fun (record, rest) => (record, bytes.length - rest.length)

variable (checksum : Bytes → UInt64)

theorem takeNumber?_littleEndian {number : Nat} (h : number < Bytes.capacity 4) (rest : Bytes) :
    takeNumber? (Bytes.littleEndian 4 number ++ rest) = some (number, rest) := by
  have hread := Bytes.ofLittleEndian_littleEndian 4 number
  rw [Nat.mod_eq_of_lt h] at hread
  show some (Bytes.ofLittleEndian (Bytes.littleEndian 4 number), rest) = _
  rw [hread]

/-- Words are read back, after those already read. -/
theorem takeWords_flatMap_encodeWord {line : List Bytes}
    (h : ∀ word ∈ line, word.length < Bytes.capacity 4) (read : List Bytes) (rest : Bytes) :
    takeWords line.length read (line.flatMap encodeWord ++ rest) =
      .ok (read.reverse ++ line, rest) := by
  induction line generalizing read with
  | nil => simp [takeWords]
  | cons word more ih =>
    obtain ⟨hword, hmore⟩ := List.forall_mem_cons.1 h
    have hnumber : takeNumber? ((word :: more).flatMap encodeWord ++ rest) =
        some (word.length, word ++ (more.flatMap encodeWord ++ rest)) := by
      rw [List.flatMap_cons, encodeWord, List.append_assoc, List.append_assoc,
        takeNumber?_littleEndian hword]
    rw [List.length_cons, takeWords, hnumber]
    simp only [List.take_left, List.drop_left, Nat.lt_irrefl, if_false]
    rw [ih hmore]
    simp

/-- A record is read back from its bytes, whatever follows them. -/
theorem decode_encode {record : Record} (h : record.line.Fits) (rest : Bytes) :
    decode checksum (record.encode checksum ++ rest) = .ok (record, rest) := by
  have hsize : minLength ≤ (record.encode checksum ++ rest).length := by
    simp only [encode, payload, List.length_append, Bytes.length_littleEndian, minLength]
    omega
  have hdatabase : record.database.toNat < Bytes.capacity 4 := record.database.toNat_lt
  have hsplit : record.encode checksum ++ rest =
      Bytes.littleEndian 4 record.database.toNat ++
        (Bytes.littleEndian 4 record.line.length ++ (record.line.flatMap encodeWord ++
          (Bytes.littleEndian 8 (checksum record.payload).toNat ++ rest))) := by
    simp only [encode, payload, List.append_assoc]
  have hpayload : (record.encode checksum ++ rest).take record.payload.length =
      record.payload := by
    rw [encode, List.append_assoc, List.take_left]
  have hlast : (Bytes.littleEndian 8 (checksum record.payload).toNat ++ rest).take 8 =
      Bytes.littleEndian 8 (checksum record.payload).toNat :=
    List.take_left' (Bytes.length_littleEndian 8 _)
  have hrest : (Bytes.littleEndian 8 (checksum record.payload).toNat ++ rest).drop 8 = rest :=
    List.drop_left' (Bytes.length_littleEndian 8 _)
  have hstored : (Bytes.ofLittleEndian
      (Bytes.littleEndian 8 (checksum record.payload).toNat)).toUInt64 =
        checksum record.payload := by
    have hlt : (checksum record.payload).toNat < Bytes.capacity 8 :=
      (checksum record.payload).toNat_lt
    rw [Bytes.ofLittleEndian_littleEndian, Nat.mod_eq_of_lt hlt]
    exact UInt64.ofNat_toNat
  have hrecord : (⟨record.database.toNat.toUInt32, record.line⟩ : Record) = record := by
    rw [show record.database.toNat.toUInt32 = record.database from UInt32.ofNat_toNat]
  have hwords := takeWords_flatMap_encodeWord h.words []
    (Bytes.littleEndian 8 (checksum record.payload).toNat ++ rest)
  -- the fields are read off one after the other, but the checksum is that of the bytes themselves
  rw [decode, if_neg (by rw [List.length_take]; omega)]
  generalize hbytes : record.encode checksum ++ rest = bytes at *
  rw [hsplit, takeNumber?_littleEndian hdatabase]
  simp only [takeNumber?_littleEndian h.count, hwords, List.reverse_nil, List.nil_append, hlast,
    Bytes.length_littleEndian, hrecord, hstored, hrest, Nat.lt_irrefl, if_false]
  rw [← hsplit, hpayload, if_pos rfl]

variable {checksum}

/-- A number that is read is in range, and its four bytes stand in front. -/
theorem eq_of_takeNumber? {bytes rest : Bytes} {number : Nat}
    (h : takeNumber? bytes = some (number, rest)) :
    number < Bytes.capacity 4 ∧ bytes = Bytes.littleEndian 4 number ++ rest := by
  unfold takeNumber? at h
  split at h
  · next b0 b1 b2 b3 after =>
    cases h
    have hback := Bytes.littleEndian_ofLittleEndian [b0, b1, b2, b3]
    rw [List.length_cons, List.length_cons, List.length_cons, List.length_singleton] at hback
    exact ⟨Bytes.ofLittleEndian_lt [b0, b1, b2, b3], by rw [hback]; rfl⟩
  · cases h

/-- Words that are read stand in front, each after its length. -/
theorem eq_of_takeWords {count : Nat} {read line : List Bytes} {bytes rest : Bytes}
    (h : takeWords count read bytes = .ok (line, rest)) :
    ∃ more, line = read.reverse ++ more ∧ more.length = count ∧
      (∀ word ∈ more, word.length < Bytes.capacity 4) ∧
      bytes = more.flatMap encodeWord ++ rest := by
  induction count generalizing read bytes with
  | zero =>
    cases h
    exact ⟨[], (List.append_nil _).symm, rfl, by simp, rfl⟩
  | succ count ih =>
    unfold takeWords at h
    split at h
    · cases h
    · next length after hnumber =>
      obtain ⟨hlength, hbytes⟩ := eq_of_takeNumber? hnumber
      dsimp only at h
      split at h
      · cases h
      · next hwhole =>
        -- enough bytes are left for the word to be as long as is said in front of it
        have hword : (after.take length).length = length := by
          rw [List.length_take] at hwhole ⊢
          omega
        obtain ⟨more, hline, hcount, hmore, hafter⟩ := ih h
        refine ⟨after.take length :: more, by simp [hline], by simp [hcount],
          List.forall_mem_cons.2 ⟨by omega, hmore⟩, ?_⟩
        rw [hbytes, List.flatMap_cons, encodeWord, hword, List.append_assoc, List.append_assoc,
          ← hafter, List.take_append_drop]

/-- Bytes of which a record is read start with the bytes of that record. -/
theorem eq_of_decode {bytes rest : Bytes} {record : Record}
    (h : decode checksum bytes = .ok (record, rest)) :
    record.line.Fits ∧ bytes = record.encode checksum ++ rest := by
  unfold decode at h
  split at h
  · cases h
  split at h
  · cases h
  next database afterDatabase hdatabase =>
  split at h
  · cases h
  next count afterCount hcount =>
  split at h
  · cases h
  next line afterWords hwords =>
  dsimp only at h
  split at h
  · cases h
  next hlast =>
  split at h
  · next hchecksum =>
    cases h
    -- nothing was refused, so each field stood in front of what was left after it
    obtain ⟨hdatabaseLt, hbytes⟩ := eq_of_takeNumber? hdatabase
    obtain ⟨hcountLt, hafterDatabase⟩ := eq_of_takeNumber? hcount
    obtain ⟨line, rfl, rfl, hwordsLt, hafterCount⟩ := eq_of_takeWords hwords
    generalize hrecord : (⟨database.toUInt32, line⟩ : Record) = record at hchecksum ⊢
    have hpayload : bytes = record.payload ++ afterWords := by
      have hnumber : database.toUInt32.toNat = database := UInt32.toNat_ofNat_of_lt' hdatabaseLt
      rw [← hrecord, payload, hnumber, hbytes, hafterDatabase, hafterCount, List.append_assoc,
        List.append_assoc]
    have hstored : Bytes.littleEndian 8 (checksum record.payload).toNat = afterWords.take 8 := by
      have hlength : (afterWords.take 8).length = 8 := by
        rw [List.length_take] at hlast ⊢
        omega
      have hlt := Bytes.ofLittleEndian_lt (afterWords.take 8)
      have hback := Bytes.littleEndian_ofLittleEndian (afterWords.take 8)
      rw [hlength] at hlt hback
      rw [hpayload, List.take_left] at hchecksum
      rw [← hchecksum, show (Bytes.ofLittleEndian (afterWords.take 8)).toUInt64.toNat =
        Bytes.ofLittleEndian (afterWords.take 8) from UInt64.toNat_ofNat_of_lt' hlt, hback]
    refine ⟨hrecord ▸ ⟨hcountLt, hwordsLt⟩, ?_⟩
    rw [encode, hstored, List.append_assoc, List.take_append_drop, hpayload]
  · cases h

/-- No record can be read of a part of a record's bytes that is not all of them. -/
theorem decode_eq_error_of_part {record : Record} (h : record.line.Fits) {part : Bytes}
    (hpart : part <+: record.encode checksum) (hne : part ≠ record.encode checksum) :
    ∃ reason, decode checksum part = .error reason := by
  cases hread : decode checksum part with
  | error reason => exact ⟨reason, rfl⟩
  | ok found =>
    -- what is read of the part would also be read of the whole, which leaves nothing
    obtain ⟨other, rest⟩ := found
    obtain ⟨hother, rfl⟩ := eq_of_decode hread
    obtain ⟨more, hmore⟩ := hpart
    have hwhole := decode_encode checksum h []
    rw [List.append_nil, ← hmore, List.append_assoc, decode_encode checksum hother] at hwhole
    obtain ⟨rfl, hrest⟩ := Prod.mk.inj (Except.ok.inj hwhole)
    obtain ⟨rfl, rfl⟩ := List.append_eq_nil_iff.1 hrest
    exact absurd (List.append_nil _) hne

/-- A record is found at the start of bytes, and takes so many of them, exactly if these are its own
bytes. -/
theorem decodeSized_eq_ok_iff {bytes : Bytes} {record : Record} {size : Nat} :
    decodeSized checksum bytes = .ok (record, size) ↔
      record.line.Fits ∧ size ≤ bytes.length ∧ record.encode checksum = bytes.take size := by
  constructor
  · intro h
    cases hdecode : decode checksum bytes with
    | error reason =>
      rw [decodeSized, hdecode] at h
      cases h
    | ok found =>
      obtain ⟨other, rest⟩ := found
      rw [decodeSized, hdecode] at h
      cases h
      obtain ⟨hfits, hbytes⟩ := eq_of_decode hdecode
      have hsize : bytes.length - rest.length = (record.encode checksum).length := by
        rw [hbytes, List.length_append, Nat.add_sub_cancel_right]
      refine ⟨hfits, Nat.sub_le _ _, ?_⟩
      rw [hsize, hbytes, List.take_left]
  · rintro ⟨hfits, hsize, hencode⟩
    have hdecode : decode checksum bytes = .ok (record, bytes.drop size) := by
      have hread := decode_encode checksum hfits (bytes.drop size)
      rwa [hencode, List.take_append_drop] at hread
    rw [decodeSized, hdecode]
    simp only [Except.map, List.length_drop, Nat.sub_sub_self hsize]

/-- Whatever function the checksum is: a record is found at the start of its bytes, whatever follows
them, and takes exactly these. Where a record is found, it could be written, and its bytes are those
that it takes. None is found in a part of a record's bytes, wherever they are cut off. Hence the
bytes of one record never start with those of another one. -/
theorem codec_exact (checksum : Bytes → UInt64) :
    (∀ record : Record, record.line.Fits →
      (∀ rest, decodeSized checksum (record.encode checksum ++ rest) =
        .ok (record, (record.encode checksum).length)) ∧
      (∀ part, part <+: record.encode checksum → part ≠ record.encode checksum →
        ∃ reason, decodeSized checksum part = .error reason) ∧
      ∀ other : Record, other.line.Fits → other.encode checksum <+: record.encode checksum →
        other = record) ∧
    ∀ (bytes : Bytes) (record : Record) (size : Nat),
      decodeSized checksum bytes = .ok (record, size) →
        record.line.Fits ∧ size ≤ bytes.length ∧ record.encode checksum = bytes.take size := by
  have hparts : ∀ record : Record, record.line.Fits → ∀ part, part <+: record.encode checksum →
      part ≠ record.encode checksum → ∃ reason, decodeSized checksum part = .error reason := by
    intro record hfits part hpart hne
    obtain ⟨reason, hdecode⟩ := decode_eq_error_of_part hfits hpart hne
    exact ⟨reason, by rw [decodeSized, hdecode]; rfl⟩
  have hwhole : ∀ record : Record, record.line.Fits → ∀ rest,
      decodeSized checksum (record.encode checksum ++ rest) =
        .ok (record, (record.encode checksum).length) := by
    intro record hfits rest
    refine decodeSized_eq_ok_iff.2 ⟨hfits, ?_, (List.take_left ..).symm⟩
    rw [List.length_append]
    exact Nat.le_add_right _ _
  refine ⟨fun record hfits => ⟨hwhole record hfits, hparts record hfits, ?_⟩,
    fun bytes record size => decodeSized_eq_ok_iff.1⟩
  intro other hother hprefix
  obtain ⟨more, hmore⟩ := hprefix
  -- what is found at the start of the longer bytes is found only once
  have hfound := hwhole other hother more
  rw [hmore, ← List.append_nil (record.encode checksum), hwhole record hfits] at hfound
  exact (Prod.mk.inj (Except.ok.inj hfound)).1.symm

/-- A record whose checksum tells nothing, since it is the same for all bytes: what follows it makes
no difference, and without its last byte it is not found. -/
theorem codec_exact_of_constant :
    let checksum : Bytes → UInt64 := fun _ => 0
    let record : Record := ⟨7, [[115, 101, 116], [107], []]⟩
    let part := (record.encode checksum).dropLast
    let bytes := record.encode checksum ++ [7, 0, 0]
    (record.line.Fits ∧ part <+: record.encode checksum ∧ part ≠ record.encode checksum) ∧
      decodeSized checksum bytes = .ok (record, 32) ∧
      record.encode checksum = bytes.take 32 ∧
      ∃ reason, decodeSized checksum part = .error reason := by
  intro checksum record part bytes
  have hfits : record.line.Fits := by decide
  have hpart : part <+: record.encode checksum := List.dropLast_prefix _
  have hne : part ≠ record.encode checksum := by decide
  obtain ⟨hwhole, hparts, -⟩ := (codec_exact checksum).1 record hfits
  have hfound : decodeSized checksum bytes = .ok (record, 32) := hwhole [7, 0, 0]
  obtain ⟨-, -, htake⟩ := (codec_exact checksum).2 bytes record 32 hfound
  exact ⟨⟨hfits, hpart, hne⟩, hfound, htake, hparts part hpart hne⟩

variable (checksum)

/-- No record starts where nothing is left. -/
theorem decode_nil : decode checksum [] = .error .tooShort :=
  rfl

theorem encodeAll_append (front back : List Record) :
    encodeAll checksum (front ++ back) = encodeAll checksum front ++ encodeAll checksum back :=
  List.flatMap_append

end Record

namespace Journal

variable (checksum : Bytes → UInt64)

/-- Where no record can be read the tail begins. -/
theorem scanOnto_of_error {read : List Record} {bytes : Bytes} {reason : Unreadable}
    (h : Record.decode checksum bytes = .error reason) :
    scanOnto checksum read bytes = ⟨read.reverse, bytes⟩ := by
  rw [scanOnto]
  split
  · rfl
  · next hok =>
    rw [h] at hok
    cases hok

/-- A record that can be read is followed by what is read after it. -/
theorem scanOnto_of_ok {read : List Record} {bytes rest : Bytes} {record : Record}
    (h : Record.decode checksum bytes = .ok (record, rest)) :
    scanOnto checksum read bytes = scanOnto checksum (record :: read) rest := by
  rw [scanOnto]
  split
  · next herror =>
    rw [h] at herror
    cases herror
  · next hok =>
    rw [h] at hok
    cases hok
    rfl

theorem scanOnto_append (read : List Record) {records : List Record}
    (h : ∀ record ∈ records, record.line.Fits) {tail : Bytes} {reason : Unreadable}
    (htail : Record.decode checksum tail = .error reason) :
    scanOnto checksum read (Record.encodeAll checksum records ++ tail) =
      ⟨read.reverse ++ records, tail⟩ := by
  induction records generalizing read with
  | nil =>
    rw [List.append_nil]
    exact scanOnto_of_error checksum htail
  | cons record rest ih =>
    obtain ⟨hrecord, hrest⟩ := List.forall_mem_cons.1 h
    have hdecode := Record.decode_encode checksum hrecord (Record.encodeAll checksum rest ++ tail)
    rw [Record.encodeAll, List.flatMap_cons, List.append_assoc]
    rw [Record.encodeAll] at hdecode ih
    rw [scanOnto_of_ok checksum hdecode, ih _ hrest, List.reverse_cons, List.append_assoc,
      List.singleton_append]

/-- Whole records are read back record by record, and what follows them is left over if no record
can be read of it. -/
theorem scan_append {records : List Record} (h : ∀ record ∈ records, record.line.Fits)
    {tail : Bytes} {reason : Unreadable} (htail : Record.decode checksum tail = .error reason) :
    scan checksum (Record.encodeAll checksum records ++ tail) = ⟨records, tail⟩ :=
  scanOnto_append checksum [] h htail

end Journal

end RingStore
