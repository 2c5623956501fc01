import BoltStream.Lib.BigEndian

/-!
# Wire primitives and record sets

The byte-level helpers shared by the protocol and the storage code: the
fixed-width writers, the indexed big-endian readers, the checksum, the
`PayloadReader`, and the record-set codec that sits inside every batch.
Fixed-width values are naturals; each writer keeps them modulo its width, as
the `static_cast` in the source does.
-/

namespace BoltStream.Protocol

open BoltStream.Lib

def writeU16 (value : ℕ) : Bytes := beBytes 2 value

def writeU32 (value : ℕ) : Bytes := beBytes 4 value

def writeU64 (value : ℕ) : Bytes := beBytes 8 value

/-- `width` bytes of `bytes` starting at `offset`, read as a big-endian number. -/
def readBe (width : ℕ) (bytes : Bytes) (offset : ℕ) : ℕ :=
  beNat ((bytes.drop offset).take width)

def readU16Be (bytes : Bytes) (offset : ℕ) : ℕ := readBe 2 bytes offset

def readU32Be (bytes : Bytes) (offset : ℕ) : ℕ := readBe 4 bytes offset

def readU64Be (bytes : Bytes) (offset : ℕ) : ℕ := readBe 8 bytes offset

@[simp] theorem length_writeU16 (value : ℕ) : (writeU16 value).length = 2 := length_beBytes 2 value

@[simp] theorem length_writeU32 (value : ℕ) : (writeU32 value).length = 4 := length_beBytes 4 value

@[simp] theorem length_writeU64 (value : ℕ) : (writeU64 value).length = 8 := length_beBytes 8 value

/-- A field at the front of the bytes is read back. -/
theorem readBe_front (width value : ℕ) (rest : Bytes) :
    readBe width (beBytes width value ++ rest) 0 = value % 256 ^ width := by
  rw [readBe, List.drop_zero, List.take_append_of_le_length (by simp),
    List.take_of_length_le (by simp), beNat_beBytes]

/-- A read behind the front bytes does not see them. -/
theorem readBe_skip (width : ℕ) {front : Bytes} (rest : Bytes) {offset : ℕ}
    (h : front.length ≤ offset) :
    readBe width (front ++ rest) offset = readBe width rest (offset - front.length) := by
  rw [readBe, List.drop_append, List.drop_of_length_le h, List.nil_append, readBe]

theorem readBe_lt (width : ℕ) (bytes : Bytes) (offset : ℕ) :
    readBe width bytes offset < 256 ^ width := by
  refine (beNat_lt _).trans_le (Nat.pow_le_pow_right (by norm_num) ?_)
  exact List.length_take_le _ _

/-- A field that was read is written as it was. -/
theorem beBytes_readBe {width offset : ℕ} {bytes : Bytes} (h : offset + width ≤ bytes.length) :
    beBytes width (readBe width bytes offset) = (bytes.drop offset).take width := by
  have hlength : ((bytes.drop offset).take width).length = width := by
    rw [List.length_take, List.length_drop]
    omega
  have hwritten := beBytes_beNat ((bytes.drop offset).take width)
  rwa [hlength] at hwritten

/-- A field that lies within the bytes, and what is behind it. -/
theorem drop_eq_field (width : ℕ) {bytes : Bytes} {offset : ℕ}
    (h : offset + width ≤ bytes.length) :
    bytes.drop offset = beBytes width (readBe width bytes offset) ++
      bytes.drop (offset + width) := by
  rw [beBytes_readBe h, ← List.drop_drop, List.take_append_drop]

/-! ## The checksum -/

/-- One bit of the `crc32` loop. -/
def crcBit (crc : BitVec 32) : BitVec 32 :=
  (crc >>> 1) ^^^ (0xEDB88320#32 &&& (0#32 - (crc &&& 1#32)))

/-- The eight-bit inner loop of `crc32` on one byte. -/
def crcByte (crc : BitVec 32) (byte : UInt8) : BitVec 32 :=
  crcBit^[8] (crc ^^^ BitVec.ofNat 32 byte.toNat)

def crc32 (bytes : Bytes) : ℕ :=
  (~~~ (bytes.foldl crcByte 0xFFFFFFFF#32)).toNat

theorem crc32_lt (bytes : Bytes) : crc32 bytes < 2 ^ 32 :=
  BitVec.isLt _

example : crc32 [0x31, 0x32, 0x33, 0x34, 0x35, 0x36, 0x37, 0x38, 0x39] = 0xCBF43926 := by
  decide +kernel

/-! ## The payload reader

A reader is the list of bytes not read yet; a failed read is `none`. -/

namespace PayloadReader

/-- A big-endian field of `width` bytes. -/
def readField (width : ℕ) (bytes : Bytes) : Option (ℕ × Bytes) :=
  if bytes.length < width then none else some (beNat (bytes.take width), bytes.drop width)

def readU32 (bytes : Bytes) : Option (ℕ × Bytes) := readField 4 bytes

def readBytes (bytes : Bytes) : Option (Bytes × Bytes) :=
  (readU32 bytes).bind fun size ↦
    if size.2.length < size.1 then none else some (size.2.take size.1, size.2.drop size.1)

theorem readU32_writeU32 (value : ℕ) (rest : Bytes) :
    readU32 (writeU32 value ++ rest) = some (value % 2 ^ 32, rest) := by
  have hlen : ¬ (writeU32 value ++ rest).length < 4 := by simp
  have htake : (writeU32 value ++ rest).take 4 = writeU32 value := by
    rw [List.take_append_of_le_length (by simp), List.take_of_length_le (by simp)]
  have hdrop : (writeU32 value ++ rest).drop 4 = rest :=
    List.drop_left' (length_writeU32 value)
  rw [readU32, readField, if_neg hlen, htake, hdrop, writeU32, beNat_beBytes,
    show 256 ^ 4 = 2 ^ 32 by norm_num]

end PayloadReader

def writeBytes (value : Bytes) : Bytes := writeU32 value.length ++ value

@[simp] theorem length_writeBytes (value : Bytes) :
    (writeBytes value).length = 4 + value.length := by
  simp [writeBytes]

theorem PayloadReader.readBytes_writeBytes {value : Bytes} (h : value.length < 2 ^ 32)
    (rest : Bytes) : PayloadReader.readBytes (writeBytes value ++ rest) = some (value, rest) := by
  have hlen : ¬ (value ++ rest).length < value.length := by simp
  rw [PayloadReader.readBytes, writeBytes, List.append_assoc, PayloadReader.readU32_writeU32,
    Nat.mod_eq_of_lt h, Option.bind_some, if_neg hlen, List.take_left, List.drop_left]

/-! ## Record sets -/

structure BatchRecord where
  key : Bytes
  message : Bytes
  deriving DecidableEq, Repr

def BatchRecord.encode (record : BatchRecord) : Bytes :=
  writeBytes record.key ++ writeBytes record.message

def encodeRecordSet (records : List BatchRecord) : Bytes :=
  writeU32 records.length ++ records.flatMap BatchRecord.encode

/-- One turn of the loop of `decode_record_set`: a record whose message is not
empty. -/
def decodeBatchRecord (bytes : Bytes) : Option (BatchRecord × Bytes) :=
  (PayloadReader.readBytes bytes).bind fun key ↦
    (PayloadReader.readBytes key.2).bind fun message ↦
      if message.1 = [] then none else some (⟨key.1, message.1⟩, message.2)

/-- The record loop of `decode_record_set`: `count` records from the reader. -/
def decodeRecords : ℕ → Bytes → Option (List BatchRecord × Bytes)
  | 0, bytes => some ([], bytes)
  | count + 1, bytes =>
      (decodeBatchRecord bytes).bind fun record ↦
        (decodeRecords count record.2).map fun records ↦ (record.1 :: records.1, records.2)

/-- A missing value is the error `message`. -/
def orError {α : Type} (value : Option α) (message : String) : Except String α :=
  value.elim (.error message) .ok

section ExceptSteps

variable {ε α β : Type}

@[simp] theorem ok_bind (a : α) (f : α → Except ε β) : (Except.ok a).bind f = f a := rfl

@[simp] theorem error_bind (e : ε) (f : α → Except ε β) :
    (Except.error e : Except ε α).bind f = .error e := rfl

@[simp] theorem ok_map (a : α) (f : α → β) : (Except.ok a : Except ε α).map f = .ok (f a) := rfl

@[simp] theorem error_map (e : ε) (f : α → β) :
    (Except.error e : Except ε α).map f = .error e := rfl

/-- Both steps of a computation that returns have returned. -/
theorem bind_eq_ok {x : Except ε α} {f : α → Except ε β} {b : β} (h : x.bind f = .ok b) :
    ∃ a, x = .ok a ∧ f a = .ok b := by
  cases x with
  | error e => cases h
  | ok a => exact ⟨a, rfl, h⟩

theorem map_eq_ok {x : Except ε α} {f : α → β} {b : β} (h : x.map f = .ok b) :
    ∃ a, x = .ok a ∧ f a = b := by
  cases x with
  | error e => cases h
  | ok a => exact ⟨a, rfl, Except.ok.inj h⟩

@[simp] theorem orError_some (a : α) (message : String) : orError (some a) message = .ok a := rfl

@[simp] theorem orError_none (message : String) :
    orError (none : Option α) message = .error message := rfl

end ExceptSteps

def decodeRecordSet (payload : Bytes) (expectedCount : ℕ) : Except String (List BatchRecord) :=
  (orError (PayloadReader.readU32 payload) "record-set count mismatch").bind fun count ↦
    if count.1 ≠ expectedCount then .error "record-set count mismatch"
    else (orError (decodeRecords count.1 count.2) "malformed record set").bind fun records ↦
      if records.2 = [] then .ok records.1 else .error "trailing record-set bytes"

theorem length_encodeRecordSet (records : List BatchRecord) :
    (encodeRecordSet records).length =
      4 + (records.map fun r ↦ 8 + r.key.length + r.message.length).sum := by
  have hencode : ∀ r : BatchRecord, r.encode.length = 8 + r.key.length + r.message.length := by
    intro r
    simp only [BatchRecord.encode, List.length_append, length_writeBytes]
    omega
  simp [encodeRecordSet, List.length_flatMap, hencode]

/-- A record inside a record set is shorter than the whole set. -/
theorem record_length_lt {records : List BatchRecord} {r : BatchRecord} (hr : r ∈ records) :
    r.key.length < (encodeRecordSet records).length ∧
      r.message.length < (encodeRecordSet records).length := by
  have hle : 8 + r.key.length + r.message.length ≤
      (records.map fun r ↦ 8 + r.key.length + r.message.length).sum :=
    List.single_le_sum (by simp) _ (List.mem_map.mpr ⟨r, hr, rfl⟩)
  rw [length_encodeRecordSet]
  omega

theorem length_lt_encodeRecordSet (records : List BatchRecord) :
    records.length < (encodeRecordSet records).length := by
  have hle : (records.map fun _ ↦ 1).sum ≤
      (records.map fun r : BatchRecord ↦ 8 + r.key.length + r.message.length).sum :=
    List.sum_le_sum (fun r _ ↦ by omega)
  have hcount : (records.map fun _ ↦ 1).sum = records.length := by simp
  rw [length_encodeRecordSet]
  omega

theorem decodeBatchRecord_encode {r : BatchRecord} (hkey : r.key.length < 2 ^ 32)
    (hmessage : r.message.length < 2 ^ 32) (rest : Bytes) :
    decodeBatchRecord (r.encode ++ rest) = if r.message = [] then none else some (r, rest) := by
  rw [decodeBatchRecord, BatchRecord.encode, List.append_assoc,
    PayloadReader.readBytes_writeBytes hkey, Option.bind_some,
    PayloadReader.readBytes_writeBytes hmessage, Option.bind_some]

/-- The record loop on a concatenation of encoded records: it stops at the
first record with an empty message and otherwise returns them all. -/
theorem decodeRecords_flatMap (records : List BatchRecord) (rest : Bytes)
    (hfit : ∀ r ∈ records, r.key.length < 2 ^ 32 ∧ r.message.length < 2 ^ 32) :
    decodeRecords records.length (records.flatMap BatchRecord.encode ++ rest) =
      if ∀ r ∈ records, r.message ≠ [] then some (records, rest) else none := by
  induction records with
  | nil => simp [decodeRecords]
  | cons r records ih =>
      obtain ⟨hkey, hmessage⟩ := hfit r (by simp)
      have hrest := ih fun s hs ↦ hfit s (List.mem_cons_of_mem r hs)
      rw [List.length_cons, decodeRecords, List.flatMap_cons, List.append_assoc,
        decodeBatchRecord_encode hkey hmessage]
      by_cases hempty : r.message = []
      · simp [hempty]
      · rw [if_neg hempty, Option.bind_some, hrest]
        by_cases htail : ∀ s ∈ records, s.message ≠ []
        · rw [if_pos htail, if_pos]
          · rfl
          · simpa [hempty] using htail
        · rw [if_neg htail, if_neg]
          · rfl
          · simpa [hempty] using htail

/-- Decoding an encoded record set, in the range where the lengths fit their
fields: it succeeds exactly when no message is empty. -/
theorem decodeRecordSet_encodeRecordSet {records : List BatchRecord}
    (hfit : (encodeRecordSet records).length < 2 ^ 32) :
    decodeRecordSet (encodeRecordSet records) records.length =
      if ∀ r ∈ records, r.message ≠ [] then .ok records else .error "malformed record set" := by
  have hcount : records.length % 2 ^ 32 = records.length :=
    Nat.mod_eq_of_lt ((length_lt_encodeRecordSet records).trans hfit)
  have hrecords := decodeRecords_flatMap records [] fun r hr ↦
    ⟨(record_length_lt hr).1.trans hfit, (record_length_lt hr).2.trans hfit⟩
  rw [List.append_nil] at hrecords
  rw [decodeRecordSet, encodeRecordSet, PayloadReader.readU32_writeU32, hcount, orError_some,
    ok_bind, if_neg (by simp), hrecords]
  by_cases hall : ∀ r ∈ records, r.message ≠ []
  · rw [if_pos hall, if_pos hall, orError_some, ok_bind, if_pos rfl]
  · rw [if_neg hall, if_neg hall, orError_none, error_bind]

end BoltStream.Protocol
