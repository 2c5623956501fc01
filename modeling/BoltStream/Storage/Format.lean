import BoltStream.Protocol.Wire
import BoltStream.Compression

/-!
# Storage entry formats

A segment is a sequence of entries, each framed by its byte count and closed by
a checksum of its body.  Version-1 bodies hold one record, version-2 bodies one
encoded batch.  The decoders see the bytes after the count field.
-/

namespace BoltStream.Storage

open BoltStream.Lib BoltStream.Protocol BoltStream.Compression

def kRecordVersion : ℕ := 1
def kRecordFlags : ℕ := 0
def kBatchVersion : ℕ := 2
def kFixedBatchBodyBytes : ℕ := 36
def kHeaderCount : ℕ := 0
def kFixedRecordBodyBytes : ℕ := 32
def kMinimumRecordBytes : ℕ := kFixedRecordBodyBytes + 4

structure RecordMetadata where
  topic : Bytes
  partition : ℕ
  offset : ℕ
  timestampUnixNs : ℕ
  encodedByteSize : ℕ
  deriving DecidableEq, Repr

structure Record where
  metadata : RecordMetadata
  key : Bytes
  value : Bytes
  deriving DecidableEq, Repr

structure DecodedRecord where
  record : Record
  recordBytes : ℕ
  deriving DecidableEq, Repr

structure BatchMetadata where
  topic : Bytes
  partition : ℕ
  baseOffset : ℕ
  nextOffset : ℕ
  timestampUnixNs : ℕ
  recordCount : ℕ
  logicalBytes : ℕ
  encodedBytes : ℕ
  storedBytes : ℕ
  codec : Codec
  deriving DecidableEq, Repr

structure DecodedBatch where
  metadata : BatchMetadata
  records : List BatchRecord
  batchBytes : ℕ
  deriving DecidableEq, Repr

/-- The byte count, the body and the checksum of the body.  The count field is
32 bits wide. -/
def frameBody (body : Bytes) : Bytes :=
  writeU32 (body.length + 4) ++ (body ++ writeU32 (crc32 body))

def recordBody (offset timestampUnixNs : ℕ) (key value : Bytes) : Bytes :=
  writeU16 kRecordVersion ++ (writeU16 kRecordFlags ++ (writeU64 offset ++
    (writeU64 timestampUnixNs ++ (writeU32 key.length ++ (writeU32 value.length ++
      (writeU32 kHeaderCount ++ (key ++ value)))))))

def encodeRecord (offset timestampUnixNs : ℕ) (key value : Bytes) : Except String Bytes :=
  if key.length > 2 ^ 32 - 1 ∨ value.length > 2 ^ 32 - 1 then
    .error "record key/value exceed format limits"
  else if (recordBody offset timestampUnixNs key value).length + 4 > 2 ^ 32 - 1 then
    .error "record exceeds format limits"
  else .ok (frameBody (recordBody offset timestampUnixNs key value))

def decodeRecord (topic : Bytes) (partition recordBytes : ℕ) (bodyAndCrc : Bytes) :
    Except String DecodedRecord :=
  if recordBytes ≠ bodyAndCrc.length ∨ recordBytes < kMinimumRecordBytes then
    .error "invalid record length"
  else if readU32Be bodyAndCrc (recordBytes - 4) ≠ crc32 (bodyAndCrc.take (recordBytes - 4)) then
    .error "record crc mismatch"
  else if readU16Be bodyAndCrc 0 ≠ kRecordVersion ∨ readU16Be bodyAndCrc 2 ≠ kRecordFlags ∨
      readU32Be bodyAndCrc 28 ≠ kHeaderCount then
    .error "unsupported record header"
  else if kFixedRecordBodyBytes + readU32Be bodyAndCrc 20 + readU32Be bodyAndCrc 24 ≠
      recordBytes - 4 then
    .error "record payload length mismatch"
  else
    let keyBytes := readU32Be bodyAndCrc 20
    let valueBytes := readU32Be bodyAndCrc 24
    .ok { record :=
            { metadata :=
                { topic := topic
                  partition := partition
                  offset := readU64Be bodyAndCrc 4
                  timestampUnixNs := readU64Be bodyAndCrc 12
                  encodedByteSize := (recordBytes + 4) % 2 ^ 32 }
              key := (bodyAndCrc.drop kFixedRecordBodyBytes).take keyBytes
              value := (bodyAndCrc.drop (kFixedRecordBodyBytes + keyBytes)).take valueBytes }
          recordBytes := recordBytes }

def batchBody (baseOffset timestampUnixNs : ℕ) (codec : Codec)
    (recordCount uncompressedBytes : ℕ) (encodedRecords : Bytes) : Bytes :=
  writeU16 kBatchVersion ++ (writeU16 0 ++ (writeU16 codec.toField ++ (writeU16 0 ++
    (writeU64 baseOffset ++ (writeU64 timestampUnixNs ++ (writeU32 recordCount ++
      (writeU32 uncompressedBytes ++ (writeU32 encodedRecords.length ++ encodedRecords))))))))

def encodeBatch (baseOffset timestampUnixNs : ℕ) (codec : Codec)
    (recordCount uncompressedBytes : ℕ) (encodedRecords : Bytes) : Bytes :=
  frameBody (batchBody baseOffset timestampUnixNs codec recordCount uncompressedBytes
    encodedRecords)

def decodeBatch (Z : Zstd) (topic : Bytes) (partition batchBytes : ℕ) (bodyAndCrc : Bytes)
    (maximumUncompressed : ℕ) : Except String DecodedBatch :=
  if batchBytes ≠ bodyAndCrc.length ∨ batchBytes < kFixedBatchBodyBytes + 4 then
    .error "invalid batch length"
  else if crc32 (bodyAndCrc.take (batchBytes - 4)) ≠ readU32Be bodyAndCrc (batchBytes - 4) then
    .error "batch crc mismatch"
  else if readU16Be bodyAndCrc 0 ≠ kBatchVersion ∨ readU16Be bodyAndCrc 2 ≠ 0 ∨
      readU16Be bodyAndCrc 6 ≠ 0 then
    .error "unsupported batch header"
  else
    let codec := Codec.ofField (readU16Be bodyAndCrc 4)
    let baseOffset := readU64Be bodyAndCrc 8
    let timestamp := readU64Be bodyAndCrc 16
    let count := readU32Be bodyAndCrc 24
    let uncompressed := readU32Be bodyAndCrc 28
    let encoded := readU32Be bodyAndCrc 32
    if ¬ isSupported codec ∨ count = 0 ∨ uncompressed = 0 ∨
        encoded ≠ batchBytes - 4 - kFixedBatchBodyBytes then
      .error "invalid batch header"
    else
      (decompress Z codec ((bodyAndCrc.drop kFixedBatchBodyBytes).take encoded) uncompressed
        maximumUncompressed).bind fun raw ↦
          (decodeRecordSet raw count).bind fun records ↦
            .ok { metadata :=
                    { topic := topic
                      partition := partition
                      baseOffset := baseOffset
                      nextOffset := (baseOffset + count) % 2 ^ 64
                      timestampUnixNs := timestamp
                      recordCount := count
                      logicalBytes := uncompressed
                      encodedBytes := encoded
                      storedBytes := (batchBytes + 4) % 2 ^ 32
                      codec := codec }
                  records := records
                  batchBytes := batchBytes }

/-! ## Reading the fields of a written body -/

theorem readU16Be_front (value : ℕ) (rest : Bytes) :
    readU16Be (writeU16 value ++ rest) 0 = value % 2 ^ 16 := by
  rw [readU16Be, writeU16, readBe_front, show 256 ^ 2 = 2 ^ 16 by norm_num]

theorem readU32Be_front (value : ℕ) (rest : Bytes) :
    readU32Be (writeU32 value ++ rest) 0 = value % 2 ^ 32 := by
  rw [readU32Be, writeU32, readBe_front, show 256 ^ 4 = 2 ^ 32 by norm_num]

theorem readU64Be_front (value : ℕ) (rest : Bytes) :
    readU64Be (writeU64 value ++ rest) 0 = value % 2 ^ 64 := by
  rw [readU64Be, writeU64, readBe_front, show 256 ^ 8 = 2 ^ 64 by norm_num]

theorem readU16Be_skip {front : Bytes} (rest : Bytes) {offset : ℕ} (h : front.length ≤ offset) :
    readU16Be (front ++ rest) offset = readU16Be rest (offset - front.length) :=
  readBe_skip 2 rest h

theorem readU32Be_skip {front : Bytes} (rest : Bytes) {offset : ℕ} (h : front.length ≤ offset) :
    readU32Be (front ++ rest) offset = readU32Be rest (offset - front.length) :=
  readBe_skip 4 rest h

theorem readU64Be_skip {front : Bytes} (rest : Bytes) {offset : ℕ} (h : front.length ≤ offset) :
    readU64Be (front ++ rest) offset = readU64Be rest (offset - front.length) :=
  readBe_skip 8 rest h

@[simp] theorem length_recordBody (offset timestamp : ℕ) (key value : Bytes) :
    (recordBody offset timestamp key value).length = 32 + key.length + value.length := by
  simp only [recordBody, List.length_append, length_writeU16, length_writeU32, length_writeU64]
  omega

@[simp] theorem length_batchBody (baseOffset timestamp : ℕ) (codec : Codec) (count size : ℕ)
    (encoded : Bytes) :
    (batchBody baseOffset timestamp codec count size encoded).length = 36 + encoded.length := by
  simp only [batchBody, List.length_append, length_writeU16, length_writeU32, length_writeU64]
  omega

@[simp] theorem length_frameBody (body : Bytes) : (frameBody body).length = body.length + 8 := by
  simp only [frameBody, List.length_append, length_writeU32]
  omega

/-- The checksum behind a body is the one the decoders recompute. -/
theorem readU32Be_crc (body : Bytes) :
    readU32Be (body ++ writeU32 (crc32 body)) body.length = crc32 body := by
  rw [readU32Be_skip _ le_rfl, Nat.sub_self, ← List.append_nil (writeU32 _), readU32Be_front,
    Nat.mod_eq_of_lt (crc32_lt body)]

/-- The fields of a version-1 body, as `decode_record` reads them. -/
theorem recordBody_fields (offset timestamp : ℕ) (key value tail : Bytes) :
    readU16Be (recordBody offset timestamp key value ++ tail) 0 = kRecordVersion ∧
    readU16Be (recordBody offset timestamp key value ++ tail) 2 = kRecordFlags ∧
    readU64Be (recordBody offset timestamp key value ++ tail) 4 = offset % 2 ^ 64 ∧
    readU64Be (recordBody offset timestamp key value ++ tail) 12 = timestamp % 2 ^ 64 ∧
    readU32Be (recordBody offset timestamp key value ++ tail) 20 = key.length % 2 ^ 32 ∧
    readU32Be (recordBody offset timestamp key value ++ tail) 24 = value.length % 2 ^ 32 ∧
    readU32Be (recordBody offset timestamp key value ++ tail) 28 = kHeaderCount := by
  simp only [recordBody, List.append_assoc]
  refine ⟨?_, ?_, ?_, ?_, ?_, ?_, ?_⟩ <;>
    simp (disch := simp) only [readU16Be_skip, readU32Be_skip, readU64Be_skip, length_writeU16,
      length_writeU32, length_writeU64, Nat.reduceSub, readU16Be_front, readU32Be_front,
      readU64Be_front] <;>
    rfl

theorem drop_recordBody (offset timestamp : ℕ) (key value tail : Bytes) :
    (recordBody offset timestamp key value ++ tail).drop 32 = key ++ (value ++ tail) := by
  have hsplit : recordBody offset timestamp key value ++ tail =
      (writeU16 kRecordVersion ++ (writeU16 kRecordFlags ++ (writeU64 offset ++
        (writeU64 timestamp ++ (writeU32 key.length ++ (writeU32 value.length ++
          writeU32 kHeaderCount)))))) ++ (key ++ (value ++ tail)) := by
    simp only [recordBody, List.append_assoc]
  rw [hsplit]
  exact List.drop_left' (by simp)

/-- The record `decode_record` rebuilds from the body `encode_record` wrote. -/
def storedRecord (topic : Bytes) (partition offset timestamp : ℕ) (key value : Bytes) : Record :=
  { metadata :=
      { topic := topic
        partition := partition
        offset := offset
        timestampUnixNs := timestamp
        encodedByteSize := (36 + key.length + value.length + 4) % 2 ^ 32 }
    key := key
    value := value }

theorem decodeRecord_recordBody (topic : Bytes) (partition : ℕ) {offset timestamp : ℕ}
    {key value : Bytes} (hoffset : offset < 2 ^ 64) (htimestamp : timestamp < 2 ^ 64)
    (hfit : 36 + key.length + value.length < 2 ^ 32) :
    decodeRecord topic partition (36 + key.length + value.length)
        (recordBody offset timestamp key value ++
          writeU32 (crc32 (recordBody offset timestamp key value))) =
      .ok { record := storedRecord topic partition offset timestamp key value
            recordBytes := 36 + key.length + value.length } := by
  have hbody : 36 + key.length + value.length - 4 =
      (recordBody offset timestamp key value).length := by
    rw [length_recordBody]
    omega
  obtain ⟨hversion, hflags, hoff, hts, hkey, hvalue, hheader⟩ :=
    recordBody_fields offset timestamp key value
      (writeU32 (crc32 (recordBody offset timestamp key value)))
  rw [Nat.mod_eq_of_lt (by omega)] at hkey hvalue
  have hlength : ¬ (36 + key.length + value.length ≠ (recordBody offset timestamp key value ++
      writeU32 (crc32 (recordBody offset timestamp key value))).length ∨
        36 + key.length + value.length < kMinimumRecordBytes) := by
    simp only [List.length_append, length_recordBody, length_writeU32, kMinimumRecordBytes,
      kFixedRecordBodyBytes]
    omega
  have htake : (recordBody offset timestamp key value ++
      writeU32 (crc32 (recordBody offset timestamp key value))).take
        (recordBody offset timestamp key value).length =
      recordBody offset timestamp key value := List.take_left
  have hvalueDrop : (recordBody offset timestamp key value ++
      writeU32 (crc32 (recordBody offset timestamp key value))).drop (32 + key.length) =
        value ++ writeU32 (crc32 (recordBody offset timestamp key value)) := by
    rw [← List.drop_drop, drop_recordBody, List.drop_left]
  rw [decodeRecord, if_neg hlength, hbody, htake, readU32Be_crc, if_neg (by simp), hversion,
    hflags, hheader, if_neg (by simp), hkey, hvalue, hoff, hts,
    if_neg (by rw [length_recordBody, kFixedRecordBodyBytes]; simp), Nat.mod_eq_of_lt hoffset,
    Nat.mod_eq_of_lt htimestamp]
  simp only [kFixedRecordBodyBytes, drop_recordBody, hvalueDrop, List.take_left, storedRecord]

/-- The fields of a version-2 body, as `decode_batch` reads them. -/
theorem batchBody_fields (baseOffset timestamp : ℕ) (codec : Codec) (count size : ℕ)
    (encoded tail : Bytes) :
    readU16Be (batchBody baseOffset timestamp codec count size encoded ++ tail) 0 =
      kBatchVersion ∧
    readU16Be (batchBody baseOffset timestamp codec count size encoded ++ tail) 2 = 0 ∧
    readU16Be (batchBody baseOffset timestamp codec count size encoded ++ tail) 4 =
      codec.toField % 2 ^ 16 ∧
    readU16Be (batchBody baseOffset timestamp codec count size encoded ++ tail) 6 = 0 ∧
    readU64Be (batchBody baseOffset timestamp codec count size encoded ++ tail) 8 =
      baseOffset % 2 ^ 64 ∧
    readU64Be (batchBody baseOffset timestamp codec count size encoded ++ tail) 16 =
      timestamp % 2 ^ 64 ∧
    readU32Be (batchBody baseOffset timestamp codec count size encoded ++ tail) 24 =
      count % 2 ^ 32 ∧
    readU32Be (batchBody baseOffset timestamp codec count size encoded ++ tail) 28 =
      size % 2 ^ 32 ∧
    readU32Be (batchBody baseOffset timestamp codec count size encoded ++ tail) 32 =
      encoded.length % 2 ^ 32 := by
  simp only [batchBody, List.append_assoc]
  refine ⟨?_, ?_, ?_, ?_, ?_, ?_, ?_, ?_, ?_⟩ <;>
    simp (disch := simp) only [readU16Be_skip, readU32Be_skip, readU64Be_skip, length_writeU16,
      length_writeU32, length_writeU64, Nat.reduceSub, readU16Be_front, readU32Be_front,
      readU64Be_front] <;>
    rfl

theorem drop_batchBody (baseOffset timestamp : ℕ) (codec : Codec) (count size : ℕ)
    (encoded tail : Bytes) :
    (batchBody baseOffset timestamp codec count size encoded ++ tail).drop 36 =
      encoded ++ tail := by
  have hsplit : batchBody baseOffset timestamp codec count size encoded ++ tail =
      (writeU16 kBatchVersion ++ (writeU16 0 ++ (writeU16 codec.toField ++ (writeU16 0 ++
        (writeU64 baseOffset ++ (writeU64 timestamp ++ (writeU32 count ++
          (writeU32 size ++ writeU32 encoded.length)))))))) ++ (encoded ++ tail) := by
    simp only [batchBody, List.append_assoc]
  rw [hsplit]
  exact List.drop_left' (by simp)

/-- The metadata `decode_batch` rebuilds from a batch written by `encode_batch`. -/
def storedBatchMetadata (topic : Bytes) (partition baseOffset timestamp : ℕ) (codec : Codec)
    (count size : ℕ) (encoded : Bytes) : BatchMetadata :=
  { topic := topic
    partition := partition
    baseOffset := baseOffset
    nextOffset := (baseOffset + count) % 2 ^ 64
    timestampUnixNs := timestamp
    recordCount := count
    logicalBytes := size
    encodedBytes := encoded.length
    storedBytes := (40 + encoded.length + 4) % 2 ^ 32
    codec := codec }

/-- Decoding a written batch comes down to decompressing its records and
decoding the record set: every header check passes. -/
theorem decodeBatch_batchBody (Z : Zstd) (topic : Bytes) (partition maximum : ℕ)
    {baseOffset timestamp count size : ℕ} {codec : Codec} {encoded : Bytes}
    (hbase : baseOffset < 2 ^ 64) (htimestamp : timestamp < 2 ^ 64)
    (hcodec : isSupported codec = true) (hcount : 0 < count) (hcount' : count < 2 ^ 32)
    (hsize : 0 < size) (hsize' : size < 2 ^ 32) (hfit : 40 + encoded.length < 2 ^ 32) :
    decodeBatch Z topic partition (40 + encoded.length)
        (batchBody baseOffset timestamp codec count size encoded ++
          writeU32 (crc32 (batchBody baseOffset timestamp codec count size encoded))) maximum =
      (decompress Z codec encoded size maximum).bind fun raw ↦
        (decodeRecordSet raw count).bind fun records ↦
          .ok { metadata := storedBatchMetadata topic partition baseOffset timestamp codec count
                  size encoded
                records := records
                batchBytes := 40 + encoded.length } := by
  have hbody : 40 + encoded.length - 4 =
      (batchBody baseOffset timestamp codec count size encoded).length := by
    rw [length_batchBody]
    omega
  obtain ⟨hversion, hflags, hfield, hreserved, hoff, hts, hcnt, hsz, henc⟩ :=
    batchBody_fields baseOffset timestamp codec count size encoded
      (writeU32 (crc32 (batchBody baseOffset timestamp codec count size encoded)))
  have hfieldFits : codec.toField % 2 ^ 16 = codec.toField := by
    cases codec with
    | none => rfl
    | zstd => rfl
    | other value => simp [isSupported] at hcodec
  rw [Nat.mod_eq_of_lt hbase] at hoff
  rw [Nat.mod_eq_of_lt htimestamp] at hts
  rw [Nat.mod_eq_of_lt hcount'] at hcnt
  rw [Nat.mod_eq_of_lt hsize'] at hsz
  rw [Nat.mod_eq_of_lt (by omega)] at henc
  have hlength : ¬ (40 + encoded.length ≠
      (batchBody baseOffset timestamp codec count size encoded ++
        writeU32 (crc32 (batchBody baseOffset timestamp codec count size encoded))).length ∨
        40 + encoded.length < kFixedBatchBodyBytes + 4) := by
    simp only [List.length_append, length_batchBody, length_writeU32, kFixedBatchBodyBytes]
    omega
  have htake : (batchBody baseOffset timestamp codec count size encoded ++
      writeU32 (crc32 (batchBody baseOffset timestamp codec count size encoded))).take
        (batchBody baseOffset timestamp codec count size encoded).length =
      batchBody baseOffset timestamp codec count size encoded := List.take_left
  have hheader : ¬ (¬ isSupported codec = true ∨ count = 0 ∨ size = 0 ∨
      encoded.length ≠ (batchBody baseOffset timestamp codec count size encoded).length -
        kFixedBatchBodyBytes) := by
    rw [length_batchBody, kFixedBatchBodyBytes]
    simp only [hcodec, not_true_eq_false, false_or]
    omega
  rw [decodeBatch, if_neg hlength, hbody, htake, readU32Be_crc, if_neg (by simp), hversion,
    hflags, hreserved, if_neg (by simp)]
  simp only [hfield, hfieldFits, hoff, hts, hcnt, hsz, henc, Codec.ofField_toField hcodec]
  rw [if_neg hheader, kFixedBatchBodyBytes, drop_batchBody, List.take_left]
  rfl

end BoltStream.Storage
