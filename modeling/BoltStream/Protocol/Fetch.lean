import BoltStream.Compression
import BoltStream.Protocol.Messages
import BoltStream.Protocol.Wire

/-!
# Fetch messages

A fetch response lists records, or forwards a stored batch as it is.  The
client opens a forwarded batch when it decodes the response.
-/

namespace BoltStream.Protocol

open BoltStream.Lib BoltStream.Compression

def kFrameHeaderBytes : ℕ := 32
def kDefaultMaxFrameBytes : ℕ := 1024 * 1024
def kCompressedFetchMarker : ℕ := 0x42544348

structure FetchRequest where
  topic : Bytes
  partition : ℕ
  «from» : Bytes
  group : Bytes
  maxWaitMs : ℕ
  deriving DecidableEq, Repr

structure FetchRecord where
  offset : ℕ
  timestampUnixNs : ℕ
  key : Bytes
  message : Bytes
  encodedByteSize : ℕ
  deriving DecidableEq, Repr

structure FetchResponse where
  topic : Bytes
  partition : ℕ
  fromOffset : ℕ
  nextOffset : ℕ
  records : List FetchRecord
  deriving DecidableEq, Repr

structure DecodeError where
  code : ErrorCode
  message : String
  deriving DecidableEq, Repr

/-! ## Encoding -/

def FetchRecord.encode (record : FetchRecord) : Bytes :=
  writeU64 record.offset ++ (writeU64 record.timestampUnixNs ++ (writeBytes record.key ++
    (writeBytes record.message ++ writeU32 record.encodedByteSize)))

/-- The fields in front of the records or of the forwarded batch. -/
def fetchResponseHead (topic : Bytes) (partition fromOffset nextOffset marker : ℕ) : Bytes :=
  writeBytes topic ++ (writeU16 partition ++ (writeU64 fromOffset ++ (writeU64 nextOffset ++
    writeU32 marker)))

def encodeFetchResponse (response : FetchResponse) : Bytes :=
  fetchResponseHead response.topic response.partition response.fromOffset response.nextOffset
    response.records.length ++ response.records.flatMap FetchRecord.encode

def encodeCompressedFetchResponse (topic : Bytes) (partition fromOffset nextOffset
    timestampUnixNs : ℕ) (codec : Codec) (recordCount uncompressedBytes : ℕ)
    (encodedRecords : Bytes) : Bytes :=
  fetchResponseHead topic partition fromOffset nextOffset kCompressedFetchMarker ++
    (writeU16 codec.toField ++ (writeU64 timestampUnixNs ++ (writeU32 recordCount ++
      (writeU32 uncompressedBytes ++ writeBytes encodedRecords))))

/-! ## Decoding -/

namespace PayloadReader

def readU16 (bytes : Bytes) : Option (ℕ × Bytes) := readField 2 bytes

def readU64 (bytes : Bytes) : Option (ℕ × Bytes) := readField 8 bytes

theorem readField_beBytes (width value : ℕ) (rest : Bytes) :
    readField width (beBytes width value ++ rest) = some (value % 256 ^ width, rest) := by
  have hlen : ¬ (beBytes width value ++ rest).length < width := by simp
  have htake : (beBytes width value ++ rest).take width = beBytes width value :=
    List.take_left' (length_beBytes width value)
  rw [readField, if_neg hlen, htake, List.drop_left' (length_beBytes width value), beNat_beBytes]

theorem readU16_writeU16 (value : ℕ) (rest : Bytes) :
    readU16 (writeU16 value ++ rest) = some (value % 2 ^ 16, rest) := by
  rw [readU16, writeU16, readField_beBytes]
  norm_num

theorem readU64_writeU64 {value : ℕ} (h : value < 2 ^ 64) (rest : Bytes) :
    readU64 (writeU64 value ++ rest) = some (value, rest) := by
  rw [readU64, writeU64, readField_beBytes, Nat.mod_eq_of_lt (h.trans_eq (by norm_num))]

end PayloadReader

/-- The fields in front, the marker or record count last, and the rest. -/
def readFetchResponseHead (payload : Bytes) : Option (FetchResponse × ℕ × Bytes) :=
  (PayloadReader.readBytes payload).bind fun topic ↦
    (PayloadReader.readU16 topic.2).bind fun partition ↦
      (PayloadReader.readU64 partition.2).bind fun fromOffset ↦
        (PayloadReader.readU64 fromOffset.2).bind fun nextOffset ↦
          (PayloadReader.readU32 nextOffset.2).map fun count ↦
            (⟨topic.1, partition.1, fromOffset.1, nextOffset.1, []⟩, count.1, count.2)

/-- What a forwarded batch carries: codec, timestamp, record count, size and
the encoded records. -/
structure ForwardedBatch where
  codecValue : ℕ
  timestamp : ℕ
  count : ℕ
  uncompressed : ℕ
  encoded : Bytes
  deriving DecidableEq, Repr

def readForwardedBatch (rest : Bytes) : Option ForwardedBatch :=
  (PayloadReader.readU16 rest).bind fun codec ↦
    (PayloadReader.readU64 codec.2).bind fun timestamp ↦
      (PayloadReader.readU32 timestamp.2).bind fun count ↦
        (PayloadReader.readU32 count.2).bind fun uncompressed ↦
          (PayloadReader.readBytes uncompressed.2).bind fun encoded ↦
            if encoded.2 = [] then
              some ⟨codec.1, timestamp.1, count.1, uncompressed.1, encoded.1⟩
            else none

/-- The records of a forwarded batch, opened under a limit on its size. -/
def openForwardedBatch (Z : Zstd) (limit fromOffset : ℕ) (batch : ForwardedBatch) :
    Except DecodeError (List FetchRecord) :=
  match decompress Z (Codec.ofField batch.codecValue) batch.encoded batch.uncompressed limit with
  | .error message => .error ⟨.invalidBatch, message⟩
  | .ok raw =>
      match decodeRecordSet raw batch.count with
      | .error message => .error ⟨.invalidBatch, message⟩
      | .ok records =>
          .ok (records.mapIdx fun index record ↦
            { offset := (fromOffset + index) % 2 ^ 64
              timestampUnixNs := batch.timestamp
              key := record.key
              message := record.message
              encodedByteSize := batch.encoded.length / batch.count % 2 ^ 32 })

/-- The record loop of a plain response. -/
def readFetchRecords : ℕ → Bytes → Option (List FetchRecord × Bytes)
  | 0, rest => some ([], rest)
  | count + 1, rest =>
      (PayloadReader.readU64 rest).bind fun offset ↦
        (PayloadReader.readU64 offset.2).bind fun timestamp ↦
          (PayloadReader.readBytes timestamp.2).bind fun key ↦
            (PayloadReader.readBytes key.2).bind fun message ↦
              (PayloadReader.readU32 message.2).bind fun size ↦
                (readFetchRecords count size.2).map fun records ↦
                  (⟨offset.1, timestamp.1, key.1, message.1, size.1⟩ :: records.1, records.2)

/-- The records of a plain response, up to the end of the payload. -/
def readPlainRecords (count : ℕ) (rest : Bytes) : Except DecodeError (List FetchRecord) :=
  match readFetchRecords count rest with
  | none => .error ⟨.malformedPayload, "malformed fetch response payload"⟩
  | some records =>
      if records.2 = [] then .ok records.1
      else .error ⟨.malformedPayload, "malformed fetch response payload"⟩

/-- The records of a compressed response. -/
def readCompressedRecords (Z : Zstd) (limit fromOffset : ℕ) (rest : Bytes) :
    Except DecodeError (List FetchRecord) :=
  match readForwardedBatch rest with
  | none => .error ⟨.malformedPayload, "malformed compressed fetch response"⟩
  | some batch => openForwardedBatch Z limit fromOffset batch

/-- `decode_fetch_response`, with the limit under which it opens a batch. -/
def decodeFetchResponseWithin (Z : Zstd) (limit : ℕ) (payload : Bytes) :
    Except DecodeError FetchResponse :=
  match readFetchResponseHead payload with
  | none => .error ⟨.malformedPayload, "malformed fetch response payload"⟩
  | some (head, count, rest) =>
      (if count = kCompressedFetchMarker then
        readCompressedRecords Z limit head.fromOffset rest
      else readPlainRecords count rest).map fun records ↦ { head with records := records }

def decodeFetchResponse (Z : Zstd) (payload : Bytes) : Except DecodeError FetchResponse :=
  decodeFetchResponseWithin Z kDefaultMaxFrameBytes payload

/-! ## Reading back a forwarded batch -/

theorem decodeFetchResponseWithin_of_head {Z : Zstd} {limit : ℕ} {payload rest : Bytes}
    {head : FetchResponse} (h : readFetchResponseHead payload =
      some (head, kCompressedFetchMarker, rest)) :
    decodeFetchResponseWithin Z limit payload =
      (readCompressedRecords Z limit head.fromOffset rest).map fun records ↦
        { head with records := records } := by
  rw [decodeFetchResponseWithin, h]
  simp only [if_true]

theorem readCompressedRecords_of_batch {Z : Zstd} {limit fromOffset : ℕ} {rest : Bytes}
    {batch : ForwardedBatch} (h : readForwardedBatch rest = some batch) :
    readCompressedRecords Z limit fromOffset rest =
      openForwardedBatch Z limit fromOffset batch := by
  rw [readCompressedRecords, h]

theorem openForwardedBatch_of_error {Z : Zstd} {limit fromOffset : ℕ} {batch : ForwardedBatch}
    {message : String} (h : decompress Z (Codec.ofField batch.codecValue) batch.encoded
      batch.uncompressed limit = .error message) :
    openForwardedBatch Z limit fromOffset batch = .error ⟨.invalidBatch, message⟩ := by
  rw [openForwardedBatch, h]

theorem openForwardedBatch_of_records {Z : Zstd} {limit fromOffset : ℕ} {batch : ForwardedBatch}
    {raw : Bytes} {records : List BatchRecord}
    (h : decompress Z (Codec.ofField batch.codecValue) batch.encoded batch.uncompressed limit =
      .ok raw) (hrecords : decodeRecordSet raw batch.count = .ok records) :
    openForwardedBatch Z limit fromOffset batch =
      .ok (records.mapIdx fun index record ↦
        { offset := (fromOffset + index) % 2 ^ 64
          timestampUnixNs := batch.timestamp
          key := record.key
          message := record.message
          encodedByteSize := batch.encoded.length / batch.count % 2 ^ 32 }) := by
  rw [openForwardedBatch, h]
  simp only [hrecords]

theorem readFetchResponseHead_head {topic : Bytes} {partition fromOffset nextOffset marker : ℕ}
    (htopic : topic.length < 2 ^ 32) (hfrom : fromOffset < 2 ^ 64)
    (hnext : nextOffset < 2 ^ 64) (hmarker : marker < 2 ^ 32) (rest : Bytes) :
    readFetchResponseHead (fetchResponseHead topic partition fromOffset nextOffset marker ++ rest) =
      some (⟨topic, partition % 2 ^ 16, fromOffset, nextOffset, []⟩, marker, rest) := by
  simp only [fetchResponseHead, List.append_assoc]
  rw [readFetchResponseHead, PayloadReader.readBytes_writeBytes htopic, Option.bind_some,
    PayloadReader.readU16_writeU16, Option.bind_some,
    PayloadReader.readU64_writeU64 hfrom, Option.bind_some, PayloadReader.readU64_writeU64 hnext,
    Option.bind_some, PayloadReader.readU32_writeU32, Option.map_some, Nat.mod_eq_of_lt hmarker]

theorem Codec.toField_lt {codec : Codec} (h : isSupported codec = true) :
    codec.toField < 2 ^ 16 := by
  cases codec with
  | none => decide
  | zstd => decide
  | other value => simp [isSupported] at h

theorem readForwardedBatch_fields {codec : Codec} (hcodec : isSupported codec = true)
    {timestamp count uncompressed : ℕ} (htimestamp : timestamp < 2 ^ 64)
    (hcount : count < 2 ^ 32) (huncompressed : uncompressed < 2 ^ 32) (encoded : Bytes)
    (hencoded : encoded.length < 2 ^ 32) :
    readForwardedBatch (writeU16 codec.toField ++ (writeU64 timestamp ++ (writeU32 count ++
      (writeU32 uncompressed ++ writeBytes encoded)))) =
        some ⟨codec.toField, timestamp, count, uncompressed, encoded⟩ := by
  have hbytes := PayloadReader.readBytes_writeBytes hencoded []
  rw [List.append_nil] at hbytes
  rw [readForwardedBatch, PayloadReader.readU16_writeU16,
    Nat.mod_eq_of_lt (Codec.toField_lt hcodec), Option.bind_some,
    PayloadReader.readU64_writeU64 htimestamp, Option.bind_some,
    PayloadReader.readU32_writeU32, Option.bind_some, PayloadReader.readU32_writeU32,
    Option.bind_some, hbytes, Option.bind_some, if_pos rfl, Nat.mod_eq_of_lt hcount,
    Nat.mod_eq_of_lt huncompressed]

end BoltStream.Protocol
