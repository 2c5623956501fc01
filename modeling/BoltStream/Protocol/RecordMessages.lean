import BoltStream.Protocol.Payloads

/-!
# Records

The payloads that carry records or speak about them: produce, fetch and
metadata, and the record sets inside batches.
-/

namespace BoltStream.Protocol

open BoltStream.Lib BoltStream.Compression PayloadReader

/-! ## Produce -/

def readProduceFields : PayloadReader ProduceRequest := do
  let topic ← string
  let key ← string
  let message ← string
  return ⟨topic, key, message⟩

def ProduceRequest.checks (request : ProduceRequest) : List (Bool × String) :=
  [(request.topic.isEmpty, "produce topic must not be empty"),
    (request.message.isEmpty, "produce message must not be empty")]

def ProduceRequest.Fits (request : ProduceRequest) : Prop :=
  Short request.topic ∧ Short request.key ∧ Short request.message

theorem produceRequest_exact :
    Exact (fun request ↦ encodeProduceRequest request.topic request.key request.message)
      readProduceFields ProduceRequest.Fits := by
  refine .field ProduceRequest.topic string_exact fun topic ↦ ?_
  refine .field ProduceRequest.key string_exact fun key ↦ ?_
  refine .last ProduceRequest.message string_exact ?_
  rintro ⟨⟩
  grind

/-- Reading the fields up to the end of the payload. -/
theorem readProduceRequest_eq (payload : Bytes) :
    readProduceRequest payload =
      (readProduceFields payload).bind fun read ↦ if read.2 = [] then some read.1 else none := by
  unfold readProduceRequest readProduceFields
  simp only [Reader.bind_apply, Reader.pure_apply, PayloadReader.string]
  cases readBytes payload with
  | none => rfl
  | some topic =>
      simp only [Option.bind_some]
      cases readBytes topic.2 with
      | none => rfl
      | some key =>
          simp only [Option.bind_some]
          cases readBytes key.2 with
          | none => rfl
          | some message => rfl

theorem decodeProduceRequest_eq (payload : Bytes) :
    decodeProduceRequest payload =
      decodePayload readProduceFields "malformed produce request payload" ProduceRequest.checks
        payload := by
  unfold decodeProduceRequest decodePayload
  rw [readProduceRequest_eq]
  cases readProduceFields payload with
  | none => rfl
  | some read =>
      obtain ⟨request, rest⟩ := read
      cases rest with
      | cons byte rest => rfl
      | nil =>
          obtain ⟨topic, key, message⟩ := request
          cases topic with
          | nil => rfl
          | cons =>
              cases message with
              | nil => rfl
              | cons => rfl

def encodeProduceResponse (response : ProduceResponse) : Bytes :=
  writeBytes response.topic ++ (writeU16 response.partition ++ (writeU64 response.offset ++
    (writeU64 response.nextOffset ++ writeU32 response.encodedByteSize)))

def readProduceResponse : PayloadReader ProduceResponse := do
  let topic ← string
  let partition ← u16
  let offset ← u64
  let nextOffset ← u64
  let encodedByteSize ← u32
  return ⟨topic, partition, offset, nextOffset, encodedByteSize⟩

def decodeProduceResponse : Bytes → Except DecodeError ProduceResponse :=
  decodePayload readProduceResponse "malformed produce response payload" fun _ ↦ []

def ProduceResponse.Fits (response : ProduceResponse) : Prop :=
  Short response.topic ∧ response.partition < 2 ^ 16 ∧ response.offset < 2 ^ 64 ∧
    response.nextOffset < 2 ^ 64 ∧ response.encodedByteSize < 2 ^ 32

theorem produceResponse_exact :
    Exact encodeProduceResponse readProduceResponse ProduceResponse.Fits := by
  refine .field ProduceResponse.topic string_exact fun topic ↦ ?_
  refine .field ProduceResponse.partition u16_exact fun partition ↦ ?_
  refine .field ProduceResponse.offset u64_exact fun offset ↦ ?_
  refine .field ProduceResponse.nextOffset u64_exact fun nextOffset ↦ ?_
  refine .last ProduceResponse.encodedByteSize u32_exact ?_
  rintro ⟨⟩
  grind

/-! ## Record sets and batches -/

def BatchRecord.Fits (record : BatchRecord) : Prop :=
  Short record.key ∧ Short record.message ∧ record.message ≠ []

theorem batchRecord_exact : Exact BatchRecord.encode decodeBatchRecord BatchRecord.Fits := by
  constructor
  · rintro record - ⟨hkey, hmessage, hempty⟩ rest
    rw [decodeBatchRecord_encode hkey hmessage, if_neg hempty]
  · intro bytes record rest hread
    obtain ⟨⟨key, tail⟩, hkey, hread⟩ := Option.bind_eq_some_iff.mp hread
    obtain ⟨⟨message, last⟩, hmessage, hread⟩ := Option.bind_eq_some_iff.mp hread
    split_ifs at hread with hempty
    obtain ⟨rfl, rfl⟩ := Prod.mk.inj (Option.some.inj hread)
    obtain ⟨-, hshort, rfl⟩ := string_exact.write_read _ _ _ hkey
    obtain ⟨-, hfits, rfl⟩ := string_exact.write_read _ _ _ hmessage
    refine ⟨trivial, ⟨hshort, hfits, hempty⟩, ?_⟩
    rw [BatchRecord.encode, List.append_assoc]

theorem decodeRecords_eq_many (count : ℕ) :
    decodeRecords count = Reader.many decodeBatchRecord count := by
  induction count with
  | zero => rfl
  | succ count ih =>
      funext bytes
      rw [decodeRecords, ih, Reader.many, Reader.bind_apply]
      simp only [Option.map_eq_bind]
      rfl

theorem orError_eq_ok {α : Type} {value : Option α} {message : String} {a : α}
    (h : orError value message = .ok a) : value = some a := by
  cases value with
  | none => cases h
  | some b => exact congrArg some (Except.ok.inj h)

/-- `decode_record_set`, with the code of its errors. -/
def decodeRecordSetPayload (expectedCount : ℕ) (payload : Bytes) :
    Except DecodeError (List BatchRecord) :=
  (decodeRecordSet payload expectedCount).mapError fun message ↦ ⟨.invalidBatch, message⟩

/-- A record set that passes the checks of its decoder. -/
def RecordSetFits (expectedCount : ℕ) (records : List BatchRecord) : Prop :=
  records.length = expectedCount ∧ records.length < 2 ^ 32 ∧ ∀ record ∈ records, record.Fits

theorem recordSet_exact (expectedCount : ℕ) :
    ExactDecoder encodeRecordSet (decodeRecordSetPayload expectedCount)
      (RecordSetFits expectedCount) := by
  constructor
  · rintro records ⟨rfl, hcount, hfits⟩
    have hread := (batchRecord_exact.many records.length).read_write records rfl hfits []
    rw [List.append_nil, ← decodeRecords_eq_many] at hread
    rw [decodeRecordSetPayload, decodeRecordSet, encodeRecordSet, readU32_writeU32,
      Nat.mod_eq_of_lt hcount, orError_some, ok_bind, if_neg (not_not.mpr rfl), hread,
      orError_some, ok_bind, if_pos rfl]
    rfl
  · intro payload records hdecode
    have hset : decodeRecordSet payload expectedCount = .ok records := by
      cases hset : decodeRecordSet payload expectedCount with
      | error message =>
          rw [decodeRecordSetPayload, hset] at hdecode
          cases hdecode
      | ok other =>
          rw [decodeRecordSetPayload, hset] at hdecode
          exact congrArg _ (Except.ok.inj hdecode)
    obtain ⟨⟨count, tail⟩, hcount, hset⟩ := bind_eq_ok hset
    split_ifs at hset with hmismatch
    obtain ⟨⟨found, rest⟩, hfound, hset⟩ := bind_eq_ok hset
    split_ifs at hset with hend
    obtain rfl := Except.ok.inj hset
    obtain ⟨-, hfits, rfl⟩ := u32_exact.write_read _ _ _ (orError_eq_ok hcount)
    have hrecords : decodeRecords count tail = some (found, rest) := orError_eq_ok hfound
    rw [decodeRecords_eq_many] at hrecords
    obtain ⟨rfl, hall, rfl⟩ := (batchRecord_exact.many count).write_read _ _ _ hrecords
    refine ⟨⟨not_not.mp hmismatch, hfits, hall⟩, ?_⟩
    rw [show rest = [] from hend, List.append_nil]
    rfl

def ProduceBatchRequest.Valid (request : ProduceBatchRequest) : Prop :=
  Short request.topic ∧ request.partition < 2 ^ 16 ∧ request.recordCount < 2 ^ 32 ∧
    request.uncompressedBytes < 2 ^ 32 ∧ Short request.encodedRecords ∧ request.topic ≠ [] ∧
    request.recordCount ≠ 0 ∧ request.uncompressedBytes ≠ 0 ∧ request.encodedRecords ≠ [] ∧
    isSupported request.codec = true

/-- The codec field is wider than the codec, so a payload is not determined by
its request. -/
theorem decodeProduceBatchRequest_encode {request : ProduceBatchRequest}
    (h : request.Valid) :
    decodeProduceBatchRequest (encodeProduceBatchRequest request) = .ok request := by
  obtain ⟨htopic, hpartition, hcount, hsize, hrecords, hnamed, hsome, hbytes, hfull, hcodec⟩ := h
  have hlast := readBytes_writeBytes hrecords []
  rw [List.append_nil] at hlast
  have hread : readProduceBatchRequest (encodeProduceBatchRequest request) = some request := by
    rw [readProduceBatchRequest, encodeProduceBatchRequest, readBytes_writeBytes htopic,
      Option.bind_some, readU16_writeU16, Option.bind_some, readU16_writeU16, Option.bind_some,
      readU32_writeU32, Option.bind_some, readU32_writeU32, Option.bind_some, hlast,
      Option.bind_some, if_pos rfl, Nat.mod_eq_of_lt hpartition, Nat.mod_eq_of_lt hcount,
      Nat.mod_eq_of_lt hsize, Nat.mod_eq_of_lt (Codec.toField_lt hcodec),
      Codec.ofField_toField hcodec]
  have hpresent : ¬ (request.topic = [] ∨ request.recordCount = 0 ∨
      request.uncompressedBytes = 0 ∨ request.encodedRecords = []) := by
    tauto
  rw [decodeProduceBatchRequest, hread]
  dsimp only
  rw [if_neg hpresent, if_neg (by simp [hcodec])]

structure ProduceBatchResponse where
  topic : Bytes
  partition : ℕ
  baseOffset : ℕ
  nextOffset : ℕ
  recordCount : ℕ
  logicalBytes : ℕ
  encodedBytes : ℕ
  storedBytes : ℕ
  deriving DecidableEq, Repr

def encodeProduceBatchResponse (response : ProduceBatchResponse) : Bytes :=
  writeBytes response.topic ++ (writeU16 response.partition ++ (writeU64 response.baseOffset ++
    (writeU64 response.nextOffset ++ (writeU32 response.recordCount ++
      (writeU32 response.logicalBytes ++ (writeU32 response.encodedBytes ++
        writeU32 response.storedBytes))))))

def readProduceBatchResponse : PayloadReader ProduceBatchResponse := do
  let topic ← string
  let partition ← u16
  let baseOffset ← u64
  let nextOffset ← u64
  let recordCount ← u32
  let logicalBytes ← u32
  let encodedBytes ← u32
  let storedBytes ← u32
  return ⟨topic, partition, baseOffset, nextOffset, recordCount, logicalBytes, encodedBytes,
    storedBytes⟩

def decodeProduceBatchResponse : Bytes → Except DecodeError ProduceBatchResponse :=
  decodePayload readProduceBatchResponse "malformed produce-batch response" fun _ ↦ []

def ProduceBatchResponse.Fits (response : ProduceBatchResponse) : Prop :=
  Short response.topic ∧ response.partition < 2 ^ 16 ∧ response.baseOffset < 2 ^ 64 ∧
    response.nextOffset < 2 ^ 64 ∧ response.recordCount < 2 ^ 32 ∧
    response.logicalBytes < 2 ^ 32 ∧ response.encodedBytes < 2 ^ 32 ∧
    response.storedBytes < 2 ^ 32

theorem produceBatchResponse_exact :
    Exact encodeProduceBatchResponse readProduceBatchResponse ProduceBatchResponse.Fits := by
  refine .field ProduceBatchResponse.topic string_exact fun topic ↦ ?_
  refine .field ProduceBatchResponse.partition u16_exact fun partition ↦ ?_
  refine .field ProduceBatchResponse.baseOffset u64_exact fun baseOffset ↦ ?_
  refine .field ProduceBatchResponse.nextOffset u64_exact fun nextOffset ↦ ?_
  refine .field ProduceBatchResponse.recordCount u32_exact fun recordCount ↦ ?_
  refine .field ProduceBatchResponse.logicalBytes u32_exact fun logicalBytes ↦ ?_
  refine .field ProduceBatchResponse.encodedBytes u32_exact fun encodedBytes ↦ ?_
  refine .last ProduceBatchResponse.storedBytes u32_exact ?_
  rintro ⟨⟩
  grind

/-! ## Fetch -/

def encodeFetchRequest (request : FetchRequest) : Bytes :=
  writeBytes request.topic ++ (writeU16 request.partition ++ (writeBytes request.«from» ++
    (writeBytes request.group ++ writeU32 request.maxWaitMs)))

def readFetchRequest : PayloadReader FetchRequest := do
  let topic ← string
  let partition ← u16
  let selector ← string
  let group ← string
  let maxWaitMs ← u32
  return ⟨topic, partition, selector, group, maxWaitMs⟩

def FetchRequest.checks (request : FetchRequest) : List (Bool × String) :=
  [(request.topic.isEmpty, "fetch topic must not be empty"),
    (request.«from».isEmpty, "fetch offset selector must not be empty")]

def decodeFetchRequest : Bytes → Except DecodeError FetchRequest :=
  decodePayload readFetchRequest "malformed fetch request payload" FetchRequest.checks

def FetchRequest.Fits (request : FetchRequest) : Prop :=
  Short request.topic ∧ request.partition < 2 ^ 16 ∧ Short request.«from» ∧
    Short request.group ∧ request.maxWaitMs < 2 ^ 32

theorem fetchRequest_exact : Exact encodeFetchRequest readFetchRequest FetchRequest.Fits := by
  refine .field FetchRequest.topic string_exact fun topic ↦ ?_
  refine .field FetchRequest.partition u16_exact fun partition ↦ ?_
  refine .field FetchRequest.«from» string_exact fun selector ↦ ?_
  refine .field FetchRequest.group string_exact fun group ↦ ?_
  refine .last FetchRequest.maxWaitMs u32_exact ?_
  rintro ⟨⟩
  grind

def readFetchRecord : PayloadReader FetchRecord := do
  let offset ← u64
  let timestampUnixNs ← u64
  let key ← string
  let message ← string
  let encodedByteSize ← u32
  return ⟨offset, timestampUnixNs, key, message, encodedByteSize⟩

def FetchRecord.Fits (record : FetchRecord) : Prop :=
  record.offset < 2 ^ 64 ∧ record.timestampUnixNs < 2 ^ 64 ∧ Short record.key ∧
    Short record.message ∧ record.encodedByteSize < 2 ^ 32

theorem fetchRecord_exact : Exact FetchRecord.encode readFetchRecord FetchRecord.Fits := by
  refine .field FetchRecord.offset u64_exact fun offset ↦ ?_
  refine .field FetchRecord.timestampUnixNs u64_exact fun timestampUnixNs ↦ ?_
  refine .field FetchRecord.key string_exact fun key ↦ ?_
  refine .field FetchRecord.message string_exact fun message ↦ ?_
  refine .last FetchRecord.encodedByteSize u32_exact ?_
  rintro ⟨⟩
  grind

/-- A response that lists its records. -/
def readPlainResponse : PayloadReader FetchResponse := do
  let topic ← string
  let partition ← u16
  let fromOffset ← u64
  let nextOffset ← u64
  let records ← counted readFetchRecord
  return ⟨topic, partition, fromOffset, nextOffset, records⟩

def FetchResponse.Fits (response : FetchResponse) : Prop :=
  Short response.topic ∧ response.partition < 2 ^ 16 ∧ response.fromOffset < 2 ^ 64 ∧
    response.nextOffset < 2 ^ 64 ∧ response.records.length < 2 ^ 32 ∧
    ∀ record ∈ response.records, record.Fits

theorem encodeFetchResponse_eq (response : FetchResponse) :
    encodeFetchResponse response =
      writeBytes response.topic ++ (writeU16 response.partition ++
        (writeU64 response.fromOffset ++ (writeU64 response.nextOffset ++
          writeCounted FetchRecord.encode response.records))) := by
  simp only [encodeFetchResponse, fetchResponseHead, writeCounted, List.append_assoc]

theorem plainResponse_exact :
    Exact encodeFetchResponse readPlainResponse FetchResponse.Fits := by
  rw [show encodeFetchResponse = _ from funext encodeFetchResponse_eq]
  refine .field FetchResponse.topic string_exact fun topic ↦ ?_
  refine .field FetchResponse.partition u16_exact fun partition ↦ ?_
  refine .field FetchResponse.fromOffset u64_exact fun fromOffset ↦ ?_
  refine .field FetchResponse.nextOffset u64_exact fun nextOffset ↦ ?_
  refine .last FetchResponse.records (counted_exact fetchRecord_exact) ?_
  rintro ⟨⟩
  grind

/-- The payload does not carry the marker of a compressed response. -/
def Plain (payload : Bytes) : Prop :=
  ∀ head count rest, readFetchResponseHead payload = some (head, count, rest) →
    count ≠ kCompressedFetchMarker

theorem readFetchRecords_eq_many (count : ℕ) :
    readFetchRecords count = Reader.many readFetchRecord count := by
  induction count with
  | zero => rfl
  | succ count ih =>
      funext bytes
      rw [readFetchRecords, ih, Reader.many]
      simp only [Option.map_eq_bind, readFetchRecord, Reader.bind_apply, Reader.pure_apply,
        Option.bind_assoc, Option.bind_some]
      rfl

/-- A response that lists its records is read to the end of the payload. -/
theorem decodeFetchResponse_plain (Z : Zstd) {payload : Bytes} (h : Plain payload) :
    decodeFetchResponse Z payload =
      decodePayload readPlainResponse "malformed fetch response payload" (fun _ ↦ []) payload := by
  have hsplit : readPlainResponse payload =
      (readFetchResponseHead payload).bind fun read ↦
        (Reader.many readFetchRecord read.2.1 read.2.2).map fun records ↦
          ({ read.1 with records := records.1 }, records.2) := by
    simp only [readPlainResponse, readFetchResponseHead, counted, Reader.bind_apply,
      Reader.pure_apply, Option.map_eq_bind, Option.bind_assoc]
    rfl
  rw [decodeFetchResponse, decodeFetchResponseWithin, decodePayload, hsplit]
  cases hhead : readFetchResponseHead payload with
  | none => rfl
  | some read =>
      obtain ⟨head, count, rest⟩ := read
      simp only [Option.bind_some, if_neg (h head count rest hhead), readPlainRecords,
        readFetchRecords_eq_many]
      cases Reader.many readFetchRecord count rest with
      | none => rfl
      | some records =>
          obtain ⟨records, tail⟩ := records
          cases tail with
          | nil => rfl
          | cons => rfl

/-! ## Metadata -/

/-- The request is the mask of the codecs that the client supports. -/
def encodeMetadataRequest (supportedCodecs : ℕ) : Bytes := writeU32 supportedCodecs

def metadataRequestChecks (supportedCodecs : ℕ) : List (Bool × String) :=
  [(supportedCodecs &&& kNoneMask == 0, "malformed metadata capabilities")]

def decodeMetadataRequest : Bytes → Except DecodeError ℕ :=
  decodePayload u32 "malformed metadata capabilities" metadataRequestChecks

structure MetadataTopic where
  topic : Bytes
  partition : ℕ
  nextOffset : ℕ
  deriving DecidableEq, Repr

structure MetadataResponse where
  supportedCodecs : ℕ := kNoneMask
  negotiatedCodecs : ℕ := kNoneMask
  topics : List MetadataTopic := []
  deriving DecidableEq, Repr

def writeMetadataTopic (topic : MetadataTopic) : Bytes :=
  writeBytes topic.topic ++ (writeU16 topic.partition ++ writeU64 topic.nextOffset)

def readMetadataTopic : PayloadReader MetadataTopic := do
  let topic ← string
  let partition ← u16
  let nextOffset ← u64
  return ⟨topic, partition, nextOffset⟩

def MetadataTopic.Fits (topic : MetadataTopic) : Prop :=
  Short topic.topic ∧ topic.partition < 2 ^ 16 ∧ topic.nextOffset < 2 ^ 64

theorem metadataTopic_exact :
    Exact writeMetadataTopic readMetadataTopic MetadataTopic.Fits := by
  refine .field MetadataTopic.topic string_exact fun topic ↦ ?_
  refine .field MetadataTopic.partition u16_exact fun partition ↦ ?_
  refine .last MetadataTopic.nextOffset u64_exact ?_
  rintro ⟨⟩
  grind

/-- Version 4 carries no codecs. -/
def encodeMetadataResponse (response : MetadataResponse) (protocolVersion : ℕ) : Bytes :=
  if protocolVersion = 4 then writeCounted writeMetadataTopic response.topics
  else
    writeU32 response.supportedCodecs ++ (writeU32 response.negotiatedCodecs ++
      writeCounted writeMetadataTopic response.topics)

/-- The version of a payload without one: two codec masks in front mean version 5. -/
def detectMetadataVersion (payload : Bytes) : ℕ :=
  let isMask := fun mask ↦
    mask &&& kNoneMask ≠ 0 ∧ mask &&& (kSupportedCodecMask ^^^ 0xFFFFFFFF) = 0
  if 8 ≤ payload.length ∧ isMask (readU32Be payload 0) ∧ isMask (readU32Be payload 4) then 5
  else 4

/-- The two codec masks, or those of the given response where the version carries
none. -/
def readMetadataCodecs (response : MetadataResponse) (version : ℕ) : PayloadReader (ℕ × ℕ) :=
  if 5 ≤ version then do
    let supportedCodecs ← u32
    let negotiatedCodecs ← u32
    return (supportedCodecs, negotiatedCodecs)
  else return (response.supportedCodecs, response.negotiatedCodecs)

/-- `response` is the object that the caller passes: what is not read, keeps its
value there.  The `topics.reserve` of the count that was read, which throws where
memory is short, is left out. -/
def decodeMetadataResponse (response : MetadataResponse) (protocolVersion : ℕ)
    (payload : Bytes) : Except DecodeError MetadataResponse :=
  let version := if protocolVersion = 0 then detectMetadataVersion payload else protocolVersion
  match readMetadataCodecs response version payload with
  | none => .error ⟨.malformedPayload, "malformed metadata capabilities"⟩
  | some (codecs, rest) =>
      (decodePayload (counted readMetadataTopic) "malformed metadata response payload"
        (fun _ ↦ []) rest).map fun topics ↦ ⟨codecs.1, codecs.2, topics⟩

/-- What the version can tell a reader that holds `response`. -/
def MetadataResponse.Carries (response : MetadataResponse) (protocolVersion : ℕ)
    (sent : MetadataResponse) : Prop :=
  (sent.topics.length < 2 ^ 32 ∧ ∀ topic ∈ sent.topics, topic.Fits) ∧
    if protocolVersion = 4 then
      sent.supportedCodecs = response.supportedCodecs ∧
        sent.negotiatedCodecs = response.negotiatedCodecs
    else sent.supportedCodecs < 2 ^ 32 ∧ sent.negotiatedCodecs < 2 ^ 32

theorem metadataTopics_exact :
    ExactDecoder (writeCounted writeMetadataTopic)
      (decodePayload (counted readMetadataTopic) "malformed metadata response payload"
        fun _ ↦ [])
      (fun topics ↦ (topics.length < 2 ^ 32 ∧ ∀ topic ∈ topics, topic.Fits) ∧
        Passes (fun _ ↦ []) topics) :=
  decodePayload_exact (counted_exact metadataTopic_exact) _ _

theorem passes_nil {α : Type} (value : α) : Passes (fun _ ↦ []) value := by
  simp [Passes]

theorem metadataCodecs_exact (response : MetadataResponse) :
    Exact (fun codecs : ℕ × ℕ ↦ writeU32 codecs.1 ++ writeU32 codecs.2)
      (readMetadataCodecs response 5) (fun codecs ↦ codecs.1 < 2 ^ 32 ∧ codecs.2 < 2 ^ 32) := by
  refine .field Prod.fst u32_exact fun supportedCodecs ↦ ?_
  refine .last Prod.snd u32_exact ?_
  rintro ⟨⟩
  grind

theorem metadataResponse_exact_four (response : MetadataResponse) :
    ExactDecoder (fun sent ↦ encodeMetadataResponse sent 4) (decodeMetadataResponse response 4)
      (response.Carries 4) := by
  constructor
  · rintro ⟨supported, negotiated, topics⟩ ⟨htopics, hsupported, hnegotiated⟩
    have hdecode := metadataTopics_exact.decode_encode topics ⟨htopics, passes_nil topics⟩
    subst hsupported hnegotiated
    exact congrArg (fun result ↦ Except.map (fun topics ↦
      (⟨response.supportedCodecs, response.negotiatedCodecs, topics⟩ : MetadataResponse)) result)
      hdecode
  · intro payload sent hdecode
    obtain ⟨topics, htopics, rfl⟩ := map_eq_ok hdecode
    obtain ⟨⟨hfits, -⟩, hpayload⟩ := metadataTopics_exact.encode_decode _ _ htopics
    exact ⟨⟨hfits, rfl, rfl⟩, hpayload⟩

theorem metadataResponse_exact_five (response : MetadataResponse) :
    ExactDecoder (fun sent ↦ encodeMetadataResponse sent 5) (decodeMetadataResponse response 5)
      (response.Carries 5) := by
  constructor
  · rintro ⟨supported, negotiated, topics⟩ ⟨htopics, hcodecs⟩
    have hread := (metadataCodecs_exact response).read_write (supported, negotiated) trivial
      hcodecs (writeCounted writeMetadataTopic topics)
    have hdecode := metadataTopics_exact.decode_encode topics ⟨htopics, passes_nil topics⟩
    simp only [encodeMetadataResponse, decodeMetadataResponse]
    rw [List.append_assoc] at hread
    simp [hread, hdecode]
  · intro payload sent hdecode
    rw [decodeMetadataResponse, if_neg (by norm_num)] at hdecode
    cases hread : readMetadataCodecs response 5 payload with
    | none =>
        rw [hread] at hdecode
        cases hdecode
    | some read =>
        obtain ⟨codecs, rest⟩ := read
        rw [hread] at hdecode
        obtain ⟨topics, htopics, rfl⟩ := map_eq_ok hdecode
        obtain ⟨⟨hfits, -⟩, hrest⟩ := metadataTopics_exact.encode_decode _ _ htopics
        obtain ⟨-, hcodecs, rfl⟩ := (metadataCodecs_exact response).write_read _ _ _ hread
        refine ⟨⟨hfits, hcodecs⟩, ?_⟩
        rw [← hrest, List.append_assoc]
        rfl

end BoltStream.Protocol
