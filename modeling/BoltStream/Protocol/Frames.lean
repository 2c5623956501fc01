import BoltStream.Protocol.Fetch

/-!
# Frames

A frame is a header of 32 bytes and a payload.  `decode_header` checks a header
against the configured maximum before the payload is read.
-/

namespace BoltStream.Protocol

open BoltStream.Lib BoltStream.Compression

def kMagic : ℕ := 0x42535452
def kProtocolVersion : ℕ := 5
def kMinimumProtocolVersion : ℕ := 4
def kHeaderCrcOffset : ℕ := 28

/-- The 16-bit frame type.  A cast can leave it outside its enumerators. -/
inductive FrameType where
  | errorResponse
  | healthRequest
  | healthResponse
  | metadataRequest
  | metadataResponse
  | produceRequest
  | produceResponse
  | fetchRequest
  | fetchResponse
  | offsetCommitRequest
  | offsetCommitResponse
  | authRequest
  | authResponse
  | createTopicRequest
  | createTopicResponse
  | joinGroupRequest
  | joinGroupResponse
  | syncGroupRequest
  | syncGroupResponse
  | heartbeatRequest
  | heartbeatResponse
  | leaveGroupRequest
  | leaveGroupResponse
  | groupOffsetCommitRequest
  | groupOffsetCommitResponse
  | listTopicsRequest
  | listTopicsResponse
  | describeTopicRequest
  | describeTopicResponse
  | deleteTopicRequest
  | deleteTopicResponse
  | runRetentionRequest
  | runRetentionResponse
  | describeGroupRequest
  | describeGroupResponse
  | resetGroupOffsetRequest
  | resetGroupOffsetResponse
  | produceBatchRequest
  | produceBatchResponse
  | other (value : ℕ)
  deriving DecidableEq, Repr

def FrameType.all : List FrameType :=
  [.errorResponse, .healthRequest, .healthResponse, .metadataRequest, .metadataResponse,
    .produceRequest, .produceResponse, .fetchRequest, .fetchResponse, .offsetCommitRequest,
    .offsetCommitResponse, .authRequest, .authResponse, .createTopicRequest,
    .createTopicResponse, .joinGroupRequest, .joinGroupResponse, .syncGroupRequest,
    .syncGroupResponse, .heartbeatRequest, .heartbeatResponse, .leaveGroupRequest,
    .leaveGroupResponse, .groupOffsetCommitRequest, .groupOffsetCommitResponse,
    .listTopicsRequest, .listTopicsResponse, .describeTopicRequest, .describeTopicResponse,
    .deleteTopicRequest, .deleteTopicResponse, .runRetentionRequest, .runRetentionResponse,
    .describeGroupRequest, .describeGroupResponse, .resetGroupOffsetRequest,
    .resetGroupOffsetResponse, .produceBatchRequest, .produceBatchResponse]

/-- Enumerators are numbered from one on. -/
def FrameType.ofField (field : ℕ) : FrameType :=
  if field = 0 then .other field else (FrameType.all[field - 1]?).getD (.other field)

def FrameType.toField : FrameType → ℕ
  | .other value => value
  | frameType => FrameType.all.idxOf frameType + 1

structure FrameHeader where
  magic : ℕ := kMagic
  version : ℕ := kProtocolVersion
  frameType : FrameType := .errorResponse
  headerBytes : ℕ := kFrameHeaderBytes
  payloadBytes : ℕ := 0
  correlationId : ℕ := 0
  flags : ℕ := 0
  headerCrc32 : ℕ := 0
  deriving DecidableEq, Repr

/-- The header fields in front of the checksum. -/
def headerFields (version : ℕ) (frameType : FrameType) (correlationId payloadBytes flags : ℕ) :
    Bytes :=
  writeU32 kMagic ++ (writeU16 version ++ (writeU16 frameType.toField ++
    (writeU32 kFrameHeaderBytes ++ (writeU32 payloadBytes ++ (writeU64 correlationId ++
      writeU32 flags)))))

def encodeFrame (version : ℕ) (frameType : FrameType) (correlationId : ℕ) (payload : Bytes)
    (flags : ℕ) : Bytes :=
  let fields := headerFields version frameType correlationId payload.length flags
  fields ++ (writeU32 (crc32 fields) ++ payload)

/-- The outcome of `decode_header`.  The fields are read before they are checked,
so a failure still carries them. -/
structure HeaderDecodeResult where
  header : FrameHeader := {}
  error : Option DecodeError := none
  deriving DecidableEq, Repr

/-- The checks on a header that was read from `bytes`. -/
def headerError (bytes : Bytes) (maxFrameBytes : ℕ) (header : FrameHeader) : Option DecodeError :=
  if header.magic ≠ kMagic then some ⟨.invalidMagic, "invalid frame magic"⟩
  else if header.version < kMinimumProtocolVersion ∨ header.version > kProtocolVersion then
    some ⟨.unsupportedVersion, "unsupported protocol version"⟩
  else if header.headerBytes ≠ kFrameHeaderBytes then
    some ⟨.invalidLength, "unsupported frame header length"⟩
  else if maxFrameBytes < kFrameHeaderBytes ∨
      header.payloadBytes > maxFrameBytes - kFrameHeaderBytes then
    some ⟨.invalidLength, "frame exceeds configured maximum"⟩
  else if header.flags ≠ 0 then
    some ⟨.reservedFlags, "reserved frame flags are not supported"⟩
  else if crc32 (bytes.take kHeaderCrcOffset) ≠ header.headerCrc32 then
    some ⟨.crcMismatch, "frame header crc mismatch"⟩
  else none

def decodeHeader (bytes : Bytes) (maxFrameBytes : ℕ) : HeaderDecodeResult :=
  if bytes.length < kFrameHeaderBytes then
    { error := some ⟨.invalidLength, "truncated frame header"⟩ }
  else
    let header : FrameHeader :=
      { magic := readU32Be bytes 0
        version := readU16Be bytes 4
        frameType := .ofField (readU16Be bytes 6)
        headerBytes := readU32Be bytes 8
        payloadBytes := readU32Be bytes 12
        correlationId := readU64Be bytes 16
        flags := readU32Be bytes 24
        headerCrc32 := readU32Be bytes 28 }
    { header := header, error := headerError bytes maxFrameBytes header }

/-- A header that is accepted announces a payload within the maximum. -/
theorem payloadBytes_le_of_decodeHeader {bytes : Bytes} {maxFrameBytes : ℕ}
    (h : (decodeHeader bytes maxFrameBytes).error = none) :
    (decodeHeader bytes maxFrameBytes).header.payloadBytes + kFrameHeaderBytes ≤
      maxFrameBytes := by
  rw [decodeHeader] at h ⊢
  split_ifs at h ⊢ with hshort
  simp only [headerError] at h ⊢
  split_ifs at h with hmagic hversion hbytes hmax
  omega

/-! ## Produce requests -/

def encodeProduceRequest (topic key message : Bytes) : Bytes :=
  writeBytes topic ++ (writeBytes key ++ writeBytes message)

/-- Three byte strings and nothing behind them. -/
def readProduceRequest (payload : Bytes) : Option ProduceRequest :=
  (PayloadReader.readBytes payload).bind fun topic ↦
    (PayloadReader.readBytes topic.2).bind fun key ↦
      (PayloadReader.readBytes key.2).bind fun message ↦
        if message.2 = [] then some ⟨topic.1, key.1, message.1⟩ else none

def decodeProduceRequest (payload : Bytes) : Except DecodeError ProduceRequest :=
  match readProduceRequest payload with
  | none => .error ⟨.malformedPayload, "malformed produce request payload"⟩
  | some request =>
      if request.topic = [] then .error ⟨.malformedPayload, "produce topic must not be empty"⟩
      else if request.message = [] then
        .error ⟨.malformedPayload, "produce message must not be empty"⟩
      else .ok request

structure ProduceBatchRequest where
  topic : Bytes
  partition : ℕ
  codec : Codec
  recordCount : ℕ
  uncompressedBytes : ℕ
  encodedRecords : Bytes
  deriving DecidableEq, Repr

def encodeProduceBatchRequest (request : ProduceBatchRequest) : Bytes :=
  writeBytes request.topic ++ (writeU16 request.partition ++ (writeU16 request.codec.toField ++
    (writeU32 request.recordCount ++ (writeU32 request.uncompressedBytes ++
      writeBytes request.encodedRecords))))

def readProduceBatchRequest (payload : Bytes) : Option ProduceBatchRequest :=
  (PayloadReader.readBytes payload).bind fun topic ↦
    (PayloadReader.readU16 topic.2).bind fun partition ↦
      (PayloadReader.readU16 partition.2).bind fun codec ↦
        (PayloadReader.readU32 codec.2).bind fun count ↦
          (PayloadReader.readU32 count.2).bind fun uncompressed ↦
            (PayloadReader.readBytes uncompressed.2).bind fun encoded ↦
              if encoded.2 = [] then
                some ⟨topic.1, partition.1, .ofField codec.1, count.1, uncompressed.1, encoded.1⟩
              else none

def decodeProduceBatchRequest (payload : Bytes) : Except DecodeError ProduceBatchRequest :=
  match readProduceBatchRequest payload with
  | none => .error ⟨.malformedPayload, "malformed produce-batch request"⟩
  | some request =>
      if request.topic = [] ∨ request.recordCount = 0 ∨ request.uncompressedBytes = 0 ∨
          request.encodedRecords = [] then
        .error ⟨.invalidBatch, "produce batch must not be empty"⟩
      else if isSupported request.codec = false then
        .error ⟨.unsupportedCodec, "unsupported compression codec"⟩
      else .ok request

section Sizes

theorem length_of_readField {width value : ℕ} {bytes rest : Bytes}
    (h : PayloadReader.readField width bytes = some (value, rest)) :
    bytes.length = width + rest.length := by
  rw [PayloadReader.readField] at h
  split_ifs at h with hshort
  obtain ⟨-, rfl⟩ := Prod.mk.inj (Option.some.inj h)
  rw [List.length_drop]
  omega

theorem length_of_readBytes {bytes value rest : Bytes}
    (h : PayloadReader.readBytes bytes = some (value, rest)) :
    bytes.length = 4 + value.length + rest.length := by
  obtain ⟨size, hsize, h⟩ := Option.bind_eq_some_iff.mp h
  have hlength := length_of_readField hsize
  split_ifs at h with hshort
  obtain ⟨rfl, rfl⟩ := Prod.mk.inj (Option.some.inj h)
  rw [List.length_take, List.length_drop]
  omega

/-- The encoded records are shorter than the request they came in. -/
theorem length_of_readProduceBatchRequest {payload : Bytes} {request : ProduceBatchRequest}
    (h : readProduceBatchRequest payload = some request) :
    payload.length = 20 + request.topic.length + request.encodedRecords.length := by
  obtain ⟨topic, htopic, h⟩ := Option.bind_eq_some_iff.mp h
  obtain ⟨partition, hpartition, h⟩ := Option.bind_eq_some_iff.mp h
  obtain ⟨codec, hcodec, h⟩ := Option.bind_eq_some_iff.mp h
  obtain ⟨count, hcount, h⟩ := Option.bind_eq_some_iff.mp h
  obtain ⟨uncompressed, huncompressed, h⟩ := Option.bind_eq_some_iff.mp h
  obtain ⟨encoded, hencoded, h⟩ := Option.bind_eq_some_iff.mp h
  split_ifs at h with hend
  obtain rfl := Option.some.inj h
  have h₁ := length_of_readBytes htopic
  have h₂ := length_of_readField hpartition
  have h₃ := length_of_readField hcodec
  have h₄ := length_of_readField hcount
  have h₅ := length_of_readField huncompressed
  have h₆ := length_of_readBytes hencoded
  rw [hend, List.length_nil] at h₆
  dsimp only
  omega

theorem decodeProduceBatchRequest_ok {payload : Bytes} {request : ProduceBatchRequest}
    (h : decodeProduceBatchRequest payload = .ok request) :
    readProduceBatchRequest payload = some request ∧ request.topic ≠ [] := by
  rw [decodeProduceBatchRequest] at h
  cases hread : readProduceBatchRequest payload with
  | none =>
      rw [hread] at h
      cases h
  | some other =>
      rw [hread] at h
      dsimp only at h
      split_ifs at h with hempty hcodec
      obtain rfl := Except.ok.inj h
      exact ⟨rfl, fun htopic ↦ hempty (Or.inl htopic)⟩

end Sizes

end BoltStream.Protocol
