import BoltStream.Broker.AppendBatch
import BoltStream.Broker.Fetch
import BoltStream.Protocol.Frames
import BoltStream.Storage.LogRuns

/-!
# Requests the broker accepts

A produce request reaches a partition log after its frame header, its payload and
the configured limits have been checked.  What passes these checks fits the entry
format and has values, so the log can always read it back.
-/

namespace BoltStream.Broker

open BoltStream.Lib BoltStream.Protocol BoltStream.Compression BoltStream.Storage

/-- The options of the server that limit requests and partition logs, as
`parse_server_options` lets them pass. -/
structure ServerConfig where
  limits : FetchLimits
  maxProduceBatchRecords : UInt32
  maxUncompressedBatchBytes : UInt32
  segmentBytes : UInt64
  segmentMaxAgeSeconds : UInt64
  maxFrameBytes_ne : limits.maxFrameBytes ≠ 0
  maxFetchRecords_ne : limits.maxFetchRecords ≠ 0
  maxFetchBytes_ne : limits.maxFetchBytes ≠ 0
  maxProduceBatchRecords_ne : maxProduceBatchRecords ≠ 0
  maxProduceBatchRecords_le : maxProduceBatchRecords ≤ 1024
  maxUncompressedBatchBytes_ne : maxUncompressedBatchBytes ≠ 0
  segmentBytes_ne : segmentBytes ≠ 0

namespace ServerConfig

/-! ### Default options pass their checks -/

theorem defaultFrameBytes_ne : (1048576 : UInt32) ≠ 0 := by decide

theorem defaultBatchRecords_ne : (1024 : UInt32) ≠ 0 := by decide

theorem defaultBatchRecords_le : (1024 : UInt32) ≤ 1024 := by decide

theorem defaultSegmentBytes_ne : (268435456 : UInt64) ≠ 0 := by decide

/-- The options a partition log is opened with. -/
def logOptions (config : ServerConfig) (topic : Bytes) (partition : ℕ) : PartitionLogOptions :=
  { topic := topic
    partitionId := partition
    maxSegmentBytes := config.segmentBytes.toNat
    segmentMaxAgeSeconds := config.segmentMaxAgeSeconds.toNat
    maxUncompressedBatchBytes := config.maxUncompressedBatchBytes.toNat }

/-- A session has read this header and this payload. -/
structure Receives (config : ServerConfig) (frameType : FrameType) (header payload : Bytes) :
    Prop where
  decodes : (decodeHeader header config.limits.maxFrameBytes.toNat).error = none
  frameType : (decodeHeader header config.limits.maxFrameBytes.toNat).header.frameType = frameType
  payload : (decodeHeader header config.limits.maxFrameBytes.toNat).header.payloadBytes =
    payload.length

instance (config : ServerConfig) (frameType : FrameType) (header payload : Bytes) :
    Decidable (config.Receives frameType header payload) :=
  decidable_of_iff
    ((decodeHeader header config.limits.maxFrameBytes.toNat).error = none ∧
      (decodeHeader header config.limits.maxFrameBytes.toNat).header.frameType = frameType ∧
      (decodeHeader header config.limits.maxFrameBytes.toNat).header.payloadBytes =
        payload.length)
    ⟨fun h ↦ ⟨h.1, h.2.1, h.2.2⟩, fun h ↦ ⟨h.decodes, h.frameType, h.payload⟩⟩

theorem Receives.length_payload {config : ServerConfig} {frameType : FrameType}
    {header payload : Bytes} (h : config.Receives frameType header payload) :
    payload.length + kFrameHeaderBytes ≤ config.limits.maxFrameBytes.toNat :=
  h.payload ▸ payloadBytes_le_of_decodeHeader h.decodes

end ServerConfig

/-! ## Accepted requests -/

/-- The checks of `handle_produce` before it produces. -/
def acceptProduce (payload : Bytes) : Except DecodeError ProduceRequest :=
  (decodeProduceRequest payload).bind fun request ↦
    if isValidTopicName request.topic = false then
      .error ⟨.malformedPayload, "invalid topic name"⟩
    else .ok request

/-- The checks of `handle_produce_batch` before it produces, on a session with the
given protocol version and negotiated codecs. -/
def acceptProduceBatch (Z : Zstd) (config : ServerConfig) (version negotiatedCodecs : ℕ)
    (payload : Bytes) : Except DecodeError (ProduceBatchRequest × List AppendRecord) :=
  if version < 5 then
    .error ⟨.unsupportedRequest, "batch produce requires protocol version 5"⟩
  else
    (decodeProduceBatchRequest payload).bind fun request ↦
      if negotiatedCodecs.testBit request.codec.toField = false then
        .error ⟨.unsupportedCodec, "compression codec was not negotiated"⟩
      else if request.recordCount > config.maxProduceBatchRecords.toNat ∨
          request.uncompressedBytes > config.maxUncompressedBatchBytes.toNat then
        .error ⟨.invalidLength, "produce batch exceeds configured limits"⟩
      else
        ((decompress Z request.codec request.encodedRecords request.uncompressedBytes
          config.maxUncompressedBatchBytes.toNat).bind fun raw ↦
            decodeRecordSet raw request.recordCount).mapError
              (fun message ↦ ⟨.invalidBatch, message⟩) |>.map fun records ↦
                (request, records.map fun record ↦ ⟨record.key, record.message⟩)

/-- A record of an accepted produce request. -/
def AcceptedRecord (config : ServerConfig) (topic : Bytes) (record : AppendRecord) : Prop :=
  ∃ header payload request, config.Receives .produceRequest header payload ∧
    acceptProduce payload = .ok request ∧ request.topic = topic ∧ appendRecord request = record

/-- A log operation that the broker makes for requests it has accepted. -/
def AcceptedOp (Z : Zstd) (config : ServerConfig) (topic : Bytes) (partition : ℕ) : LogOp → Prop
  | .append _ key value => AcceptedRecord config topic ⟨key, value⟩
  | .appendBatch _ records => ∀ record ∈ records, AcceptedRecord config topic record
  | .appendEncodedBatch codec encodedRecords uncompressedBytes decodedRecords _ =>
      ∃ header payload version negotiatedCodecs request,
        config.Receives .produceBatchRequest header payload ∧
        acceptProduceBatch Z config version negotiatedCodecs payload =
          .ok (request, decodedRecords) ∧
        request.topic = topic ∧ request.partition = partition ∧ request.codec = codec ∧
        request.uncompressedBytes = uncompressedBytes.toNat ∧
        request.encodedRecords = encodedRecords
  | .applyRetention _ _ => True
  | .reopen => True

/-! ## What acceptance gives -/

theorem message_ne_of_decodeRecords :
    ∀ {count : ℕ} {bytes rest : Bytes} {records : List BatchRecord},
      decodeRecords count bytes = some (records, rest) → ∀ r ∈ records, r.message ≠ [] := by
  intro count
  induction count with
  | zero =>
      intro bytes rest records h
      obtain ⟨rfl, -⟩ := Prod.mk.inj (Option.some.inj h)
      exact fun r hr ↦ absurd hr List.not_mem_nil
  | succ count ih =>
      intro bytes rest records h
      obtain ⟨⟨first, behind⟩, hfirst, h⟩ := Option.bind_eq_some_iff.mp h
      obtain ⟨⟨others, rest'⟩, hothers, h⟩ := Option.map_eq_some_iff.mp h
      obtain ⟨rfl, -⟩ := Prod.mk.inj h
      intro r hr
      rcases List.mem_cons.mp hr with rfl | hr
      · obtain ⟨key, -, hfirst⟩ := Option.bind_eq_some_iff.mp hfirst
        obtain ⟨message, -, hfirst⟩ := Option.bind_eq_some_iff.mp hfirst
        split_ifs at hfirst with hempty
        obtain ⟨rfl, -⟩ := Prod.mk.inj (Option.some.inj hfirst)
        exact hempty
      · exact ih hothers r hr

theorem message_ne_of_decodeRecordSet {payload : Bytes} {count : ℕ} {records : List BatchRecord}
    (h : decodeRecordSet payload count = .ok records) : ∀ r ∈ records, r.message ≠ [] := by
  rw [decodeRecordSet] at h
  cases hcount : PayloadReader.readU32 payload with
  | none =>
      rw [hcount, orError_none, error_bind] at h
      cases h
  | some field =>
      rw [hcount, orError_some, ok_bind] at h
      split_ifs at h with hmismatch
      cases hrecords : decodeRecords field.1 field.2 with
      | none =>
          rw [hrecords, orError_none, error_bind] at h
          cases h
      | some decoded =>
          rw [hrecords, orError_some, ok_bind] at h
          split_ifs at h with hend
          rw [← Except.ok.inj h]
          exact message_ne_of_decodeRecords hrecords

/-- The request and its limits, the bytes it decompresses to and the records in them. -/
theorem acceptProduceBatch_parts {Z : Zstd} {config : ServerConfig}
    {version negotiatedCodecs : ℕ} {payload : Bytes} {request : ProduceBatchRequest}
    {records : List AppendRecord}
    (h : acceptProduceBatch Z config version negotiatedCodecs payload = .ok (request, records)) :
    decodeProduceBatchRequest payload = .ok request ∧ ∃ raw set,
      decompress Z request.codec request.encodedRecords request.uncompressedBytes
        config.maxUncompressedBatchBytes.toNat = .ok raw ∧
      decodeRecordSet raw request.recordCount = .ok set ∧
      records = set.map fun record ↦ ⟨record.key, record.message⟩ := by
  rw [acceptProduceBatch] at h
  split_ifs at h with hversion
  obtain ⟨decoded, hrequest, h⟩ := bind_eq_ok h
  split_ifs at h with hcodec hlimits
  cases hraw : decompress Z decoded.codec decoded.encodedRecords decoded.uncompressedBytes
      config.maxUncompressedBatchBytes.toNat with
  | error message =>
      rw [hraw, error_bind] at h
      cases h
  | ok raw =>
      rw [hraw, ok_bind] at h
      cases hset : decodeRecordSet raw decoded.recordCount with
      | error message =>
          rw [hset] at h
          cases h
      | ok set =>
          rw [hset] at h
          obtain ⟨rfl, rfl⟩ := Prod.mk.inj (Except.ok.inj h)
          exact ⟨hrequest, raw, set, hraw, hset, rfl⟩

/-- What the checks of `handle_produce_batch` establish. -/
theorem acceptProduceBatch_ok {Z : Zstd} {config : ServerConfig} {version negotiatedCodecs : ℕ}
    {payload : Bytes} {request : ProduceBatchRequest} {records : List AppendRecord}
    (h : acceptProduceBatch Z config version negotiatedCodecs payload = .ok (request, records)) :
    decodeProduceBatchRequest payload = .ok request ∧
      ∀ record ∈ records, record.value ≠ [] := by
  obtain ⟨hrequest, raw, set, -, hset, rfl⟩ := acceptProduceBatch_parts h
  refine ⟨hrequest, fun record hrecord ↦ ?_⟩
  obtain ⟨r, hr, rfl⟩ := List.mem_map.mp hrecord
  exact message_ne_of_decodeRecordSet hset r hr

/-- Accepted requests fit the entry format and have values. -/
theorem AcceptedOp.sized {Z : Zstd} {config : ServerConfig} {topic : Bytes} {partition : ℕ}
    {op : LogOp} (h : AcceptedOp Z config topic partition op) : op.Sized ∧ op.ValuesPresent := by
  cases op with
  | append => exact ⟨trivial, trivial⟩
  | appendBatch => exact ⟨trivial, trivial⟩
  | applyRetention => exact ⟨trivial, trivial⟩
  | reopen => exact ⟨trivial, trivial⟩
  | appendEncodedBatch codec encodedRecords uncompressedBytes decodedRecords timestamp =>
      obtain ⟨header, payload, version, negotiatedCodecs, request, hreceives, haccepted, -, -, -,
        -, hencoded⟩ := h
      obtain ⟨hdecoded, hvalues⟩ := acceptProduceBatch_ok haccepted
      obtain ⟨hread, htopic⟩ := decodeProduceBatchRequest_ok hdecoded
      refine ⟨?_, hvalues⟩
      -- The frame maximum is itself a 32-bit number.
      have hlength := length_of_readProduceBatchRequest hread
      have hframe := hreceives.length_payload
      have hmax := config.limits.maxFrameBytes.toNat_lt
      have htopicLength := List.length_pos_iff.mpr htopic
      rw [hencoded] at hlength
      rw [LogOp.Sized]
      simp only [kFrameHeaderBytes] at hframe
      omega

end BoltStream.Broker
