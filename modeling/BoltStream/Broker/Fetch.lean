import BoltStream.Protocol.Fetch
import BoltStream.Storage.OffsetStore
import BoltStream.Storage.PartitionLog

/-!
# Fetching

How the broker answers a fetch from one partition, with the topic and the
partition found and their locks taken.  The plain path packs records into a
response; on sessions that negotiated zstd a stored batch is forwarded as it is.
-/

namespace BoltStream.Broker

open BoltStream.Lib BoltStream.Protocol BoltStream.Compression BoltStream.Storage

/-- A `BrokerRequestError`, or any other exception, which a session reports as
an internal error. -/
inductive BrokerError where
  | request (code : ErrorCode) (message : String)
  | exception (message : String)
  deriving DecidableEq, Repr

/-- A call into the storage layer. -/
def storageCall {α : Type*} (result : Except String α) : Except BrokerError α :=
  result.mapError BrokerError.exception

structure FetchLimits where
  maxFrameBytes : UInt32
  maxFetchRecords : UInt32
  maxFetchBytes : UInt32
  deriving DecidableEq, Repr

namespace FetchLimits

def maxFetchPayloadBytes (limits : FetchLimits) : ℕ :=
  if limits.maxFrameBytes.toNat ≤ kFrameHeaderBytes then 0
  else min limits.maxFetchBytes.toNat (limits.maxFrameBytes.toNat - kFrameHeaderBytes)

end FetchLimits

def fetchPayloadBaseBytes (topic : Bytes) : ℕ := 4 + topic.length + 2 + 8 + 8 + 4

def fetchRecordPayloadBytes (record : Record) : ℕ :=
  8 + 8 + 4 + record.key.length + 4 + record.value.length + 4

/-! ## Selectors -/

/-- The bytes of `beginning`. -/
def beginningSelector : Bytes := [98, 101, 103, 105, 110, 110, 105, 110, 103]

/-- The bytes of `latest`. -/
def latestSelector : Bytes := [108, 97, 116, 101, 115, 116]

/-- The bytes of `committed`. -/
def committedSelector : Bytes := [99, 111, 109, 109, 105, 116, 116, 101, 100]

/-- The range checks made on an offset, with the messages for below and beyond. -/
def checkOffsetRange (earliestOffset nextOffset offset : ℕ) (below beyond : String) :
    Except BrokerError ℕ :=
  if offset < earliestOffset then .error (.request .offsetOutOfRange below)
  else if offset > nextOffset then .error (.request .invalidOffset beyond)
  else .ok offset

def resolveFetchOffset (request : FetchRequest) (offsets : OffsetStore)
    (earliestOffset nextOffset : ℕ) : Except BrokerError ℕ :=
  if request.from = beginningSelector then .ok earliestOffset
  else if request.from = latestSelector then .ok nextOffset
  else if request.from = committedSelector then
    if isValidGroupName request.group = false then
      .error (.request .invalidGroup "invalid consumer group name")
    else
      checkOffsetRange earliestOffset nextOffset
        ((offsets.committed request.group request.topic request.partition).getD earliestOffset)
        "committed offset is below partition earliest offset"
        "committed offset is beyond partition next offset"
  else
    match parseDecimal (2 ^ 64) request.from with
    | none =>
        .error (.request .malformedPayload
          "fetch offset selector must be beginning, latest, committed, or an unsigned offset")
    | some offset =>
        checkOffsetRange earliestOffset nextOffset offset
          "fetch offset is below partition earliest offset"
          "fetch offset is beyond partition next offset"

/-! ## The plain path -/

def fetchRecord (record : Record) : FetchRecord :=
  { offset := record.metadata.offset
    timestampUnixNs := record.metadata.timestampUnixNs
    key := record.key
    message := record.value
    encodedByteSize := record.metadata.encodedByteSize }

/-- The record loop of `fetch`, with the records packed so far and the payload
bytes they take. -/
def packRecords (maxPayloadBytes : ℕ) :
    List FetchRecord → ℕ → List Record → Except BrokerError (List FetchRecord)
  | packed, _, [] => .ok packed
  | packed, payloadBytes, record :: rest =>
      let recordPayloadBytes := fetchRecordPayloadBytes record
      if payloadBytes + recordPayloadBytes > maxPayloadBytes then
        if packed = [] then
          .error (.request .invalidLength
            "single fetch record exceeds configured maximum response size")
        else .ok packed
      else
        packRecords maxPayloadBytes (packed ++ [fetchRecord record])
          (payloadBytes + recordPayloadBytes) rest

/-- One past the last record of a response, or where it started. -/
def responseNextOffset (fromOffset : ℕ) (records : List FetchRecord) : ℕ :=
  match records.getLast? with
  | none => fromOffset
  | some record => (record.offset + 1) % 2 ^ 64

def fetch (Z : Zstd) (limits : FetchLimits) (offsets : OffsetStore) (log : PartitionLog)
    (request : FetchRequest) : Except BrokerError FetchResponse :=
  (resolveFetchOffset request offsets log.earliestOffset log.nextOffset).bind fun fromOffset ↦
    if fetchPayloadBaseBytes request.topic > limits.maxFetchPayloadBytes then
      .error (.request .invalidLength "fetch response metadata exceeds configured maximum size")
    else
      (storageCall (log.readFrom Z fromOffset limits.maxFetchRecords.toNat
        limits.maxFetchBytes.toNat)).bind fun records ↦
          (packRecords limits.maxFetchPayloadBytes [] (fetchPayloadBaseBytes request.topic)
            records).map fun packed ↦
              { topic := request.topic
                partition := request.partition
                fromOffset := fromOffset
                nextOffset := responseNextOffset fromOffset packed
                records := packed }

/-- The payload that `write_fetch_response` sends. -/
def writeFetchResponse (limits : FetchLimits) (response : FetchResponse) :
    Except BrokerError Bytes :=
  let payload := encodeFetchResponse response
  if payload.length > limits.maxFrameBytes.toNat - kFrameHeaderBytes then
    .error (.request .invalidLength "fetch response exceeds configured maximum frame size")
  else .ok payload

/-! ## The compressed path -/

def fetchEncodedBatch (Z : Zstd) (limits : FetchLimits) (offsets : OffsetStore)
    (log : PartitionLog) (request : FetchRequest) :
    Except BrokerError (Option PartitionLog.EncodedBatch) :=
  (resolveFetchOffset request offsets log.earliestOffset log.nextOffset).bind fun fromOffset ↦
    (storageCall (log.readEncodedBatch Z fromOffset)).map fun batch ↦
      batch.filter fun batch ↦
        decide (batch.metadata.codec = .zstd ∧
          batch.metadata.recordCount ≤ limits.maxFetchRecords.toNat ∧
          batch.metadata.encodedBytes ≤ limits.maxFetchBytes.toNat)

def encodedBatchPayload (batch : PartitionLog.EncodedBatch) : Bytes :=
  encodeCompressedFetchResponse batch.metadata.topic batch.metadata.partition
    batch.metadata.baseOffset batch.metadata.nextOffset batch.metadata.timestampUnixNs
    batch.metadata.codec batch.metadata.recordCount batch.metadata.logicalBytes
    batch.encodedRecords

/-- What `fetch_or_wait` has found: the payload of a forwarded batch, or the
response of the plain path. -/
inductive FetchAnswer where
  | compressed (payload : Bytes)
  | plain (response : FetchResponse)
  deriving DecidableEq, Repr

/-- The first part of `fetch_or_wait`, on a session that may be `negotiated`: of
version 5 and with zstd. -/
def answerFetch (Z : Zstd) (limits : FetchLimits) (offsets : OffsetStore) (log : PartitionLog)
    (negotiated : Bool) (request : FetchRequest) : Except BrokerError FetchAnswer :=
  let plain := (fetch Z limits offsets log request).map FetchAnswer.plain
  if negotiated then
    (fetchEncodedBatch Z limits offsets log request).bind fun batch ↦
      match batch with
      | none => plain
      | some batch =>
          let payload := encodedBatchPayload batch
          if payload.length + kFrameHeaderBytes ≤ limits.maxFrameBytes.toNat then
            .ok (.compressed payload)
          else plain
  else plain

section Answer

variable {Z : Zstd} {limits : FetchLimits} {offsets : OffsetStore} {log : PartitionLog}
  {request : FetchRequest}

theorem answerFetch_of_none (h : fetchEncodedBatch Z limits offsets log request = .ok none) :
    answerFetch Z limits offsets log true request =
      (fetch Z limits offsets log request).map FetchAnswer.plain := by
  rw [answerFetch, if_pos rfl, h, ok_bind]

theorem answerFetch_of_some {batch : PartitionLog.EncodedBatch}
    (h : fetchEncodedBatch Z limits offsets log request = .ok (some batch)) :
    answerFetch Z limits offsets log true request =
      if (encodedBatchPayload batch).length + kFrameHeaderBytes ≤ limits.maxFrameBytes.toNat then
        .ok (.compressed (encodedBatchPayload batch))
      else (fetch Z limits offsets log request).map FetchAnswer.plain := by
  rw [answerFetch, if_pos rfl, h, ok_bind]

end Answer

end BoltStream.Broker
