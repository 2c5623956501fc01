import BoltStream.Lib.Decimal
import BoltStream.Protocol.ExactCodecs
import BoltStream.Storage.OffsetStore
import BoltStream.Storage.PartitionLog

/-!
# Request handlers

The handlers of a session from the bytes of a frame to the bytes of its
response.  The runtime's operations are parameters, on a state of their own: the
topics and their logs, the committed offsets, the group coordinator and the
waiters.  Each operation may read and change all of that state; what the
handlers know besides is the configuration, the readiness of the server and the
session itself.
-/

namespace BoltStream.Broker

open BoltStream.Lib BoltStream.Protocol BoltStream.Compression BoltStream.Storage

variable {σ : Type}

/-- What an operation throws. -/
inductive Failure where
  | request (code : ErrorCode) (message : Bytes)
  | exception (message : Bytes)
  deriving DecidableEq

abbrev Call (σ request response : Type) := request → σ → σ × Except Failure response

/-- The operations of `BrokerRuntime` on its state. -/
structure Runtime (σ : Type) where
  createTopic : Call σ CreateTopicRequest CreateTopicResponse
  metadata : σ → List MetadataTopic
  /-- Enqueue an append; its completion comes later. -/
  asyncProduce : Call σ ProduceRequest Unit
  produceBatch : Call σ (ProduceBatchRequest × List BatchRecord) ProduceBatchResponse
  fetch : Call σ FetchRequest FetchResponse
  fetchEncodedBatch : Call σ FetchRequest (Option PartitionLog.EncodedBatch)
  registerFetchWaiter : Bytes → ℕ → σ → σ × Option ℕ
  cancelFetchWaiter : ℕ → σ → σ
  commitOffset : Call σ OffsetCommit OffsetCommit
  joinGroup : Call σ JoinGroupRequest GroupMember
  syncGroup : Call σ GroupMember SyncGroupResponse
  heartbeatGroup : Call σ GroupMember GroupMemberStatus
  leaveGroup : Call σ GroupMember GroupMemberStatus
  commitGroupOffset : Call σ GroupOffsetCommit GroupOffsetCommit
  listTopics : Call σ Unit ListTopicsResponse
  describeTopic : Call σ DescribeTopicRequest DescribeTopicResponse
  deleteTopic : Call σ DeleteTopicRequest DeleteTopicResponse
  runRetention : Call σ RunRetentionRequest RunRetentionResponse
  describeGroup : Call σ DescribeGroupRequest DescribeGroupResponse
  resetGroupOffset : Call σ ResetGroupOffsetRequest ResetGroupOffsetResponse

structure BrokerConfig where
  brokerToken : Bytes
  maxFrameBytes : ℕ
  maxProduceBatchRecords : ℕ
  maxUncompressedBatchBytes : ℕ
  maxFetchWaitMs : ℕ
  deriving DecidableEq

namespace BrokerConfig

def authRequired (config : BrokerConfig) : Bool := !config.brokerToken.isEmpty

def authenticate (config : BrokerConfig) (token : Bytes) : Bool :=
  !config.authRequired || token == config.brokerToken

end BrokerConfig

/-- `ready_()` and `ready_detail_()` -/
structure Readiness where
  ready : Bool
  detail : Bytes
  deriving DecidableEq

/-! ## Errors -/

def errorCodeField : ErrorCode → ℕ
  | .invalidMagic => 1
  | .unsupportedVersion => 2
  | .invalidLength => 3
  | .crcMismatch => 4
  | .malformedPayload => 5
  | .unsupportedRequest => 6
  | .notImplemented => 7
  | .internalError => 8
  | .reservedFlags => 9
  | .unauthorized => 10
  | .unknownTopic => 11
  | .topicConflict => 12
  | .invalidPartition => 13
  | .invalidGroup => 14
  | .invalidOffset => 15
  | .overloaded => 16
  | .rebalanceRequired => 17
  | .staleMember => 18
  | .offsetOutOfRange => 19
  | .groupActive => 20
  | .unsupportedCodec => 21
  | .invalidBatch => 22

def errorCodeName : ErrorCode → String
  | .invalidMagic => "invalid_magic"
  | .unsupportedVersion => "unsupported_version"
  | .invalidLength => "invalid_length"
  | .crcMismatch => "crc_mismatch"
  | .malformedPayload => "malformed_payload"
  | .unsupportedRequest => "unsupported_request"
  | .notImplemented => "not_implemented"
  | .internalError => "internal_error"
  | .reservedFlags => "reserved_flags"
  | .unauthorized => "unauthorized"
  | .unknownTopic => "unknown_topic"
  | .topicConflict => "topic_conflict"
  | .invalidPartition => "invalid_partition"
  | .invalidGroup => "invalid_group"
  | .invalidOffset => "invalid_offset"
  | .overloaded => "overloaded"
  | .rebalanceRequired => "rebalance_required"
  | .staleMember => "stale_member"
  | .offsetOutOfRange => "offset_out_of_range"
  | .groupActive => "group_active"
  | .unsupportedCodec => "unsupported_codec"
  | .invalidBatch => "invalid_batch"

def text (value : String) : Bytes := value.toUTF8.toList

theorem length_toList_loop (bytes : ByteArray) (i : ℕ) (read : Bytes) :
    (ByteArray.toList.loop bytes i read).length = read.length + (bytes.size - i) := by
  induction i, read using ByteArray.toList.loop.induct bytes with
  | case1 i read hlt ih =>
      rw [ByteArray.toList.loop, if_pos hlt, ih, List.length_cons]
      omega
  | case2 i read hge =>
      rw [ByteArray.toList.loop, if_neg hge, List.length_reverse]
      omega

theorem length_text (value : String) : (text value).length = value.utf8ByteSize :=
  (length_toList_loop value.toUTF8 0 []).trans (Nat.zero_add _)

/-- What a handler does at the end. -/
inductive Reaction where
  | write (frameType : FrameType) (payload : Bytes) (closeAfterWrite : Bool)
  /-- The completion of an append job will answer. -/
  | awaitAppend
  /-- A registered waiter or its timer will fetch again and answer. -/
  | awaitPoll (request : FetchRequest) (waiterId : ℕ)
  deriving DecidableEq

/-- `write_error`: a message that does not fit a frame is replaced by the code's
name. -/
def BrokerConfig.writeError (config : BrokerConfig) (code : ErrorCode) (message : Bytes)
    (closeAfterWrite : Bool) : Reaction :=
  let payload := encodeErrorResponse ⟨errorCodeField code, message⟩
  .write .errorResponse
    (if config.maxFrameBytes > kFrameHeaderBytes ∧
        payload.length > config.maxFrameBytes - kFrameHeaderBytes then
      encodeErrorResponse ⟨errorCodeField code, text (errorCodeName code)⟩
    else payload)
    closeAfterWrite

/-- What is answered to an operation that throws. -/
def BrokerConfig.writeFailure (config : BrokerConfig) : Failure → Reaction
  | .request code message => config.writeError code message false
  | .exception message => config.writeError .internalError message false

/-! ## The session -/

inductive Phase where
  | readHeader
  | appending (correlationId : ℕ)
  | polling (correlationId : ℕ) (request : FetchRequest)
  | writing (closeAfterWrite : Bool)
  | closed
  deriving DecidableEq

structure ProtocolSession where
  protocolVersion : ℕ := 0
  authenticated : Bool
  negotiatedCodecs : ℕ := kNoneMask
  activeWaiterId : Option ℕ := none
  phase : Phase := .readHeader
  deriving DecidableEq

def ProtocolSession.opened (config : BrokerConfig) : ProtocolSession :=
  { authenticated := !config.authRequired }

/-- The session and the runtime's state after a handler, and what the handler ends
with. -/
structure Handled (σ : Type) where
  session : ProtocolSession
  stored : σ
  reaction : Reaction

/-! ## Name checks -/

def checkTopicName (topic : Bytes) : Option DecodeError :=
  if isValidTopicName topic then none else some ⟨.malformedPayload, "invalid topic name"⟩

def checkGroupName (group : Bytes) : Option DecodeError :=
  if isValidGroupName group then none else some ⟨.invalidGroup, "invalid consumer group name"⟩

def checkGroupAndTopic (group topic : Bytes) : Option DecodeError :=
  (checkGroupName group).or (checkTopicName topic)

namespace ProtocolSession

section Handlers

variable (Z : Zstd) (runtime : Runtime σ) (config : BrokerConfig)

def requireAuth (session : ProtocolSession) (stored : σ) (next : Handled σ) : Handled σ :=
  if session.authenticated then next
  else ⟨session, stored, config.writeError .unauthorized (text "authentication required") true⟩

/-- Decode the payload, check its names, require authentication, and go on with the
request. -/
def withRequest {request : Type} (decode : Bytes → Except DecodeError request)
    (names : request → Option DecodeError) (session : ProtocolSession) (stored : σ)
    (payload : Bytes) (next : request → Handled σ) : Handled σ :=
  match decode payload with
  | .error error => ⟨session, stored, config.writeError error.code (text error.message) true⟩
  | .ok request =>
      match names request with
      | some error => ⟨session, stored, config.writeError error.code (text error.message) true⟩
      | none => requireAuth config session stored (next request)

/-- The handlers that answer with the result of one operation. -/
def handleCall {request response : Type} (decode : Bytes → Except DecodeError request)
    (names : request → Option DecodeError) (call : Call σ request response)
    (frameType : FrameType) (encode : response → Bytes) (session : ProtocolSession) (stored : σ)
    (payload : Bytes) : Handled σ :=
  withRequest config decode names session stored payload fun request ↦
    match call request stored with
    | (stored, .ok response) => ⟨session, stored, .write frameType (encode response) false⟩
    | (stored, .error failure) => ⟨session, stored, config.writeFailure failure⟩

def handleCreateTopic : ProtocolSession → σ → Bytes → Handled σ :=
  handleCall config decodeCreateTopicRequest (fun _ ↦ none) runtime.createTopic
    .createTopicResponse encodeCreateTopicResponse

def handleOffsetCommit : ProtocolSession → σ → Bytes → Handled σ :=
  handleCall config decodeOffsetCommitRequest
    (fun request ↦ checkGroupAndTopic request.group request.topic) runtime.commitOffset
    .offsetCommitResponse encodeOffsetCommitResponse

def handleJoinGroup : ProtocolSession → σ → Bytes → Handled σ :=
  handleCall config decodeJoinGroupRequest
    (fun request ↦ checkGroupAndTopic request.group request.topic) runtime.joinGroup
    .joinGroupResponse encodeJoinGroupResponse

def handleSyncGroup : ProtocolSession → σ → Bytes → Handled σ :=
  handleCall config decodeSyncGroupRequest
    (fun request ↦ checkGroupAndTopic request.group request.topic) runtime.syncGroup
    .syncGroupResponse encodeSyncGroupResponse

def handleHeartbeat : ProtocolSession → σ → Bytes → Handled σ :=
  handleCall config decodeHeartbeatRequest
    (fun request ↦ checkGroupAndTopic request.group request.topic) runtime.heartbeatGroup
    .heartbeatResponse encodeHeartbeatResponse

def handleLeaveGroup : ProtocolSession → σ → Bytes → Handled σ :=
  handleCall config decodeLeaveGroupRequest
    (fun request ↦ checkGroupAndTopic request.group request.topic) runtime.leaveGroup
    .leaveGroupResponse encodeLeaveGroupResponse

def handleGroupOffsetCommit : ProtocolSession → σ → Bytes → Handled σ :=
  handleCall config decodeGroupOffsetCommitRequest
    (fun request ↦ checkGroupAndTopic request.group request.topic) runtime.commitGroupOffset
    .groupOffsetCommitResponse encodeGroupOffsetCommitResponse

def handleListTopics : ProtocolSession → σ → Bytes → Handled σ :=
  handleCall config validateEmptyPayload (fun _ ↦ none) runtime.listTopics .listTopicsResponse
    encodeListTopicsResponse

def handleDescribeTopic : ProtocolSession → σ → Bytes → Handled σ :=
  handleCall config decodeDescribeTopicRequest (fun request ↦ checkTopicName request.topic)
    runtime.describeTopic .describeTopicResponse encodeDescribeTopicResponse

def handleDeleteTopic : ProtocolSession → σ → Bytes → Handled σ :=
  handleCall config decodeDeleteTopicRequest (fun request ↦ checkTopicName request.topic)
    runtime.deleteTopic .deleteTopicResponse encodeDeleteTopicResponse

/-- The empty topic stands for all topics. -/
def handleRunRetention : ProtocolSession → σ → Bytes → Handled σ :=
  handleCall config decodeRunRetentionRequest
    (fun request ↦ if request.topic.isEmpty then none else checkTopicName request.topic)
    runtime.runRetention .runRetentionResponse encodeRunRetentionResponse

def handleDescribeGroup : ProtocolSession → σ → Bytes → Handled σ :=
  handleCall config decodeDescribeGroupRequest
    (fun request ↦ checkGroupAndTopic request.group request.topic) runtime.describeGroup
    .describeGroupResponse encodeDescribeGroupResponse

def handleResetGroupOffset : ProtocolSession → σ → Bytes → Handled σ :=
  handleCall config decodeResetGroupOffsetRequest
    (fun request ↦ checkGroupAndTopic request.group request.topic) runtime.resetGroupOffset
    .resetGroupOffsetResponse encodeResetGroupOffsetResponse

/-- Health is answered without authentication. -/
def handleHealth (readiness : Readiness) (session : ProtocolSession) (stored : σ)
    (payload : Bytes) : Handled σ :=
  match validateEmptyPayload payload with
  | .error error => ⟨session, stored, config.writeError error.code (text error.message) true⟩
  | .ok _ =>
      ⟨session, stored, .write .healthResponse
        (encodeHealthResponse ⟨text (if readiness.ready then "ready" else "not_ready"),
          readiness.detail⟩) false⟩

def handleAuth (session : ProtocolSession) (stored : σ) (payload : Bytes) : Handled σ :=
  match decodeAuthRequest payload with
  | .error error => ⟨session, stored, config.writeError error.code (text error.message) true⟩
  | .ok request =>
      if config.authenticate request.token = false then
        ⟨session, stored, config.writeError .unauthorized (text "invalid broker token") true⟩
      else
        ⟨{ session with authenticated := true }, stored, .write .authResponse
          (encodeAuthResponse ⟨text (if config.authRequired then "authenticated" else "disabled")⟩)
          false⟩

/-- Before version 5 the request has no payload and asks for no codec. -/
def decodeRequestedCodecs (protocolVersion : ℕ) (payload : Bytes) : Except DecodeError ℕ :=
  if 5 ≤ protocolVersion then decodeMetadataRequest payload
  else (validateEmptyPayload payload).map fun _ ↦ kNoneMask

def handleMetadata (session : ProtocolSession) (stored : σ) (payload : Bytes) : Handled σ :=
  withRequest config (decodeRequestedCodecs session.protocolVersion) (fun _ ↦ none) session
    stored payload fun requestedCodecs ↦
      let negotiatedCodecs := (requestedCodecs &&& kSupportedCodecMask) ||| kNoneMask
      ⟨{ session with negotiatedCodecs := negotiatedCodecs }, stored, .write .metadataResponse
        (encodeMetadataResponse ⟨kSupportedCodecMask, negotiatedCodecs, runtime.metadata stored⟩
          session.protocolVersion) false⟩

/-- An accepted append answers when it completes. -/
def handleProduce (session : ProtocolSession) (stored : σ) (payload : Bytes) : Handled σ :=
  withRequest config decodeProduceRequest (fun request ↦ checkTopicName request.topic) session
    stored payload fun request ↦
      match runtime.asyncProduce request stored with
      | (stored, .ok _) => ⟨session, stored, .awaitAppend⟩
      | (stored, .error failure) => ⟨session, stored, config.writeFailure failure⟩

/-- Exceptions of the decompression and of the append close the connection. -/
def produceBatchRecords (session : ProtocolSession) (stored : σ)
    (request : ProduceBatchRequest) : Handled σ :=
  match decompress Z request.codec request.encodedRecords request.uncompressedBytes
      config.maxUncompressedBatchBytes with
  | .error message => ⟨session, stored, config.writeError .invalidBatch (text message) true⟩
  | .ok raw =>
      match decodeRecordSetPayload request.recordCount raw with
      | .error error => ⟨session, stored, config.writeError error.code (text error.message) true⟩
      | .ok records =>
          match runtime.produceBatch (request, records) stored with
          | (stored, .ok response) =>
              ⟨session, stored, .write .produceBatchResponse (encodeProduceBatchResponse response)
                false⟩
          | (stored, .error (.request code message)) =>
              ⟨session, stored, config.writeError code message false⟩
          | (stored, .error (.exception message)) =>
              ⟨session, stored, config.writeError .invalidBatch message true⟩

def handleProduceBatch (session : ProtocolSession) (stored : σ) (payload : Bytes) : Handled σ :=
  if session.protocolVersion < 5 then
    ⟨session, stored, config.writeError .unsupportedRequest
      (text "batch produce requires protocol version 5") true⟩
  else
    withRequest config decodeProduceBatchRequest (fun _ ↦ none) session stored payload fun request ↦
      if session.negotiatedCodecs &&& (1 <<< request.codec.toField) = 0 then
        ⟨session, stored, config.writeError .unsupportedCodec
          (text "compression codec was not negotiated") false⟩
      else if request.recordCount > config.maxProduceBatchRecords ∨
          request.uncompressedBytes > config.maxUncompressedBatchBytes then
        ⟨session, stored, config.writeError .invalidLength
          (text "produce batch exceeds configured limits") false⟩
      else produceBatchRecords Z runtime config session stored request

/-! ### Fetch -/

def writeFetchResponse (response : FetchResponse) : Reaction :=
  let payload := encodeFetchResponse response
  let maxPayloadBytes :=
    if config.maxFrameBytes ≤ kFrameHeaderBytes then 0 else config.maxFrameBytes - kFrameHeaderBytes
  if payload.length > maxPayloadBytes then
    config.writeError .invalidLength (text "fetch response exceeds configured maximum frame size")
      false
  else .write .fetchResponse payload false

/-- Fetch once and answer. -/
def fetchNow (session : ProtocolSession) (stored : σ) (request : FetchRequest) : Handled σ :=
  match runtime.fetch request stored with
  | (stored, .ok response) => ⟨session, stored, writeFetchResponse config response⟩
  | (stored, .error failure) => ⟨session, stored, config.writeFailure failure⟩

def registerLongPoll (session : ProtocolSession) (stored : σ) (request : FetchRequest)
    (fromOffset : ℕ) : Handled σ :=
  if session.activeWaiterId.isSome then
    ⟨session, stored, config.writeError .internalError
      (text "session already has an active long-poll waiter") false⟩
  else
    match runtime.registerFetchWaiter request.topic request.partition stored with
    | (stored, none) =>
        ⟨session, stored, config.writeError .overloaded (text "long-poll waiter limit reached")
          false⟩
    | (stored, some waiterId) =>
        ⟨{ session with activeWaiterId := some waiterId }, stored,
          .awaitPoll { request with maxWaitMs := 0, «from» := decimal fromOffset } waiterId⟩

/-- A fetch that finds nothing waits if it may. -/
def fetchPlain (session : ProtocolSession) (stored : σ) (request : FetchRequest) : Handled σ :=
  match runtime.fetch request stored with
  | (stored, .ok response) =>
      if response.records = [] ∧ request.maxWaitMs > 0 ∧
          response.fromOffset = response.nextOffset then
        registerLongPoll runtime config session stored request response.fromOffset
      else ⟨session, stored, writeFetchResponse config response⟩
  | (stored, .error failure) => ⟨session, stored, config.writeFailure failure⟩

def fetchOrWait (session : ProtocolSession) (stored : σ) (request : FetchRequest) : Handled σ :=
  if 5 ≤ session.protocolVersion ∧ session.negotiatedCodecs &&& kZstdMask ≠ 0 then
    match runtime.fetchEncodedBatch request stored with
    | (stored, .error failure) => ⟨session, stored, config.writeFailure failure⟩
    | (stored, .ok none) => fetchPlain runtime config session stored request
    | (stored, .ok (some batch)) =>
        let payload := encodeCompressedFetchResponse batch.metadata.topic batch.metadata.partition
          batch.metadata.baseOffset batch.metadata.nextOffset batch.metadata.timestampUnixNs
          batch.metadata.codec batch.metadata.recordCount batch.metadata.logicalBytes
          batch.encodedRecords
        if payload.length + kFrameHeaderBytes ≤ config.maxFrameBytes then
          ⟨session, stored, .write .fetchResponse payload false⟩
        else fetchPlain runtime config session stored request
  else fetchPlain runtime config session stored request

def handleFetch (session : ProtocolSession) (stored : σ) (payload : Bytes) : Handled σ :=
  withRequest config decodeFetchRequest
    (fun request ↦ (checkTopicName request.topic).or
      (if request.group.isEmpty then none else checkGroupName request.group))
    session stored payload fun request ↦
      fetchOrWait runtime config session stored
        { request with maxWaitMs := min request.maxWaitMs config.maxFetchWaitMs }

/-! ### Frames -/

/-- `handle_frame`.  A type that is not a request of a client gets the same code and
another text than a request that no handler takes; there is none of these. -/
def handleFrame (readiness : Readiness) (session : ProtocolSession) (stored : σ)
    (frameType : FrameType) (payload : Bytes) : Handled σ :=
  match frameType with
  | .healthRequest => handleHealth config readiness session stored payload
  | .metadataRequest => handleMetadata runtime config session stored payload
  | .produceRequest => handleProduce runtime config session stored payload
  | .produceBatchRequest => handleProduceBatch Z runtime config session stored payload
  | .fetchRequest => handleFetch runtime config session stored payload
  | .offsetCommitRequest => handleOffsetCommit runtime config session stored payload
  | .authRequest => handleAuth config session stored payload
  | .createTopicRequest => handleCreateTopic runtime config session stored payload
  | .joinGroupRequest => handleJoinGroup runtime config session stored payload
  | .syncGroupRequest => handleSyncGroup runtime config session stored payload
  | .heartbeatRequest => handleHeartbeat runtime config session stored payload
  | .leaveGroupRequest => handleLeaveGroup runtime config session stored payload
  | .groupOffsetCommitRequest => handleGroupOffsetCommit runtime config session stored payload
  | .listTopicsRequest => handleListTopics runtime config session stored payload
  | .describeTopicRequest => handleDescribeTopic runtime config session stored payload
  | .deleteTopicRequest => handleDeleteTopic runtime config session stored payload
  | .runRetentionRequest => handleRunRetention runtime config session stored payload
  | .describeGroupRequest => handleDescribeGroup runtime config session stored payload
  | .resetGroupOffsetRequest => handleResetGroupOffset runtime config session stored payload
  | _ =>
      ⟨session, stored, config.writeError .unsupportedRequest
        (text "frame type is not a client request") false⟩

end Handlers

end ProtocolSession

/-! ## Events -/

/-- A session of the broker, what the broker stores, and the response frames sent. -/
structure BrokerSession (σ : Type) where
  session : ProtocolSession
  readiness : Readiness
  stored : σ
  responses : List Bytes := []

inductive SessionEvent (σ : Type) where
  /-- A header arrives and, if it is accepted, its payload. -/
  | frame (header payload : Bytes)
  | written (failed : Bool)
  | appendCompleted (result : Except Failure ProduceResponse)
  | waiterNotified
  | timerExpired
  | disconnected
  | readinessChanged (readiness : Readiness)
  /-- Other sessions and the broker's own threads change what is stored. -/
  | elsewhere (change : σ → σ)

namespace BrokerSession

section Events

variable (Z : Zstd) (runtime : Runtime σ) (config : BrokerConfig)

/-- `write_frame` uses the current version before the first frame has set one. -/
def writeFrame (s : BrokerSession σ) (frameType : FrameType) (correlationId : ℕ)
    (payload : Bytes) (closeAfterWrite : Bool) : BrokerSession σ :=
  let version :=
    if s.session.protocolVersion = 0 then kProtocolVersion else s.session.protocolVersion
  { s with
      session := { s.session with phase := .writing closeAfterWrite }
      responses := s.responses ++ [encodeFrame version frameType correlationId payload 0] }

def react (s : BrokerSession σ) (correlationId : ℕ) : Reaction → BrokerSession σ
  | .write frameType payload closeAfterWrite =>
      s.writeFrame frameType correlationId payload closeAfterWrite
  | .awaitAppend => { s with session := { s.session with phase := .appending correlationId } }
  | .awaitPoll request _ =>
      { s with session := { s.session with phase := .polling correlationId request } }

/-- Take over what a handler did. -/
def conclude (s : BrokerSession σ) (correlationId : ℕ) (handled : Handled σ) :
    BrokerSession σ :=
  { s with session := handled.session, stored := handled.stored }.react correlationId
    handled.reaction

def cancelActiveWaiter (s : BrokerSession σ) : BrokerSession σ :=
  match s.session.activeWaiterId with
  | none => s
  | some waiterId =>
      { s with
          session := { s.session with activeWaiterId := none }
          stored := runtime.cancelFetchWaiter waiterId s.stored }

def close (s : BrokerSession σ) : BrokerSession σ :=
  { s with session := { s.session with phase := .closed } }

/-- The handlers of the header read and of the payload read. -/
def receive (s : BrokerSession σ) (header payload : Bytes) : BrokerSession σ :=
  let decoded := decodeHeader header config.maxFrameBytes
  match decoded.error with
  | some error =>
      s.react decoded.header.correlationId
        (config.writeError error.code (text error.message) true)
  | none =>
      if s.session.protocolVersion ≠ 0 ∧
          s.session.protocolVersion ≠ decoded.header.version then
        s.react decoded.header.correlationId
          (config.writeError .unsupportedVersion
            (text "protocol version changed within one connection") true)
      else
        let session := { s.session with protocolVersion := decoded.header.version }
        s.conclude decoded.header.correlationId
          (session.handleFrame Z runtime config s.readiness s.stored decoded.header.frameType
            payload)

/-- The waiter or the timer has ended a long poll. -/
def endPoll (s : BrokerSession σ) (correlationId : ℕ) (request : FetchRequest) :
    BrokerSession σ :=
  let session := { s.session with activeWaiterId := none }
  s.conclude correlationId (session.fetchNow runtime config s.stored request)

/-- What cannot happen in a phase is ignored. -/
def step (s : BrokerSession σ) (event : SessionEvent σ) : BrokerSession σ :=
  match event, s.session.phase with
  | .frame header payload, .readHeader => s.receive Z runtime config header payload
  | .written failed, .writing closeAfterWrite =>
      if failed then (s.cancelActiveWaiter runtime).close
      else if closeAfterWrite then s.close
      else { s with session := { s.session with phase := .readHeader } }
  | .appendCompleted (.ok response), .appending correlationId =>
      s.writeFrame .produceResponse correlationId (encodeProduceResponse response) false
  | .appendCompleted (.error failure), .appending correlationId =>
      s.react correlationId (config.writeFailure failure)
  | .waiterNotified, .polling correlationId request =>
      s.endPoll runtime config correlationId request
  | .timerExpired, .polling correlationId request =>
      let cancelled := s.cancelActiveWaiter runtime
      cancelled.endPoll runtime config correlationId request
  | .disconnected, .readHeader => s.close
  | .readinessChanged readiness, _ => { s with readiness := readiness }
  | .elsewhere change, _ => { s with stored := change s.stored }
  | _, _ => s

def run (s : BrokerSession σ) (events : List (SessionEvent σ)) : BrokerSession σ :=
  events.foldl (step Z runtime config) s

def opened (config : BrokerConfig) (readiness : Readiness) (stored : σ) : BrokerSession σ :=
  { session := .opened config, readiness := readiness, stored := stored }

end Events

end BrokerSession

end BoltStream.Broker
