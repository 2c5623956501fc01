import BoltStream.Protocol.Frames

/-!
# Broker sessions

A session reads a frame, handles it and writes a response before it reads the
next frame.  What it has started is kept as a list of asynchronous operations;
an event completes one of them, in any order, and runs its handler on the
session's strand.  What the handlers learn from the payload and from the runtime
comes with the event.

Every frame read has a number, and every operation, long poll and response
carries the number of the request it was made for.  The code has no such number:
it only serves to say what belongs to what.
-/

namespace BoltStream.Broker

open BoltStream.Lib BoltStream.Protocol

/-- A registered long poll: the two closures of `register_long_poll`. -/
structure LongPoll where
  request : ℕ
  correlationId : ℕ
  waiterId : ℕ
  deriving DecidableEq, Repr

/-- What a session has started and what is queued for its strand. -/
inductive Operation where
  | header
  | payload (header : FrameHeader)
  /-- An append job, up to the run of its completion. -/
  | append (request correlationId : ℕ)
  /-- The handler that a notified waiter has posted. -/
  | callback (poll : LongPoll)
  | timer (poll : LongPoll)
  /-- The handler of a timer that has expired or was cancelled. -/
  | timerHandler (poll : LongPoll) (cancelled : Bool)
  | write (closeAfterWrite : Bool)
  deriving DecidableEq, Repr

structure Response where
  request : ℕ
  correlationId : ℕ
  frameType : FrameType
  error : Option ErrorCode
  deriving DecidableEq, Repr

structure Session where
  protocolVersion : ℕ := 0
  authenticated : Bool
  negotiatedCodecs : ℕ := 1
  activeWaiterId : Option ℕ := none
  operations : List Operation
  /-- The session's entries in the runtime's `waiters_`. -/
  waiters : List LongPoll := []
  /-- The requests whose `completed` flag is set. -/
  completed : List ℕ := []
  /-- The headers of the frames read, in order. -/
  requests : List FrameHeader := []
  responses : List Response := []
  deriving DecidableEq

/-! ## Handlers -/

inductive CallResult where
  | ok
  | requestError (code : ErrorCode)
  | exception
  deriving DecidableEq, Repr

/-- What `fetch_or_wait` finds. -/
inductive FetchResult where
  | compressed
  /-- A response, and whether its payload fits a frame. -/
  | response (fits : Bool)
  /-- No records, and the request wants to wait. -/
  | nothing
  | requestError (code : ErrorCode)
  | exception
  deriving DecidableEq, Repr

/-- What a handler learns from the payload and from the runtime. -/
structure HandlerInput where
  /-- The error of the payload decoder or of the checks on names. -/
  decodeError : Option ErrorCode
  requestedCodecs : ℕ
  tokenAccepted : Bool
  codec : ℕ
  withinLimits : Bool
  /-- The error of `decode_record_set`. -/
  recordSetError : Option ErrorCode
  call : CallResult
  fetch : FetchResult
  /-- What `register_fetch_waiter` returns. -/
  waiterId : Option ℕ
  deriving DecidableEq, Repr

/-- What a handler does with its request. -/
inductive Reply where
  | write (frameType : FrameType) (error : Option ErrorCode) (closeAfterWrite : Bool)
  | enqueue
  | longPoll
  deriving DecidableEq, Repr

def writeError (code : ErrorCode) (closeAfterWrite : Bool) : Reply :=
  .write .errorResponse (some code) closeAfterWrite

def afterDecode (input : HandlerInput) (next : Reply) : Reply :=
  match input.decodeError with
  | some code => writeError code true
  | none => next

def answerCall (frameType : FrameType) : CallResult → Reply
  | .ok => .write frameType none false
  | .requestError code => writeError code false
  | .exception => writeError .internalError false

namespace Session

def requireAuth (s : Session) (next : Reply) : Reply :=
  if s.authenticated then next else writeError .unauthorized true

/-- The handlers that decode, check the session and call the runtime. -/
def handleCall (s : Session) (input : HandlerInput) (frameType : FrameType) : Reply :=
  afterDecode input (s.requireAuth (answerCall frameType input.call))

def handleCreateTopic (s : Session) (input : HandlerInput) : Reply :=
  s.handleCall input .createTopicResponse

def handleOffsetCommit (s : Session) (input : HandlerInput) : Reply :=
  s.handleCall input .offsetCommitResponse

def handleJoinGroup (s : Session) (input : HandlerInput) : Reply :=
  s.handleCall input .joinGroupResponse

def handleSyncGroup (s : Session) (input : HandlerInput) : Reply :=
  s.handleCall input .syncGroupResponse

def handleHeartbeat (s : Session) (input : HandlerInput) : Reply :=
  s.handleCall input .heartbeatResponse

def handleLeaveGroup (s : Session) (input : HandlerInput) : Reply :=
  s.handleCall input .leaveGroupResponse

def handleGroupOffsetCommit (s : Session) (input : HandlerInput) : Reply :=
  s.handleCall input .groupOffsetCommitResponse

def handleListTopics (s : Session) (input : HandlerInput) : Reply :=
  s.handleCall input .listTopicsResponse

def handleDescribeTopic (s : Session) (input : HandlerInput) : Reply :=
  s.handleCall input .describeTopicResponse

def handleDeleteTopic (s : Session) (input : HandlerInput) : Reply :=
  s.handleCall input .deleteTopicResponse

def handleRunRetention (s : Session) (input : HandlerInput) : Reply :=
  s.handleCall input .runRetentionResponse

def handleDescribeGroup (s : Session) (input : HandlerInput) : Reply :=
  s.handleCall input .describeGroupResponse

def handleResetGroupOffset (s : Session) (input : HandlerInput) : Reply :=
  s.handleCall input .resetGroupOffsetResponse

/-- Health needs no authentication. -/
def handleHealth (input : HandlerInput) : Reply :=
  afterDecode input (.write .healthResponse none false)

def handleAuth (s : Session) (input : HandlerInput) : Session × Reply :=
  if input.decodeError = none ∧ input.tokenAccepted then
    ({ s with authenticated := true }, .write .authResponse none false)
  else (s, afterDecode input (writeError .unauthorized true))

def handleMetadata (s : Session) (input : HandlerInput) : Session × Reply :=
  if input.decodeError = none ∧ s.authenticated then
    ({ s with negotiatedCodecs := (input.requestedCodecs &&& 3) ||| 1 },
      .write .metadataResponse none false)
  else (s, afterDecode input (writeError .unauthorized true))

/-- An accepted produce request is answered when its append job completes. -/
def handleProduce (s : Session) (input : HandlerInput) : Reply :=
  afterDecode input (s.requireAuth
    (match input.call with
      | .ok => .enqueue
      | .requestError code => writeError code false
      | .exception => writeError .internalError false))

/-- Exceptions of the decompression and of the append are reported alike, and
close the connection. -/
def handleProduceBatch (s : Session) (input : HandlerInput) : Reply :=
  if s.protocolVersion < 5 then writeError .unsupportedRequest true
  else
    afterDecode input (s.requireAuth
      (if s.negotiatedCodecs.testBit input.codec = false then writeError .unsupportedCodec false
      else if input.withinLimits = false then writeError .invalidLength false
      else
        match input.recordSetError with
        | some code => writeError code true
        | none =>
            match input.call with
            | .ok => .write .produceBatchResponse none false
            | .requestError code => writeError code false
            | .exception => writeError .invalidBatch true))

def fetchReply : FetchResult → Reply
  | .compressed => .write .fetchResponse none false
  | .response fits =>
      if fits then .write .fetchResponse none false else writeError .invalidLength false
  | .nothing => .longPoll
  | .requestError code => writeError code false
  | .exception => writeError .internalError false

def handleFetch (s : Session) (input : HandlerInput) : Reply :=
  afterDecode input (s.requireAuth (fetchReply input.fetch))

/-- The switch of `handle_frame`.  Any other type is not a request, and refused in
the same way. -/
def handleFrame (s : Session) (frameType : FrameType) (input : HandlerInput) : Session × Reply :=
  match frameType with
  | .healthRequest => (s, handleHealth input)
  | .metadataRequest => s.handleMetadata input
  | .produceRequest => (s, s.handleProduce input)
  | .produceBatchRequest => (s, s.handleProduceBatch input)
  | .fetchRequest => (s, s.handleFetch input)
  | .offsetCommitRequest => (s, s.handleOffsetCommit input)
  | .authRequest => s.handleAuth input
  | .createTopicRequest => (s, s.handleCreateTopic input)
  | .joinGroupRequest => (s, s.handleJoinGroup input)
  | .syncGroupRequest => (s, s.handleSyncGroup input)
  | .heartbeatRequest => (s, s.handleHeartbeat input)
  | .leaveGroupRequest => (s, s.handleLeaveGroup input)
  | .groupOffsetCommitRequest => (s, s.handleGroupOffsetCommit input)
  | .listTopicsRequest => (s, s.handleListTopics input)
  | .describeTopicRequest => (s, s.handleDescribeTopic input)
  | .deleteTopicRequest => (s, s.handleDeleteTopic input)
  | .runRetentionRequest => (s, s.handleRunRetention input)
  | .describeGroupRequest => (s, s.handleDescribeGroup input)
  | .resetGroupOffsetRequest => (s, s.handleResetGroupOffset input)
  | _ => (s, writeError .unsupportedRequest false)

/-! ## Effects -/

def start (s : Session) (operation : Operation) : Session :=
  { s with operations := s.operations ++ [operation] }

/-- `write_frame` starts one write. -/
def writeFrame (s : Session) (request correlationId : ℕ) (frameType : FrameType)
    (error : Option ErrorCode) (closeAfterWrite : Bool) : Session :=
  { s with
      operations := s.operations ++ [.write closeAfterWrite]
      responses := s.responses ++ [⟨request, correlationId, frameType, error⟩] }

/-- `timer->cancel()` has no effect on a timer whose handler is queued already. -/
def cancelTimer (s : Session) (poll : LongPoll) : Session :=
  { s with
      operations := s.operations.map fun operation ↦
        if operation = .timer poll then .timerHandler poll true else operation }

/-- `cancel_fetch_waiter` -/
def cancelFetchWaiter (s : Session) (waiterId : ℕ) : Session :=
  { s with waiters := s.waiters.filter fun poll ↦ poll.waiterId ≠ waiterId }

def cancelActiveWaiter (s : Session) : Session :=
  match s.activeWaiterId with
  | none => s
  | some waiterId => { s.cancelFetchWaiter waiterId with activeWaiterId := none }

/-- `register_long_poll` -/
def registerLongPoll (s : Session) (request correlationId : ℕ) (waiterId : Option ℕ) : Session :=
  if s.activeWaiterId.isSome then
    s.writeFrame request correlationId .errorResponse (some .internalError) false
  else
    match waiterId with
    | none => s.writeFrame request correlationId .errorResponse (some .overloaded) false
    | some waiterId =>
        let poll : LongPoll := ⟨request, correlationId, waiterId⟩
        { s with
            waiters := s.waiters ++ [poll]
            activeWaiterId := some waiterId
            operations := s.operations ++ [.timer poll] }

def perform (s : Session) (request correlationId : ℕ) (waiterId : Option ℕ) : Reply → Session
  | .write frameType error closeAfterWrite =>
      s.writeFrame request correlationId frameType error closeAfterWrite
  | .enqueue => s.start (.append request correlationId)
  | .longPoll => s.registerLongPoll request correlationId waiterId

/-- The end of a long poll: the request is fetched again, now without waiting. -/
def finishPoll (s : Session) (poll : LongPoll) (result : CallResult) : Session :=
  match result with
  | .ok => s.writeFrame poll.request poll.correlationId .fetchResponse none false
  | .requestError code =>
      s.writeFrame poll.request poll.correlationId .errorResponse (some code) false
  | .exception =>
      s.writeFrame poll.request poll.correlationId .errorResponse (some .internalError) false

/-! ## Events -/

inductive Event where
  /-- The header read completes with these bytes, or fails. -/
  | headerRead (bytes : Option Bytes)
  | payloadRead (header : FrameHeader) (input : Option HandlerInput)
  /-- The completion of an append job runs with an error or without. -/
  | appendCompleted (request correlationId : ℕ) (error : Option ErrorCode)
  /-- A notification takes the waiter and posts its callback. -/
  | notified (poll : LongPoll)
  | callbackRun (poll : LongPoll) (result : CallResult)
  | timerExpired (poll : LongPoll)
  | timerHandlerRun (poll : LongPoll) (cancelled : Bool) (result : CallResult)
  | writeCompleted (closeAfterWrite failed : Bool)
  deriving DecidableEq

/-- Take a completed operation from the list. -/
def take (s : Session) (operation : Operation) : Option Session :=
  if operation ∈ s.operations then
    some { s with operations := s.operations.erase operation }
  else none

/-- A frame was read: it is the next request. -/
def receive (s : Session) (header : FrameHeader) : Session :=
  { s with requests := s.requests ++ [header] }

/-- The handler of the header read. -/
def onHeader (s : Session) (bytes : Bytes) (maxFrameBytes : ℕ) : Session :=
  let decoded := decodeHeader bytes maxFrameBytes
  match decoded.error with
  | some error =>
      (s.receive decoded.header).writeFrame s.requests.length decoded.header.correlationId
        .errorResponse (some error.code) true
  | none =>
      if s.protocolVersion = 0 then
        { s with protocolVersion := decoded.header.version }.start (.payload decoded.header)
      else if s.protocolVersion ≠ decoded.header.version then
        (s.receive decoded.header).writeFrame s.requests.length decoded.header.correlationId
          .errorResponse (some .unsupportedVersion) true
      else s.start (.payload decoded.header)

/-- The handler of the payload read. -/
def onPayload (s : Session) (header : FrameHeader) (input : HandlerInput) : Session :=
  let handled := (s.receive header).handleFrame header.frameType input
  handled.1.perform s.requests.length header.correlationId input.waiterId handled.2

def onCallback (s : Session) (poll : LongPoll) (result : CallResult) : Session :=
  if poll.request ∈ s.completed then s
  else
    ({ s with
        completed := poll.request :: s.completed
        activeWaiterId := none }.cancelTimer poll).finishPoll poll result

def onTimer (s : Session) (poll : LongPoll) (cancelled : Bool) (result : CallResult) : Session :=
  if cancelled ∨ poll.request ∈ s.completed then s
  else
    { { s with completed := poll.request :: s.completed }.cancelFetchWaiter poll.waiterId with
        activeWaiterId := none }.finishPoll poll result

def onWritten (s : Session) (closeAfterWrite failed : Bool) : Session :=
  if failed then s.cancelActiveWaiter
  else if closeAfterWrite then s
  else s.start .header

def step (maxFrameBytes : ℕ) (s : Session) : Event → Option Session
  | .headerRead bytes =>
      (s.take .header).map fun s ↦
        match bytes with
        | none => s
        | some bytes => s.onHeader bytes maxFrameBytes
  | .payloadRead header input =>
      (s.take (.payload header)).map fun s ↦
        match input with
        | none => s
        | some input => s.onPayload header input
  | .appendCompleted request correlationId error =>
      (s.take (.append request correlationId)).map fun s ↦
        match error with
        | none => s.writeFrame request correlationId .produceResponse none false
        | some code => s.writeFrame request correlationId .errorResponse (some code) false
  | .notified poll =>
      if poll ∈ s.waiters then
        some { s.start (.callback poll) with waiters := s.waiters.erase poll }
      else none
  | .callbackRun poll result => (s.take (.callback poll)).map fun s ↦ s.onCallback poll result
  | .timerExpired poll => (s.take (.timer poll)).map fun s ↦ s.start (.timerHandler poll false)
  | .timerHandlerRun poll cancelled result =>
      (s.take (.timerHandler poll cancelled)).map fun s ↦ s.onTimer poll cancelled result
  | .writeCompleted closeAfterWrite failed =>
      (s.take (.write closeAfterWrite)).map fun s ↦ s.onWritten closeAfterWrite failed

/-- A session that has just started to read its first header. -/
def opened (authRequired : Bool) : Session :=
  { authenticated := !authRequired, operations := [.header] }

end Session

end BoltStream.Broker
