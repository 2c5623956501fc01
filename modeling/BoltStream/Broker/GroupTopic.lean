import BoltStream.Broker.Accepting
import BoltStream.Broker.GroupCoordinator
import BoltStream.Broker.FetchWalk

/-!
# A topic and its consumer group

The requests that the members of one group make on one topic, as the broker
serves them.  The topic is there all the time and no deletion has begun, so that
the topic lookup succeeds; each request holds the mutex of the topic from then on
and is one step.
-/

namespace BoltStream.Broker

open BoltStream.Lib BoltStream.Protocol BoltStream.Compression BoltStream.Storage

/-- The logs of the topic's partitions, with what producers were told, and the
stores of the broker. -/
structure GroupTopic where
  partitionCount : UInt16
  coordinator : GroupCoordinator
  offsets : OffsetStore
  logs : ℕ → LogState

/-- What the members share. -/
structure GroupConfig where
  server : ServerConfig
  group : Bytes
  topic : Bytes

/-- The requests of a member.  `plain` says that a fetch is past
`fetch_encoded_batch`, or not negotiated for it. -/
inductive GroupRequest where
  | join (memberId : Bytes) (sessionTimeoutMs : ℕ)
  | sync (memberId : Bytes) (generationId : ℕ)
  | heartbeat (memberId : Bytes) (generationId : ℕ)
  | leave (memberId : Bytes) (generationId : ℕ)
  | fetch (partition : ℕ) (plain : Bool)
  | commit (memberId : Bytes) (generationId partition nextOffset : ℕ)
  deriving DecidableEq, Repr

/-- A response frame.  An error frame that does not decode has no code. -/
inductive GroupReply where
  | joined (memberId : Bytes) (generationId : ℕ)
  | synced (assignment : List ℕ)
  | alive
  | left
  | fetched (answer : FetchAnswer)
  | committed (partition nextOffset : ℕ)
  | error (code : Option ErrorCode)
  deriving DecidableEq, Repr

/-- The clock readings of a request, its second call of the coordinator last, and
a failure of the offset log. -/
structure ServeEnv where
  first : ℤ
  second : ℤ
  commitFault : Option OffsetStore.CommitFault := none

def BrokerError.code : BrokerError → ErrorCode
  | .request code _ => code
  | .exception _ => .internalError

def replyOf {α : Type*} (answer : α → GroupReply) : Except BrokerError α → GroupReply
  | .ok value => answer value
  | .error error => .error (some error.code)

def coordinatorCall {α : Type*} (result : Except GroupCoordinatorError α) : Except BrokerError α :=
  result.mapError fun error ↦ .request error.code error.message

namespace GroupTopic

def validateGroupOrThrow (group : Bytes) : Except BrokerError Unit :=
  if isValidGroupName group then .ok ()
  else .error (.request .invalidGroup "invalid consumer group name")

/-- `partition_or_throw` -/
def partitionOrThrow (topic : GroupTopic) (partition : ℕ) : Except BrokerError LogState :=
  if partition ≥ topic.partitionCount.toNat then
    .error (.request .invalidPartition "partition does not exist for topic")
  else .ok (topic.logs partition)

variable (Z : Zstd) (config : GroupConfig) (topic : GroupTopic)

def joinGroup (memberId : Bytes) (sessionTimeoutMs : ℕ) (env : ServeEnv) :
    GroupTopic × Except BrokerError GroupResult :=
  match validateGroupOrThrow config.group with
  | .error error => (topic, .error error)
  | .ok () =>
      let joined := topic.coordinator.join config.group config.topic memberId sessionTimeoutMs
        topic.partitionCount.toNat env.first
      ({ topic with coordinator := joined.1 }, .ok joined.2)

/-- The frame of `sync_group`, `heartbeat_group` and `leave_group`: members are
expired, and a second call of the coordinator answers. -/
def memberCall (env : ServeEnv)
    (call : GroupCoordinator → GroupCoordinator × Except GroupCoordinatorError GroupResult) :
    GroupTopic × Except BrokerError GroupResult :=
  match validateGroupOrThrow config.group with
  | .error error => (topic, .error error)
  | .ok () =>
      let called := call (topic.coordinator.expire config.group config.topic env.first).1
      ({ topic with coordinator := called.1 }, coordinatorCall called.2)

def syncGroup (memberId : Bytes) (generationId : ℕ) (env : ServeEnv) :
    GroupTopic × Except BrokerError GroupResult :=
  topic.memberCall config env fun coordinator ↦
    coordinator.sync config.group config.topic memberId generationId env.second

def heartbeatGroup (memberId : Bytes) (generationId : ℕ) (env : ServeEnv) :
    GroupTopic × Except BrokerError GroupResult :=
  topic.memberCall config env fun coordinator ↦
    coordinator.heartbeat config.group config.topic memberId generationId env.second

def leaveGroup (memberId : Bytes) (generationId : ℕ) (env : ServeEnv) :
    GroupTopic × Except BrokerError GroupResult :=
  topic.memberCall config env fun coordinator ↦
    coordinator.leave config.group config.topic memberId generationId env.second

def commitGroupOffset (memberId : Bytes) (generationId partition nextOffset : ℕ)
    (env : ServeEnv) : GroupTopic × Except BrokerError Unit :=
  let checked := (validateGroupOrThrow config.group).bind fun _ ↦
    (topic.partitionOrThrow partition).bind fun state ↦
      checkOffsetRange state.log.earliestOffset state.log.nextOffset nextOffset
        "commit offset is below partition earliest offset"
        "commit offset is beyond partition next offset"
  match checked with
  | .error error => (topic, .error error)
  | .ok target =>
      let validated := (topic.coordinator.expire config.group config.topic
        env.first).1.validateCommit config.group config.topic memberId generationId partition
          env.second
      match validated.2 with
      | .error error =>
          ({ topic with coordinator := validated.1 }, coordinatorCall (.error error))
      | .ok _ =>
          let stored := topic.offsets.commit config.group config.topic partition target
            env.commitFault
          ({ topic with coordinator := validated.1, offsets := stored.1 }, storageCall stored.2)

/-- The request of a member that fetches from the committed offset. -/
def committedRequest (partition : ℕ) : FetchRequest :=
  { topic := config.topic
    partition := partition
    «from» := committedSelector
    group := config.group
    maxWaitMs := 0 }

/-- The plain path. -/
def fetchPlain (partition : ℕ) : Except BrokerError FetchResponse :=
  (topic.partitionOrThrow partition).bind fun state ↦
    fetch Z config.server.limits topic.offsets state.log (committedRequest config partition)

/-- The compressed path.  A batch that would not fit a frame is not forwarded. -/
def fetchForwarded (partition : ℕ) : Except BrokerError (Option PartitionLog.EncodedBatch) :=
  (topic.partitionOrThrow partition).bind fun state ↦
    (fetchEncodedBatch Z config.server.limits topic.offsets state.log
      (committedRequest config partition)).map fun batch ↦
        batch.filter fun batch ↦
          decide ((encodedBatchPayload batch).length + kFrameHeaderBytes ≤
            config.server.limits.maxFrameBytes.toNat)

/-- What became of a request: it is answered, and a fetch has started at an
offset, or it goes on to the plain path. -/
inductive Served where
  | answered (reply : GroupReply) (start : Option ℕ)
  | unforwarded

def serve (env : ServeEnv) : GroupRequest → GroupTopic × Served
  | .join memberId sessionTimeoutMs =>
      let done := topic.joinGroup config memberId sessionTimeoutMs env
      (done.1, .answered
        (replyOf (fun result ↦ .joined result.memberId result.generationId) done.2) none)
  | .sync memberId generationId =>
      let done := topic.syncGroup config memberId generationId env
      (done.1, .answered (replyOf (fun result ↦ .synced result.assignment) done.2) none)
  | .heartbeat memberId generationId =>
      let done := topic.heartbeatGroup config memberId generationId env
      (done.1, .answered (replyOf (fun _ ↦ .alive) done.2) none)
  | .leave memberId generationId =>
      let done := topic.leaveGroup config memberId generationId env
      (done.1, .answered (replyOf (fun _ ↦ .left) done.2) none)
  | .commit memberId generationId partition nextOffset =>
      let done := topic.commitGroupOffset config memberId generationId partition nextOffset env
      (done.1, .answered (replyOf (fun _ ↦ .committed partition nextOffset) done.2) none)
  | .fetch partition false =>
      match topic.fetchForwarded Z config partition with
      | .error error => (topic, .answered (.error (some error.code)) none)
      | .ok none => (topic, .unforwarded)
      | .ok (some batch) =>
          (topic, .answered (.fetched (.compressed (encodedBatchPayload batch)))
            (some batch.metadata.baseOffset))
  | .fetch partition true =>
      match topic.fetchPlain Z config partition with
      | .error error => (topic, .answered (.error (some error.code)) none)
      | .ok response =>
          (topic, .answered
            (replyOf (fun _ ↦ .fetched (.plain response))
              (writeFetchResponse config.server.limits response))
            (some response.fromOffset))

end GroupTopic

end BoltStream.Broker
