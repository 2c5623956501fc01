import BoltStream.Broker.AppendBatch
import BoltStream.Broker.GroupTopic
import BoltStream.Broker.Handlers
import BoltStream.Broker.Requests
import BoltStream.Broker.TopicFiles
import BoltStream.Broker.Waiters

/-!
# The operations of the runtime

`BrokerRuntime` as its sessions call it.  Each operation is one step: between its
sections no other operation runs, and no append of a produce request is pending when a
topic is deleted.  What becomes of a produce request that was accepted is the work of
the append threads.
-/

namespace BoltStream.Broker

open BoltStream.Lib BoltStream.Protocol BoltStream.Compression BoltStream.Storage

structure RuntimeConfig where
  topics : TopicConfig
  brokerToken : Bytes
  maxFetchWaitMs : ℕ
  maxLongPollWaiters : UInt32
  retentionPolicy : RetentionPolicy

/-- What the sessions ask the runtime for. -/
def RuntimeConfig.session (config : RuntimeConfig) : BrokerConfig :=
  { brokerToken := config.brokerToken
    maxFrameBytes := config.topics.server.limits.maxFrameBytes.toNat
    maxProduceBatchRecords := config.topics.server.maxProduceBatchRecords.toNat
    maxUncompressedBatchBytes := config.topics.server.maxUncompressedBatchBytes.toNat
    maxFetchWaitMs := config.maxFetchWaitMs }

/-- What an operation reads of clocks, and which of its file operations fail.  `first`
and `second` are the times of its calls of the coordinator.  A file name has at most 255
bytes, so that the directory of a longer topic or group cannot be created. -/
structure OperationEnv where
  utcNow : Bytes
  first : ℤ
  second : ℤ
  timestamp : UInt64
  queueFull : Bool
  appendFault : Option AppendFault
  retention : Bytes → ℕ → RetentionEnv
  topicFault : Bytes → Option TopicFault
  deleteFault : Option TopicStore.DeleteFault
  commitFault : Bytes → Option OffsetStore.CommitFault
  topicNames : ∀ topic : Bytes, 255 < topic.length →
    ∃ fault, topicFault topic = some fault ∧ fault.stop.done = 0
  groupNames : ∀ group : Bytes, 255 < group.length → commitFault group ≠ none

def BrokerError.failure : BrokerError → Failure
  | .request code message => .request code (text message)
  | .exception message => .exception (text message)

structure BrokerRuntime where
  store : TopicStore
  waiters : WaiterState Unit

namespace BrokerRuntime

variable (Z : Zstd) (config : RuntimeConfig) (env : OperationEnv)

/-! ## Topics and partitions -/

def withCoordinator (s : BrokerRuntime) (coordinator : GroupCoordinator) : BrokerRuntime :=
  { s with store := { s.store with coordinator := coordinator } }

def withOffsets (s : BrokerRuntime) (offsets : OffsetStore) : BrokerRuntime :=
  { s with store := { s.store with offsets := offsets } }

def findTopicOrThrow (s : BrokerRuntime) (topic : Bytes) : Except BrokerError ServedTopic :=
  match s.store.topics.find? topic with
  | none => .error (.request .unknownTopic "topic does not exist")
  | some served => .ok served

/-- `partition_or_throw`, with the check that `at` makes. -/
def partitionOrThrow (served : ServedTopic) (partition : ℕ) : Except BrokerError PartitionLog :=
  if partition ≥ served.partitionCount then
    .error (.request .invalidPartition "partition does not exist for topic")
  else
    match served.partitions[partition]? with
    | none => .error (.exception "out_of_range")
    | some log => .ok log

def findPartition (s : BrokerRuntime) (topic : Bytes) (partition : ℕ) :
    Except BrokerError PartitionLog :=
  (s.findTopicOrThrow topic).bind fun served ↦ partitionOrThrow served partition

/-- The log and its files after an operation on them. -/
def setLog (s : BrokerRuntime) (topic : Bytes) (partition : ℕ) (log : PartitionLog) :
    BrokerRuntime :=
  match s.store.topics.find? topic with
  | none => s
  | some served =>
      { s with
          store :=
            { s.store with
                data := s.store.data.setPartition topic partition log.dir
                topics := s.store.topics.insert topic
                  { served with partitions := served.partitions.set partition log } } }

def createTopic : Call BrokerRuntime CreateTopicRequest CreateTopicResponse :=
  fun request s ↦
    let created := s.store.createTopic Z config.topics request env.utcNow
      (env.topicFault request.topic)
    ({ s with store := created.1 }, created.2.mapError BrokerError.failure)

/-- The waiters of a topic are notified when it is released. -/
def deleteTopic : Call BrokerRuntime DeleteTopicRequest DeleteTopicResponse :=
  fun request s ↦
    let deleted := s.store.deleteTopic Z config.topics request env.first env.second
      env.deleteFault
    let released := (s.store.topics.find? request.topic).isSome ∧
      (deleted.1.topics.find? request.topic).isNone
    ({ store := deleted.1
       waiters := if released then s.waiters.notifyTopicWaiters request.topic else s.waiters },
      deleted.2.mapError BrokerError.failure)

/-- One entry for each partition of each topic. -/
def metadata (s : BrokerRuntime) : List MetadataTopic :=
  s.store.topics.entries.flatMap fun entry ↦ entry.2.partitions.map fun log ↦
    ⟨entry.1, log.options.partitionId, log.nextOffset⟩

def describePartition (log : PartitionLog) : TopicPartitionDescription :=
  { partition := log.options.partitionId
    earliestOffset := log.earliestOffset
    nextOffset := log.nextOffset
    segmentCount := log.segmentSummaries.length % 2 ^ 32
    logBytes := (log.segmentSummaries.map SegmentSummary.logBytes).sum % 2 ^ 64 }

def describeTopicState (topic : Bytes) (served : ServedTopic) : TopicDescription :=
  let partitions := served.partitions.map describePartition
  { topic := topic
    partitionCount := served.partitionCount
    logBytes := (partitions.map TopicPartitionDescription.logBytes).sum % 2 ^ 64
    partitions := partitions }

def listTopics : Call BrokerRuntime Unit ListTopicsResponse :=
  fun _ s ↦ (s, .ok ⟨s.store.topics.entries.map fun entry ↦
    describeTopicState entry.1 entry.2⟩)

def describeTopic : Call BrokerRuntime DescribeTopicRequest DescribeTopicResponse :=
  fun request s ↦
    if isValidTopicName request.topic = false then
      (s, .error (BrokerError.request .malformedPayload "invalid topic name").failure)
    else
      (s, ((s.findTopicOrThrow request.topic).map fun served ↦
        ⟨describeTopicState request.topic served⟩).mapError BrokerError.failure)

/-! ## Retention -/

/-- The loops of `run_retention`; an exception ends them. -/
def retain (s : BrokerRuntime) : List (Bytes × ℕ) →
    BrokerRuntime × Except BrokerError (List RetentionPartitionResult)
  | [] => (s, .ok [])
  | (topic, partition) :: rest =>
      match s.findPartition topic partition with
      | .error error => (s, .error error)
      | .ok log =>
          match log.applyRetention (env.retention topic partition) config.retentionPolicy with
          | (kept, .error message) => (s.setLog topic partition kept, .error (.exception message))
          | (kept, .ok stats) =>
              let later := retain (s.setLog topic partition kept) rest
              (later.1, later.2.map fun results ↦
                { topic := topic
                  partition := kept.options.partitionId
                  segmentsDeleted := stats.segmentsDeleted % 2 ^ 32
                  bytesDeleted := stats.bytesDeleted
                  earliestOffset := stats.earliestOffset
                  nextOffset := stats.nextOffset } :: results)

/-- The topics that pass the filter; the empty one stands for all topics. -/
def retained (s : BrokerRuntime) (topicFilter : Bytes) : List (Bytes × ServedTopic) :=
  s.store.topics.entries.filter fun entry ↦ topicFilter.isEmpty || entry.1 == topicFilter

def runRetention : Call BrokerRuntime RunRetentionRequest RunRetentionResponse :=
  fun request s ↦
    if request.topic.isEmpty = false ∧ isValidTopicName request.topic = false then
      (s, .error (BrokerError.request .malformedPayload "invalid topic name").failure)
    else
      let topics := s.retained request.topic
      if request.topic.isEmpty = false ∧ topics = [] then
        (s, .error (BrokerError.request .unknownTopic "topic does not exist").failure)
      else
        let done := retain config env s
          (topics.flatMap fun entry ↦ (List.range entry.2.partitionCount).map (entry.1, ·))
        (done.1, (done.2.map fun results ↦
          { topic := request.topic
            topicsScanned := topics.length % 2 ^ 32
            partitionsScanned := results.length % 2 ^ 32
            segmentsDeleted :=
              (results.map RetentionPartitionResult.segmentsDeleted).sum % 2 ^ 32
            bytesDeleted := (results.map RetentionPartitionResult.bytesDeleted).sum % 2 ^ 64
            partitions := results }).mapError BrokerError.failure)

/-! ## Producing and fetching -/

def asyncProduce : Call BrokerRuntime ProduceRequest Unit :=
  fun request s ↦
    match s.findTopicOrThrow request.topic with
    | .error error => (s, .error error.failure)
    | .ok _ =>
        if env.queueFull then
          (s, .error (BrokerError.request .overloaded "append queue is full").failure)
        else (s, .ok ())

def produceBatch : Call BrokerRuntime (ProduceBatchRequest × List BatchRecord)
    ProduceBatchResponse :=
  fun request s ↦
    match s.findPartition request.1.topic request.1.partition with
    | .error error => (s, .error error.failure)
    | .ok log =>
        let appended := log.appendEncodedBatch Z request.1.codec request.1.encodedRecords
          (UInt32.ofNat request.1.uncompressedBytes)
          (request.2.map fun record ↦ ⟨record.key, record.message⟩) env.timestamp
          env.appendFault
        let after := s.setLog request.1.topic request.1.partition appended.1
        match appended.2 with
        | .error message => (after, .error (.exception (text message)))
        | .ok stored =>
            ({ after with
                waiters := s.waiters.notifyFetchWaiters request.1.topic request.1.partition },
              .ok
                { topic := stored.topic
                  partition := stored.partition
                  baseOffset := stored.baseOffset
                  nextOffset := stored.nextOffset
                  recordCount := stored.recordCount
                  logicalBytes := stored.logicalBytes
                  encodedBytes := stored.encodedBytes
                  storedBytes := stored.storedBytes })

def fetch : Call BrokerRuntime FetchRequest FetchResponse :=
  fun request s ↦
    (s, ((s.findPartition request.topic request.partition).bind fun log ↦
      Broker.fetch Z config.topics.server.limits s.store.offsets log request).mapError
        BrokerError.failure)

def fetchEncodedBatch : Call BrokerRuntime FetchRequest (Option PartitionLog.EncodedBatch) :=
  fun request s ↦
    (s, ((s.findPartition request.topic request.partition).bind fun log ↦
      Broker.fetchEncodedBatch Z config.topics.server.limits s.store.offsets log
        request).mapError BrokerError.failure)

def registerFetchWaiter (topic : Bytes) (partition : ℕ) (s : BrokerRuntime) :
    BrokerRuntime × Option ℕ :=
  ({ s with
      waiters := s.waiters.registerFetchWaiter config.maxLongPollWaiters topic partition () },
    if s.waiters.count.active ≥ config.maxLongPollWaiters.toNat then none
    else some s.waiters.nextWaiterId)

def cancelFetchWaiter (waiterId : ℕ) (s : BrokerRuntime) : BrokerRuntime :=
  { s with waiters := s.waiters.cancelFetchWaiter waiterId }

/-! ## Offsets and groups -/

def validateGroupAndTopic (s : BrokerRuntime) (group topic : Bytes) :
    Except BrokerError ServedTopic :=
  (GroupTopic.validateGroupOrThrow group).bind fun _ ↦ s.findTopicOrThrow topic

/-- The end of the operations that commit an offset. -/
def storeOffset (s : BrokerRuntime) (group topic : Bytes) (partition target : ℕ) :
    BrokerRuntime × Except Failure Unit :=
  let stored := s.store.offsets.commit group topic partition target (env.commitFault group)
  (s.withOffsets stored.1, stored.2.mapError fun message ↦ .exception (text message))

def commitOffset : Call BrokerRuntime OffsetCommit OffsetCommit :=
  fun request s ↦
    match (s.validateGroupAndTopic request.group request.topic).bind fun served ↦
        partitionOrThrow served request.partition with
    | .error error => (s, .error error.failure)
    | .ok log =>
        let expired := (s.store.coordinator.expire request.group request.topic env.first).1
        let active := expired.hasActiveMembers request.group request.topic env.second
        let fenced := s.withCoordinator active.1
        if active.2 then (fenced, .error (fencedError .commitOffset).failure)
        else
          match checkOffsetRange log.earliestOffset log.nextOffset request.nextOffset
              "commit offset is below partition earliest offset"
              "commit offset is beyond partition next offset" with
          | .error error => (fenced, .error error.failure)
          | .ok target =>
              let stored := fenced.storeOffset env request.group request.topic request.partition
                target
              (stored.1, stored.2.map fun _ ↦ request)

def joinGroup : Call BrokerRuntime JoinGroupRequest GroupMember :=
  fun request s ↦
    match s.validateGroupAndTopic request.group request.topic with
    | .error error => (s, .error error.failure)
    | .ok served =>
        let joined := s.store.coordinator.join request.group request.topic request.memberId
          request.sessionTimeoutMs served.partitionCount env.first
        (s.withCoordinator joined.1,
          .ok ⟨joined.2.group, joined.2.topic, joined.2.memberId, joined.2.generationId⟩)

/-- The frame of `sync_group`, `heartbeat_group` and `leave_group`: members are
expired, and a second call of the coordinator answers. -/
def memberCall {response : Type}
    (call : GroupCoordinator → GroupCoordinator × Except GroupCoordinatorError GroupResult)
    (answer : GroupResult → response) : Call BrokerRuntime GroupMember response :=
  fun request s ↦
    match s.validateGroupAndTopic request.group request.topic with
    | .error error => (s, .error error.failure)
    | .ok _ =>
        let called := call (s.store.coordinator.expire request.group request.topic env.first).1
        (s.withCoordinator called.1,
          ((coordinatorCall called.2).mapError BrokerError.failure).map answer)

def syncGroup : Call BrokerRuntime GroupMember SyncGroupResponse :=
  fun request ↦ memberCall env
    (fun coordinator ↦ coordinator.sync request.group request.topic request.memberId
      request.generationId env.second)
    (fun result ↦ ⟨result.group, result.topic, result.memberId, result.generationId,
      result.assignment⟩) request

def heartbeatGroup : Call BrokerRuntime GroupMember GroupMemberStatus :=
  fun request ↦ memberCall env
    (fun coordinator ↦ coordinator.heartbeat request.group request.topic request.memberId
      request.generationId env.second)
    (fun result ↦ ⟨result.group, result.topic, result.memberId, result.generationId,
      text "ok"⟩) request

def leaveGroup : Call BrokerRuntime GroupMember GroupMemberStatus :=
  fun request ↦ memberCall env
    (fun coordinator ↦ coordinator.leave request.group request.topic request.memberId
      request.generationId env.second)
    (fun result ↦ ⟨result.group, result.topic, result.memberId, result.generationId,
      text "left"⟩) request

def commitGroupOffset : Call BrokerRuntime GroupOffsetCommit GroupOffsetCommit :=
  fun request s ↦
    match ((s.validateGroupAndTopic request.group request.topic).bind fun served ↦
        partitionOrThrow served request.partition).bind fun log ↦
          checkOffsetRange log.earliestOffset log.nextOffset request.nextOffset
            "commit offset is below partition earliest offset"
            "commit offset is beyond partition next offset" with
    | .error error => (s, .error error.failure)
    | .ok target =>
        let validated := (s.store.coordinator.expire request.group request.topic
          env.first).1.validateCommit request.group request.topic request.memberId
            request.generationId request.partition env.second
        match validated.2 with
        | .error error => (s.withCoordinator validated.1, .error (groupError error).failure)
        | .ok result =>
            let stored := (s.withCoordinator validated.1).storeOffset env request.group
              request.topic request.partition target
            (stored.1, stored.2.map fun _ ↦
              { request with generationId := result.generationId })

/-- A committed offset out of range counts as none for the lag. -/
def describeOffset (offsets : OffsetStore) (group topic : Bytes) (log : PartitionLog) :
    GroupOffsetDescription :=
  let committed := offsets.committed group topic log.options.partitionId
  let outOfRange := committed.any fun offset ↦
    decide (offset < log.earliestOffset) || decide (offset > log.nextOffset)
  { partition := log.options.partitionId
    hasCommittedOffset := committed.isSome
    committedOffset := committed.getD 0
    earliestOffset := log.earliestOffset
    nextOffset := log.nextOffset
    lag := log.nextOffset -
      if outOfRange then log.earliestOffset else committed.getD log.earliestOffset
    outOfRange := outOfRange }

def describeGroup : Call BrokerRuntime DescribeGroupRequest DescribeGroupResponse :=
  fun request s ↦
    match s.validateGroupAndTopic request.group request.topic with
    | .error error => (s, .error error.failure)
    | .ok served =>
        let counted := s.store.coordinator.activeMemberCount request.group request.topic env.first
        (s.withCoordinator counted.1,
          .ok
            { group := request.group
              topic := request.topic
              activeMemberCount := counted.2 % 2 ^ 32
              offsets := served.partitions.map
                (describeOffset s.store.offsets request.group request.topic) })

def resetGroupOffset : Call BrokerRuntime ResetGroupOffsetRequest ResetGroupOffsetResponse :=
  fun request s ↦
    match GroupTopic.validateGroupOrThrow request.group with
    | .error error => (s, .error error.failure)
    | .ok _ =>
        let before := s.store.coordinator.hasActiveMembers request.group request.topic env.first
        let first := s.withCoordinator before.1
        if before.2 then (first, .error (fencedError .resetGroupOffset).failure)
        else
          match s.findTopicOrThrow request.topic with
          | .error error => (first, .error error.failure)
          | .ok served =>
              let active := before.1.hasActiveMembers request.group request.topic env.second
              let second := s.withCoordinator active.1
              if active.2 then (second, .error (fencedError .resetGroupOffset).failure)
              else
                match (partitionOrThrow served request.partition).bind fun log ↦
                    (resetTarget request.«to» log.earliestOffset log.nextOffset).bind
                      fun target ↦ checkOffsetRange log.earliestOffset log.nextOffset target
                        "reset target is below partition earliest offset"
                        "reset target is beyond partition next offset" with
                | .error error => (second, .error error.failure)
                | .ok target =>
                    let stored := second.storeOffset env request.group request.topic
                      request.partition target
                    (stored.1, stored.2.map fun _ ↦
                      ⟨request.group, request.topic, request.partition, target,
                        text "reset"⟩)

/-! ## The append threads -/

/-- `run_append_batch` on a partition, with its lock held; the waiters that it names are
notified. -/
def appendJobs (topic : Bytes) (partition : ℕ) (clock : AppendClock)
    (jobs : List ProduceRequest) (s : BrokerRuntime) : BrokerRuntime :=
  match s.findPartition topic partition with
  | .error _ => s
  | .ok log =>
      let outcome := runAppendBatch log clock env.appendFault (env.retention topic partition)
        config.retentionPolicy jobs
      let after := s.setLog topic partition outcome.log
      match outcome.notified with
      | none => after
      | some waiters =>
          { after with waiters := s.waiters.notifyFetchWaiters waiters.1 waiters.2 }

/-- The runtime that the handlers call. -/
def operations : Runtime BrokerRuntime :=
  { createTopic := createTopic Z config env
    metadata := metadata
    asyncProduce := asyncProduce env
    produceBatch := produceBatch Z env
    fetch := fetch Z config
    fetchEncodedBatch := fetchEncodedBatch Z config
    registerFetchWaiter := registerFetchWaiter config
    cancelFetchWaiter := cancelFetchWaiter
    commitOffset := commitOffset env
    joinGroup := joinGroup env
    syncGroup := syncGroup env
    heartbeatGroup := heartbeatGroup env
    leaveGroup := leaveGroup env
    commitGroupOffset := commitGroupOffset env
    listTopics := listTopics
    describeTopic := describeTopic
    deleteTopic := deleteTopic Z config env
    runRetention := runRetention config env
    describeGroup := describeGroup env
    resetGroupOffset := resetGroupOffset env }

end BrokerRuntime

end BoltStream.Broker
