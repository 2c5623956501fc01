import BoltStream.Broker.Fetch
import BoltStream.Broker.GroupFencing
import BoltStream.Lib.Runs

/-!
# Concurrent requests

Requests on topics, consumer groups and offsets as threads that run section by
section, in any order.  A section is what a request does under one mutex; the
mutex of a topic is held from `lockTopic` to the end of the request.  Topics are
found by name, but a request works on the topic state it has found: every
`TopicState` that was ever made has a number.

`effects` keeps what has happened, in order.  File operations succeed here, apart
from offset commits.
-/

namespace BoltStream.Broker

open BoltStream.Lib BoltStream.Protocol BoltStream.Storage

inductive RequestKind where
  | commitOffset
  | resetGroupOffset
  | commitGroupOffset
  | joinGroup
  | syncGroup
  | heartbeatGroup
  | leaveGroup
  | describeGroup
  | deleteTopic
  | createTopic
  | produce
  deriving DecidableEq, Repr

/-- The fields of the request messages; each kind uses those it has. -/
structure Request where
  kind : RequestKind
  topic : Bytes
  group : Bytes := []
  memberId : Bytes := []
  generationId : ℕ := 0
  partition : ℕ := 0
  nextOffset : ℕ := 0
  «to» : Bytes := []
  sessionTimeoutMs : ℕ := 0
  partitionCount : ℕ := 0
  key : Bytes := []
  message : Bytes := []
  deriving DecidableEq, Repr

inductive Section where
  | validateGroup
  | validateTopic
  | validateCount
  | findTopic
  | lockTopic
  | findPartition
  | expire
  | requireNoMembers
  | requireNoTopicMembers
  | join
  | sync
  | heartbeat
  | leave
  | validateCommit
  | countMembers
  | checkRange
  | readOffsets
  | commit
  | releaseTopic
  | drain
  | removeFiles
  | removeOffsets
  | removeGroups
  | openTopic
  | enqueue
  deriving DecidableEq, Repr

/-- The sections of the functions of `BrokerRuntime`, in their order. -/
def RequestKind.sections : RequestKind → List Section
  | commitOffset =>
      [.validateGroup, .findTopic, .lockTopic, .findPartition, .expire, .requireNoMembers,
        .checkRange, .commit]
  | resetGroupOffset =>
      [.validateGroup, .requireNoMembers, .findTopic, .lockTopic, .requireNoMembers,
        .findPartition, .checkRange, .commit]
  | commitGroupOffset =>
      [.validateGroup, .findTopic, .lockTopic, .findPartition, .checkRange, .expire,
        .validateCommit, .commit]
  | joinGroup => [.validateGroup, .findTopic, .lockTopic, .join]
  | syncGroup => [.validateGroup, .findTopic, .lockTopic, .expire, .sync]
  | heartbeatGroup => [.validateGroup, .findTopic, .lockTopic, .expire, .heartbeat]
  | leaveGroup => [.validateGroup, .findTopic, .lockTopic, .expire, .leave]
  | describeGroup => [.validateGroup, .findTopic, .countMembers, .lockTopic, .readOffsets]
  | deleteTopic =>
      [.validateTopic, .requireNoTopicMembers, .releaseTopic, .drain, .removeFiles,
        .removeOffsets, .removeGroups]
  | createTopic => [.validateTopic, .validateCount, .openTopic]
  | produce => [.findTopic, .lockTopic, .enqueue]

/-- A record in the files of a partition, and the topic state it was produced to. -/
structure FileRecord where
  incarnation : ℕ
  request : ProduceRequest
  deriving DecidableEq, Repr

/-- The directory of a topic: its manifest and the partition directories. -/
structure TopicFiles where
  partitionCount : ℕ
  partitions : ℕ → Option (List FileRecord)

structure TopicState (T : Type*) where
  name : Bytes
  partitionCount : ℕ
  deleting : Bool := false
  /-- The request that holds `mutex`. -/
  holder : Option T := none
  /-- Append jobs that were accepted and not completed. -/
  pending : List (ℕ × ProduceRequest) := []

structure Task where
  request : Request
  /-- What is still to be done. -/
  sections : List Section
  topic : Option ℕ := none
  locked : Bool := false
  /-- The offset that is going to be written. -/
  target : ℕ := 0
  deriving DecidableEq, Repr

inductive Effect (T : Type*) where
  | created (incarnation : ℕ) (topic : Bytes)
  | joined (incarnation : ℕ) (group topic memberId : Bytes)
  | left (group topic memberId : Bytes)
  /-- `validate_commit` has accepted. -/
  | accepted (thread : T) (group topic memberId : Bytes) (generationId partition : ℕ)
  | committed (incarnation : ℕ) (group topic : Bytes) (partition offset : ℕ)
  | acknowledged (incarnation partition : ℕ) (request : ProduceRequest)
  | filesRemoved (incarnation : ℕ) (topic : Bytes)
  | offsetsRemoved (incarnation : ℕ) (topic : Bytes)
  | groupsRemoved (incarnation : ℕ) (topic : Bytes)

structure RequestState (T : Type*) where
  maxTopicPartitions : ℕ
  topics : Bytes → Option ℕ
  states : ℕ → Option (TopicState T)
  created : ℕ
  coordinator : GroupCoordinator
  offsets : OffsetStore
  files : Bytes → Option TopicFiles
  threads : T → Option Task
  effects : List (Effect T)

/-- What a section reads from its surroundings: the steady clock, the ends of the
partition log, the partition that the key hash or the round robin picks, and
failures. -/
structure SectionEnv where
  now : ℤ
  earliestOffset : ℕ := 0
  nextOffset : ℕ := 0
  partition : ℕ := 0
  queueFull : Bool := false
  commitFault : Option OffsetStore.CommitFault := none

/-- The error of a legacy commit or a reset of a group that has members. -/
def fencedError (kind : RequestKind) : BrokerError :=
  if kind = .resetGroupOffset then .request .groupActive "consumer group has active members"
  else .request .staleMember "legacy offset commit is fenced by active coordinated group"

/-- `topic_has_active_members` made a deletion fail. -/
def topicActiveError : BrokerError :=
  .request .groupActive "topic has active coordinated consumer group members"

def groupError (error : GroupCoordinatorError) : BrokerError := .request error.code error.message

/-- The target that a reset request names. -/
def resetTarget (target : Bytes) (earliestOffset nextOffset : ℕ) : Except BrokerError ℕ :=
  if target = beginningSelector then .ok earliestOffset
  else if target = latestSelector then .ok nextOffset
  else
    match parseDecimal (2 ^ 64) target with
    | none =>
        .error (.request .malformedPayload
          "reset target must be beginning, latest, or an unsigned offset")
    | some offset => .ok offset

/-- The offset to write, checked against the ends of the log. -/
def commitTarget (request : Request) (earliestOffset nextOffset : ℕ) : Except BrokerError ℕ :=
  if request.kind = .resetGroupOffset then
    (resetTarget request.«to» earliestOffset nextOffset).bind fun target ↦
      checkOffsetRange earliestOffset nextOffset target
        "reset target is below partition earliest offset"
        "reset target is beyond partition next offset"
  else
    checkOffsetRange earliestOffset nextOffset request.nextOffset
      "commit offset is below partition earliest offset"
      "commit offset is beyond partition next offset"

namespace RequestState

variable {T : Type*} [DecidableEq T]

def setTopic (s : RequestState T) (incarnation : ℕ) (topic : TopicState T) : RequestState T :=
  { s with states := Function.update s.states incarnation (some topic) }

def setTask (s : RequestState T) (thread : T) (task : Option Task) : RequestState T :=
  { s with threads := Function.update s.threads thread task }

/-- What a section of the coordinator leaves behind, and what it means for the
request. -/
def coordinate (s : RequestState T) (thread : T) (task : Task) (topic : Option (TopicState T))
    (now : ℤ) : Section → GroupCoordinator × Except BrokerError (List (Effect T))
  | .expire => ((s.coordinator.expire task.request.group task.request.topic now).1, .ok [])
  | .requireNoMembers =>
      let found := s.coordinator.hasActiveMembers task.request.group task.request.topic now
      (found.1, if found.2 then .error (fencedError task.request.kind) else .ok [])
  | .requireNoTopicMembers =>
      let found := s.coordinator.topicHasActiveMembers task.request.topic now
      (found.1, if found.2 then .error topicActiveError else .ok [])
  | .countMembers =>
      ((s.coordinator.activeMemberCount task.request.group task.request.topic now).1, .ok [])
  | .join =>
      let joined := s.coordinator.join task.request.group task.request.topic task.request.memberId
        task.request.sessionTimeoutMs ((topic.map TopicState.partitionCount).getD 0) now
      (joined.1, .ok [.joined (task.topic.getD 0) task.request.group task.request.topic
        joined.2.memberId])
  | .sync =>
      let synced := s.coordinator.sync task.request.group task.request.topic task.request.memberId
        task.request.generationId now
      (synced.1, (synced.2.mapError groupError).map fun _ ↦ [])
  | .heartbeat =>
      let renewed := s.coordinator.heartbeat task.request.group task.request.topic
        task.request.memberId task.request.generationId now
      (renewed.1, (renewed.2.mapError groupError).map fun _ ↦ [])
  | .leave =>
      let left := s.coordinator.leave task.request.group task.request.topic task.request.memberId
        task.request.generationId now
      (left.1, (left.2.mapError groupError).map fun _ ↦
        [.left task.request.group task.request.topic task.request.memberId])
  | .validateCommit =>
      let validated := s.coordinator.validateCommit task.request.group task.request.topic
        task.request.memberId task.request.generationId task.request.partition now
      (validated.1, (validated.2.mapError groupError).map fun _ ↦
        [.accepted thread task.request.group task.request.topic task.request.memberId
          task.request.generationId task.request.partition])
  | _ => (s.coordinator, .ok [])

/-- The partition directories after `open_topic_state`: what is there is opened,
what is missing is created. -/
def openPartitions (files : Option TopicFiles) (partitionCount : ℕ) : TopicFiles :=
  { partitionCount := partitionCount
    partitions := fun partition ↦
      let existing := files.bind fun files ↦ files.partitions partition
      if partition < partitionCount then some (existing.getD []) else existing }

/-- `create_topic` under `topics_mutex_`. -/
def openTopic (s : RequestState T) (task : Task) : RequestState T × Except BrokerError Task :=
  match s.topics task.request.topic with
  | some incarnation =>
      if (s.states incarnation).map TopicState.partitionCount ≠ some task.request.partitionCount
      then
        (s, .error (.request .topicConflict
          "topic already exists with a different partition count"))
      else (s, .ok task)
  | none =>
      ({ s with
          topics := Function.update s.topics task.request.topic (some s.created)
          states := Function.update s.states s.created
            (some { name := task.request.topic, partitionCount := task.request.partitionCount })
          created := s.created + 1
          files := Function.update s.files task.request.topic
            (some (openPartitions (s.files task.request.topic) task.request.partitionCount))
          effects := s.effects ++ [.created s.created task.request.topic] }, .ok task)

/-- `delete_topic` under `topics_mutex_`; it waits for the mutex of the topic. -/
def releaseTopic (s : RequestState T) (task : Task) (now : ℤ) :
    Option (RequestState T × Except BrokerError Task) :=
  match s.topics task.request.topic with
  | none => some (s, .error (.request .unknownTopic "topic does not exist"))
  | some incarnation =>
      (s.states incarnation).bind fun topic ↦
        if topic.holder.isSome then none
        else
          let found := s.coordinator.topicHasActiveMembers task.request.topic now
          let s := { s with coordinator := found.1 }
          if found.2 then some (s, .error topicActiveError)
          else
            some ({ s.setTopic incarnation { topic with deleting := true } with
                topics := Function.update s.topics task.request.topic none },
              .ok { task with topic := some incarnation })

/-- One section of a request, with the topic state it has found.  There is no
result while the section waits for a mutex or for appends to drain. -/
def perform (s : RequestState T) (thread : T) (task : Task) (env : SectionEnv)
    (sort : Section) : Option (RequestState T × Except BrokerError Task) :=
  let request := task.request
  let topic := task.topic.bind s.states
  match sort with
  | .validateGroup =>
      some (s, if isValidGroupName request.group then .ok task
        else .error (.request .invalidGroup "invalid consumer group name"))
  | .validateTopic =>
      some (s, if isValidTopicName request.topic then .ok task
        else .error (.request .malformedPayload "invalid topic name"))
  | .validateCount =>
      some (s, if request.partitionCount = 0 ∨ request.partitionCount > s.maxTopicPartitions then
          .error (.request .invalidPartition "partition count exceeds configured maximum")
        else .ok task)
  | .findTopic =>
      some (s, match s.topics request.topic with
        | none => .error (.request .unknownTopic "topic does not exist")
        | some incarnation => .ok { task with topic := some incarnation })
  | .lockTopic =>
      topic.bind fun topic ↦
        if topic.holder.isSome then none
        else if topic.deleting then
          some (s, .error (.request .unknownTopic "topic is being deleted"))
        else
          some (s.setTopic (task.topic.getD 0) { topic with holder := some thread },
            .ok { task with locked := true })
  | .findPartition =>
      topic.map fun topic ↦
        (s, if request.partition ≥ topic.partitionCount then
            .error (.request .invalidPartition "partition does not exist for topic")
          else .ok task)
  | .checkRange =>
      some (s, (commitTarget request env.earliestOffset env.nextOffset).map fun target ↦
        { task with target := target })
  | .readOffsets => some (s, .ok task)
  | .commit =>
      let written := s.offsets.commit request.group request.topic request.partition task.target
        env.commitFault
      match written.2 with
      | .error message => some ({ s with offsets := written.1 }, .error (.exception message))
      | .ok () =>
          some ({ s with
              offsets := written.1
              effects := s.effects ++ [.committed (task.topic.getD 0) request.group request.topic
                request.partition task.target] }, .ok task)
  | .releaseTopic => s.releaseTopic task env.now
  | .drain =>
      topic.bind fun topic ↦ if topic.pending = [] then some (s, .ok task) else none
  | .removeFiles =>
      some ({ s with
          files := Function.update s.files request.topic none
          effects := s.effects ++ [.filesRemoved (task.topic.getD 0) request.topic] }, .ok task)
  | .removeOffsets =>
      some ({ s with
          offsets := (s.offsets.removeTopic request.topic).1
          effects := s.effects ++ [.offsetsRemoved (task.topic.getD 0) request.topic] }, .ok task)
  | .removeGroups =>
      some ({ s with
          coordinator := s.coordinator.removeTopic request.topic
          effects := s.effects ++ [.groupsRemoved (task.topic.getD 0) request.topic] }, .ok task)
  | .openTopic => some (s.openTopic task)
  | .enqueue =>
      topic.bind fun topic ↦
        if env.partition ≥ topic.partitionCount then none
        else if env.queueFull then
          some (s, .error (.request .overloaded "append queue is full"))
        else
          some (s.setTopic (task.topic.getD 0) { topic with
              pending := topic.pending ++
                [(env.partition, ⟨request.topic, request.key, request.message⟩)] }, .ok task)
  | .expire | .requireNoMembers | .requireNoTopicMembers | .join | .sync | .heartbeat | .leave
  | .validateCommit | .countMembers =>
      let called := s.coordinate thread task topic env.now sort
      some ({ s with
          coordinator := called.1
          effects := s.effects ++ called.2.toOption.getD [] }, called.2.map fun _ ↦ task)

/-- The end of a request, with or without an exception: the mutex is released. -/
def finish (s : RequestState T) (thread : T) (task : Task) : RequestState T :=
  let s := s.setTask thread none
  match task.locked, task.topic.bind s.states with
  | true, some topic => s.setTopic (task.topic.getD 0) { topic with holder := none }
  | _, _ => s

inductive RequestEvent (T : Type*) where
  | start (thread : T) (request : Request)
  | advance (thread : T) (env : SectionEnv)
  /-- A worker carries out one of the append jobs of a topic state. -/
  | append (incarnation job : ℕ)

/-- An append job writes to the files of its partition, found by name.  It fails
when the directory is gone. -/
def runAppend (s : RequestState T) (incarnation : ℕ) (topic : TopicState T) (partition : ℕ)
    (request : ProduceRequest) : RequestState T :=
  match s.files topic.name with
  | none => s
  | some files =>
      match files.partitions partition with
      | none => s
      | some records =>
          { s with
              files := Function.update s.files topic.name
                (some { files with
                  partitions := Function.update files.partitions partition
                    (some (records ++ [⟨incarnation, request⟩])) })
              effects := s.effects ++ [.acknowledged incarnation partition request] }

def step (s : RequestState T) : RequestEvent T → Option (RequestState T)
  | .start thread request =>
      match s.threads thread with
      | none =>
          some (s.setTask thread
            (some { request := request, sections := request.kind.sections }))
      | some _ => none
  | .advance thread env =>
      match s.threads thread with
      | none => none
      | some task =>
          match task.sections with
          | [] => none
          | sort :: rest =>
              (s.perform thread { task with sections := rest } env sort).map fun done ↦
                match done.2 with
                | .error _ => done.1.finish thread task
                | .ok task =>
                    if task.sections = [] then done.1.finish thread task
                    else done.1.setTask thread (some task)
  | .append incarnation job =>
      (s.states incarnation).bind fun topic ↦
        topic.pending[job]?.map fun pending ↦
          (s.setTopic incarnation { topic with pending := topic.pending.eraseIdx job }).runAppend
            incarnation topic pending.1 pending.2

/-- A broker without topics and requests. -/
def initial (maxTopicPartitions : ℕ) (offsets : OffsetStore) : RequestState T :=
  { maxTopicPartitions := maxTopicPartitions
    topics := fun _ ↦ none
    states := fun _ ↦ none
    created := 0
    coordinator := {}
    offsets := offsets
    files := fun _ ↦ none
    threads := fun _ ↦ none
    effects := [] }

end RequestState

end BoltStream.Broker
