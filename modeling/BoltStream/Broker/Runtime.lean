import BoltStream.Broker.AppendQueue
import BoltStream.Broker.RequestLocks
import BoltStream.Protocol.Frames

/-!
# The runtime of the broker

Requests, append workers, `produce_batch` and `run_retention` on the same topic
states.  The requests are those of `RequestState`, except that two of their sections
are carried out on the append queue: under the mutex of its topic `async_produce`
goes through the two sections of `try_enqueue_append`, and a deletion looks at the
partitions one after the other, each under its `append_mutex`, until it has seen
all of them idle in a row.

The partition `k` of the topic state with number `i` is `(i, k)` in the queue.
-/

namespace BoltStream.Broker

open BoltStream.Lib BoltStream.Protocol BoltStream.Storage

def keyHash (key : Bytes) : UInt64 :=
  key.foldl (fun hash byte ↦ (hash ^^^ byte.toUInt64) * 1099511628211) 14695981039346656037

def keyHashPartition (key : Bytes) (partitionCount : ℕ) : ℕ :=
  (keyHash key).toNat % partitionCount % 2 ^ 16

/-- What is done to a topic state.  `append` is `run_append_batch`, which applies
retention too, or `append_encoded_batch`. -/
inductive TopicUse where
  | append (partition : ℕ)
  | retain (partition : ℕ)
  | commit (group : Bytes) (partition offset : ℕ)
  | join (group : Bytes)
  deriving DecidableEq, Repr

/-- How far `produce_batch` or `run_retention` is.  They carry the topic states they
have found. -/
inductive LogTask where
  | batchFound (request : ProduceBatchRequest) (records : List AppendRecord) (incarnation : ℕ)
  | batchLocked (request : ProduceBatchRequest) (records : List AppendRecord) (incarnation : ℕ)
  | retaining (topics : List ℕ)
  | retainingTopic (incarnation next : ℕ) (topics : List ℕ)

/-- The topic state whose mutex the task holds. -/
def LogTask.inside : LogTask → Option ℕ
  | .batchLocked _ _ incarnation => some incarnation
  | .retainingTopic incarnation _ _ => some incarnation
  | _ => none

structure RuntimeState (T W : Type*) where
  requests : RequestState T
  queue : QueueState (ℕ × ℕ) W
  nextRoundRobinPartition : ℕ → ℕ
  /-- The partition of a client between the two sections of `try_enqueue_append`. -/
  scheduling : T → Option (ℕ × ℕ)
  /-- How many partitions `wait_for_topic_appends_to_drain` has seen idle in a row. -/
  scanned : T → ℕ
  logTasks : T → Option LogTask
  /-- What was done to which topic state, in order. -/
  uses : List (ℕ × TopicUse)
  /-- The topic states for which `wait_for_topic_appends_to_drain` has returned. -/
  drained : List ℕ

/-- What a section of a request meets: its surroundings, those of `run_append_batch`
when there are no workers, the completion handler, and the logs that
`open_topic_state` finds. -/
structure RuntimeEnv where
  request : SectionEnv
  append : AppendEnv
  completion : ℕ
  opened : ℕ → PartitionLog

/-- What `append_encoded_batch` or `apply_retention` meets. -/
structure LogEnv where
  timestamp : UInt64
  fault : Option AppendFault
  retention : RetentionEnv

inductive RuntimeEvent (T W : Type*) where
  | start (thread : T) (request : Request)
  | advance (thread : T) (env : RuntimeEnv)
  | work (worker : W) (env : AppendEnv)
  | produceBatch (thread : T) (request : ProduceBatchRequest) (records : List AppendRecord)
  | runRetention (thread : T) (topicFilter : Bytes)
  | advanceLogTask (thread : T) (env : LogEnv)

namespace QueueState

variable {P W : Type*}

/-- Work on the logs that leaves the append queue alone. -/
def withLogs (s : QueueState P W) (logs : P → PartitionLog) : QueueState P W :=
  { s with partitions := fun p ↦ { s.partitions p with log := logs p } }

def log (s : QueueState P W) (p : P) : PartitionLog := (s.partitions p).log

end QueueState

namespace RequestState

variable {T : Type*}

/-- The topic states in `topics_`. -/
def listed (s : RequestState T) : List ℕ :=
  (List.range s.created).filter fun incarnation ↦
    (s.states incarnation).any fun topic ↦ s.topics topic.name = some incarnation

/-- The topic states that `run_retention` picks.  `topics_` is sorted by name. -/
def retentionTopics (s : RequestState T) (topicFilter : Bytes) : List ℕ :=
  let name := fun incarnation ↦ ((s.states incarnation).map TopicState.name).getD []
  (s.listed.filter fun incarnation ↦ topicFilter = [] ∨ name incarnation = topicFilter).mergeSort
    fun i j ↦ name i ≤ name j

end RequestState

namespace RuntimeState

variable {T W : Type*} [DecidableEq T] [DecidableEq W] [Fintype W]

/-! ## Requests -/

def setScheduling (s : RuntimeState T W) (thread : T) (partition : Option (ℕ × ℕ)) :
    RuntimeState T W :=
  { s with scheduling := Function.update s.scheduling thread partition }

def setScanned (s : RuntimeState T W) (thread : T) (count : ℕ) : RuntimeState T W :=
  { s with scanned := Function.update s.scanned thread count }

def finishRequest (s : RuntimeState T W) (thread : T) (task : Task) : RuntimeState T W :=
  { s with requests := s.requests.finish thread task }

/-- The end of `async_produce` after an accepted job. -/
def finishProduce (s : RuntimeState T W) (thread : T) (task : Task) (incarnation : ℕ)
    (topic : TopicState T) : RuntimeState T W :=
  let s := s.finishRequest thread task
  if task.request.key = [] then
    { s with
      nextRoundRobinPartition := Function.update s.nextRoundRobinPartition incarnation
        ((s.nextRoundRobinPartition incarnation + 1) % topic.partitionCount) }
  else s

/-- `run_append_batch` and the completion on the thread of the request, for a broker
without workers. -/
def appendInline (config : QueueConfig) (s : RuntimeState T W) (p : ℕ × ℕ) (job : AppendJob)
    (env : AppendEnv) : RuntimeState T W :=
  let partition := s.queue.partitions p
  let outcome := runAppendBatch partition.log env.clock env.fault env.retention
    config.retentionPolicy [job.request]
  { s with
    queue := s.queue.setPartition p
      { partition with
        log := outcome.log
        accepted := partition.accepted ++ [job]
        appended := partition.appended ++ [job]
        completed := partition.completed ++ [job].zip outcome.results }
    uses := s.uses ++ [(p.1, .append p.2)] }

/-- `async_produce` under the mutex of its topic. -/
def produce (config : QueueConfig) (s : RuntimeState T W) (thread : T) (task : Task)
    (incarnation : ℕ) (topic : TopicState T) (env : RuntimeEnv) : Option (RuntimeState T W) :=
  let job : AppendJob :=
    ⟨⟨task.request.topic, task.request.key, task.request.message⟩, env.completion⟩
  let partition :=
    if task.request.key = [] then s.nextRoundRobinPartition incarnation
    else keyHashPartition task.request.key topic.partitionCount
  match s.scheduling thread with
  | some p =>
      -- The second section of `try_enqueue_append`.
      let client := s.queue.scheduling.findIdx fun ready ↦ ready.1 = p
      (s.queue.step config (.scheduleAppend client)).map fun queue ↦
        ({ s with queue := queue }.setScheduling thread none).finishProduce thread task incarnation
          topic
  | none =>
      if partition ≥ topic.partitionCount then some (s.finishRequest thread task)
      else if Fintype.card W = 0 then
        some ((s.appendInline config (incarnation, partition) job env.append).finishProduce thread
          task incarnation topic)
      else
        let enqueued := tryEnqueueAppend config (s.queue.partitions (incarnation, partition)) job
        (s.queue.step config (.tryEnqueueAppend (incarnation, partition) job)).map fun queue ↦
          let s := { s with queue := queue }
          if enqueued.2.1.accepted = false then s.finishRequest thread task
          else if enqueued.2.2.isSome then s.setScheduling thread (some (incarnation, partition))
          else s.finishProduce thread task incarnation topic

/-- `wait_for_topic_appends_to_drain` looks at one partition, or returns. -/
def drain (s : RuntimeState T W) (thread : T) (incarnation : ℕ) (topic : TopicState T)
    (env : SectionEnv) : Option (RuntimeState T W) :=
  if s.scanned thread < topic.partitionCount then
    let partition := s.queue.partitions (incarnation, s.scanned thread)
    if partition.appendActive ∨ partition.pendingAppends ≠ [] then some (s.setScanned thread 0)
    else some (s.setScanned thread (s.scanned thread + 1))
  else
    (s.requests.step (.advance thread env)).map fun requests ↦
      { s.setScanned thread 0 with requests := requests, drained := s.drained ++ [incarnation] }

/-- The use that a section of `RequestState` makes of its topic state. -/
def sectionUse (task : Task) : Section → List (ℕ × TopicUse)
  | .commit =>
      [(task.topic.getD 0, .commit task.request.group task.request.partition task.target)]
  | .join => [(task.topic.getD 0, .join task.request.group)]
  | _ => []

/-- A section of `RequestState`.  A topic state that it makes comes with its logs. -/
def advanceRequest (s : RuntimeState T W) (thread : T) (task : Task) (sort : Section)
    (env : RuntimeEnv) : Option (RuntimeState T W) :=
  (s.requests.step (.advance thread env.request)).map fun requests ↦
    { s with
      requests := requests
      queue := s.queue.withLogs fun p ↦
        if s.requests.created ≤ p.1 ∧ p.1 < requests.created then env.opened p.2
        else s.queue.log p
      uses := s.uses ++ sectionUse task sort }

def advance (config : QueueConfig) (s : RuntimeState T W) (thread : T) (env : RuntimeEnv) :
    Option (RuntimeState T W) :=
  (s.requests.threads thread).bind fun task ↦
    match task.sections with
    | [] => none
    | .enqueue :: _ =>
        task.topic.bind fun incarnation ↦ (s.requests.states incarnation).bind fun topic ↦
          s.produce config thread task incarnation topic env
    | .drain :: _ =>
        task.topic.bind fun incarnation ↦ (s.requests.states incarnation).bind fun topic ↦
          s.drain thread incarnation topic env.request
    | sort :: _ => s.advanceRequest thread task sort env

/-! ## `produce_batch` and `run_retention` -/

def setLogTask (s : RuntimeState T W) (thread : T) (task : Option LogTask) : RuntimeState T W :=
  { s with logTasks := Function.update s.logTasks thread task }

def setHolder (s : RuntimeState T W) (incarnation : ℕ) (topic : TopicState T)
    (holder : Option T) : RuntimeState T W :=
  { s with requests := s.requests.setTopic incarnation { topic with holder := holder } }

/-- Takes the mutex of a topic state and looks at `deleting`.  There is no result
while someone else holds the mutex. -/
def enter (s : RuntimeState T W) (thread : T) (incarnation : ℕ) (inside outside : Option LogTask) :
    Option (RuntimeState T W) :=
  (s.requests.states incarnation).bind fun topic ↦
    if topic.holder.isSome then none
    else if topic.deleting then some (s.setLogTask thread outside)
    else some ((s.setHolder incarnation topic (some thread)).setLogTask thread inside)

/-- Works on the log of a partition. -/
def useLog (s : RuntimeState T W) (p : ℕ × ℕ) (log : PartitionLog) (use : TopicUse) :
    RuntimeState T W :=
  { s with
    queue := s.queue.withLogs (Function.update s.queue.log p log)
    uses := s.uses ++ [(p.1, use)] }

def advanceLogTask (Z : Compression.Zstd) (config : QueueConfig) (s : RuntimeState T W) (thread : T)
    (env : LogEnv) : LogTask → Option (RuntimeState T W)
  | .batchFound request records incarnation =>
      s.enter thread incarnation (some (.batchLocked request records incarnation)) none
  | .batchLocked request records incarnation =>
      (s.requests.states incarnation).map fun topic ↦
        let leave := fun s : RuntimeState T W ↦
          (s.setHolder incarnation topic none).setLogTask thread none
        if request.partition ≥ topic.partitionCount then leave s
        else
          let p := (incarnation, request.partition)
          let appended := PartitionLog.appendEncodedBatch Z (s.queue.log p) request.codec
            request.encodedRecords (UInt32.ofNat request.uncompressedBytes) records env.timestamp
            env.fault
          leave (s.useLog p appended.1 (.append request.partition))
  | .retaining [] => some (s.setLogTask thread none)
  | .retaining (incarnation :: topics) =>
      s.enter thread incarnation (some (.retainingTopic incarnation 0 topics))
        (some (.retaining topics))
  | .retainingTopic incarnation next topics =>
      (s.requests.states incarnation).map fun topic ↦
        let leave := fun (s : RuntimeState T W) (task : Option LogTask) ↦
          (s.setHolder incarnation topic none).setLogTask thread task
        if next < topic.partitionCount then
          let p := (incarnation, next)
          let applied := (s.queue.log p).applyRetention env.retention config.retentionPolicy
          let s := s.useLog p applied.1 (.retain next)
          match applied.2 with
          | .error _ => leave s none
          | .ok _ => s.setLogTask thread (some (.retainingTopic incarnation (next + 1) topics))
        else leave s (some (.retaining topics))

/-! ## Steps -/

/-- A thread that has nothing to do. -/
def free (s : RuntimeState T W) (thread : T) : Bool :=
  (s.requests.threads thread).isNone && (s.logTasks thread).isNone

/-- What a step of a worker uses. -/
def workUse (s : RuntimeState T W) (worker : W) : List (ℕ × TopicUse) :=
  match s.queue.workers worker with
  | .handling p (.batched _) => [(p.1, .append p.2)]
  | _ => []

def step (Z : Compression.Zstd) (config : QueueConfig) (s : RuntimeState T W) :
    RuntimeEvent T W → Option (RuntimeState T W)
  | .start thread request =>
      if s.free thread then
        (s.requests.step (.start thread request)).map fun requests ↦ { s with requests := requests }
      else none
  | .advance thread env => s.advance config thread env
  | .work worker env =>
      (s.queue.workerStep config worker env).map fun queue ↦
        { s with queue := queue, uses := s.uses ++ s.workUse worker }
  | .produceBatch thread request records =>
      if s.free thread then
        match s.requests.topics request.topic with
        | none => some s
        | some incarnation =>
            some (s.setLogTask thread (some (.batchFound request records incarnation)))
      else none
  | .runRetention thread topicFilter =>
      if s.free thread then
        let topics := s.requests.retentionTopics topicFilter
        if topicFilter ≠ [] ∧ (isValidTopicName topicFilter = false ∨ topics = []) then some s
        else some (s.setLogTask thread (some (.retaining topics)))
      else none
  | .advanceLogTask thread env =>
      (s.logTasks thread).bind fun task ↦ s.advanceLogTask Z config thread env task

/-- A topic that `load_existing_topics` finds is opened like a new one. -/
def loadTopic (s : RequestState T) (topic : Bytes × ℕ) : RequestState T :=
  let request : Request := { kind := .createTopic, topic := topic.1, partitionCount := topic.2 }
  (s.openTopic { request := request, sections := [] }).1

/-- The broker after `load_existing_topics`. -/
def loaded (maxTopicPartitions : ℕ) (offsets : OffsetStore) (topics : List (Bytes × ℕ))
    (logs : ℕ × ℕ → PartitionLog) : RuntimeState T W :=
  { requests := topics.foldl loadTopic (RequestState.initial maxTopicPartitions offsets)
    queue := QueueState.initial logs
    nextRoundRobinPartition := fun _ ↦ 0
    scheduling := fun _ ↦ none
    scanned := fun _ ↦ 0
    logTasks := fun _ ↦ none
    uses := []
    drained := [] }

end RuntimeState

end BoltStream.Broker
