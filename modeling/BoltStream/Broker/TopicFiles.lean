import BoltStream.Broker.Accepting
import BoltStream.Broker.GroupCoordinator
import BoltStream.Broker.Manifests
import BoltStream.Protocol.TopicMessages
import BoltStream.Storage.FailedRemoval

/-!
# Topics on disk

`create_topic`, `delete_topic` and `load_existing_topics` as sequences of file
operations on the directory of the topics.  An operation can fail, or the process can
stop in it; both leave what was done before and a part of that operation.
-/

namespace BoltStream.Broker

open BoltStream.Lib BoltStream.Protocol BoltStream.Compression BoltStream.Storage

/-- The directory of a topic: `manifest.json` and the partition directories. -/
structure TopicDirectory where
  manifest : Option Bytes := none
  partitions : ℕ → Option Directory := fun _ ↦ none

/-- The subdirectories of `topics` by their names. -/
abbrev DataDirectory := SortedMap Bytes TopicDirectory

/-- What the functions on topics use of the options of the server. -/
structure TopicConfig where
  server : ServerConfig
  maxTopicPartitions : UInt16
  /-- The path of the manifest of a topic. -/
  manifestPath : Bytes → String

/-- The topic is in `topics_` with its opened partitions. -/
structure ServedTopic where
  partitionCount : ℕ
  partitions : List PartitionLog

/-! ## File operations -/

inductive TopicStep where
  | createDirectory (topic : Bytes)
  | writeManifest (manifest : TopicManifest)
  | openPartition (topic : Bytes) (partition : ℕ)
  | removeAll (topic : Bytes)

/-- What an interrupted `remove_all` has removed. -/
structure Removal where
  manifest : Bool
  partition : ℕ → Bool
  log : ℕ → ℕ → Bool
  index : ℕ → ℕ → Bool

/-- Where a sequence of operations ends before its end: after `done` of them, in the
next one. -/
structure TopicStop where
  done : ℕ
  /-- The bytes of the manifest that were written, if its file was opened. -/
  cut : Option ℕ := none
  /-- What an open has made of the partition directory, if it got that far. -/
  opened : Option Directory := none
  removal : Removal := ⟨false, fun _ ↦ false, fun _ _ ↦ false, fun _ _ ↦ false⟩

def Removal.apply (removal : Removal) (dir : TopicDirectory) : TopicDirectory :=
  { manifest := if removal.manifest then none else dir.manifest
    partitions := fun partition ↦
      if removal.partition partition then none
      else (dir.partitions partition).map fun files ↦
        { logs := files.logs.filter fun file ↦ !removal.log partition file.1
          indexes := files.indexes.filter fun file ↦ !removal.index partition file.1 } }

namespace DataDirectory

def get (data : DataDirectory) (topic : Bytes) : TopicDirectory := (data.find? topic).getD {}

def setManifest (data : DataDirectory) (topic json : Bytes) : DataDirectory :=
  data.insert topic { get data topic with manifest := some json }

def setPartition (data : DataDirectory) (topic : Bytes) (partition : ℕ) (files : Directory) :
    DataDirectory :=
  data.insert topic
    { get data topic with
      partitions := Function.update (get data topic).partitions partition (some files) }

/-- `PartitionLog::open` on a partition directory, which it creates. -/
def openLog (Z : Zstd) (config : TopicConfig) (data : DataDirectory) (topic : Bytes)
    (partition : ℕ) : Except String PartitionLog :=
  PartitionLog.openLog Z (config.server.logOptions topic partition)
    (((get data topic).partitions partition).getD {})

end DataDirectory

open DataDirectory

namespace TopicStep

def topic : TopicStep → Bytes
  | createDirectory topic => topic
  | writeManifest manifest => manifest.topic
  | openPartition topic _ => topic
  | removeAll topic => topic

def apply (Z : Zstd) (config : TopicConfig) (data : DataDirectory) : TopicStep → DataDirectory
  | createDirectory topic => data.insert topic (get data topic)
  | writeManifest manifest => setManifest data manifest.topic (writeTopicManifest manifest)
  | openPartition topic partition =>
      match DataDirectory.openLog Z config data topic partition with
      | .ok log => setPartition data topic partition log.dir
      | .error _ => data
  | removeAll topic => data.erase topic

def interrupted (stop : TopicStop) (data : DataDirectory) : TopicStep → DataDirectory
  | createDirectory _ => data
  | writeManifest manifest =>
      match stop.cut with
      | none => data
      | some cut => setManifest data manifest.topic ((writeTopicManifest manifest).take cut)
  | openPartition topic partition =>
      match stop.opened with
      | none => data
      | some files => setPartition data topic partition files
  | removeAll topic =>
      match data.find? topic with
      | none => data
      | some dir => data.insert topic (stop.removal.apply dir)

/-- The error of an operation that fails; `reason` comes from the operation itself. -/
def error (config : TopicConfig) (stop : TopicStop) (reason : String) : TopicStep → BrokerError
  | createDirectory _ => .exception ("failed to create topic directory: " ++ reason)
  | writeManifest manifest =>
      if stop.cut.isSome then
        .exception ("failed to flush topic manifest: " ++ config.manifestPath manifest.topic)
      else .exception ("failed to write topic manifest: " ++ config.manifestPath manifest.topic)
  | openPartition _ _ => .exception reason
  | removeAll _ => .request .internalError ("failed to delete topic directory: " ++ reason)

end TopicStep

section Steps

variable (Z : Zstd) (config : TopicConfig)

def runSteps (data : DataDirectory) (steps : List TopicStep) : DataDirectory :=
  steps.foldl (TopicStep.apply Z config) data

/-- What is there when a sequence of operations ends before its end. -/
def stopSteps (stop : TopicStop) : ℕ → List TopicStep → DataDirectory → DataDirectory
  | _, [], data => data
  | 0, step :: _, data => step.interrupted stop data
  | done + 1, step :: rest, data => stopSteps stop done rest (step.apply Z config data)

/-- The opens of `open_topic_state`. -/
def openSteps (topic : Bytes) (partitionCount : ℕ) : List TopicStep :=
  (List.range partitionCount).map (TopicStep.openPartition topic)

def manifestSteps (manifest : TopicManifest) : List TopicStep :=
  [.createDirectory manifest.topic, .writeManifest manifest]

/-- `open_topic_state`: a partition log does not depend on the partitions opened before. -/
def openTopicState (data : DataDirectory) (topic : Bytes) (partitionCount : ℕ) :
    Except String ServedTopic :=
  ((List.range partitionCount).mapM (DataDirectory.openLog Z config data topic)).map
    (ServedTopic.mk partitionCount)

/-! ## Loading -/

def manifestFile (dir : TopicDirectory) : ManifestFile :=
  match dir.manifest with
  | none => .missing
  | some json => .content json

/-- `parse_partition_count_or_migrate`: the partition count, and the operations by which
a topic from before the manifests gets one. -/
def parsePartitionCountOrMigrate (data : DataDirectory) (topic now : Bytes) :
    Except Bytes (ℕ × List TopicStep) :=
  match readTopicManifest (text (config.manifestPath topic)) (manifestFile (get data topic))
      topic with
  | .error message => .error message
  | .ok (some manifest) => .ok (manifest.partitionCount, [])
  | .ok none =>
      if ((get data topic).partitions 0).isNone then .ok (0, [])
      else .ok (1, manifestSteps ⟨topic, 1, now⟩)

/-- One turn of `load_existing_topics`: its file operations, and the topic if it is
served. -/
def loadTopic (data : DataDirectory) (now topic : Bytes) :
    List TopicStep × Except Bytes (Option ServedTopic) :=
  if isValidTopicName topic = false then ([], .ok none)
  else
    match parsePartitionCountOrMigrate config data topic now with
    | .error message => ([], .error message)
    | .ok (count, steps) =>
        if count = 0 then (steps, .ok none)
        else
          match openTopicState Z config (runSteps Z config data steps) topic count with
          | .error message => (steps, .error (text message))
          | .ok served => (steps ++ openSteps topic count, .ok (some served))

/-- `load_existing_topics`; `listing` is the order in which the directories are found. -/
def loadExistingTopics (now : Bytes) : List Bytes → DataDirectory →
    List TopicStep × Except Bytes (List (Bytes × ServedTopic))
  | [], _ => ([], .ok [])
  | topic :: rest, data =>
      let loaded := loadTopic Z config data now topic
      match loaded.2 with
      | .error message => (loaded.1, .error message)
      | .ok served =>
          let others := loadExistingTopics now rest (runSteps Z config data loaded.1)
          (loaded.1 ++ others.1,
            others.2.map fun topics ↦ served.toList.map (topic, ·) ++ topics)

/-- The topics a broker serves after `load_existing_topics`. -/
def loadedTopics (loaded : List (Bytes × ServedTopic)) : SortedMap Bytes ServedTopic :=
  loaded.foldl (fun topics entry ↦ topics.insert entry.1 entry.2) ∅

end Steps

/-! ## Creating and deleting -/

/-- The data directory and what the broker keeps in memory of it. -/
structure TopicStore where
  data : DataDirectory
  topics : SortedMap Bytes ServedTopic
  offsets : OffsetStore
  coordinator : GroupCoordinator

/-- A file operation that throws. -/
structure TopicFault where
  stop : TopicStop
  reason : String

namespace TopicStore

variable (Z : Zstd) (config : TopicConfig)

def createSteps (request : CreateTopicRequest) (now : Bytes) : List TopicStep :=
  manifestSteps ⟨request.topic, request.partitionCount, now⟩ ++
    openSteps request.topic request.partitionCount

def createTopic (store : TopicStore) (request : CreateTopicRequest) (now : Bytes)
    (fault : Option TopicFault) : TopicStore × Except BrokerError CreateTopicResponse :=
  if isValidTopicName request.topic = false then
    (store, .error (.request .malformedPayload "invalid topic name"))
  else if request.partitionCount = 0 ∨ request.partitionCount > config.maxTopicPartitions.toNat then
    (store, .error (.request .invalidPartition "partition count exceeds configured maximum"))
  else
    match store.topics.find? request.topic with
    | some existing =>
        if existing.partitionCount ≠ request.partitionCount then
          (store, .error (.request .topicConflict
            "topic already exists with a different partition count"))
        else (store, .ok ⟨request.topic, request.partitionCount, text "exists"⟩)
    | none =>
        let steps := createSteps request now
        match fault.bind fun fault ↦ steps[fault.stop.done]?.map (fault, ·) with
        | some (fault, step) =>
            ({ store with data := stopSteps Z config fault.stop fault.stop.done steps store.data },
              .error (step.error config fault.stop fault.reason))
        | none =>
            match openTopicState Z config (runSteps Z config store.data
                (manifestSteps ⟨request.topic, request.partitionCount, now⟩)) request.topic
                request.partitionCount with
            | .error message =>
                ({ store with
                    data := runSteps Z config store.data
                      (manifestSteps ⟨request.topic, request.partitionCount, now⟩) },
                  .error (.exception message))
            | .ok served =>
                ({ store with
                    data := runSteps Z config store.data steps
                    topics := store.topics.insert request.topic served },
                  .ok ⟨request.topic, request.partitionCount, text "created"⟩)

/-- Where a deletion fails: in `remove_all`, or in the rewriting of the offset logs. -/
inductive DeleteFault where
  | removeFiles (removal : Removal) (reason : String)
  | removeOffsets (stop : OffsetStore.RemovalStop) (reason : String)

/-- The counts of a deletion that read the partition logs. -/
def segmentsDeleted (served : ServedTopic) : ℕ × ℕ :=
  let summaries := served.partitions.flatMap PartitionLog.segmentSummaries
  (summaries.length % 2 ^ 32, (summaries.map SegmentSummary.logBytes).sum % 2 ^ 64)

/-- `delete_topic` when no append is pending.  `now` and `later` are the times at which
it looks for group members. -/
def deleteTopic (store : TopicStore) (request : DeleteTopicRequest) (now later : ℤ)
    (fault : Option DeleteFault) : TopicStore × Except BrokerError DeleteTopicResponse :=
  if isValidTopicName request.topic = false then
    (store, .error (.request .malformedPayload "invalid topic name"))
  else
    let first := store.coordinator.topicHasActiveMembers request.topic now
    let store := { store with coordinator := first.1 }
    if first.2 then
      (store, .error (.request .groupActive
        "topic has active coordinated consumer group members"))
    else
      match store.topics.find? request.topic with
      | none => (store, .error (.request .unknownTopic "topic does not exist"))
      | some served =>
          let second := store.coordinator.topicHasActiveMembers request.topic later
          let store := { store with coordinator := second.1 }
          if second.2 then
            (store, .error (.request .groupActive
              "topic has active coordinated consumer group members"))
          else
            let store := { store with topics := store.topics.erase request.topic }
            match fault with
            | some (.removeFiles removal reason) =>
                let stop : TopicStop := { done := 0, removal := removal }
                ({ store with
                    data := stopSteps Z config stop 0 [.removeAll request.topic] store.data },
                  .error ((TopicStep.removeAll request.topic).error config stop reason))
            | some (.removeOffsets stop reason) =>
                let store := { store with data := store.data.erase request.topic }
                if stop.done < (store.offsets.removeTopicSteps request.topic).length then
                  ({ store with offsets := store.offsets.failRemoval request.topic stop },
                    .error (.exception reason))
                else
                  deleted store request.topic served
            | none => deleted { store with data := store.data.erase request.topic } request.topic
                served
where
  /-- The end of a deletion. -/
  deleted (store : TopicStore) (topic : Bytes) (served : ServedTopic) :
      TopicStore × Except BrokerError DeleteTopicResponse :=
    let removed := store.offsets.removeTopic topic
    ({ store with
        offsets := removed.1
        coordinator := store.coordinator.removeTopic topic },
      .ok
        { topic := topic
          status := text "deleted"
          partitionsDeleted := served.partitionCount
          segmentsDeleted := (segmentsDeleted served).1
          bytesDeleted := (segmentsDeleted served).2
          offsetsRemoved := removed.2.offsetsRemoved % 2 ^ 32 })

end TopicStore

end BoltStream.Broker
