import BoltStream.Client.Consumer
import BoltStream.Lib.Runs

/-!
# Consumers of one group

Any number of coordinated consumers and the broker, step by step.  The broker
serves a request at any time after it was sent, also when its consumer has given
up or crashed in between; producers append and retention runs at any time.
-/

namespace BoltStream.Client

open BoltStream.Lib BoltStream.Protocol BoltStream.Compression BoltStream.Storage BoltStream.Broker

structure GroupRun (C : Type*) where
  topic : GroupTopic
  consumers : C → Option Consumer
  /-- Requests on their way whose consumer no longer waits. -/
  abandoned : List GroupRequest := []
  history : List Event := []

inductive GroupStep (C : Type*) where
  | start (consumer : C) (options : ConsumerOptions) (now : ℤ)
  /-- The consumer's process or loop takes its next step. -/
  | resume (consumer : C) (now : ℤ)
  | serve (consumer : C) (env : ServeEnv)
  | serveAbandoned (place : ℕ) (env : ServeEnv)
  /-- The session answers with an error before it takes the request. -/
  | refuse (consumer : C) (code : Option ErrorCode)
  | transportFailure (consumer : C) (timedOut : Bool)
  | crash (consumer : C)
  | expire (now : ℤ)
  | produce (partition : ℕ) (op : LogOp)
  | retain (partition : ℕ) (env : RetentionEnv) (policy : RetentionPolicy)

/-- The offsets of a log's index. -/
def indexedOffsets (log : PartitionLog) : List ℕ := log.index.map IndexEntry.offset

namespace GroupRun

variable {C : Type*} [DecidableEq C]

def setConsumer (s : GroupRun C) (name : C) (consumer : Consumer) : GroupRun C :=
  { s with consumers := Function.update s.consumers name (some consumer) }

/-- A consumer that stops may leave its request behind. -/
def abandon (s : GroupRun C) (name : C) (consumer stopped : Consumer) : GroupRun C :=
  { s.setConsumer name stopped with
    abandoned := s.abandoned ++
      if consumer.reply = none then consumer.request.toList else [] }

def record (s : GroupRun C) (events : List Event) : GroupRun C :=
  { s with history := s.history ++ events }

/-- The event of a request that has been served. -/
def startEvents (start : Option ℕ) : GroupRequest → List Event
  | .fetch partition _ => (start.map (Event.fetched partition)).toList
  | _ => []

/-- The phase of a fetch that goes on to the plain path. -/
def unforwarded (consumer : Consumer) : Consumer :=
  match consumer.phase with
  | .fetching partition _ rest => consumer.goto (.fetching partition true rest)
  | _ => consumer

def serveConsumer (Z : Zstd) (config : GroupConfig) (s : GroupRun C) (name : C)
    (consumer : Consumer) (request : GroupRequest) (env : ServeEnv) : GroupRun C :=
  let served := s.topic.serve Z config env request
  match served.2 with
  | .unforwarded => { s.setConsumer name (unforwarded consumer) with topic := served.1 }
  | .answered reply start =>
      { (s.setConsumer name { consumer with reply := some reply }).record
          (startEvents start request) with topic := served.1 }

def serveAbandoned (Z : Zstd) (config : GroupConfig) (s : GroupRun C) (place : ℕ)
    (request : GroupRequest) (env : ServeEnv) : GroupRun C :=
  let served := s.topic.serve Z config env request
  match served.2, request with
  | .unforwarded, .fetch partition _ =>
      { s with topic := served.1, abandoned := s.abandoned.set place (.fetch partition true) }
  | .unforwarded, _ => { s with topic := served.1, abandoned := s.abandoned.eraseIdx place }
  | .answered _ start, request =>
      { s.record (startEvents start request) with
        topic := served.1, abandoned := s.abandoned.eraseIdx place }

def setLog (s : GroupRun C) (partition : ℕ) (state : LogState) : GroupRun C :=
  { s with topic := { s.topic with logs := Function.update s.topic.logs partition state } }

/-- A call on the log of a partition. -/
def callLog (Z : Zstd) (s : GroupRun C) (partition : ℕ) (op : LogOp) : Option (GroupRun C) :=
  if partition < s.topic.partitionCount.toNat then
    (LogState.step Z (s.topic.logs partition) op).map (s.setLog partition)
  else none

/-- The offsets of a partition that are gone since `s`. -/
def removedSince (s t : GroupRun C) (partition : ℕ) : List ℕ :=
  (indexedOffsets (s.topic.logs partition).log).filter fun offset ↦
    decide (offset ∉ indexedOffsets (t.topic.logs partition).log)

def step (Z : Zstd) (config : GroupConfig) (s : GroupRun C) : GroupStep C → Option (GroupRun C)
  | .start name options now =>
      match s.consumers name with
      | none => some (s.setConsumer name (.start options now))
      | some _ => none
  | .resume name now =>
      (s.consumers name).bind fun consumer ↦
        (consumer.resume Z now).map fun done ↦ (s.setConsumer name done.1).record done.2
  | .serve name env =>
      (s.consumers name).bind fun consumer ↦
        if consumer.reply = none then
          consumer.request.map fun request ↦ s.serveConsumer Z config name consumer request env
        else none
  | .serveAbandoned place env =>
      (s.abandoned[place]?).map fun request ↦ s.serveAbandoned Z config place request env
  | .refuse name code =>
      (s.consumers name).bind fun consumer ↦
        if consumer.reply = none then
          consumer.request.map fun _ ↦
            s.setConsumer name { consumer with reply := some (.error code) }
        else none
  | .transportFailure name timedOut =>
      (s.consumers name).bind fun consumer ↦
        consumer.request.map fun _ ↦
          s.abandon name consumer (consumer.transportFailure timedOut)
  | .crash name =>
      (s.consumers name).map fun consumer ↦
        s.abandon name consumer (consumer.goto (.stopped none))
  | .expire now =>
      some { s with
        topic := { s.topic with
          coordinator := (s.topic.coordinator.expire config.group config.topic now).1 } }
  | .produce partition op =>
      match op with
      | .applyRetention _ _ => none
      | .reopen => none
      | op => s.callLog Z partition op
  | .retain partition env policy =>
      (s.callLog Z partition (.applyRetention env policy)).map fun t ↦
        t.record ((s.removedSince t partition).map (Event.removed partition))

/-- No consumer yet, and the logs of the topic just opened. -/
def initial (partitionCount : UInt16) (coordinator : GroupCoordinator) (offsets : OffsetStore)
    (logs : ℕ → PartitionLog) : GroupRun C :=
  { topic :=
      { partitionCount := partitionCount
        coordinator := coordinator
        offsets := offsets
        logs := fun partition ↦ ⟨logs partition, []⟩ }
    consumers := fun _ ↦ none }

end GroupRun

end BoltStream.Client
