import BoltStream.Storage.Recovery

/-!
# The replication simulation

A leader log and a follower log in two directories.  The follower copies one
stored batch of the leader at a time.  The clocks of the appends are arguments,
and so is the number of turns that a waiting `produce` takes before its
deadline.
-/

namespace BoltStream.Replication

open BoltStream.Lib BoltStream.Protocol BoltStream.Compression BoltStream.Storage

inductive AcknowledgementMode where
  | leader
  | all
  deriving DecidableEq, Repr

structure SimulationOptions where
  leaderDataDir : Bytes
  followerDataDir : Bytes
  topic : Bytes
  partition : ℕ
  leaderId : Bytes
  followerId : Bytes
  maxSegmentBytes : ℕ
  maxUncompressedBatchBytes : ℕ
  deriving DecidableEq, Repr

/-- The options `open_log` opens both logs with. -/
def SimulationOptions.logOptions (options : SimulationOptions) : PartitionLogOptions :=
  { topic := options.topic
    partitionId := options.partition
    maxSegmentBytes := options.maxSegmentBytes
    segmentMaxAgeSeconds := 0
    maxUncompressedBatchBytes := options.maxUncompressedBatchBytes }

/-- What the simulation throws: an exception of a storage or compression call
that it lets through, one of its own, or the timeout of a follower. -/
inductive SimulationError where
  | call (message : String)
  | own (message : String)
  | replicationTimeout (followerId : Bytes)
  deriving DecidableEq, Repr

structure ReplicationSimulation where
  options : SimulationOptions
  leader : PartitionLog
  follower : PartitionLog
  followerAvailable : Bool := true
  deriving DecidableEq, Repr

namespace ReplicationSimulation

/-- The constructor, on what the two directories hold. -/
def openSimulation (Z : Zstd) (options : SimulationOptions) (leaderDir followerDir : Directory) :
    Except SimulationError ReplicationSimulation :=
  match PartitionLog.openLog Z options.logOptions leaderDir with
  | .error message => .error (.call message)
  | .ok leader =>
      match PartitionLog.openLog Z options.logOptions followerDir with
      | .error message => .error (.call message)
      | .ok follower =>
          if options.leaderDataDir = [] ∨ options.followerDataDir = [] then
            .error (.own "leader and follower data directories are required")
          else if options.leaderDataDir = options.followerDataDir then
            .error (.own "leader and follower data directories must differ")
          else if options.leaderId = [] ∨ options.followerId = [] ∨
              options.leaderId = options.followerId then
            .error (.own "leader and follower broker ids must be distinct")
          else if follower.nextOffset > leader.nextOffset then
            .error (.own "follower offset is ahead of leader")
          else .ok { options := options, leader := leader, follower := follower }

/-- The branch of `replicate_once` for a batch that starts at the follower's next
offset. -/
def copyBatch (Z : Zstd) (sim : ReplicationSimulation) (clock : AppendClock)
    (encoded : PartitionLog.EncodedBatch) : ReplicationSimulation × Except SimulationError Bool :=
  match sim.leader.readFrom Z sim.follower.nextOffset encoded.metadata.recordCount 0 with
  | .error message => (sim, .error (.call message))
  | .ok records =>
      match PartitionLog.appendEncodedBatch Z sim.follower encoded.metadata.codec
          encoded.encodedRecords (UInt32.ofNat encoded.metadata.logicalBytes)
          (records.map fun record ↦ ⟨record.key, record.value⟩) (clock.timestamp 0) none with
      | (follower, .error message) => ({ sim with follower := follower }, .error (.call message))
      | (follower, .ok copied) =>
          ({ sim with follower := follower },
            if copied.baseOffset ≠ encoded.metadata.baseOffset ∨
                copied.nextOffset ≠ encoded.metadata.nextOffset then
              .error (.own "replicated batch offset mismatch")
            else .ok true)

/-- The branch of `replicate_once` for a single record. -/
def copyRecord (Z : Zstd) (sim : ReplicationSimulation) (clock : AppendClock) :
    ReplicationSimulation × Except SimulationError Bool :=
  match sim.leader.readFrom Z sim.follower.nextOffset 1 0 with
  | .error message => (sim, .error (.call message))
  | .ok [] => (sim, .error (.own "leader cannot supply follower offset"))
  | .ok (record :: _) =>
      if record.metadata.offset ≠ sim.follower.nextOffset then
        (sim, .error (.own "leader cannot supply follower offset"))
      else
        match sim.follower.append clock none record.key record.value with
        | (follower, .error message) => ({ sim with follower := follower }, .error (.call message))
        | (follower, .ok copied) =>
            ({ sim with follower := follower },
              if copied.offset ≠ sim.follower.nextOffset then
                .error (.own "replicated record offset mismatch")
              else .ok true)

def replicateOnce (Z : Zstd) (sim : ReplicationSimulation) (clock : AppendClock) :
    ReplicationSimulation × Except SimulationError Bool :=
  if sim.followerAvailable = false then (sim, .ok false)
  else if sim.follower.nextOffset > sim.leader.nextOffset then
    (sim, .error (.own "follower offset is ahead of leader"))
  else if sim.follower.nextOffset = sim.leader.nextOffset then (sim, .ok false)
  else
    match sim.leader.readEncodedBatch Z sim.follower.nextOffset with
    | .error message => (sim, .error (.call message))
    | .ok (some encoded) => sim.copyBatch Z clock encoded
    | .ok none => sim.copyRecord Z clock

/-- The loop of `produce` that waits for the follower to reach `target`; there is
a clock for every turn before the deadline. -/
def awaitFollower (Z : Zstd) (target : ℕ) : List AppendClock → ReplicationSimulation →
    ReplicationSimulation × Except SimulationError Unit
  | [], sim => (sim, .ok ())
  | clock :: turns, sim =>
      if sim.follower.nextOffset < target then
        match sim.replicateOnce Z clock with
        | (sim, .error error) => (sim, .error error)
        | (sim, .ok _) => awaitFollower Z target turns sim
      else (sim, .ok ())

/-- The part of `produce` that both acknowledgement modes share. -/
def appendToLeader (Z : Zstd) (sim : ReplicationSimulation) (records : List AppendRecord)
    (codec : Codec) (timestamp : UInt64) :
    ReplicationSimulation × Except SimulationError BatchMetadata :=
  let canonical := encodeRecordSet (records.map fun record ↦ ⟨record.key, record.value⟩)
  match compress Z codec canonical 3 with
  | .error message => (sim, .error (.call message))
  | .ok encoded =>
      match PartitionLog.appendEncodedBatch Z sim.leader codec encoded
          (UInt32.ofNat canonical.length) records timestamp none with
      | (leader, .error message) => ({ sim with leader := leader }, .error (.call message))
      | (leader, .ok metadata) => ({ sim with leader := leader }, .ok metadata)

def produce (Z : Zstd) (sim : ReplicationSimulation) (records : List AppendRecord) (codec : Codec)
    (acknowledgement : AcknowledgementMode) (timestamp : UInt64) (turns : List AppendClock) :
    ReplicationSimulation × Except SimulationError BatchMetadata :=
  match sim.appendToLeader Z records codec timestamp with
  | (sim, .error error) => (sim, .error error)
  | (sim, .ok metadata) =>
      match acknowledgement with
      | .leader => (sim, .ok metadata)
      | .all =>
          match awaitFollower Z metadata.nextOffset turns sim with
          | (sim, .error error) => (sim, .error error)
          | (sim, .ok ()) =>
              (sim,
                if sim.follower.nextOffset < metadata.nextOffset then
                  .error (.replicationTimeout sim.options.followerId)
                else .ok metadata)

/-- The loop of `catch_up` with the number of fetches made; it has not ended when
the fuel is used up. -/
def catchUpLoop (Z : Zstd) (clocks : ℕ → AppendClock) : ℕ → ℕ → ReplicationSimulation →
    ReplicationSimulation × Option (Except SimulationError ℕ)
  | 0, _, sim => (sim, none)
  | fuel + 1, fetches, sim =>
      match sim.replicateOnce Z (clocks fetches) with
      | (sim, .error error) => (sim, some (.error error))
      | (sim, .ok false) => (sim, some (.ok fetches))
      | (sim, .ok true) => catchUpLoop Z clocks fuel (fetches + 1) sim

def catchUp (Z : Zstd) (sim : ReplicationSimulation) (clocks : ℕ → AppendClock) (fuel : ℕ) :
    ReplicationSimulation × Option (Except SimulationError ℕ) :=
  catchUpLoop Z clocks fuel 0 sim

def reopenFollower (Z : Zstd) (sim : ReplicationSimulation) :
    ReplicationSimulation × Except SimulationError Unit :=
  match PartitionLog.openLog Z sim.options.logOptions sim.follower.dir with
  | .error message => (sim, .error (.call message))
  | .ok follower => ({ sim with follower := follower }, .ok ())

def setFollowerAvailable (sim : ReplicationSimulation) (available : Bool) :
    ReplicationSimulation :=
  { sim with followerAvailable := available }

/-- `lag_records` of `status()` -/
def lagRecords (sim : ReplicationSimulation) : ℕ :=
  if sim.leader.nextOffset ≥ sim.follower.nextOffset then
    sim.leader.nextOffset - sim.follower.nextOffset
  else 0

def leaderRecords (Z : Zstd) (sim : ReplicationSimulation) : Except String (List Record) :=
  sim.leader.readFrom Z sim.leader.earliestOffset sim.leader.nextOffset 0

def followerRecords (Z : Zstd) (sim : ReplicationSimulation) : Except String (List Record) :=
  sim.follower.readFrom Z sim.follower.earliestOffset sim.follower.nextOffset 0

end ReplicationSimulation

end BoltStream.Replication
