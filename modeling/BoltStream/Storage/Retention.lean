import BoltStream.Storage.PartitionLog

/-!
# Retention

`apply_retention` walks the segments from the oldest, removes whole inactive
segments that are too old or that the byte budget does not cover, and drops
their index entries when the walk is over.
-/

namespace BoltStream.Storage

open BoltStream.Lib

structure SegmentSummary where
  baseOffset : ℕ
  firstOffset : ℕ
  lastOffset : ℕ
  logBytes : ℕ
  active : Bool
  deriving DecidableEq, Repr

structure RetentionPolicy where
  maxAgeSeconds : ℕ
  maxBytes : ℕ
  deriving DecidableEq, Repr

structure RetentionStats where
  segmentsDeleted : ℕ
  bytesDeleted : ℕ
  segmentsRetained : ℕ
  bytesRetained : ℕ
  earliestOffset : ℕ
  nextOffset : ℕ
  deriving DecidableEq, Repr

/-- What one retention pass asks of the file system: the age of each segment,
read when the walk reaches it, and which removals fail. -/
structure RetentionEnv where
  age : ℕ → AgeReading
  removeLogFails : ℕ → Bool
  removeIndexFails : ℕ → Bool

namespace PartitionLog

/-- The effect of one index entry on the summaries: it widens the offset range
of its segment, or stands for a segment whose file is gone. -/
def mergeIndexEntry (log : PartitionLog) (summaries : List SegmentSummary) (entry : IndexEntry) :
    List SegmentSummary :=
  if summaries.any fun summary ↦ summary.baseOffset == entry.segment then
    summaries.map fun summary ↦
      if summary.baseOffset = entry.segment then
        { summary with
          firstOffset := min summary.firstOffset entry.offset
          lastOffset := max summary.lastOffset entry.offset }
      else summary
  else
    { baseOffset := entry.segment
      firstOffset := entry.offset
      lastOffset := entry.offset
      logBytes := log.dir.logs.sizeOrZero entry.segment
      active := entry.segment == log.activeSegmentBase } :: summaries

def segmentSummaries (log : PartitionLog) : List SegmentSummary :=
  let listed := log.dir.logs.map fun segment ↦
    { baseOffset := segment.1
      firstOffset := segment.1
      lastOffset := segment.1
      logBytes := segment.2.length
      active := segment.1 == log.activeSegmentBase }
  (log.index.foldl log.mergeIndexEntry listed).insertionSort fun left right ↦
    left.baseOffset ≤ right.baseOffset

structure RetentionState where
  dir : Directory
  totalBytes : ℕ
  deletedLogs : List ℕ
  segmentsDeleted : ℕ
  bytesDeleted : ℕ
  deriving DecidableEq, Repr

/-- One segment is due for deletion. -/
def deletionDue (env : RetentionEnv) (policy : RetentionPolicy) (totalBytes : ℕ)
    (summary : SegmentSummary) : Bool :=
  let deleteByAge := decide (policy.maxAgeSeconds > 0 ∧
    fileAgeSecondsOrZero (env.age summary.baseOffset) ≥ policy.maxAgeSeconds)
  let deleteBySize := decide (policy.maxBytes > 0 ∧ totalBytes > policy.maxBytes)
  !summary.active && (deleteByAge || deleteBySize)

/-- The walk over the segments.  A removal that fails ends it with an
exception; the files removed before stay removed. -/
def retentionLoop (env : RetentionEnv) (policy : RetentionPolicy) :
    List SegmentSummary → RetentionState → RetentionState × Except String Unit
  | [], state => (state, .ok ())
  | summary :: rest, state =>
      if deletionDue env policy state.totalBytes summary = false then
        retentionLoop env policy rest state
      else if env.removeLogFails summary.baseOffset then
        (state, .error "failed to delete retained segment")
      else
        let logs := state.dir.logs.remove summary.baseOffset
        if env.removeIndexFails summary.baseOffset then
          ({ state with dir := { state.dir with logs := logs } },
            .error "failed to delete retained index")
        else
          retentionLoop env policy rest
            { dir := { logs := logs, indexes := state.dir.indexes.remove summary.baseOffset }
              totalBytes :=
                if summary.logBytes > state.totalBytes then 0
                else state.totalBytes - summary.logBytes
              deletedLogs := state.deletedLogs ++ [summary.baseOffset]
              segmentsDeleted := state.segmentsDeleted + 1
              bytesDeleted := state.bytesDeleted + summary.logBytes }

def RetentionState.initial (log : PartitionLog) : RetentionState :=
  { dir := log.dir
    totalBytes := (log.segmentSummaries.map SegmentSummary.logBytes).sum
    deletedLogs := []
    segmentsDeleted := 0
    bytesDeleted := 0 }

def applyRetention (log : PartitionLog) (env : RetentionEnv) (policy : RetentionPolicy) :
    PartitionLog × Except String RetentionStats :=
  let walk := retentionLoop env policy log.segmentSummaries (RetentionState.initial log)
  match walk.2 with
  | .error message => ({ log with dir := walk.1.dir }, .error message)
  | .ok () =>
      let kept : PartitionLog :=
        { log with
          dir := walk.1.dir
          index := log.index.filter fun entry ↦ entry.segment ∉ walk.1.deletedLogs }
      (kept, .ok
        { segmentsDeleted := walk.1.segmentsDeleted
          bytesDeleted := walk.1.bytesDeleted
          segmentsRetained := kept.segmentSummaries.length
          bytesRetained := (kept.segmentSummaries.map SegmentSummary.logBytes).sum
          earliestOffset := kept.earliestOffset
          nextOffset := kept.nextOffset })

end PartitionLog

end BoltStream.Storage
