import BoltStream.Storage.PartitionLog

/-!
# Opening a partition

`recover` rebuilds the index from the segment logs in base-offset order.  It
stops at the first entry that does not decode, cuts that segment there and
removes the segments behind it.  File operations succeed here; the content of
the old index files is never looked at.
-/

namespace BoltStream.Storage

open BoltStream.Lib BoltStream.Protocol BoltStream.Compression

namespace PartitionLog

/-- What scanning (the rest of) one segment adds to the index. -/
structure SegmentScan where
  entries : List IndexEntry
  nextOffset : ℕ
  recordsRecovered : ℕ
  position : ℕ
  truncate : Bool
  deriving DecidableEq, Repr

/-- The scan ends at `position`. -/
def SegmentScan.stopped (nextOffset position : ℕ) (truncate : Bool) : SegmentScan :=
  { entries := []
    nextOffset := nextOffset
    recordsRecovered := 0
    position := position
    truncate := truncate }

/-- The scan of the bytes behind an entry, with the entry's own index entries
put in front. -/
def SegmentScan.prepend (scan : SegmentScan) (entries : List IndexEntry) : SegmentScan :=
  { scan with
    entries := entries ++ scan.entries
    recordsRecovered := entries.length + scan.recordsRecovered }

/-- The body of the `try` block: the index entries of one stored entry and its
end offset. -/
def scanEntry (Z : Zstd) (options : PartitionLogOptions) (segment position recordBytes : ℕ)
    (bodyAndCrc : Bytes) : Except String (List IndexEntry × ℕ) :=
  if readU16Be bodyAndCrc 0 = kBatchVersion then
    (decodeBatch Z options.topic options.partitionId recordBytes bodyAndCrc
      options.maxUncompressedBatchBytes).map fun batch ↦
        (batchEntries batch.metadata.baseOffset position recordBytes segment
          batch.metadata.recordCount, batch.metadata.nextOffset)
  else
    (decodeRecord options.topic options.partitionId recordBytes bodyAndCrc).map fun decoded ↦
      ([{ offset := decoded.record.metadata.offset
          filePosition := position
          recordBytes := recordBytes
          segment := segment }], (decoded.record.metadata.offset + 1) % 2 ^ 64)

/-- The `while` loop of `recover` on one segment; `rest` is the file behind
`position`.  Every turn consumes bytes, so the file size is enough fuel. -/
def scanLoop (Z : Zstd) (options : PartitionLogOptions) (segment : ℕ) :
    ℕ → ℕ → ℕ → Bytes → SegmentScan
  | 0, nextOffset, position, _ => .stopped nextOffset position false
  | fuel + 1, nextOffset, position, rest =>
      if rest = [] then .stopped nextOffset position false
      else if rest.length < 4 then .stopped nextOffset position true
      else
        let recordBytes := readU32Be rest 0
        if recordBytes < kMinimumRecordBytes ∨ recordBytes > rest.length - 4 then
          .stopped nextOffset position true
        else
          match scanEntry Z options segment position recordBytes
              ((rest.drop 4).take recordBytes) with
          | .error _ => .stopped nextOffset position true
          | .ok scanned =>
              (scanLoop Z options segment fuel (max nextOffset scanned.2)
                (position + (4 + recordBytes)) (rest.drop (4 + recordBytes))).prepend scanned.1

def scanSegment (Z : Zstd) (options : PartitionLogOptions) (nextOffset : ℕ)
    (segment : ℕ × Bytes) : SegmentScan :=
  scanLoop Z options segment.1 (segment.2.length + 1) nextOffset 0 segment.2

structure RecoverState where
  dir : Directory
  index : List IndexEntry
  nextOffset : ℕ
  stats : RecoveryStats
  stopAfterCorruption : Bool
  deriving DecidableEq, Repr

/-- One turn of the loop over the segments. -/
def recoverSegment (Z : Zstd) (options : PartitionLogOptions) (state : RecoverState)
    (segment : ℕ × Bytes) : RecoverState :=
  if state.stopAfterCorruption then
    { state with
      dir :=
        { logs := state.dir.logs.remove segment.1
          indexes := state.dir.indexes.remove segment.1 }
      stats :=
        { state.stats with
          bytesTruncated := state.stats.bytesTruncated + segment.2.length } }
  else
    let scan := scanSegment Z options state.nextOffset segment
    { dir :=
        { logs :=
            if scan.truncate then state.dir.logs.resize segment.1 scan.position
            else state.dir.logs
          indexes :=
            state.dir.indexes.overwrite segment.1 (scan.entries.flatMap writeIndexEntry) }
      index := state.index ++ scan.entries
      nextOffset := scan.nextOffset
      stats :=
        { segmentsScanned := state.stats.segmentsScanned + 1
          indexesRebuilt := state.stats.indexesRebuilt + 1
          recordsRecovered := state.stats.recordsRecovered + scan.recordsRecovered
          bytesTruncated := state.stats.bytesTruncated +
            (if scan.truncate then segment.2.length - scan.position else 0)
          nextOffset := state.stats.nextOffset }
      stopAfterCorruption := scan.truncate }

def RecoverState.initial (dir : Directory) : RecoverState :=
  { dir := dir, index := [], nextOffset := 0, stats := {}, stopAfterCorruption := false }

def recover (Z : Zstd) (options : PartitionLogOptions) (dir : Directory) : PartitionLog :=
  let state := dir.logs.foldl (recoverSegment Z options) (RecoverState.initial dir)
  { options := options
    dir := state.dir
    index := state.index.insertionSort fun left right ↦ left.offset ≤ right.offset
    nextOffset := state.nextOffset
    recoveryStats := { state.stats with nextOffset := state.nextOffset } }

def openActiveSegment (log : PartitionLog) : PartitionLog :=
  { log with
    dir :=
      { logs := log.dir.logs.append log.activeSegmentBase []
        indexes := log.dir.indexes.append log.activeSegmentBase [] } }

/-- `PartitionLog::open` on a partition directory. -/
def openLog (Z : Zstd) (options : PartitionLogOptions) (dir : Directory) :
    Except String PartitionLog :=
  if isValidTopicName options.topic = false then .error "invalid topic name"
  else if options.maxSegmentBytes = 0 then
    .error "max_segment_bytes must be greater than zero"
  else .ok (recover Z options dir).openActiveSegment

end PartitionLog

end BoltStream.Storage
