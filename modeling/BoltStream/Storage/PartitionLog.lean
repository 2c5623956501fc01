import BoltStream.Lib.FileTable
import BoltStream.Storage.Format
import BoltStream.Storage.Names

/-!
# The partition log

The in-memory state of `PartitionLog` together with the files of its partition
directory.  Segment logs and index files are named by their base offsets.  What
the code asks of its surroundings is an argument: the timestamps it is given,
the file ages it reads, and a fault when a file operation fails.  Operations
that can throw return the state they leave behind beside their result.
-/

namespace BoltStream.Storage

open BoltStream.Lib BoltStream.Protocol BoltStream.Compression

structure PartitionLogOptions where
  topic : Bytes
  partitionId : ℕ
  maxSegmentBytes : ℕ
  segmentMaxAgeSeconds : ℕ
  maxUncompressedBatchBytes : ℕ
  deriving DecidableEq, Repr

structure IndexEntry where
  offset : ℕ
  filePosition : ℕ
  recordBytes : ℕ
  /-- Base offset in the name of `segment_path`. -/
  segment : ℕ
  recordIndex : ℕ := 0
  recordCount : ℕ := 1
  deriving DecidableEq, Repr

structure RecoveryStats where
  segmentsScanned : ℕ := 0
  indexesRebuilt : ℕ := 0
  recordsRecovered : ℕ := 0
  bytesTruncated : ℕ := 0
  nextOffset : ℕ := 0
  deriving DecidableEq, Repr

/-- The `.log` and `.index` files of a partition directory. -/
structure Directory where
  logs : FileTable := []
  indexes : FileTable := []
  deriving DecidableEq, Repr

structure PartitionLog where
  options : PartitionLogOptions
  dir : Directory
  index : List IndexEntry
  nextOffset : ℕ
  recoveryStats : RecoveryStats
  deriving DecidableEq, Repr

structure AppendRecord where
  key : Bytes
  value : Bytes
  deriving DecidableEq, Repr

/-- What one call of `file_age_seconds_or_zero` sees, in nanoseconds of the
file clock.  The modification time is missing when it cannot be read. -/
structure AgeReading where
  modified : Option ℕ
  now : ℕ
  deriving DecidableEq, Repr

def fileAgeSecondsOrZero (reading : AgeReading) : ℕ :=
  match reading.modified with
  | none => 0
  | some modified =>
      if modified ≥ reading.now then 0 else (reading.now - modified) / 10 ^ 9

/-- The clock readings of one `append_batch`: `unix_time_ns()` and the age of
the active segment, both taken anew for every record. -/
structure AppendClock where
  timestamp : ℕ → UInt64
  age : ℕ → AgeReading

/-- A failing open, write or flush: how much of the planned log and index bytes
had reached the disk, and what the exception says. -/
structure AppendFault where
  logCut : ℕ
  logCreated : Bool
  indexCut : ℕ
  indexCreated : Bool
  message : String
  deriving DecidableEq, Repr

namespace PartitionLog

def activeSegmentBase (log : PartitionLog) : ℕ :=
  match log.index.getLast? with
  | none => 0
  | some entry => (parseBaseOffset (segmentPath entry.segment)).getD log.nextOffset

def earliestOffset (log : PartitionLog) : ℕ :=
  match log.index.head? with
  | none => log.nextOffset
  | some entry => entry.offset

def writeIndexEntry (entry : IndexEntry) : Bytes :=
  writeU64 entry.offset ++ (writeU64 entry.filePosition ++ writeU32 entry.recordBytes)

/-! ## Appending records -/

/-- One record the loop of `append_batch` has encoded and placed. -/
structure StagedRecord where
  entry : IndexEntry
  metadata : RecordMetadata
  encoded : Bytes
  deriving DecidableEq, Repr

/-- The records placed so far, and the exception of `encode_record` that ended
the loop, if any. -/
structure StagedBatch where
  records : List StagedRecord
  error : Option String
  deriving DecidableEq, Repr

/-- The loop of `append_batch`.  Nothing it writes is read back before the loop
ends, so it is split into placing the records here and writing them after.
`base` and `currentSize` describe the segment the next record goes to. -/
def stageRecords (options : PartitionLogOptions) (clock : AppendClock)
    (originalNextOffset : ℕ) : ℕ → ℕ → ℕ → List AppendRecord → StagedBatch
  | _, _, _, [] => { records := [], error := none }
  | recordIndex, base, currentSize, record :: rest =>
      let offset := (originalNextOffset + recordIndex) % 2 ^ 64
      let timestamp := (clock.timestamp recordIndex).toNat
      match encodeRecord offset timestamp record.key record.value with
      | .error message => { records := [], error := some message }
      | .ok encoded =>
          let ageRollDue := decide (options.segmentMaxAgeSeconds > 0 ∧ currentSize > 0 ∧
            fileAgeSecondsOrZero (clock.age recordIndex) ≥ options.segmentMaxAgeSeconds)
          let sizeRollDue := decide (currentSize > 0 ∧
            currentSize + encoded.length > options.maxSegmentBytes)
          let roll := sizeRollDue || ageRollDue
          let base := if roll then offset else base
          let currentSize := if roll then 0 else currentSize
          let staged :=
            { entry :=
                { offset := offset
                  filePosition := currentSize
                  recordBytes := (encoded.length - 4) % 2 ^ 32
                  segment := base }
              metadata :=
                { topic := options.topic
                  partition := options.partitionId
                  offset := offset
                  timestampUnixNs := timestamp
                  encodedByteSize := encoded.length % 2 ^ 32 }
              encoded := encoded }
          let tail := stageRecords options clock originalNextOffset (recordIndex + 1) base
            (currentSize + encoded.length) rest
          { tail with records := staged :: tail.records }

def StagedBatch.logWrites (staged : StagedBatch) : List (ℕ × Bytes) :=
  staged.records.map fun record ↦ (record.entry.segment, record.encoded)

def StagedBatch.indexWrites (staged : StagedBatch) : List (ℕ × Bytes) :=
  staged.records.map fun record ↦ (record.entry.segment, writeIndexEntry record.entry)

/-- The records `append_batch` is about to write. -/
def stageBatch (log : PartitionLog) (clock : AppendClock) (records : List AppendRecord) :
    StagedBatch :=
  stageRecords log.options clock log.nextOffset 0 log.activeSegmentBase
    (log.dir.logs.sizeOrZero log.activeSegmentBase) records

/-- The `catch` block of `append_batch`: segments that did not exist before are
removed, the others get their old sizes back. -/
def rollback (original torn : Directory) : Directory :=
  torn.logs.foldl (fun dir segment ↦
    match original.logs.content? segment.1 with
    | none =>
        { logs := dir.logs.remove segment.1
          indexes := dir.indexes.remove segment.1 }
    | some bytes =>
        { logs := dir.logs.resize segment.1 bytes.length
          indexes := dir.indexes.resize segment.1 (original.indexes.sizeOrZero segment.1) }) torn

def appendBatch (log : PartitionLog) (clock : AppendClock) (fault : Option AppendFault)
    (records : List AppendRecord) : PartitionLog × Except String (List RecordMetadata) :=
  if records = [] then (log, .ok [])
  else
    let staged := log.stageBatch clock records
    let written : Directory :=
      { logs := log.dir.logs.writeAll staged.logWrites
        indexes := log.dir.indexes.writeAll staged.indexWrites }
    match fault, staged.error with
    | none, none =>
        ({ log with
            dir := written
            index := log.index ++ staged.records.map StagedRecord.entry
            nextOffset := (log.nextOffset + records.length) % 2 ^ 64 },
          .ok (staged.records.map StagedRecord.metadata))
    | some fault, _ =>
        let torn : Directory :=
          { logs := FileTable.writeUpTo fault.logCreated fault.logCut staged.logWrites log.dir.logs
            indexes := FileTable.writeUpTo fault.indexCreated fault.indexCut staged.indexWrites
              log.dir.indexes }
        ({ log with dir := rollback log.dir torn }, .error fault.message)
    | none, some message => ({ log with dir := rollback log.dir written }, .error message)

def append (log : PartitionLog) (clock : AppendClock) (fault : Option AppendFault)
    (key value : Bytes) : PartitionLog × Except String RecordMetadata :=
  let appended := log.appendBatch clock fault [⟨key, value⟩]
  (appended.1, appended.2.bind fun metadata ↦
    orError metadata.head? "append_batch returned no metadata")

/-! ## Appending an encoded batch -/

/-- The validation at the head of `append_encoded_batch`. -/
def validateEncodedBatch (Z : Zstd) (options : PartitionLogOptions) (codec : Codec)
    (encodedRecords : Bytes) (uncompressedBytes : UInt32) (decodedRecords : List AppendRecord) :
    Except String Unit :=
  if decodedRecords = [] ∨ decodedRecords.length > 2 ^ 32 - 1 then
    .error "encoded batch record count is invalid"
  else
    let canonical := encodeRecordSet (decodedRecords.map fun record ↦ ⟨record.key, record.value⟩)
    if canonical.length ≠ uncompressedBytes.toNat then
      .error "encoded batch logical size mismatch"
    else
      (decompress Z codec encodedRecords uncompressedBytes.toNat
        options.maxUncompressedBatchBytes).bind fun decoded ↦
          if decoded ≠ canonical then .error "encoded batch content mismatch" else .ok ()

/-- Where `append_encoded_batch` puts its entry, and the entry. -/
structure StagedEncodedBatch where
  segment : ℕ
  position : ℕ
  encoded : Bytes
  deriving DecidableEq, Repr

def stageEncodedBatch (log : PartitionLog) (codec : Codec) (encodedRecords : Bytes)
    (uncompressedBytes : UInt32) (recordCount : ℕ) (timestamp : UInt64) : StagedEncodedBatch :=
  let encoded := encodeBatch log.nextOffset timestamp.toNat codec (recordCount % 2 ^ 32)
    uncompressedBytes.toNat encodedRecords
  let currentSize := log.dir.logs.sizeOrZero log.activeSegmentBase
  if currentSize > 0 ∧ currentSize + encoded.length > log.options.maxSegmentBytes then
    { segment := log.nextOffset, position := 0, encoded := encoded }
  else { segment := log.activeSegmentBase, position := currentSize, encoded := encoded }

/-- The index entries of a batch, one for each of its records. -/
def batchEntries (baseOffset position recordBytes segment count : ℕ) : List IndexEntry :=
  (List.range count).map fun index ↦
    { offset := (baseOffset + index) % 2 ^ 64
      filePosition := position
      recordBytes := recordBytes
      segment := segment
      recordIndex := index
      recordCount := count }

def StagedEncodedBatch.entries (staged : StagedEncodedBatch) (baseOffset count : ℕ) :
    List IndexEntry :=
  batchEntries baseOffset staged.position ((staged.encoded.length - 4) % 2 ^ 32) staged.segment
    count

/-- The `catch` block of `append_encoded_batch`. -/
def undoEncodedBatch (files : FileTable) (segment originalSize : ℕ) : FileTable :=
  if originalSize = 0 then files.remove segment else files.resize segment originalSize

def appendEncodedBatch (Z : Zstd) (log : PartitionLog) (codec : Codec) (encodedRecords : Bytes)
    (uncompressedBytes : UInt32) (decodedRecords : List AppendRecord) (timestamp : UInt64)
    (fault : Option AppendFault) : PartitionLog × Except String BatchMetadata :=
  match validateEncodedBatch Z log.options codec encodedRecords uncompressedBytes
      decodedRecords with
  | .error message => (log, .error message)
  | .ok () =>
      let staged := log.stageEncodedBatch codec encodedRecords uncompressedBytes
        decodedRecords.length timestamp
      let entries := staged.entries log.nextOffset decodedRecords.length
      let indexBytes := entries.flatMap writeIndexEntry
      match fault with
      | none =>
          let nextOffset := (log.nextOffset + decodedRecords.length) % 2 ^ 64
          ({ log with
              dir :=
                { logs := log.dir.logs.append staged.segment staged.encoded
                  indexes := log.dir.indexes.append staged.segment indexBytes }
              index := log.index ++ entries
              nextOffset := nextOffset },
            .ok
              { topic := log.options.topic
                partition := log.options.partitionId
                baseOffset := log.nextOffset
                nextOffset := nextOffset
                timestampUnixNs := timestamp.toNat
                recordCount := decodedRecords.length % 2 ^ 32
                logicalBytes := uncompressedBytes.toNat
                encodedBytes := encodedRecords.length % 2 ^ 32
                storedBytes := staged.encoded.length % 2 ^ 32
                codec := codec })
      | some fault =>
          let logs := FileTable.writeUpTo fault.logCreated fault.logCut
            [(staged.segment, staged.encoded)] log.dir.logs
          let indexes := FileTable.writeUpTo fault.indexCreated fault.indexCut
            [(staged.segment, indexBytes)] log.dir.indexes
          ({ log with
              dir :=
                { logs := undoEncodedBatch logs staged.segment staged.position
                  indexes := undoEncodedBatch indexes staged.segment
                    (log.dir.indexes.sizeOrZero staged.segment) } },
            .error fault.message)

/-! ## Reading -/

/-- The entry bytes at an index entry's position: the byte count and what
follows it. -/
def readStored (log : PartitionLog) (entry : IndexEntry) : Except String (ℕ × Bytes) :=
  (orError (log.dir.logs.content? entry.segment) "failed to open segment for read").bind
    fun content ↦
      let rest := content.drop entry.filePosition
      if rest.length < 4 then .error "failed to read record length"
      else if (rest.drop 4).length < readU32Be rest 0 then .error "failed to read record body"
      else .ok (readU32Be rest 0, (rest.drop 4).take (readU32Be rest 0))

/-- The outcome of a read of the first two bytes of an entry that has fewer: the source
subscripts the vector before it looks at the length, which is undefined.  No
exception of the source has this text. -/
def subscriptOutOfRange : String := "vector subscript out of range"

/-- One turn of the loop of `read_from`: the record behind an index entry and
the byte count of the stored entry it came from. -/
def readEntry (Z : Zstd) (log : PartitionLog) (entry : IndexEntry) :
    Except String (Record × ℕ) :=
  (log.readStored entry).bind fun stored ↦
    if stored.1 < 2 then .error subscriptOutOfRange
    else if readU16Be stored.2 0 = kBatchVersion then
      (decodeBatch Z log.options.topic log.options.partitionId stored.1 stored.2
        log.options.maxUncompressedBatchBytes).bind fun batch ↦
          (orError batch.records[entry.recordIndex]? "batch index entry is out of range").bind
            fun record ↦
              .ok ({ metadata :=
                      { topic := log.options.topic
                        partition := log.options.partitionId
                        offset := entry.offset
                        timestampUnixNs := batch.metadata.timestampUnixNs
                        encodedByteSize :=
                          batch.metadata.storedBytes / batch.metadata.recordCount }
                     key := record.key
                     value := record.message }, stored.1)
    else
      (decodeRecord log.options.topic log.options.partitionId stored.1 stored.2).map
        fun decoded ↦ (decoded.record, stored.1)

/-- The loop of `read_from`, with the number of records and bytes emitted. -/
def readLoop (Z : Zstd) (log : PartitionLog) (offset maxRecords maxBytes : ℕ) :
    List IndexEntry → ℕ → ℕ → Except String (List Record)
  | [], _, _ => .ok []
  | entry :: rest, count, emittedBytes =>
      if entry.offset < offset then
        readLoop Z log offset maxRecords maxBytes rest count emittedBytes
      else if count ≥ maxRecords then .ok []
      else if maxBytes > 0 ∧ count ≠ 0 ∧ emittedBytes + entry.recordBytes + 4 > maxBytes then .ok []
      else
        (log.readEntry Z entry).bind fun record ↦
          (readLoop Z log offset maxRecords maxBytes rest (count + 1)
            (emittedBytes + (record.2 + 4))).map fun records ↦ record.1 :: records

def readFrom (Z : Zstd) (log : PartitionLog) (offset maxRecords maxBytes : ℕ) :
    Except String (List Record) :=
  readLoop Z log offset maxRecords maxBytes log.index 0 0

structure EncodedBatch where
  metadata : BatchMetadata
  encodedRecords : Bytes
  deriving DecidableEq, Repr

def readEncodedBatch (Z : Zstd) (log : PartitionLog) (offset : ℕ) :
    Except String (Option EncodedBatch) :=
  match log.index.find? fun entry ↦ entry.offset = offset with
  | none => .ok none
  | some entry =>
      if entry.recordIndex ≠ 0 then .ok none
      else
        (orError (log.dir.logs.content? entry.segment) "failed to open encoded batch segment").bind
          fun content ↦
            let rest := content.drop (entry.filePosition + 4)
            let bodyAndCrc := rest.take entry.recordBytes
            if rest.length < entry.recordBytes then .ok none
            else if entry.recordBytes < 2 then .error subscriptOutOfRange
            else if readU16Be bodyAndCrc 0 ≠ kBatchVersion then .ok none
            else
              (decodeBatch Z log.options.topic log.options.partitionId entry.recordBytes
                bodyAndCrc log.options.maxUncompressedBatchBytes).map fun decoded ↦
                  some { metadata := decoded.metadata
                         encodedRecords := (bodyAndCrc.drop kFixedBatchBodyBytes).take
                           decoded.metadata.encodedBytes }

end PartitionLog

end BoltStream.Storage
