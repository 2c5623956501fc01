import BoltStream.Lib.SortedMap
import BoltStream.Protocol.Wire
import BoltStream.Storage.Names

/-!
# The offset store

Committed offsets are kept in memory and in one text log for each consumer
group, a line for each commit.  Opening the store reads every log up to the
first line that does not parse and cuts it there.  Removing a topic rewrites the
logs of the groups that had offsets for it, by a temporary file.
-/

namespace BoltStream.Storage

open BoltStream.Lib BoltStream.Protocol

structure OffsetRecord where
  topic : Bytes
  partition : ℕ
  nextOffset : ℕ
  deriving DecidableEq, Repr

/-- Topic and partition, ordered by the topic first. -/
abbrev OffsetKey := Bytes ×ₗ ℕ

abbrev GroupOffsets := SortedMap OffsetKey ℕ

def offsetKey (topic : Bytes) (partition : ℕ) : OffsetKey := toLex (topic, partition)

/-- The files of a group's directory, `offsets.log` and `offsets.log.tmp`. -/
structure GroupDir where
  log : Option Bytes := none
  tmp : Option Bytes := none
  deriving DecidableEq, Repr

structure OffsetStoreStats where
  groupsRecovered : ℕ := 0
  commitsRecovered : ℕ := 0
  bytesTruncated : ℕ := 0
  deriving DecidableEq, Repr

structure OffsetCleanupStats where
  groupsTouched : ℕ := 0
  offsetsRemoved : ℕ := 0
  deriving DecidableEq, Repr

/-- The store and the group directories under `consumer_offsets`. -/
structure OffsetStore where
  dirs : SortedMap Bytes GroupDir := ∅
  offsets : SortedMap Bytes GroupOffsets := ∅
  stats : OffsetStoreStats := {}
  deriving DecidableEq

def isValidGroupName (group : Bytes) : Bool := isValidTopicName group

/-! ## Lines -/

/-- Fields are separated by tabs. -/
def crcInput (topic : Bytes) (partition nextOffset : ℕ) : Bytes :=
  topic ++ 9 :: (decimal partition ++ 9 :: decimal nextOffset)

def writeOffsetRecord (topic : Bytes) (partition nextOffset : ℕ) : Bytes :=
  let input := crcInput topic partition nextOffset
  input ++ 9 :: (decimal (crc32 input) ++ [10])

/-- Three tabs, so four fields. -/
def parseOffsetLine (line : Bytes) : Option OffsetRecord :=
  match line.splitOn 9 with
  | [topic, partitionText, nextOffsetText, crcText] =>
      if isValidTopicName topic = false then none
      else
        (parseDecimal (2 ^ 32) partitionText).bind fun partition ↦
          if partition > 65535 then none
          else
            (parseDecimal (2 ^ 64) nextOffsetText).bind fun nextOffset ↦
              (parseDecimal (2 ^ 32) crcText).bind fun expectedCrc ↦
                if crc32 (crcInput topic partition nextOffset) = expectedCrc then
                  some ⟨topic, partition, nextOffset⟩
                else none
  | _ => none

/-- A carriage return before the line end is dropped. -/
def dropCarriageReturn (line : Bytes) : Bytes :=
  if line.getLast? = some 13 then line.dropLast else line

/-- The loop of `recover_group`: the records of the valid lines and the number
of bytes they take.  Every turn consumes a line, so the size of the content is
enough fuel. -/
def recoverLines : ℕ → Bytes → List OffsetRecord × ℕ
  | 0, _ => ([], 0)
  | fuel + 1, rest =>
      match rest.dropWhile (· != 10) with
      | [] => ([], 0)
      | _ :: behind =>
          let line := rest.takeWhile (· != 10)
          match parseOffsetLine (dropCarriageReturn line) with
          | none => ([], 0)
          | some record =>
              let tail := recoverLines fuel behind
              (record :: tail.1, line.length + 1 + tail.2)

def recoverContent (content : Bytes) : List OffsetRecord × ℕ :=
  recoverLines (content.length + 1) content

def enterRecord (offsets : GroupOffsets) (record : OffsetRecord) : GroupOffsets :=
  offsets.insert (offsetKey record.topic record.partition) record.nextOffset

def enterRecords (records : List OffsetRecord) : GroupOffsets := records.foldl enterRecord ∅

namespace OffsetStore

/-! ## Opening -/

/-- The contents `recover` looks at: logs of groups with valid names. -/
def recoveredLog (group : Bytes) (dir : GroupDir) : Option Bytes :=
  if isValidGroupName group then dir.log else none

/-- What `recover_group` enters for a log; a group appears with its first
record. -/
def recoverGroup (content : Bytes) : Option GroupOffsets :=
  let records := (recoverContent content).1
  if records = [] then none else some (enterRecords records)

def recover (dirs : SortedMap Bytes GroupDir) : OffsetStore :=
  let contents := dirs.filterMapValues recoveredLog
  let scans := contents.entries.map fun entry ↦ (entry.2.length, recoverContent entry.2)
  { dirs := dirs.mapValues fun group dir ↦
      match recoveredLog group dir with
      | none => dir
      | some content => { dir with log := some (content.take (recoverContent content).2) }
    offsets := contents.filterMapValues fun _ content ↦ recoverGroup content
    stats :=
      { groupsRecovered := scans.length
        commitsRecovered := (scans.map fun scan ↦ scan.2.1.length).sum
        bytesTruncated := (scans.map fun scan ↦ scan.1 - scan.2.2).sum } }

/-- `OffsetStore::open` -/
def openStore (dirs : SortedMap Bytes GroupDir) : OffsetStore := recover dirs

/-! ## Reading -/

def committed (store : OffsetStore) (group topic : Bytes) (partition : ℕ) : Option ℕ :=
  (store.offsets.find? group).bind fun offsets ↦ offsets.find? (offsetKey topic partition)

/-! ## Committing -/

/-- Where a commit fails: creating the group's directory, opening the log, or
writing and flushing, when `cut` bytes of the record have reached the log. -/
inductive CommitFault where
  | createDirectory (reason : String)
  | openLog
  | write (cut : ℕ)
  deriving DecidableEq, Repr

def setDir (store : OffsetStore) (group : Bytes) (dir : GroupDir) : OffsetStore :=
  { store with dirs := store.dirs.insert group dir }

def commit (store : OffsetStore) (group topic : Bytes) (partition nextOffset : ℕ)
    (fault : Option CommitFault) : OffsetStore × Except String Unit :=
  if isValidGroupName group = false then (store, .error "invalid consumer group name")
  else if isValidTopicName topic = false then (store, .error "invalid topic name")
  else
    let dir := (store.dirs.find? group).getD {}
    let before := dir.log.getD []
    let record := writeOffsetRecord topic partition nextOffset
    match fault with
    | some (.createDirectory reason) =>
        (store, .error ("failed to create consumer offset directory: " ++ reason))
    | some .openLog => (store.setDir group dir, .error "failed to open consumer offset log")
    | some (.write cut) =>
        (store.setDir group { dir with log := some (before ++ record.take cut) },
          .error "failed to append consumer offset log")
    | none =>
        ({ store.setDir group { dir with log := some (before ++ record) } with
            offsets := store.offsets.insert group
              (enterRecord ((store.offsets.find? group).getD ∅) ⟨topic, partition, nextOffset⟩) },
          .ok ())

/-! ## Removing a topic -/

/-- The file operations of `rewrite_group`. -/
inductive FileStep where
  | writeTmp (group content : Bytes)
  | removeLog (group : Bytes)
  | renameTmp (group : Bytes)
  | removeDir (group : Bytes)
  deriving DecidableEq, Repr

def FileStep.apply (dirs : SortedMap Bytes GroupDir) : FileStep → SortedMap Bytes GroupDir
  | .writeTmp group content =>
      dirs.insert group { (dirs.find? group).getD {} with tmp := some content }
  | .removeLog group => dirs.insert group { (dirs.find? group).getD {} with log := none }
  | .renameTmp group =>
      dirs.insert group { log := ((dirs.find? group).getD {}).tmp, tmp := none }
  | .removeDir group => dirs.erase group

/-- Every offset of a group, a line each. -/
def offsetLines (offsets : GroupOffsets) : Bytes :=
  offsets.entries.flatMap fun entry ↦
    writeOffsetRecord (ofLex entry.1).1 (ofLex entry.1).2 entry.2

def rewriteGroup (group : Bytes) (offsets : GroupOffsets) : List FileStep :=
  if offsets.entries = [] then [.removeDir group]
  else [.writeTmp group (offsetLines offsets), .removeLog group, .renameTmp group]

def withoutTopic (topic : Bytes) (offsets : GroupOffsets) : GroupOffsets :=
  offsets.filter fun key _ ↦ (ofLex key).1 ≠ topic

/-- The groups that have offsets for the topic. -/
def touchedGroups (store : OffsetStore) (topic : Bytes) : List (Bytes × GroupOffsets) :=
  store.offsets.entries.filter fun entry ↦
    (withoutTopic topic entry.2).entries.length < entry.2.entries.length

def removeTopicSteps (store : OffsetStore) (topic : Bytes) : List FileStep :=
  (store.touchedGroups topic).flatMap fun entry ↦
    rewriteGroup entry.1 (withoutTopic topic entry.2)

/-- The offsets in memory once every touched group is rewritten. -/
def offsetsWithoutTopic (store : OffsetStore) (topic : Bytes) : SortedMap Bytes GroupOffsets :=
  store.offsets.filterMapValues fun _ offsets ↦
    let left := withoutTopic topic offsets
    if left.entries.length < offsets.entries.length ∧ left.entries = [] then none else some left

def removeTopic (store : OffsetStore) (topic : Bytes) : OffsetStore × OffsetCleanupStats :=
  ({ store with
      dirs := (store.removeTopicSteps topic).foldl FileStep.apply store.dirs
      offsets := store.offsetsWithoutTopic topic },
    { groupsTouched := (store.touchedGroups topic).length
      offsetsRemoved := ((store.touchedGroups topic).map fun entry ↦
        entry.2.entries.length - (withoutTopic topic entry.2).entries.length).sum })

end OffsetStore

end BoltStream.Storage
