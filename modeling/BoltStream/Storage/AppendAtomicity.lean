import BoltStream.Storage.EncodedReadBack
import BoltStream.Storage.Failures
import BoltStream.Storage.IntactRecovery

/-!
# Appends that fail

An append that fails puts the segment logs back as they were, but for an empty
one that it may remove.  Whoever goes on using the log, or opens it again, gets
the same answers as if the call had not been made.
-/

namespace BoltStream.Storage

open BoltStream.Lib BoltStream.Protocol BoltStream.Compression

/-- What can be called on an open log.  A fault makes an append throw. -/
inductive LogCall where
  | append (clock : AppendClock) (fault : Option AppendFault) (key value : Bytes)
  | appendBatch (clock : AppendClock) (fault : Option AppendFault) (records : List AppendRecord)
  | appendEncodedBatch (codec : Codec) (encodedRecords : Bytes) (uncompressedBytes : UInt32)
      (decodedRecords : List AppendRecord) (timestamp : UInt64) (fault : Option AppendFault)
  | readFrom (offset maxRecords maxBytes : ℕ)
  | readEncodedBatch (offset : ℕ)
  | reopen

/-- What an open has found. -/
structure Recovered where
  index : List IndexEntry
  nextOffset : ℕ
  recordsRecovered : ℕ
  bytesTruncated : ℕ
  deriving DecidableEq, Repr

/-- What a call returns or throws. -/
inductive LogReply where
  | append (result : Except String RecordMetadata)
  | appendBatch (result : Except String (List RecordMetadata))
  | appendEncodedBatch (result : Except String BatchMetadata)
  | readFrom (result : Except String (List Record))
  | readEncodedBatch (result : Except String (Option PartitionLog.EncodedBatch))
  | reopen (result : Except String Recovered)

namespace PartitionLog

def found (log : PartitionLog) : Recovered :=
  { index := log.index
    nextOffset := log.nextOffset
    recordsRecovered := log.recoveryStats.recordsRecovered
    bytesTruncated := log.recoveryStats.bytesTruncated }

def call (Z : Zstd) (log : PartitionLog) : LogCall → PartitionLog × LogReply
  | .append clock fault key value =>
      let appended := log.append clock fault key value
      (appended.1, .append appended.2)
  | .appendBatch clock fault records =>
      let appended := log.appendBatch clock fault records
      (appended.1, .appendBatch appended.2)
  | .appendEncodedBatch codec encodedRecords uncompressedBytes decodedRecords timestamp fault =>
      let appended := appendEncodedBatch Z log codec encodedRecords uncompressedBytes
        decodedRecords timestamp fault
      (appended.1, .appendEncodedBatch appended.2)
  | .readFrom offset maxRecords maxBytes =>
      (log, .readFrom (log.readFrom Z offset maxRecords maxBytes))
  | .readEncodedBatch offset => (log, .readEncodedBatch (log.readEncodedBatch Z offset))
  | .reopen =>
      match openLog Z log.options log.dir with
      | .ok opened => (opened, .reopen (.ok opened.found))
      | .error message => (log, .reopen (.error message))

/-- The replies to calls made one after another. -/
def replies (Z : Zstd) (log : PartitionLog) : List LogCall → List LogReply
  | [] => []
  | next :: calls => (log.call Z next).2 :: replies Z (log.call Z next).1 calls

/-- An append has thrown. -/
inductive AppendFails (Z : Zstd) (log log' : PartitionLog) : Prop
  | appendBatch {clock : AppendClock} {fault : Option AppendFault} {records : List AppendRecord}
      {message : String} (h : log.appendBatch clock fault records = (log', .error message))
  | appendEncodedBatch {codec : Codec} {encodedRecords : Bytes} {uncompressedBytes : UInt32}
      {decodedRecords : List AppendRecord} {timestamp : UInt64} {fault : Option AppendFault}
      {message : String}
      (h : PartitionLog.appendEncodedBatch Z log codec encodedRecords uncompressedBytes
        decodedRecords timestamp fault = (log', .error message))

/-- A call has left what it found, but for an empty segment log. -/
structure Undone (log log' : PartitionLog) : Prop where
  kept : ∀ name bytes, log.dir.logs.content? name = some bytes → bytes ≠ [] →
    log'.dir.logs.content? name = some bytes
  noneNew : ∀ name bytes, log'.dir.logs.content? name = some bytes →
    log.dir.logs.content? name = some bytes
  oneGone : log'.dir.logs = log.dir.logs ∨ ∃ name, log'.dir.logs = log.dir.logs.remove name
  index : log'.index = log.index
  nextOffset : log'.nextOffset = log.nextOffset

/-! ## Logs that hold the same -/

/-- Logs that differ in empty segment logs and in index files at most. -/
structure SameContent (log log' : PartitionLog) : Prop where
  options : log.options = log'.options
  index : log.index = log'.index
  nextOffset : log.nextOffset = log'.nextOffset
  logs : FileTable.SameBytes log.dir.logs log'.dir.logs
  listed : ∀ entry ∈ log.index,
    log.dir.logs.content? entry.segment = log'.dir.logs.content? entry.segment

section SameContent

variable {Z : Zstd} {log log' : PartitionLog}

theorem SameContent.active (h : SameContent log log') :
    log.activeSegmentBase = log'.activeSegmentBase := by
  unfold activeSegmentBase
  rw [h.index, h.nextOffset]

/-- Calls that put the segment logs back. -/
theorem SameContent.of_logs (h : SameContent log log') {dir dir' : Directory}
    (hlogs : dir.logs = log.dir.logs) (hlogs' : dir'.logs = log'.dir.logs) :
    SameContent { log with dir := dir } { log' with dir := dir' } := by
  refine ⟨h.options, h.index, h.nextOffset, ?_, ?_⟩
  · rw [hlogs, hlogs']
    exact h.logs
  · rw [hlogs, hlogs']
    exact h.listed

/-- Writes, and index entries that lie in the segments written to. -/
theorem SameContent.write (h : SameContent log log') (writes : List (ℕ × Bytes))
    {indexes indexes' : FileTable} {staged : List IndexEntry} {nextOffset : ℕ}
    (hstaged : ∀ entry ∈ staged, entry.segment ∈ writes.map Prod.fst) :
    SameContent
      { log with
        dir := { logs := log.dir.logs.writeAll writes, indexes := indexes }
        index := log.index ++ staged
        nextOffset := nextOffset }
      { log' with
        dir := { logs := log'.dir.logs.writeAll writes, indexes := indexes' }
        index := log'.index ++ staged
        nextOffset := nextOffset } := by
  refine ⟨h.options, by rw [h.index], rfl, h.logs.writeAll writes, fun entry hentry ↦ ?_⟩
  apply FileTable.SameBytes.writeAll_content h.logs
  rcases List.mem_append.mp hentry with hold | hnew
  · exact Or.inr (h.listed entry hold)
  · exact Or.inl (hstaged entry hnew)

theorem SameContent.appendBatch (h : SameContent log log') (clock : AppendClock)
    (fault : Option AppendFault) (records : List AppendRecord) :
    SameContent (log.appendBatch clock fault records).1 (log'.appendBatch clock fault records).1 ∧
      (log.appendBatch clock fault records).2 = (log'.appendBatch clock fault records).2 := by
  have hstage : log'.stageBatch clock records = log.stageBatch clock records := by
    rw [stageBatch, stageBatch, h.options, h.nextOffset, h.active, h.logs.sizeOrZero]
  rw [PartitionLog.appendBatch, PartitionLog.appendBatch, hstage]
  by_cases hnil : records = []
  · rw [if_pos hnil, if_pos hnil]
    exact ⟨h, rfl⟩
  rw [if_neg hnil, if_neg hnil]
  have hgrows := FileTable.Grows.refl h.logs.sorted
  have hgrows' := FileTable.Grows.refl h.logs.sorted'
  cases fault with
  | some fault =>
      refine ⟨h.of_logs ?_ ?_, rfl⟩
      · exact rollback_grown h.logs.sorted (hgrows.writeUpTo _ _ _)
      · exact rollback_grown h.logs.sorted' (hgrows'.writeUpTo _ _ _)
  | none =>
      cases herror : (log.stageBatch clock records).error with
      | some message =>
          simp only [herror]
          refine ⟨h.of_logs ?_ ?_, trivial⟩
          · exact rollback_grown h.logs.sorted (hgrows.writeAll _)
          · exact rollback_grown h.logs.sorted' (hgrows'.writeAll _)
      | none =>
          simp only [herror, h.nextOffset]
          refine ⟨h.write _ fun entry hentry ↦ ?_, trivial⟩
          obtain ⟨staged, hstaged, rfl⟩ := List.mem_map.mp hentry
          exact List.mem_map.mpr ⟨_, List.mem_map_of_mem hstaged, rfl⟩

theorem SameContent.append (h : SameContent log log') (clock : AppendClock)
    (fault : Option AppendFault) (key value : Bytes) :
    SameContent (log.append clock fault key value).1 (log'.append clock fault key value).1 ∧
      (log.append clock fault key value).2 = (log'.append clock fault key value).2 := by
  obtain ⟨hlogs, hresult⟩ := h.appendBatch clock fault [⟨key, value⟩]
  exact ⟨hlogs, by rw [PartitionLog.append, PartitionLog.append, hresult]⟩

/-- The place a batch is put is either the end of a file that holds something, or
a file without bytes. -/
theorem SameContent.undo (h : SameContent log log') (created : Bool) (cut : ℕ)
    (writes : List (ℕ × Bytes)) {segment originalSize : ℕ}
    (hsize : originalSize ≠ 0 → log.dir.logs.sizeOrZero segment ≠ 0) :
    FileTable.SameBytes
        (undoEncodedBatch (FileTable.writeUpTo created cut writes log.dir.logs) segment
          originalSize)
        (undoEncodedBatch (FileTable.writeUpTo created cut writes log'.dir.logs) segment
          originalSize) ∧
      ∀ entry ∈ log.index,
        (undoEncodedBatch (FileTable.writeUpTo created cut writes log.dir.logs) segment
            originalSize).content? entry.segment =
          (undoEncodedBatch (FileTable.writeUpTo created cut writes log'.dir.logs) segment
            originalSize).content? entry.segment := by
  have hwritten := h.logs.writeUpTo created writes cut
  have hlisted : ∀ entry ∈ log.index,
      (FileTable.writeUpTo created cut writes log.dir.logs).content? entry.segment =
        (FileTable.writeUpTo created cut writes log'.dir.logs).content? entry.segment :=
    fun entry hentry ↦ h.logs.writeUpTo_content created writes cut (h.listed entry hentry)
  simp only [undoEncodedBatch]
  split_ifs with hempty
  · refine ⟨hwritten.remove segment, fun entry hentry ↦ ?_⟩
    rw [FileTable.content?_remove, FileTable.content?_remove, hlisted entry hentry]
  · have hsegment := h.logs.writeUpTo_content created writes cut
      (h.logs.content (hsize hempty))
    refine ⟨hwritten.resize hsegment originalSize, fun entry hentry ↦ ?_⟩
    rw [FileTable.content?_resize, FileTable.content?_resize, hlisted entry hentry]

theorem SameContent.appendEncodedBatch (h : SameContent log log') (codec : Codec)
    (encodedRecords : Bytes) (uncompressedBytes : UInt32) (decodedRecords : List AppendRecord)
    (timestamp : UInt64) (fault : Option AppendFault) :
    SameContent
        (PartitionLog.appendEncodedBatch Z log codec encodedRecords uncompressedBytes decodedRecords
          timestamp fault).1
        (PartitionLog.appendEncodedBatch Z log' codec encodedRecords uncompressedBytes
          decodedRecords timestamp fault).1 ∧
      (PartitionLog.appendEncodedBatch Z log codec encodedRecords uncompressedBytes decodedRecords
          timestamp fault).2 =
        (PartitionLog.appendEncodedBatch Z log' codec encodedRecords uncompressedBytes
          decodedRecords timestamp fault).2 := by
  have hstage : log'.stageEncodedBatch codec encodedRecords uncompressedBytes
      decodedRecords.length timestamp = log.stageEncodedBatch codec encodedRecords
        uncompressedBytes decodedRecords.length timestamp := by
    rw [stageEncodedBatch, stageEncodedBatch, h.options, h.nextOffset, h.active, h.logs.sizeOrZero]
  have hvalid : validateEncodedBatch Z log'.options codec encodedRecords uncompressedBytes
      decodedRecords = validateEncodedBatch Z log.options codec encodedRecords uncompressedBytes
        decodedRecords := by rw [h.options]
  unfold PartitionLog.appendEncodedBatch
  rw [hvalid, hstage]
  cases validateEncodedBatch Z log.options codec encodedRecords uncompressedBytes
      decodedRecords with
  | error message => exact ⟨h, rfl⟩
  | ok =>
      set staged := log.stageEncodedBatch codec encodedRecords uncompressedBytes
        decodedRecords.length timestamp with hstaged
      cases fault with
      | none =>
          refine ⟨?_, by simp only [h.options, h.nextOffset]⟩
          dsimp only
          rw [h.nextOffset]
          refine h.write [(staged.segment, staged.encoded)] fun entry hentry ↦ ?_
          obtain ⟨i, -, rfl⟩ := List.mem_map.mp hentry
          exact List.mem_singleton.mpr rfl
      | some fault =>
          have hsize : staged.position ≠ 0 → log.dir.logs.sizeOrZero staged.segment ≠ 0 := by
            rw [hstaged, stageEncodedBatch]
            split_ifs
            · exact fun hne ↦ absurd rfl hne
            · exact id
          obtain ⟨hlogs, hlisted⟩ := h.undo fault.logCreated fault.logCut
            [(staged.segment, staged.encoded)] hsize
          exact ⟨⟨h.options, h.index, h.nextOffset, hlogs, hlisted⟩, rfl⟩

/-! ## Reading -/

theorem SameContent.readFrom (h : SameContent log log') (offset maxRecords maxBytes : ℕ) :
    log.readFrom Z offset maxRecords maxBytes = log'.readFrom Z offset maxRecords maxBytes := by
  have hentry : ∀ entry ∈ log.index, log.readEntry Z entry = log'.readEntry Z entry :=
    fun entry hentry ↦ readEntry_congr h.options (h.listed entry hentry)
  have hloop : ∀ entries : List IndexEntry, (∀ entry ∈ entries, entry ∈ log.index) →
      ∀ count bytes, readLoop Z log offset maxRecords maxBytes entries count bytes =
        readLoop Z log' offset maxRecords maxBytes entries count bytes := by
    intro entries
    induction entries with
    | nil => exact fun _ _ _ ↦ rfl
    | cons entry entries ih =>
        intro hmem count bytes
        obtain ⟨hfirst, hrest⟩ := List.forall_mem_cons.mp hmem
        rw [readLoop, readLoop, hentry entry hfirst]
        simp only [ih hrest]
  rw [PartitionLog.readFrom, PartitionLog.readFrom, ← h.index]
  exact hloop log.index (fun _ hmem ↦ hmem) 0 0

theorem SameContent.readEncodedBatch (h : SameContent log log') (offset : ℕ) :
    log.readEncodedBatch Z offset = log'.readEncodedBatch Z offset := by
  rw [PartitionLog.readEncodedBatch, PartitionLog.readEncodedBatch, ← h.index, ← h.options]
  cases hfind : log.index.find? fun entry ↦ entry.offset = offset with
  | none => rfl
  | some entry =>
      dsimp only
      rw [h.listed entry (List.mem_of_find?_eq_some hfind)]

end SameContent

/-! ## Opening -/

section Recover

variable {Z : Zstd} {options : PartitionLogOptions}

theorem recoverSegment_indexes (state : RecoverState) (indexes : FileTable)
    (segment : ℕ × Bytes) :
    ∃ indexes', recoverSegment Z options
        { state with dir := { state.dir with indexes := indexes } } segment =
      { recoverSegment Z options state segment with
        dir := { (recoverSegment Z options state segment).dir with indexes := indexes' } } := by
  rw [recoverSegment, recoverSegment]
  dsimp only
  split_ifs <;> exact ⟨_, rfl⟩

/-- The index files in a directory do not change what an open finds. -/
theorem recover_indexes (dir : Directory) (indexes : FileTable) :
    ∃ indexes', recover Z options { dir with indexes := indexes } =
      { recover Z options dir with
        dir := { (recover Z options dir).dir with indexes := indexes' } } := by
  have hfold : ∀ (files : FileTable) (state : RecoverState) (indexes : FileTable),
      ∃ indexes', files.foldl (recoverSegment Z options)
          { state with dir := { state.dir with indexes := indexes } } =
        { files.foldl (recoverSegment Z options) state with
          dir := { (files.foldl (recoverSegment Z options) state).dir with
            indexes := indexes' } } := by
    intro files
    induction files with
    | nil => exact fun state indexes ↦ ⟨indexes, rfl⟩
    | cons file files ih =>
        intro state indexes
        obtain ⟨indexes', hstep⟩ := @recoverSegment_indexes Z options state indexes file
        rw [List.foldl_cons, List.foldl_cons, hstep]
        exact ih _ indexes'
  obtain ⟨indexes', hstate⟩ := hfold dir.logs (RecoverState.initial dir) indexes
  refine ⟨indexes', ?_⟩
  rw [recover, recover]
  dsimp only
  rw [show RecoverState.initial { dir with indexes := indexes } =
    { RecoverState.initial dir with
      dir := { (RecoverState.initial dir).dir with indexes := indexes } } from rfl, hstate]

/-- What two opens make of directories that hold the same. -/
theorem Rebuilds.sameContent {dir dir' : Directory} {kept kept' : List (ℕ × List Bytes)}
    {log log' : PartitionLog} (h : Rebuilds Z options dir kept log)
    (h' : Rebuilds Z options dir' kept' log') (hdir : FileTable.SameBytes dir.logs dir'.logs) :
    SameContent log log' ∧ log.found = log'.found := by
  have hP := selfDelimiting_isEntry Z options
  have hkept := h.intact.same_nonempty hP h'.intact hdir.nonempty
  have hall : indexOfAll Z options kept = indexOfAll Z options kept' := by
    rw [indexOfAll, indexOfAll, ← flatMap_filter_nonempty _ (fun _ ↦ rfl), hkept,
      flatMap_filter_nonempty _ (fun _ ↦ rfl)]
  have hentries : entriesOf kept = entriesOf kept' := by
    rw [entriesOf, entriesOf, ← flatMap_filter_nonempty _ (fun _ ↦ rfl), hkept,
      flatMap_filter_nonempty _ (fun _ ↦ rfl)]
  have hcontents : FileTable.SameBytes (contentsOf kept) (contentsOf kept') := by
    refine .of_nonempty (h.sorted_contents hdir.sorted) (h'.sorted_contents hdir.sorted') ?_
    rw [FileTable.nonempty, FileTable.nonempty, contentsOf_filter_nonempty hP h.intact.all,
      contentsOf_filter_nonempty hP h'.intact.all, hkept]
  have hindex : log.index = log'.index := by rw [h.index, h'.index, hall]
  have hnext : log.nextOffset = log'.nextOffset := by rw [h.nextOffset, h'.nextOffset, hentries]
  refine ⟨⟨h.sameOptions.trans h'.sameOptions.symm, hindex, hnext, ?_, fun entry hentry ↦ ?_⟩, ?_⟩
  · rw [h.logs, h'.logs]
    exact hcontents
  · -- The segment of an entry is one that both opens have kept.
    rw [h.logs, h'.logs]
    have hmem := segment_of_mem_indexOfAll (h.mem_index.mp hentry)
    have hmem' := segment_of_mem_indexOfAll (h'.mem_index.mp (hindex ▸ hentry))
    rw [← names_contentsOf] at hmem hmem'
    exact hcontents.content_of_mem hmem hmem'
  · have htruncated := h.truncated
    have htruncated' := h'.truncated
    rw [hcontents.totalBytes, hdir.totalBytes] at htruncated
    have hrecovered : log.recoveryStats.recordsRecovered =
        log'.recoveryStats.recordsRecovered := by rw [h.recovered, h'.recovered, hall]
    have hbytes : log.recoveryStats.bytesTruncated = log'.recoveryStats.bytesTruncated := by omega
    rw [found, found, hindex, hnext, hrecovered, hbytes]

theorem recover_sameContent {dir dir' : Directory}
    (hdir : FileTable.SameBytes dir.logs dir'.logs) :
    SameContent (recover Z options dir) (recover Z options dir') ∧
      (recover Z options dir).found = (recover Z options dir').found := by
  obtain ⟨kept, h⟩ := @recover_rebuilds ⟨dir.logs, []⟩ Z options hdir.sorted .nil
  obtain ⟨kept', h'⟩ := @recover_rebuilds ⟨dir'.logs, []⟩ Z options hdir.sorted' .nil
  obtain ⟨indexes, hindexes⟩ := @recover_indexes Z options ⟨dir.logs, []⟩ dir.indexes
  obtain ⟨indexes', hindexes'⟩ := @recover_indexes Z options ⟨dir'.logs, []⟩ dir'.indexes
  obtain ⟨hsame, hfound⟩ := h.sameContent h' hdir
  change recover Z options dir = _ at hindexes
  change recover Z options dir' = _ at hindexes'
  rw [hindexes, hindexes']
  exact ⟨hsame.of_logs rfl rfl, hfound⟩

theorem SameContent.openLog {log log' : PartitionLog} (h : SameContent log log') :
    (∃ message, PartitionLog.openLog Z log.options log.dir = .error message ∧
      PartitionLog.openLog Z log'.options log'.dir = .error message) ∨
    ∃ opened opened', PartitionLog.openLog Z log.options log.dir = .ok opened ∧
      PartitionLog.openLog Z log'.options log'.dir = .ok opened' ∧ SameContent opened opened' ∧
      opened.found = opened'.found := by
  rw [PartitionLog.openLog, PartitionLog.openLog, ← h.options]
  split_ifs
  · exact Or.inl ⟨_, rfl, rfl⟩
  · exact Or.inl ⟨_, rfl, rfl⟩
  · obtain ⟨hsame, hfound⟩ := @recover_sameContent Z log.options log.dir log'.dir h.logs
    refine Or.inr ⟨_, _, rfl, rfl, ⟨hsame.options, hsame.index, hsame.nextOffset, ?_, ?_⟩, hfound⟩
    · simp only [openActiveSegment, hsame.active]
      exact hsame.logs.append _ []
    · intro entry hentry
      simp only [openActiveSegment, hsame.active]
      exact hsame.logs.append_content _ [] (Or.inr (hsame.listed entry hentry))

end Recover

/-! ## Calls -/

section Calls

variable {Z : Zstd} {log log' : PartitionLog}

theorem SameContent.call (h : SameContent log log') (next : LogCall) :
    SameContent (log.call Z next).1 (log'.call Z next).1 ∧
      (log.call Z next).2 = (log'.call Z next).2 := by
  cases next with
  | append clock fault key value =>
      obtain ⟨hlogs, hresult⟩ := h.append clock fault key value
      exact ⟨hlogs, congrArg LogReply.append hresult⟩
  | appendBatch clock fault records =>
      obtain ⟨hlogs, hresult⟩ := h.appendBatch clock fault records
      exact ⟨hlogs, congrArg LogReply.appendBatch hresult⟩
  | appendEncodedBatch codec encodedRecords uncompressedBytes decodedRecords timestamp fault =>
      obtain ⟨hlogs, hresult⟩ := @SameContent.appendEncodedBatch Z log log' h codec encodedRecords
        uncompressedBytes decodedRecords timestamp fault
      exact ⟨hlogs, congrArg LogReply.appendEncodedBatch hresult⟩
  | readFrom offset maxRecords maxBytes =>
      exact ⟨h, congrArg LogReply.readFrom (h.readFrom offset maxRecords maxBytes)⟩
  | readEncodedBatch offset =>
      exact ⟨h, congrArg LogReply.readEncodedBatch (h.readEncodedBatch offset)⟩
  | reopen =>
      rw [PartitionLog.call, PartitionLog.call]
      rcases @SameContent.openLog Z log log' h with
        ⟨message, hopen, hopen'⟩ | ⟨opened, opened', hopen, hopen', hsame, hfound⟩
      · rw [hopen, hopen']
        exact ⟨h, rfl⟩
      · rw [hopen, hopen']
        exact ⟨hsame, congrArg (fun found ↦ LogReply.reopen (.ok found)) hfound⟩

theorem SameContent.replies {calls : List LogCall} :
    ∀ {log log' : PartitionLog}, SameContent log log' →
      PartitionLog.replies Z log calls = PartitionLog.replies Z log' calls := by
  induction calls with
  | nil => exact fun _ ↦ rfl
  | cons next calls ih =>
      intro log log' h
      obtain ⟨hlogs, hreply⟩ := @SameContent.call Z log log' h next
      rw [PartitionLog.replies, PartitionLog.replies, hreply, ih hlogs]

/-! ## Failed appends -/

theorem Undone.of_logs (hlogs : log'.dir.logs = log.dir.logs) (hindex : log'.index = log.index)
    (hnext : log'.nextOffset = log.nextOffset) : Undone log log' :=
  ⟨fun _ _ h _ ↦ hlogs ▸ h, fun _ _ h ↦ hlogs ▸ h, Or.inl hlogs, hindex, hnext⟩

theorem Undone.of_remove {name : ℕ} (hempty : log.dir.logs.sizeOrZero name = 0)
    (hlogs : log'.dir.logs = log.dir.logs.remove name) (hindex : log'.index = log.index)
    (hnext : log'.nextOffset = log.nextOffset) : Undone log log' := by
  refine ⟨fun other bytes hcontent hbytes ↦ ?_, fun other bytes hcontent ↦ ?_, Or.inr ⟨name, hlogs⟩,
    hindex, hnext⟩
  · have hne : other ≠ name := fun heq ↦ by
      rw [FileTable.sizeOrZero_eq, ← heq, hcontent] at hempty
      exact hbytes (List.length_eq_zero_iff.mp hempty)
    rw [hlogs, FileTable.content?_remove, if_neg hne]
    exact hcontent
  · rw [hlogs, FileTable.content?_remove] at hcontent
    split_ifs at hcontent
    exact hcontent

theorem AppendFails.undone {layout : Layout} (h : AppendFails Z log log')
    (hrep : log.Represents Z layout) : Undone log log' ∧ SameContent log' log := by
  have hsorted : log.dir.logs.Sorted := by
    rw [hrep.logs]
    exact Layout.files_sorted hrep.placed.bases
  have hsame : log'.options = log.options → log'.dir.logs = log.dir.logs →
      log'.index = log.index → log'.nextOffset = log.nextOffset → SameContent log' log := by
    intro hoptions hlogs hindex hnext
    exact ⟨hoptions, hindex, hnext, by rw [hlogs]; exact .refl hsorted, fun _ _ ↦ by rw [hlogs]⟩
  cases h with
  | appendBatch h =>
      obtain ⟨hlogs, hindex, hnext, hoptions⟩ := appendBatch_error hsorted h
      exact ⟨.of_logs hlogs hindex hnext, hsame hoptions hlogs hindex hnext⟩
  | @appendEncodedBatch codec encodedRecords uncompressedBytes decodedRecords timestamp fault _ h =>
      unfold PartitionLog.appendEncodedBatch at h
      cases hvalid : validateEncodedBatch Z log.options codec encodedRecords uncompressedBytes
          decodedRecords with
      | error refused =>
          simp only [hvalid] at h
          obtain ⟨rfl, -⟩ := Prod.mk.inj h
          exact ⟨.of_logs rfl rfl rfl, hsame rfl rfl rfl rfl⟩
      | ok =>
          obtain ⟨segment, -, hstaged⟩ := hrep.stageEncodedBatch hvalid timestamp
          rw [← hrep.logs] at hstaged
          simp only [hvalid, hstaged] at h
          cases fault with
          | none => cases (Prod.mk.inj h).2
          | some fault =>
              obtain ⟨rfl, -⟩ := Prod.mk.inj h
              have hundone := undoEncodedBatch_written hsorted fault.logCreated fault.logCut segment
                (batchEntry log.nextOffset codec encodedRecords decodedRecords timestamp).bytes
              split_ifs at hundone with hempty
              · refine ⟨.of_remove hempty hundone rfl rfl, rfl, rfl, rfl, ?_, fun entry hentry ↦ ?_⟩
                · rw [hundone]
                  exact .remove_empty hsorted hempty
                · have hne : entry.segment ≠ segment := by
                    rw [hrep.logs] at hempty
                    exact segment_ne_of_empty (Layout.files_sorted hrep.placed.bases) hempty
                      (hrep.index ▸ hentry)
                  dsimp only
                  rw [hundone, FileTable.content?_remove, if_neg hne]
              · exact ⟨.of_logs hundone rfl rfl, hsame rfl hundone rfl rfl⟩

end Calls

end PartitionLog

open PartitionLog

/-- An append that throws leaves every segment log with its old bytes, and later
calls do not notice that it was made. -/
theorem failedAppend_undone (Z : Zstd) (options : PartitionLogOptions) (log₀ : PartitionLog)
    (hopened : openLog Z options {} = .ok log₀) (ops : List LogOp)
    (hsized : ∀ op ∈ ops, op.Sized) (state : LogState)
    (hrun : run (LogState.step Z) ⟨log₀, []⟩ ops = some state)
    (hbound : state.acked.length < 2 ^ 64) (log' : PartitionLog)
    (hfails : AppendFails Z state.log log') :
    Undone state.log log' ∧ ∀ calls, replies Z log' calls = replies Z state.log calls := by
  obtain ⟨layout, hreached⟩ := LogState.run_reached hopened hsized hrun hbound
  obtain ⟨hundone, hsame⟩ := hfails.undone hreached.represents
  exact ⟨hundone, fun calls ↦ hsame.replies⟩

/-- The disk is full after 60 bytes of records. -/
def fullDisk (message : String) : AppendFault := ⟨60, true, 0, false, message⟩

/-- A batch fails when it has rolled to a new segment. -/
theorem failedAppend_undone_rolled :
    ∃ state log', run (LogState.step noZstd) ⟨emptyLog smallSegments, []⟩
        [.append stillClock [107] [118]] = some state ∧
      AppendFails noZstd state.log log' ∧ Undone state.log log' ∧
        ∀ calls, replies noZstd log' calls = replies noZstd state.log calls := by
  have hends : (run (LogState.step noZstd) ⟨emptyLog smallSegments, []⟩
      [.append stillClock [107] [118]]).map
      (fun state ↦ decide (state.acked.length = 1 ∧
        (state.log.appendBatch stillClock (some (fullDisk "failed to flush append batch"))
          [⟨[107], [119]⟩, ⟨[107], [120]⟩]).2.toBool = false)) = some true := by decide
  obtain ⟨state, hrun, hends⟩ := Option.map_eq_some_iff.mp hends
  obtain ⟨hacked, herror⟩ := of_decide_eq_true hends
  cases happend : state.log.appendBatch stillClock
      (some (fullDisk "failed to flush append batch")) [⟨[107], [119]⟩, ⟨[107], [120]⟩] with
  | mk log' result =>
      rw [happend] at herror
      cases result with
      | ok metas => cases herror
      | error message =>
          have hfails : AppendFails noZstd state.log log' := .appendBatch happend
          exact ⟨state, log', hrun, hfails, failedAppend_undone noZstd smallSegments _
            (openLog_empty ⟨by decide, by decide⟩ noZstd) _ (by simp [LogOp.Sized]) state hrun
            (by omega) log' hfails⟩

/-- A batch that fails in an empty log removes the segment log it was to go to.
The next open then has one segment less to scan. -/
theorem failedAppend_fewerScanned :
    ∃ log' opened opened', AppendFails noZstd (emptyLog smallSegments) log' ∧
      openLog noZstd smallSegments (emptyLog smallSegments).dir = .ok opened ∧
      openLog noZstd smallSegments log'.dir = .ok opened' ∧
      opened.recoveryStats.segmentsScanned = 1 ∧ opened'.recoveryStats.segmentsScanned = 0 := by
  have hlogs : (PartitionLog.appendEncodedBatch noZstd (emptyLog smallSegments) .none
      (encodeRecordSet [⟨[97], [98]⟩]) 14 [⟨[97], [98]⟩] 8
      (some (fullDisk "failed to flush encoded batch"))).1.dir = {} ∧
    (PartitionLog.appendEncodedBatch noZstd (emptyLog smallSegments) .none
      (encodeRecordSet [⟨[97], [98]⟩]) 14 [⟨[97], [98]⟩] 8
      (some (fullDisk "failed to flush encoded batch"))).2.toBool = false := by decide
  obtain ⟨hdir, herror⟩ := hlogs
  cases happend : PartitionLog.appendEncodedBatch noZstd (emptyLog smallSegments) .none
      (encodeRecordSet [⟨[97], [98]⟩]) 14 [⟨[97], [98]⟩] 8
      (some (fullDisk "failed to flush encoded batch")) with
  | mk log' result =>
      rw [happend] at hdir herror
      cases result with
      | ok metadata => cases herror
      | error message =>
          have hempty : log'.dir = {} := hdir
          refine ⟨log', _, emptyLog smallSegments, .appendEncodedBatch happend,
            openLog_eq ⟨by decide, by decide⟩ noZstd _, ?_, by decide, rfl⟩
          rw [hempty]
          exact openLog_empty ⟨by decide, by decide⟩ noZstd

end BoltStream.Storage
