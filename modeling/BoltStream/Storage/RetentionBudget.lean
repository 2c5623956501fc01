import BoltStream.Storage.FailedRetention
import BoltStream.Storage.Failures
import BoltStream.Storage.RollRules

/-!
# The byte budget

Every call keeps the files of a log sorted and their names within 64 bits, whether
it succeeds or fails, and this is all that the byte budget of a retention pass needs:
a pass that succeeds leaves no more bytes than the policy allows, or only the active
segment.  An index that lists segments which are gone makes no difference.
-/

namespace BoltStream.Storage

open BoltStream.Lib BoltStream.Protocol BoltStream.Compression

namespace PartitionLog

/-- Each file has its place in the directory, and 64-bit names. -/
structure Formed (log : PartitionLog) : Prop where
  sorted : log.dir.logs.Sorted
  sortedIndexes : log.dir.indexes.Sorted
  named : ∀ name ∈ log.dir.logs.map Prod.fst, name < 2 ^ 64
  bound : log.nextOffset < 2 ^ 64
  segments : ∀ entry ∈ log.index, entry.segment < 2 ^ 64

theorem Listed.formed {log : PartitionLog} (h : log.Listed) : log.Formed :=
  ⟨h.sorted, h.sortedIndexes, h.named, h.bound, fun _ ↦ h.segment_lt⟩

section Formed

variable {Z : Zstd} {log log' : PartitionLog}

theorem Formed.active_lt (h : log.Formed) : log.activeSegmentBase < 2 ^ 64 := by
  rcases List.eq_nil_or_concat log.index with hnil | ⟨front, last, hlast⟩
  · rw [activeSegmentBase_of_nil hnil]
    norm_num
  · rw [List.concat_eq_append] at hlast
    have hsegment := h.segments last (by rw [hlast]; simp)
    rwa [activeSegmentBase_of_last (by rw [hlast, List.getLast?_concat]) hsegment]

/-! ## Appends -/

theorem rollback_sortedIndexes (original torn : Directory) (h : torn.indexes.Sorted) :
    (rollback original torn).indexes.Sorted := by
  have hfold : ∀ (segments : FileTable) (dir : Directory), dir.indexes.Sorted →
      (segments.foldl (rollbackSegment original) dir).indexes.Sorted := by
    intro segments
    induction segments with
    | nil => exact fun _ ↦ id
    | cons segment segments ih =>
        intro dir hdir
        rw [List.foldl_cons]
        apply ih
        rw [rollbackSegment]
        cases original.logs.content? segment.1 with
        | none => exact hdir.remove segment.1
        | some bytes => exact hdir.resize segment.1 _
  rw [rollback_eq]
  exact hfold torn.logs torn h

/-- The index files of a batch of records, written or rolled back. -/
theorem sortedIndexes_appendBatch {clock : AppendClock} {fault : Option AppendFault}
    {records : List AppendRecord} {result : Except String (List RecordMetadata)}
    (h : log.dir.indexes.Sorted)
    (happend : log.appendBatch clock fault records = (log', result)) :
    log'.dir.indexes.Sorted := by
  rw [appendBatch] at happend
  by_cases hnil : records = []
  · rw [if_pos hnil] at happend
    rwa [← (Prod.mk.inj happend).1]
  rw [if_neg hnil] at happend
  cases fault with
  | some fault =>
      obtain ⟨rfl, -⟩ := Prod.mk.inj happend
      exact rollback_sortedIndexes _ _ ((FileTable.Grows.refl h).writeUpTo _ _ _).sorted
  | none =>
      cases herror : (log.stageBatch clock records).error with
      | none =>
          simp only [herror] at happend
          obtain ⟨rfl, -⟩ := Prod.mk.inj happend
          exact h.writeAll _
      | some message =>
          simp only [herror] at happend
          obtain ⟨rfl, -⟩ := Prod.mk.inj happend
          exact rollback_sortedIndexes _ _ (h.writeAll _)

/-- What a batch of records that was appended leaves of the log. -/
theorem appendBatch_ok {clock : AppendClock} {fault : Option AppendFault}
    {records : List AppendRecord} {metas : List RecordMetadata}
    (happend : log.appendBatch clock fault records = (log', .ok metas)) :
    records = [] ∧ log' = log ∨
      log'.dir.logs = log.dir.logs.writeAll (log.stageBatch clock records).logWrites ∧
        log'.index = log.index ++ (log.stageBatch clock records).records.map StagedRecord.entry ∧
        log'.nextOffset = (log.nextOffset + records.length) % 2 ^ 64 := by
  rw [appendBatch] at happend
  by_cases hnil : records = []
  · rw [if_pos hnil] at happend
    exact Or.inl ⟨hnil, (Prod.mk.inj happend).1.symm⟩
  rw [if_neg hnil] at happend
  cases fault with
  | some fault => cases (Prod.mk.inj happend).2
  | none =>
      cases herror : (log.stageBatch clock records).error with
      | some message =>
          simp only [herror] at happend
          cases (Prod.mk.inj happend).2
      | none =>
          simp only [herror] at happend
          obtain ⟨rfl, -⟩ := Prod.mk.inj happend
          exact Or.inr ⟨rfl, rfl, rfl⟩

theorem Formed.appendBatch (h : log.Formed) {clock : AppendClock} {fault : Option AppendFault}
    {records : List AppendRecord} {result : Except String (List RecordMetadata)}
    (happend : log.appendBatch clock fault records = (log', result)) : log'.Formed := by
  have hindexes := sortedIndexes_appendBatch h.sortedIndexes happend
  cases result with
  | error message =>
      obtain ⟨hlogs, hindex, hnext, -⟩ := appendBatch_error h.sorted happend
      exact ⟨hlogs ▸ h.sorted, hindexes, hlogs ▸ h.named, hnext ▸ h.bound, hindex ▸ h.segments⟩
  | ok metas =>
      rcases appendBatch_ok happend with ⟨-, rfl⟩ | ⟨hlogs, hindex, hnext⟩
      · exact h
      have hstaged := @segment_stageRecords log.options clock log.nextOffset records 0
        log.activeSegmentBase (log.dir.logs.sizeOrZero log.activeSegmentBase) h.active_lt
      refine ⟨hlogs ▸ h.sorted.writeAll _, hindexes, fun name hname ↦ ?_,
        hnext ▸ Nat.mod_lt _ (by norm_num), fun entry hentry ↦ ?_⟩
      · rw [hlogs, FileTable.mem_names_writeAll, StagedBatch.logWrites, List.map_map] at hname
        rcases hname with hold | hnew
        · exact h.named name hold
        · obtain ⟨staged, hmem, rfl⟩ := List.mem_map.mp hnew
          exact hstaged staged hmem
      · rw [hindex, List.mem_append] at hentry
        rcases hentry with hold | hnew
        · exact h.segments entry hold
        · obtain ⟨staged, hmem, rfl⟩ := List.mem_map.mp hnew
          exact hstaged staged hmem

theorem Formed.stageEncodedBatch_lt (h : log.Formed) (codec : Codec) (encodedRecords : Bytes)
    (uncompressedBytes : UInt32) (recordCount : ℕ) (timestamp : UInt64) :
    (log.stageEncodedBatch codec encodedRecords uncompressedBytes recordCount
      timestamp).segment < 2 ^ 64 := by
  rw [stageEncodedBatch]
  split_ifs
  · exact h.bound
  · exact h.active_lt

theorem undoEncodedBatch_sorted {files : FileTable} (h : files.Sorted) (segment size : ℕ) :
    (undoEncodedBatch files segment size).Sorted := by
  rw [undoEncodedBatch]
  split_ifs
  · exact h.remove segment
  · exact h.resize segment size

theorem mem_names_undoEncodedBatch {files : FileTable} {segment size name : ℕ}
    (h : name ∈ (undoEncodedBatch files segment size).map Prod.fst) :
    name ∈ files.map Prod.fst := by
  rw [undoEncodedBatch] at h
  split_ifs at h
  · exact (List.filter_sublist.map Prod.fst).subset h
  · rwa [FileTable.map_fst_resize] at h

theorem Formed.appendEncodedBatch (h : log.Formed) {codec : Codec} {encodedRecords : Bytes}
    {uncompressedBytes : UInt32} {decodedRecords : List AppendRecord} {timestamp : UInt64}
    {fault : Option AppendFault} {result : Except String BatchMetadata}
    (happend : PartitionLog.appendEncodedBatch Z log codec encodedRecords uncompressedBytes
      decodedRecords timestamp fault = (log', result)) : log'.Formed := by
  have hsegment := h.stageEncodedBatch_lt codec encodedRecords uncompressedBytes
    decodedRecords.length timestamp
  unfold PartitionLog.appendEncodedBatch at happend
  cases hvalid : validateEncodedBatch Z log.options codec encodedRecords uncompressedBytes
      decodedRecords with
  | error message =>
      simp only [hvalid] at happend
      rwa [← (Prod.mk.inj happend).1]
  | ok =>
      simp only [hvalid] at happend
      cases fault with
      | none =>
          obtain ⟨rfl, -⟩ := Prod.mk.inj happend
          refine ⟨h.sorted.append _ _, h.sortedIndexes.append _ _, fun name hname ↦ ?_,
            Nat.mod_lt _ (by norm_num), fun entry hentry ↦ ?_⟩
          · rcases FileTable.mem_names_append.mp hname with rfl | hold
            · exact hsegment
            · exact h.named name hold
          · rcases List.mem_append.mp hentry with hold | hnew
            · exact h.segments entry hold
            · obtain ⟨i, -, rfl⟩ := List.mem_map.mp hnew
              exact hsegment
      | some fault =>
          obtain ⟨rfl, -⟩ := Prod.mk.inj happend
          refine ⟨undoEncodedBatch_sorted ((FileTable.Grows.refl h.sorted).writeUpTo _ _ _).sorted
            _ _, undoEncodedBatch_sorted ((FileTable.Grows.refl h.sortedIndexes).writeUpTo _ _
              _).sorted _ _, fun name hname ↦ ?_, h.bound, h.segments⟩
          rcases FileTable.mem_names_writeUpTo _ (mem_names_undoEncodedBatch hname) with hold | hnew
          · exact h.named name hold
          · rw [List.map_singleton, List.mem_singleton] at hnew
            exact hnew ▸ hsegment

/-! ## Retention and opening -/

theorem Formed.applyRetention (h : log.Formed) {env : RetentionEnv} {policy : RetentionPolicy}
    {result : Except String RetentionStats}
    (hretention : log.applyRetention env policy = (log', result)) : log'.Formed := by
  obtain ⟨gone, -, hlogs, -⟩ := retentionLoop_removes env policy log.segmentSummaries
    (RetentionState.initial log)
  have hsorted := @retentionLoop_sortedIndexes env policy log.segmentSummaries
    (RetentionState.initial log) h.sortedIndexes
  -- However the walk ends, the index is a part of the one before it.
  have hformed : ∀ {walk : RetentionState} {kept : PartitionLog}, walk.dir.indexes.Sorted →
      walk.dir.logs = log.dir.logs.filter (fun file ↦ file.1 ∉ gone) → kept.dir = walk.dir →
      kept.index ⊆ log.index → kept.nextOffset = log.nextOffset → kept.Formed := by
    intro walk kept hwalk hlogs hdir hindex hnext
    refine ⟨?_, hdir ▸ hwalk, fun name hname ↦ h.named name ?_, hnext ▸ h.bound,
      fun entry hentry ↦ h.segments entry (hindex hentry)⟩
    · rw [hdir, hlogs]
      exact List.Pairwise.filter _ h.sorted
    · rw [hdir, hlogs] at hname
      exact (List.filter_sublist.map Prod.fst).subset hname
  cases result with
  | error message =>
      obtain ⟨walk, hwalk, rfl⟩ := applyRetention_error hretention
      rw [hwalk] at hlogs hsorted
      exact hformed hsorted hlogs rfl (List.Subset.refl _) rfl
  | ok stats =>
      obtain ⟨walk, hwalk, rfl, -⟩ := applyRetention_ok hretention
      rw [hwalk] at hlogs hsorted
      exact hformed hsorted hlogs rfl (List.filter_sublist.subset) rfl

theorem Formed.openLog (h : log.Formed) {options : PartitionLogOptions}
    (hopen : PartitionLog.openLog Z options log.dir = .ok log') : log'.Formed :=
  (listed_openLog h.sorted h.sortedIndexes h.named hopen).formed

/-! ## The budget -/

/-- There is a summary for each file; the other summaries are of segments that are
gone. -/
theorem exists_perm_segmentSummaries (log : PartitionLog) :
    ∃ missing, (log.segmentSummaries.map SegmentSummary.key).Perm
      (missing ++ log.dir.logs.map log.fileKey) := by
  have hfold : ∀ (entries : List IndexEntry) (summaries : List SegmentSummary),
      ∃ missing, (entries.foldl log.mergeIndexEntry summaries).map SegmentSummary.key =
        missing ++ summaries.map SegmentSummary.key := by
    intro entries
    induction entries with
    | nil => exact fun summaries ↦ ⟨[], rfl⟩
    | cons entry entries ih =>
        intro summaries
        obtain ⟨missing, hmissing⟩ := ih (log.mergeIndexEntry summaries entry)
        rw [List.foldl_cons, hmissing]
        by_cases hlisted : ∃ summary ∈ summaries, summary.baseOffset = entry.segment
        · exact ⟨missing, by rw [key_mergeIndexEntry log hlisted]⟩
        · have hnone : ¬ (summaries.any fun summary ↦ summary.baseOffset == entry.segment) =
              true := by simpa using hlisted
          rw [mergeIndexEntry, if_neg hnone, List.map_cons]
          exact ⟨missing ++ [_], by rw [List.append_assoc, List.singleton_append]⟩
  rw [segmentSummaries]
  obtain ⟨missing, hmissing⟩ := hfold log.index (log.dir.logs.map fun segment ↦
    { baseOffset := segment.1
      firstOffset := segment.1
      lastOffset := segment.1
      logBytes := segment.2.length
      active := segment.1 == log.activeSegmentBase })
  rw [List.map_map] at hmissing
  refine ⟨missing, ((List.perm_insertionSort _ _).map _).trans (List.Perm.of_eq ?_)⟩
  exact hmissing

theorem sum_filter_add_le {α : Type*} (size : α → ℕ) (kept : α → Bool) {gone all : List α}
    (hsub : gone.Sublist all) (hgone : ∀ a ∈ gone, kept a = false) :
    ((all.filter kept).map size).sum + (gone.map size).sum ≤ (all.map size).sum := by
  induction hsub with
  | slnil => exact le_rfl
  | cons a _ ih =>
      have hrest := ih hgone
      rw [List.map_cons, List.sum_cons, List.filter_cons]
      split_ifs
      · rw [List.map_cons, List.sum_cons]
        omega
      · omega
  | cons_cons a _ ih =>
      obtain ⟨ha, hothers⟩ := List.forall_mem_cons.mp hgone
      have hrest := ih hothers
      rw [List.filter_cons_of_neg (by simp [ha]), List.map_cons, List.sum_cons, List.map_cons,
        List.sum_cons]
      omega

/-- The segments fit the budget, or there is no other segment than the active one. -/
def WithinBudget (log : PartitionLog) (maxBytes : ℕ) : Prop :=
  log.dir.logs.totalBytes ≤ maxBytes ∨ ∀ file ∈ log.dir.logs, file.1 = log.activeSegmentBase

/-- A pass that succeeds leaves the log within its budget. -/
theorem Formed.withinBudget (h : log.Formed) {env : RetentionEnv} {policy : RetentionPolicy}
    {stats : RetentionStats} (hmax : 0 < policy.maxBytes)
    (hretention : log.applyRetention env policy = (log', .ok stats)) :
    log'.WithinBudget policy.maxBytes := by
  obtain ⟨walk, hwalk, hlog, -⟩ := applyRetention_ok hretention
  obtain ⟨gone, hwalks⟩ := retentionLoop_walks le_rfl hwalk
  obtain ⟨missing, hperm⟩ := exists_perm_segmentSummaries log
  set names := gone.map SegmentSummary.baseOffset with hnames
  have hlogs : log'.dir.logs = log.dir.logs.filter fun file ↦ file.1 ∉ names := by
    rw [hlog]
    exact hwalks.logs
  have hindex : log'.index = log.index.filter fun entry ↦ entry.segment ∉ names := by
    have hdeleted : walk.deletedLogs = names := hwalks.deleted
    rw [hlog, ← hdeleted]
  rcases hwalks.budget hmax with hfits | hall
  · left
    set kept : ℕ × ℕ × Bool → Bool := fun key ↦ decide (key.1 ∉ names)
    set size : ℕ × ℕ × Bool → ℕ := fun key ↦ key.2.1
    have hgone := sum_filter_add_le size kept (hwalks.sublist.map SegmentSummary.key) (by
      intro key hkey
      obtain ⟨summary, hsummary, rfl⟩ := List.mem_map.mp hkey
      exact decide_eq_false (not_not.mpr (List.mem_map_of_mem hsummary)))
    have hsame := ((hperm.filter kept).map size).sum_eq
    rw [List.filter_append, List.map_append, List.sum_append] at hsame
    have hfiles : (((log.dir.logs.map log.fileKey).filter kept).map size).sum =
        log'.dir.logs.totalBytes := by
      rw [hlogs, FileTable.totalBytes, List.filter_map, List.map_map]
      rfl
    have htotal := hwalks.total
    have hinitial : (RetentionState.initial log).totalBytes =
        ((log.segmentSummaries.map SegmentSummary.key).map size).sum := by
      rw [List.map_map]
      rfl
    have hdeleted : ((gone.map SegmentSummary.key).map size).sum = logBytes gone := by
      rw [List.map_map]
      rfl
    omega
  · right
    have hactive : log.activeSegmentBase ∉ names := hwalks.active_not_mem
    intro file hfile
    rw [activeSegmentBase_filter hindex h.segments hactive]
    rw [hlogs, List.mem_filter, decide_eq_true_eq] at hfile
    by_contra hne
    have hkey : log.fileKey file ∈ log.segmentSummaries.map SegmentSummary.key :=
      hperm.mem_iff.mpr (List.mem_append_right _ (List.mem_map_of_mem hfile.1))
    obtain ⟨summary, hsummary, hsame⟩ := List.mem_map.mp hkey
    have hbase : summary.baseOffset = file.1 := congrArg Prod.fst hsame
    have hinactive : summary.active = false := by
      rw [active_of_mem_segmentSummaries hsummary, hbase]
      exact beq_false_of_ne hne
    apply hfile.2
    rw [hnames, ← hbase]
    exact List.mem_map_of_mem (hall summary hsummary hinactive)

end Formed

/-- Where a batch of so many encoded bytes goes: to a new segment if the active one has
bytes and would grow too large. -/
def batchSegment (log : PartitionLog) (encodedBytes : ℕ) : ℕ :=
  if 0 < log.activeSize ∧ log.options.maxSegmentBytes < log.activeSize + (encodedBytes + 44) then
    log.nextOffset
  else log.activeSegmentBase

/-- The batch fits the budget together with the segments there are, or there is no other
segment than the one it goes to. -/
def BatchFits (log : PartitionLog) (maxBytes encodedBytes : ℕ) : Prop :=
  log.dir.logs.totalBytes + (encodedBytes + 44) ≤ maxBytes ∨
    ∀ file ∈ log.dir.logs, file.1 = log.batchSegment encodedBytes

/-- A batch is appended without a pass behind it. -/
theorem Formed.withinBudget_iff {Z : Zstd} {log log' : PartitionLog} (h : log.Formed)
    {codec : Codec} {encodedRecords : Bytes} {uncompressedBytes : UInt32}
    {decodedRecords : List AppendRecord} {timestamp : UInt64} {metadata : BatchMetadata}
    (happend : PartitionLog.appendEncodedBatch Z log codec encodedRecords uncompressedBytes
      decodedRecords timestamp none = (log', .ok metadata)) (maxBytes : ℕ) :
    log'.WithinBudget maxBytes ↔ log.BatchFits maxBytes encodedRecords.length := by
  set encoded := log.encodedEntry codec encodedRecords uncompressedBytes decodedRecords timestamp
    with hencoded
  have hlength : encoded.length = encodedRecords.length + 44 := by
    rw [hencoded, encodedEntry, encodeBatch, length_frameBody, length_batchBody]
    omega
  have hplaced : ∃ position, Placed log log' encoded (log.batchSegment encodedRecords.length)
      position := by
    have hrule := appendEncodedBatch_placed happend
    dsimp only at hrule
    rw [← hencoded, hlength] at hrule
    rw [batchSegment]
    split_ifs at hrule ⊢
    · exact ⟨0, hrule⟩
    · exact ⟨log.activeSize, hrule⟩
  obtain ⟨position, hlogs, added, hindex, hne, hadded⟩ := hplaced
  have hactive : log'.activeSegmentBase = log.batchSegment encodedRecords.length := by
    have hlast := List.getLast?_eq_some_getLast hne
    have hsegment := (hadded _ (List.getLast_mem hne)).1
    have hlt := (h.appendEncodedBatch happend).segments (added.getLast hne) (by
      rw [hindex]
      exact List.mem_append_right _ (List.getLast_mem hne))
    rw [← hsegment]
    refine activeSegmentBase_of_last ?_ hlt
    rw [hindex, List.getLast?_append_of_ne_nil _ hne, hlast]
  rw [WithinBudget, BatchFits, hactive, hlogs, FileTable.totalBytes_append, hlength]
  refine or_congr Iff.rfl ?_
  constructor
  · intro hall file hfile
    have hname : file.1 ∈ (log.dir.logs.append (log.batchSegment encodedRecords.length)
        encoded).map Prod.fst :=
      FileTable.mem_names_append.mpr (Or.inr (List.mem_map_of_mem hfile))
    obtain ⟨other, hother, hsame⟩ := List.mem_map.mp hname
    exact hsame ▸ hall other hother
  · intro hall file hfile
    rcases FileTable.mem_append hfile with heq | hold
    · exact heq
    · exact hall file hold

end PartitionLog

end BoltStream.Storage
