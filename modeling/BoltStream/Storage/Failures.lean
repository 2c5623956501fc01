import BoltStream.Storage.LogRuns

/-!
# Calls that fail

What appends and retention passes leave behind when a file operation inside
them fails.  `append_batch` puts the segment logs back as they were.  A
retention pass keeps what it has removed, while the index goes on listing it.
`Stores` is what all these logs have in common: their files hold a layout, and
the next append goes to the right place.
-/

namespace BoltStream.Storage

open BoltStream.Lib BoltStream.Protocol BoltStream.Compression

namespace PartitionLog

/-! ## Undoing an append -/

/-- The turn of `rollback` for one segment. -/
def rollbackSegment (original dir : Directory) (segment : ℕ × Bytes) : Directory :=
  match original.logs.content? segment.1 with
  | none =>
      { logs := dir.logs.remove segment.1
        indexes := dir.indexes.remove segment.1 }
  | some bytes =>
      { logs := dir.logs.resize segment.1 bytes.length
        indexes := dir.indexes.resize segment.1 (original.indexes.sizeOrZero segment.1) }

theorem rollback_eq (original torn : Directory) :
    rollback original torn = torn.logs.foldl (rollbackSegment original) torn :=
  rfl

theorem rollback_logs (original torn : Directory) :
    (rollback original torn).logs =
      torn.logs.foldl (fun files file ↦ original.logs.restoreFile files file.1) torn.logs := by
  have hfold : ∀ (segments : FileTable) (dir : Directory),
      (segments.foldl (rollbackSegment original) dir).logs =
        segments.foldl (fun files file ↦ original.logs.restoreFile files file.1) dir.logs := by
    intro segments
    induction segments with
    | nil => exact fun _ ↦ rfl
    | cons segment segments ih =>
        intro dir
        rw [List.foldl_cons, List.foldl_cons, ih]
        congr 1
        rw [rollbackSegment, FileTable.restoreFile]
        cases original.logs.content? segment.1 <;> rfl
  rw [rollback_eq]
  exact hfold torn.logs torn

/-- The `catch` block of `append_batch` undoes the appends before it. -/
theorem rollback_grown {original torn : Directory} (hsorted : original.logs.Sorted)
    (hgrown : original.logs.Grows torn.logs) : (rollback original torn).logs = original.logs := by
  rw [rollback_logs]
  exact hgrown.restore hsorted

/-- The `catch` block of `append_encoded_batch` undoes the writes to the segment
log, and removes it if it was empty. -/
theorem undoEncodedBatch_written {logs : FileTable} (hsorted : logs.Sorted) (created : Bool)
    (cut segment : ℕ) (bytes : Bytes) :
    undoEncodedBatch (FileTable.writeUpTo created cut [(segment, bytes)] logs) segment
        (logs.sizeOrZero segment) =
      if logs.sizeOrZero segment = 0 then logs.remove segment else logs := by
  have hgrown := (FileTable.Grows.refl hsorted).writeUpTo created [(segment, bytes)] cut
  have hother : ∀ other, other ≠ segment →
      (FileTable.writeUpTo created cut [(segment, bytes)] logs).content? other =
        logs.content? other := by
    intro other hne
    rw [FileTable.writeUpTo, FileTable.writeUpTo]
    split_ifs
    · rw [FileTable.content?_append hsorted, if_neg hne]
    · rfl
    · rw [FileTable.content?_append hsorted, if_neg hne]
  rw [undoEncodedBatch]
  split_ifs with hempty
  · refine (hgrown.sorted.remove segment).ext (hsorted.remove segment) fun other ↦ ?_
    rw [FileTable.content?_remove, FileTable.content?_remove]
    split_ifs with hsegment
    · rfl
    · exact hother other hsegment
  · have hrestored := hgrown.restoreFile hsorted hother
    rw [FileTable.sizeOrZero] at hempty ⊢
    cases hcontent : logs.content? segment with
    | none =>
        rw [hcontent] at hempty
        exact absurd rfl hempty
    | some old =>
        rw [FileTable.restoreFile, hcontent] at hrestored
        exact hrestored

/-- A batch that was not appended has left no trace in the segment logs. -/
theorem appendBatch_error {log log' : PartitionLog} (hsorted : log.dir.logs.Sorted)
    {clock : AppendClock} {fault : Option AppendFault} {records : List AppendRecord}
    {message : String} (h : log.appendBatch clock fault records = (log', .error message)) :
    log'.dir.logs = log.dir.logs ∧ log'.index = log.index ∧ log'.nextOffset = log.nextOffset ∧
      log'.options = log.options := by
  rw [appendBatch] at h
  by_cases hnil : records = []
  · rw [if_pos hnil] at h
    cases (Prod.mk.inj h).2
  rw [if_neg hnil] at h
  cases fault with
  | some fault =>
      obtain ⟨rfl, -⟩ := Prod.mk.inj h
      exact ⟨rollback_grown hsorted ((FileTable.Grows.refl hsorted).writeUpTo _ _ _), rfl, rfl, rfl⟩
  | none =>
      cases herror : (log.stageBatch clock records).error with
      | none =>
          simp only [herror] at h
          cases (Prod.mk.inj h).2
      | some refused =>
          simp only [herror] at h
          obtain ⟨rfl, -⟩ := Prod.mk.inj h
          exact ⟨rollback_grown hsorted ((FileTable.Grows.refl hsorted).writeAll _), rfl, rfl, rfl⟩

/-! ## What failed calls keep -/

/-- The log as an open of the layout would show it. -/
def reindexed (log : PartitionLog) (layout : Layout) : PartitionLog :=
  { log with
    dir := { log.dir with logs := layout.files }
    index := layout.index }

/-- The files of the log hold the layout.  The index may list more than that. -/
structure Stores (Z : Zstd) (log : PartitionLog) (layout : Layout) : Prop where
  logs : log.dir.logs = layout.files
  placed : layout.WellPlaced log.nextOffset
  bound : log.nextOffset < 2 ^ 64
  kept : ∀ e ∈ layout.entries, e.Kept Z log.options
  active : (log.reindexed layout).activeSegmentBase = log.activeSegmentBase
  below : ∀ entry ∈ log.index, entry.offset < log.nextOffset ∧ entry.segment < 2 ^ 64

theorem Represents.congr {Z : Zstd} {log log' : PartitionLog} {layout : Layout}
    (hrep : log.Represents Z layout) (hlogs : log'.dir.logs = log.dir.logs)
    (hindex : log'.index = log.index) (hnext : log'.nextOffset = log.nextOffset) :
    log'.Represents Z layout := by
  have hactive : log'.activeSegmentBase = log.activeSegmentBase := by
    unfold activeSegmentBase
    rw [hindex, hnext]
  exact ⟨hlogs.trans hrep.logs, hindex.trans hrep.index, hnext ▸ hrep.placed, hnext ▸ hrep.bound,
    hrep.written, hactive ▸ hrep.active⟩

section Stores

variable {Z : Zstd} {log log' appended : PartitionLog} {layout : Layout}

theorem Represents.stores (hrep : log.Represents Z layout)
    (hdecodable : ∀ e ∈ layout.entries, e.Decodable log.options.maxUncompressedBatchBytes) :
    log.Stores Z layout := by
  refine ⟨hrep.logs, hrep.placed, hrep.bound, fun e he ↦ ⟨(hrep.written e he).1,
    (hrep.written e he).2, hdecodable e he⟩, ?_, fun entry hentry ↦
      ⟨hrep.offset_lt entry hentry, hrep.segment_lt entry hentry⟩⟩
  unfold activeSegmentBase reindexed
  rw [hrep.index]

theorem Stores.sorted (h : log.Stores Z layout) : log.dir.logs.Sorted := by
  rw [h.logs]
  exact Layout.files_sorted h.placed.bases

theorem Stores.congr (h : log.Stores Z layout) (hlogs : log'.dir.logs = log.dir.logs)
    (hindex : log'.index = log.index) (hnext : log'.nextOffset = log.nextOffset)
    (hoptions : log'.options = log.options) : log'.Stores Z layout := by
  have hactive := h.active
  refine ⟨hlogs.trans h.logs, hnext ▸ h.placed, hnext ▸ h.bound, hoptions ▸ h.kept, ?_, ?_⟩
  · unfold activeSegmentBase reindexed at hactive ⊢
    rw [hindex, hnext]
    exact hactive
  · rw [hindex, hnext]
    exact h.below

/-- With the active segment in place the layout is what an open would show. -/
theorem Stores.represents (h : log.Stores Z layout) :
    (log.reindexed (layout.touch log.activeSegmentBase)).Represents Z
      (layout.touch log.activeSegmentBase) := by
  refine ⟨rfl, rfl, h.placed.touch _, h.bound, fun e he ↦ ?_, ?_⟩
  · rw [Layout.entries_touch] at he
    exact ⟨(h.kept e he).1, (h.kept e he).2.1⟩
  · obtain ⟨s, hs, hbase⟩ := Layout.exists_mem_touch layout log.activeSegmentBase
    refine ⟨s, hs, hbase.trans ?_⟩
    have hactive := h.active
    unfold activeSegmentBase reindexed at hactive ⊢
    rw [Layout.index_touch]
    exact hactive.symm

/-- The active segment is that of the last index entry added. -/
theorem activeSegmentBase_append {front front' staged : List IndexEntry}
    (hindex : log.index = front ++ staged) (hindex' : log'.index = front' ++ staged)
    (hne : staged ≠ []) (hnext : log'.nextOffset = log.nextOffset) :
    log'.activeSegmentBase = log.activeSegmentBase := by
  unfold activeSegmentBase
  rw [hindex, hindex', hnext, List.getLast?_append_of_ne_nil _ hne,
    List.getLast?_append_of_ne_nil _ hne]

/-- A log that has appended `staged` to an index, and whose layout has gained the
same entries, stores the layout. -/
theorem Stores.of_append {front front' staged : List IndexEntry}
    (hrep : (log.reindexed layout).Represents Z layout) (hlogs : log.dir.logs = layout.files)
    (hkept : ∀ e ∈ layout.entries, e.Kept Z log.options) (hindex : log.index = front ++ staged)
    (hindex' : layout.index = front' ++ staged) (hne : staged ≠ [])
    (hfront : ∀ entry ∈ front, entry.offset < log.nextOffset ∧ entry.segment < 2 ^ 64) :
    log.Stores Z layout := by
  refine ⟨hlogs, hrep.placed, hrep.bound, hkept,
    activeSegmentBase_append hindex hindex' hne rfl, fun entry hentry ↦ ?_⟩
  rw [hindex, List.mem_append] at hentry
  rcases hentry with hentry | hentry
  · exact hfront entry hentry
  · have hmem : entry ∈ (log.reindexed layout).index := by
      change entry ∈ layout.index
      rw [hindex']
      exact List.mem_append_right _ hentry
    exact ⟨hrep.offset_lt entry hmem, hrep.segment_lt entry hmem⟩

theorem Stores.size_touch (h : log.Stores Z layout) :
    (layout.touch log.activeSegmentBase).files.sizeOrZero log.activeSegmentBase =
      log.dir.logs.sizeOrZero log.activeSegmentBase := by
  rw [Layout.files_touch, FileTable.sizeOrZero_append _ _ _ (Layout.files_sorted h.placed.bases),
    h.logs]
  rfl

theorem Stores.active_touch (h : log.Stores Z layout) :
    (log.reindexed (layout.touch log.activeSegmentBase)).activeSegmentBase =
      log.activeSegmentBase := by
  have hactive := h.active
  unfold activeSegmentBase reindexed at hactive ⊢
  rw [Layout.index_touch]
  exact hactive

/-- The active segment has a file unless it is empty. -/
theorem Stores.touch_eq (h : log.Stores Z layout)
    (hsize : log.dir.logs.sizeOrZero log.activeSegmentBase ≠ 0) :
    layout.touch log.activeSegmentBase = layout := by
  cases hcontent : log.dir.logs.content? log.activeSegmentBase with
  | none =>
      rw [FileTable.sizeOrZero, hcontent] at hsize
      exact absurd rfl hsize
  | some bytes =>
      have hmem := FileTable.exists_mem_of_content? hcontent
      rw [h.logs] at hmem
      obtain ⟨s, hs, hfile⟩ := List.mem_map.mp hmem
      have hbase : s.base = log.activeSegmentBase := congrArg Prod.fst hfile
      rw [← hbase]
      exact Layout.touch_of_mem h.placed.bases hs

theorem Stores.stageBatch_touch (h : log.Stores Z layout) (clock : AppendClock)
    (records : List AppendRecord) :
    (log.reindexed (layout.touch log.activeSegmentBase)).stageBatch clock records =
      log.stageBatch clock records := by
  rw [stageBatch, stageBatch, h.active_touch]
  change stageRecords log.options clock log.nextOffset 0 _
    ((layout.touch log.activeSegmentBase).files.sizeOrZero log.activeSegmentBase) records = _
  rw [h.size_touch]

/-- The first write of a batch creates the active segment if it is missing. -/
theorem Stores.writeAll_touch (h : log.Stores Z layout) {clock : AppendClock}
    {records : List AppendRecord} (hne : records ≠ [])
    (herror : (log.stageBatch clock records).error = none) :
    (layout.touch log.activeSegmentBase).files.writeAll (log.stageBatch clock records).logWrites =
      log.dir.logs.writeAll (log.stageBatch clock records).logWrites := by
  by_cases hsize : log.dir.logs.sizeOrZero log.activeSegmentBase = 0
  · obtain ⟨record, rest, rfl⟩ := List.exists_cons_of_ne_nil hne
    have hbound : log.nextOffset + 0 < 2 ^ 64 := h.bound
    rw [stageBatch] at herror ⊢
    cases hencoded : encodeRecord (log.nextOffset + 0) (clock.timestamp 0).toNat record.key
        record.value with
    | error message =>
        rw [stageRecords, Nat.mod_eq_of_lt hbound, hencoded] at herror
        cases herror
    | ok encoded =>
        obtain ⟨base, size, hcases, hstage⟩ := stageRecords_cons log.options hbound hencoded
          log.activeSegmentBase (log.dir.logs.sizeOrZero log.activeSegmentBase) rest
        obtain rfl : base = log.activeSegmentBase := by
          rcases hcases with ⟨hbase, -⟩ | ⟨-, -, hpos⟩
          · exact hbase
          · omega
        rw [hstage, StagedBatch.logWrites, List.map_cons, FileTable.writeAll, FileTable.writeAll,
          List.foldl_cons, List.foldl_cons, Layout.files_touch, ← h.logs]
        congr 1
        exact FileTable.append_append _ _ _ _
  · rw [h.touch_eq hsize, h.logs]

/-- What an append has added to a log and to its layout. -/
structure AppendsTo (Z : Zstd) (log : PartitionLog) (layout : Layout) (log' : PartitionLog)
    (layout' : Layout) (added : List Entry) (staged : List IndexEntry) : Prop where
  stores : log'.Stores Z layout'
  represents : (log'.reindexed layout').Represents Z layout'
  options : log'.options = log.options
  entries : layout'.entries = layout.entries ++ added
  index : log'.index = log.index ++ staged
  layoutIndex : layout'.index = layout.index ++ staged

/-- A batch appended without a fault. -/
theorem Stores.appendBatch (h : log.Stores Z layout) {clock : AppendClock}
    {records : List AppendRecord} (hne : records ≠ [])
    (hbound : log.nextOffset + records.length < 2 ^ 64) {metas : List RecordMetadata}
    (happend : log.appendBatch clock none records = (log', .ok metas)) :
    ∃ layout', AppendsTo Z log layout log' layout'
        (recordEntries clock log.nextOffset 0 records)
        ((log.stageBatch clock records).records.map StagedRecord.entry) ∧
      log'.nextOffset = log.nextOffset + records.length ∧
      List.zipWith acknowledged metas records =
        (recordEntries clock log.nextOffset 0 records).flatMap Entry.records := by
  set touched := log.reindexed (layout.touch log.activeSegmentBase) with htouched
  rw [PartitionLog.appendBatch, if_neg hne] at happend
  cases herror : (log.stageBatch clock records).error with
  | some message =>
      simp only [herror] at happend
      cases (Prod.mk.inj happend).2
  | none =>
      simp only [herror] at happend
      obtain ⟨hlog, hmetas⟩ := Prod.mk.inj happend
      -- The same call on the log an open would show.
      cases hsame : touched.appendBatch clock none records with
      | mk touched' result =>
          have hcall := hsame
          rw [PartitionLog.appendBatch, if_neg hne, h.stageBatch_touch] at hcall
          simp only [herror] at hcall
          obtain ⟨htouched', hresult⟩ := Prod.mk.inj hcall
          rw [← hresult] at hsame
          obtain ⟨layout', hrep, -, hnext, hentries, hacked⟩ :=
            h.represents.appendBatch hbound hsame
          have hlogs : log'.dir.logs = layout'.files := by
            rw [← hrep.logs, ← hlog, ← htouched']
            exact (h.writeAll_touch hne herror).symm
          have hindex : layout'.index =
              layout.index ++ (log.stageBatch clock records).records.map StagedRecord.entry := by
            rw [← hrep.index, ← htouched', ← Layout.index_touch layout log.activeSegmentBase]
            rfl
          have hnext' : log'.nextOffset = log.nextOffset + records.length := by
            rw [← hlog]
            exact Nat.mod_eq_of_lt hbound
          have hoptions : log'.options = log.options := by rw [← hlog]
          have hentries : layout'.entries =
              layout.entries ++ recordEntries clock log.nextOffset 0 records := by
            rw [hentries, Layout.entries_touch]
            rfl
          have hrep' : (log'.reindexed layout').Represents Z layout' :=
            hrep.congr hrep.logs.symm hrep.index.symm (hnext'.trans hnext.symm)
          refine ⟨layout', ⟨?_, hrep', hoptions, hentries, by rw [← hlog], hindex⟩, hnext', ?_⟩
          · refine Stores.of_append hrep' hlogs (fun e he ↦ ?_) (by rw [← hlog]) hindex ?_
              fun entry hentry ↦ ?_
            · refine ⟨(hrep.written e he).1, (hrep.written e he).2, ?_⟩
              rw [hentries, List.mem_append] at he
              rcases he with he | he
              · exact hoptions ▸ (h.kept e he).2.2
              · exact LogState.decodable_recordEntries _ clock _ records 0 e he
            · have hlength : (log.stageBatch clock records).records.length = records.length :=
                length_stageRecords herror
              rw [ne_eq, ← List.length_eq_zero_iff, List.length_map, hlength,
                List.length_eq_zero_iff]
              exact hne
            · have hbelow := h.below entry hentry
              exact ⟨by omega, hbelow.2⟩
          · rw [← Except.ok.inj hmetas]
            exact hacked

/-- A retention pass, however it ends: some segments are gone that were due and
not active, and the index has lost their entries if the pass succeeded. -/
theorem Stores.applyRetention (h : log.Stores Z layout) {env : RetentionEnv}
    {policy : RetentionPolicy} {result : Except String RetentionStats}
    (hretention : log.applyRetention env policy = (log', result)) :
    ∃ gone : List ℕ, log'.Stores Z (layout.filter fun s ↦ s.base ∉ gone) ∧
      log'.options = log.options ∧ log'.nextOffset = log.nextOffset ∧
      log'.dir.logs = log.dir.logs.filter (fun file ↦ file.1 ∉ gone) ∧
      (∀ name ∈ gone, ∃ summary ∈ log.segmentSummaries, summary.baseOffset = name ∧
        ∃ totalBytes ≤ (log.segmentSummaries.map SegmentSummary.logBytes).sum,
          deletionDue env policy totalBytes summary = true) ∧
      (log'.index = log.index.filter (fun entry ↦ entry.segment ∉ gone) ∨
        log'.index = log.index ∧ ∃ message, result = .error message) := by
  obtain ⟨gone, hgone, hlogs, hdeleted⟩ := retentionLoop_removes env policy
    log.segmentSummaries (RetentionState.initial log)
  have hactive := active_not_mem_gone hgone
  have hsub : (Layout.entries (layout.filter fun s ↦ s.base ∉ gone)).Sublist layout.entries :=
    List.filter_sublist.flatMap _
  have hrep := h.represents
  have hplaced : Layout.WellPlaced (layout.filter fun s ↦ s.base ∉ gone) log.nextOffset :=
    h.placed.filter fun s hs ↦ by
      have hbase := activeSegmentBase_of_lastStored
        (show (log.reindexed layout).index = layout.index from rfl) h.placed h.bound
        (fun e he ↦ Entry.count_pos (h.kept e he).2.1.choose_spec) hs
      rw [h.active] at hbase
      rw [hbase] at hactive
      simpa using hactive
  -- Both ways the pass can end keep the active segment.
  have hstores : ∀ kept : PartitionLog,
      kept.dir.logs = log.dir.logs.filter (fun file ↦ file.1 ∉ gone) →
      kept.options = log.options → kept.nextOffset = log.nextOffset →
      kept.activeSegmentBase = log.activeSegmentBase → kept.index.Sublist log.index →
      kept.Stores Z (layout.filter fun s ↦ s.base ∉ gone) := by
    intro kept hlogs hoptions hnext hbase hindex
    refine ⟨?_, hnext ▸ hplaced, hnext ▸ h.bound, fun e he ↦ hoptions ▸ h.kept e (hsub.subset he),
      ?_, fun entry hentry ↦ hnext ▸ h.below entry (hindex.subset hentry)⟩
    · rw [hlogs, h.logs, Layout.files_filter]
    · have hsegment : ∀ entry ∈ (log.reindexed layout).index, entry.segment < 2 ^ 64 := by
        intro entry hentry
        refine hrep.segment_lt entry ?_
        change entry ∈ (layout.touch log.activeSegmentBase).index
        rw [Layout.index_touch]
        exact hentry
      have hfilter : (kept.reindexed (layout.filter fun s ↦ s.base ∉ gone)).index =
          (log.reindexed layout).index.filter fun entry ↦ entry.segment ∉ gone :=
        Layout.index_filter layout gone
      rw [activeSegmentBase_filter hfilter hsegment (by rw [h.active]; exact hactive), h.active,
        hbase]
  rw [PartitionLog.applyRetention] at hretention
  cases hwalk : retentionLoop env policy log.segmentSummaries (RetentionState.initial log) with
  | mk walk outcome =>
      rw [hwalk] at hlogs hdeleted
      cases outcome with
      | error message =>
          simp only [hwalk] at hretention
          obtain ⟨rfl, rfl⟩ := Prod.mk.inj hretention
          exact ⟨gone, hstores _ hlogs rfl rfl rfl (List.Sublist.refl _), rfl, rfl, hlogs, hgone,
            Or.inr ⟨rfl, message, rfl⟩⟩
      | ok =>
          simp only [hwalk] at hretention
          obtain ⟨rfl, -⟩ := Prod.mk.inj hretention
          obtain rfl : walk.deletedLogs = gone := hdeleted rfl
          exact ⟨walk.deletedLogs, hstores _ hlogs rfl rfl
            (activeSegmentBase_filter rfl (fun entry hentry ↦ (h.below entry hentry).2) hactive)
            List.filter_sublist, rfl, rfl, hlogs, hgone, Or.inl rfl⟩

theorem entries_of_empty {layout : Layout} {segment : ℕ} (hsorted : layout.files.Sorted)
    (hempty : layout.files.sizeOrZero segment = 0) :
    ∀ s ∈ layout, s.base = segment → s.entries = [] := by
  intro s hs hbase
  have hcontent := FileTable.content?_of_mem hsorted
    (show (s.base, s.content) ∈ layout.files from List.mem_map_of_mem hs)
  rw [FileTable.sizeOrZero, ← hbase, hcontent, Option.map_some, Option.getD_some,
    Segment.content] at hempty
  have hle := length_le_content s.entries
  rw [hempty, Nat.le_zero] at hle
  exact List.length_eq_zero_iff.mp hle

/-- The index lists no records in an empty segment. -/
theorem segment_ne_of_empty {layout : Layout} {segment : ℕ}
    (hsorted : layout.files.Sorted) (hempty : layout.files.sizeOrZero segment = 0)
    {entry : IndexEntry} (hentry : entry ∈ layout.index) : entry.segment ≠ segment := by
  intro heq
  obtain ⟨s, hs, hentry⟩ := List.mem_flatMap.mp hentry
  have hsegment := Layout.segment_of_mem_indexFrom hentry
  rw [Segment.index, entries_of_empty hsorted hempty s hs (hsegment.symm.trans heq)]
    at hentry
  cases hentry

/-- Removing a segment log that is empty, or missing. -/
theorem Stores.remove_empty (h : log.Stores Z layout) {segment : ℕ}
    (hempty : log.dir.logs.sizeOrZero segment = 0)
    (hlogs : log'.dir.logs = log.dir.logs.remove segment) (hindex : log'.index = log.index)
    (hnext : log'.nextOffset = log.nextOffset) (hoptions : log'.options = log.options) :
    log'.Stores Z (layout.filter fun s ↦ s.base ∉ [segment]) := by
  rw [h.logs] at hempty
  have hnone := entries_of_empty (Layout.files_sorted h.placed.bases) hempty
  have hkeep : (layout.index.filter fun entry ↦ entry.segment ∉ [segment]) = layout.index :=
    List.filter_eq_self.mpr fun entry hentry ↦ by
      simpa using segment_ne_of_empty (Layout.files_sorted h.placed.bases) hempty hentry
  have hplaced : Layout.WellPlaced (layout.filter fun s ↦ s.base ∉ [segment]) log.nextOffset :=
    h.placed.filter fun s hs ↦ by
      have hne : s.base ≠ segment := fun heq ↦ hs.stored (hnone s hs.mem heq)
      simpa using hne
  have hsub : (Layout.entries (layout.filter fun s ↦ s.base ∉ [segment])).Sublist layout.entries :=
    List.filter_sublist.flatMap _
  refine ⟨?_, hnext ▸ hplaced, hnext ▸ h.bound, fun e he ↦ hoptions ▸ h.kept e (hsub.subset he),
    ?_, fun entry hentry ↦ hnext ▸ h.below entry (hindex ▸ hentry)⟩
  · rw [hlogs, h.logs, Layout.files_filter, FileTable.remove]
    refine List.filter_congr fun file _ ↦ ?_
    simp
  · have hactive := h.active
    unfold activeSegmentBase reindexed at hactive ⊢
    rw [Layout.index_filter, hkeep, hindex, hnext]
    exact hactive

section Encoded

variable {codec : Codec} {encodedRecords : Bytes} {uncompressedBytes : UInt32}
  {decodedRecords : List AppendRecord} {timestamp : UInt64}

/-- Where a batch goes, and that its first write creates the active segment. -/
theorem Stores.stageEncodedBatch (h : log.Stores Z layout)
    (hvalid : validateEncodedBatch Z log.options codec encodedRecords uncompressedBytes
      decodedRecords = .ok ()) (timestamp : UInt64) :
    (log.reindexed (layout.touch log.activeSegmentBase)).stageEncodedBatch codec encodedRecords
        uncompressedBytes decodedRecords.length timestamp =
      log.stageEncodedBatch codec encodedRecords uncompressedBytes decodedRecords.length
        timestamp ∧
    ∃ segment, log.stageEncodedBatch codec encodedRecords uncompressedBytes decodedRecords.length
        timestamp =
          { segment := segment
            position := log.dir.logs.sizeOrZero segment
            encoded := (batchEntry log.nextOffset codec encodedRecords decodedRecords
              timestamp).bytes } ∧
      ∀ bytes, (layout.touch log.activeSegmentBase).files.append segment bytes =
        log.dir.logs.append segment bytes := by
  have hsame : (log.reindexed (layout.touch log.activeSegmentBase)).stageEncodedBatch codec
      encodedRecords uncompressedBytes decodedRecords.length timestamp =
        log.stageEncodedBatch codec encodedRecords uncompressedBytes decodedRecords.length
          timestamp := by
    have hsize : (log.reindexed (layout.touch log.activeSegmentBase)).dir.logs.sizeOrZero
        log.activeSegmentBase = log.dir.logs.sizeOrZero log.activeSegmentBase := h.size_touch
    simp only [PartitionLog.stageEncodedBatch, h.active_touch, hsize]
    rfl
  obtain ⟨segment, -, hstaged⟩ := h.represents.stageEncodedBatch hvalid timestamp
  rw [hsame] at hstaged
  have hcase : segment = log.activeSegmentBase ∨
      0 < log.dir.logs.sizeOrZero log.activeSegmentBase := by
    have hsegment := congrArg StagedEncodedBatch.segment hstaged
    rw [PartitionLog.stageEncodedBatch] at hsegment
    split_ifs at hsegment with hroll
    · exact Or.inr hroll.1
    · exact Or.inl hsegment.symm
  have hfiles : ∀ bytes, (layout.touch log.activeSegmentBase).files.append segment bytes =
      log.dir.logs.append segment bytes := by
    intro bytes
    rcases hcase with rfl | hpos
    · rw [Layout.files_touch, ← h.logs]
      exact FileTable.append_append _ _ _ _
    · rw [h.touch_eq hpos.ne', h.logs]
  refine ⟨hsame, segment, hstaged.trans ?_, hfiles⟩
  congr 1
  rcases hcase with rfl | hpos
  · exact h.size_touch
  · rw [h.touch_eq hpos.ne', h.logs]

/-- A batch appended without a fault. -/
theorem Stores.appendEncodedBatch (h : log.Stores Z layout)
    (hbound : log.nextOffset + decodedRecords.length < 2 ^ 64)
    (hfits : encodedRecords.length + 40 < 2 ^ 32)
    (hvalues : ∀ record ∈ decodedRecords, record.value ≠ []) {metadata : BatchMetadata}
    (happend : PartitionLog.appendEncodedBatch Z log codec encodedRecords uncompressedBytes
      decodedRecords timestamp none = (log', .ok metadata)) :
    ∃ layout' staged, AppendsTo Z log layout log' layout'
        [batchEntry log.nextOffset codec encodedRecords decodedRecords timestamp] staged ∧
      log'.nextOffset = log.nextOffset + decodedRecords.length := by
  have hvalid := LogState.validate_of_appendEncodedBatch happend
  obtain ⟨hsame, segment, hstaged, hfiles⟩ := h.stageEncodedBatch hvalid timestamp
  set touched := log.reindexed (layout.touch log.activeSegmentBase) with htouched
  unfold PartitionLog.appendEncodedBatch at happend
  simp only [hvalid, hstaged] at happend
  obtain ⟨hlog, -⟩ := Prod.mk.inj happend
  cases hcall : PartitionLog.appendEncodedBatch Z touched codec encodedRecords uncompressedBytes
      decodedRecords timestamp none with
  | mk touched' result =>
      have hresult := hcall
      have hvalid' : validateEncodedBatch Z touched.options codec encodedRecords uncompressedBytes
          decodedRecords = .ok () := hvalid
      unfold PartitionLog.appendEncodedBatch at hresult
      simp only [hvalid', hsame, hstaged] at hresult
      obtain ⟨htouched', hok⟩ := Prod.mk.inj hresult
      rw [← hok] at hcall
      obtain ⟨-, layout', hrep, -, hnext, hentries, -⟩ :=
        h.represents.appendEncodedBatch hbound hfits hcall
      have hlogs : log'.dir.logs = layout'.files := by
        rw [← hrep.logs, ← hlog, ← htouched']
        exact (hfiles _).symm
      have hnext' : log'.nextOffset = log.nextOffset + decodedRecords.length := by
        rw [← hlog]
        exact Nat.mod_eq_of_lt hbound
      have hoptions : log'.options = log.options := by rw [← hlog]
      have hentries : layout'.entries = layout.entries ++
          [batchEntry log.nextOffset codec encodedRecords decodedRecords timestamp] := by
        rw [hentries, Layout.entries_touch]
        rfl
      have hrep' : (log'.reindexed layout').Represents Z layout' :=
        hrep.congr hrep.logs.symm hrep.index.symm (hnext'.trans hnext.symm)
      have hindex : ∃ staged, staged ≠ [] ∧ log'.index = log.index ++ staged ∧
          layout'.index = layout.index ++ staged := by
        refine ⟨_, ?_, by rw [← hlog], ?_⟩
        · rw [ne_eq, ← List.length_eq_zero_iff, StagedEncodedBatch.entries, batchEntries,
            List.length_map, List.length_range, List.length_eq_zero_iff]
          exact (validateEncodedBatch_ok hvalid).1
        · rw [← hrep.index, ← htouched', ← Layout.index_touch layout log.activeSegmentBase]
          rfl
      obtain ⟨staged, hne, hindex, hindex'⟩ := hindex
      refine ⟨layout', staged, ⟨?_, hrep', hoptions, hentries, hindex, hindex'⟩, hnext'⟩
      refine Stores.of_append hrep' hlogs (fun e he ↦ ?_) hindex hindex' hne fun entry hentry ↦ ?_
      · refine ⟨(hrep.written e he).1, (hrep.written e he).2, ?_⟩
        rw [hentries, List.mem_append, List.mem_singleton] at he
        rcases he with he | rfl
        · exact hoptions ▸ (h.kept e he).2.2
        · rw [hoptions]
          exact (LogState.decodable_batchEntry_iff hvalid log.nextOffset timestamp).mpr hvalues
      · have hbelow := h.below entry hentry
        exact ⟨by omega, hbelow.2⟩

/-- A batch that was not appended.  An empty segment log may be gone. -/
theorem Stores.appendEncodedBatch_error (h : log.Stores Z layout) {fault : Option AppendFault}
    {message : String}
    (happend : PartitionLog.appendEncodedBatch Z log codec encodedRecords uncompressedBytes
      decodedRecords timestamp fault = (log', .error message)) :
    ∃ layout', log'.Stores Z layout' ∧ log'.options = log.options ∧
      log'.nextOffset = log.nextOffset := by
  unfold PartitionLog.appendEncodedBatch at happend
  cases hvalid : validateEncodedBatch Z log.options codec encodedRecords uncompressedBytes
      decodedRecords with
  | error refused =>
      simp only [hvalid] at happend
      obtain ⟨rfl, -⟩ := Prod.mk.inj happend
      exact ⟨layout, h, rfl, rfl⟩
  | ok =>
      obtain ⟨-, segment, hstaged, -⟩ := h.stageEncodedBatch hvalid timestamp
      simp only [hvalid, hstaged] at happend
      cases fault with
      | none => cases (Prod.mk.inj happend).2
      | some fault =>
          obtain ⟨rfl, -⟩ := Prod.mk.inj happend
          have hundone := undoEncodedBatch_written h.sorted fault.logCreated fault.logCut segment
            (batchEntry log.nextOffset codec encodedRecords decodedRecords timestamp).bytes
          by_cases hempty : log.dir.logs.sizeOrZero segment = 0
          · rw [if_pos hempty] at hundone
            exact ⟨_, h.remove_empty hempty hundone rfl rfl rfl, rfl, rfl⟩
          · rw [if_neg hempty] at hundone
            exact ⟨layout, h.congr hundone rfl rfl rfl, rfl, rfl⟩

end Encoded

/-- Closing and opening a log whose calls may have failed. -/
theorem Stores.openLog (h : log.Stores Z layout) (hoptions : OpenOptions log.options) :
    ∃ log' layout', PartitionLog.openLog Z log.options log.dir = .ok log' ∧
      log'.Stores Z layout' ∧ log'.options = log.options ∧ log'.nextOffset = log.nextOffset := by
  obtain ⟨log', hopened, hoptions', hnext, hrep⟩ :=
    openLog_files hoptions h.placed h.bound h.kept log.dir.indexes
  rw [← h.logs] at hopened
  refine ⟨log', _, hopened, hrep.stores fun e he ↦ ?_, hoptions', hnext⟩
  rw [Layout.entries_touch] at he
  exact hoptions' ▸ (h.kept e he).2.2

/-- The new index entries, and the records they read as. -/
theorem AppendsTo.readsAs {layout' : Layout} {added : List Entry} {staged : List IndexEntry}
    (h : AppendsTo Z log layout appended layout' added staged) :
    List.Forall₂ (appended.ReadsAs Z) staged (added.flatMap Entry.records) := by
  have hlogs : (appended.reindexed layout').dir.logs = appended.dir.logs := h.stores.logs.symm
  have hall := h.represents.readsAs fun e he ↦ (h.stores.kept e he).2.2
  have hoffsets := Layout.map_offset_index fun e he ↦
    (h.represents.written e (by rw [h.entries]; exact List.mem_append_left _ he)).stop_lt
  have hlength : layout.records.length = layout.index.length := by
    simpa using (congrArg List.length hoffsets).symm
  have hdrop := List.forall₂_drop layout.index.length hall
  change List.Forall₂ _ (layout'.index.drop _) _ at hdrop
  rw [h.layoutIndex, List.drop_left, Layout.records, h.entries, List.flatMap_append,
    ← hlength, Layout.records, List.drop_left] at hdrop
  refine hdrop.imp fun entry r hread ↦ ?_
  obtain ⟨hoffset, record, hrecord, hstored⟩ := hread
  refine ⟨hoffset, record, ?_, hstored⟩
  rw [← hrecord]
  exact readEntry_congr rfl (by rw [hlogs])

end Stores

end PartitionLog

end BoltStream.Storage
