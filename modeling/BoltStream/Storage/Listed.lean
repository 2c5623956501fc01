import BoltStream.Storage.IntactRecovery

/-!
# Index and segments

In every log that calls have reached, whatever bytes they were given, the index
lists segments that exist, and segments it does not list are empty.
-/

namespace BoltStream.Storage

open BoltStream.Lib BoltStream.Protocol BoltStream.Compression

namespace PartitionLog

/-- The index and the segment files agree on which segments hold something. -/
structure Listed (log : PartitionLog) : Prop where
  sorted : log.dir.logs.Sorted
  sortedIndexes : log.dir.indexes.Sorted
  named : ∀ name ∈ log.dir.logs.map Prod.fst, name < 2 ^ 64
  bound : log.nextOffset < 2 ^ 64
  listed : ∀ entry ∈ log.index, entry.segment ∈ log.dir.logs.map Prod.fst
  stored : ∀ file ∈ log.dir.logs, file.2 ≠ [] → ∃ entry ∈ log.index, entry.segment = file.1
  active : log.activeSegmentBase ∈ log.dir.logs.map Prod.fst

theorem Listed.segment_lt {log : PartitionLog} (h : log.Listed) {entry : IndexEntry}
    (hentry : entry ∈ log.index) : entry.segment < 2 ^ 64 :=
  h.named _ (h.listed entry hentry)

/-- The active segment exists if the index lists something. -/
theorem active_mem_of_listed {log : PartitionLog} (hne : log.index ≠ [])
    (hlisted : ∀ entry ∈ log.index, entry.segment ∈ log.dir.logs.map Prod.fst)
    (hnamed : ∀ name ∈ log.dir.logs.map Prod.fst, name < 2 ^ 64) :
    log.activeSegmentBase ∈ log.dir.logs.map Prod.fst := by
  have hlast := List.getLast?_eq_some_getLast hne
  have hmem := hlisted _ (List.getLast_mem hne)
  rwa [activeSegmentBase_of_last hlast (hnamed _ hmem)]

/-! ## Appends -/

/-- Files written to, and the index entries for what was written. -/
theorem Listed.writeAll {log log' : PartitionLog} (h : log.Listed) {staged : List IndexEntry}
    {writes indexWrites : List (ℕ × Bytes)}
    (hlogs : log'.dir.logs = log.dir.logs.writeAll writes)
    (hindexes : log'.dir.indexes = log.dir.indexes.writeAll indexWrites)
    (hindex : log'.index = log.index ++ staged)
    (hsame : ∀ name, name ∈ writes.map Prod.fst ↔ name ∈ staged.map IndexEntry.segment)
    (hnames : ∀ entry ∈ staged, entry.segment < 2 ^ 64) (hne : staged ≠ [])
    (hnext : log'.nextOffset < 2 ^ 64) : log'.Listed := by
  have hnames' : ∀ name, name ∈ log'.dir.logs.map Prod.fst ↔
      name ∈ log.dir.logs.map Prod.fst ∨ name ∈ staged.map IndexEntry.segment := by
    intro name
    rw [hlogs, FileTable.mem_names_writeAll, hsame]
  have hlisted : ∀ entry ∈ log'.index, entry.segment ∈ log'.dir.logs.map Prod.fst := by
    intro entry hentry
    rw [hindex, List.mem_append] at hentry
    rw [hnames']
    exact hentry.imp (h.listed entry) List.mem_map_of_mem
  have hnamed : ∀ name ∈ log'.dir.logs.map Prod.fst, name < 2 ^ 64 := by
    intro name hname
    rcases (hnames' name).mp hname with hold | hnew
    · exact h.named name hold
    · obtain ⟨entry, hentry, rfl⟩ := List.mem_map.mp hnew
      exact hnames entry hentry
  refine ⟨hlogs ▸ h.sorted.writeAll writes, hindexes ▸ h.sortedIndexes.writeAll indexWrites, hnamed,
    hnext, hlisted, fun file hfile hcontent ↦ ?_, ?_⟩
  · rw [hlogs] at hfile
    rw [hindex]
    rcases FileTable.mem_writeAll hfile with hwritten | hold
    · rw [hsame] at hwritten
      obtain ⟨entry, hentry, hsegment⟩ := List.mem_map.mp hwritten
      exact ⟨entry, List.mem_append_right _ hentry, hsegment⟩
    · obtain ⟨entry, hentry, hsegment⟩ := h.stored file hold hcontent
      exact ⟨entry, List.mem_append_left _ hentry, hsegment⟩
  · refine active_mem_of_listed (fun hnil ↦ hne ?_) hlisted hnamed
    rw [hindex] at hnil
    exact (List.append_eq_nil_iff.mp hnil).2

/-- Records go to the segment the loop started with, or to one named by a 64-bit
offset. -/
theorem segment_stageRecords {options : PartitionLogOptions} {clock : AppendClock}
    {original : ℕ} (records : List AppendRecord) :
    ∀ {i base size : ℕ}, base < 2 ^ 64 →
      ∀ staged ∈ (stageRecords options clock original i base size records).records,
        staged.entry.segment < 2 ^ 64 := by
  induction records with
  | nil =>
      intro i base size _ staged hstaged
      cases hstaged
  | cons record rest ih =>
      intro i base size hbase staged hstaged
      rw [stageRecords] at hstaged
      cases hencoded : encodeRecord ((original + i) % 2 ^ 64) (clock.timestamp i).toNat record.key
          record.value with
      | error message =>
          simp only [hencoded] at hstaged
          cases hstaged
      | ok encoded =>
          simp only [hencoded, List.mem_cons] at hstaged
          have hroll : ∀ roll : Bool, (if roll = true then (original + i) % 2 ^ 64 else base) <
              2 ^ 64 := by
            intro roll
            split_ifs
            · exact Nat.mod_lt _ (by norm_num)
            · exact hbase
          rcases hstaged with rfl | hstaged
          · exact hroll _
          · exact ih (hroll _) staged hstaged

theorem Listed.appendBatch {log log' : PartitionLog} (h : log.Listed) {clock : AppendClock}
    {records : List AppendRecord} {metas : List RecordMetadata}
    (happend : log.appendBatch clock none records = (log', .ok metas)) : log'.Listed := by
  rw [PartitionLog.appendBatch] at happend
  by_cases hnil : records = []
  · rw [if_pos hnil] at happend
    rwa [← (Prod.mk.inj happend).1]
  rw [if_neg hnil] at happend
  cases herror : (log.stageBatch clock records).error with
  | some message =>
      simp only [herror] at happend
      cases (Prod.mk.inj happend).2
  | none =>
      simp only [herror] at happend
      obtain ⟨rfl, -⟩ := Prod.mk.inj happend
      refine h.writeAll rfl rfl rfl (fun name ↦ ?_) (fun entry hentry ↦ ?_) ?_
        (Nat.mod_lt _ (by norm_num))
      · rw [StagedBatch.logWrites, List.map_map, List.map_map]
        exact Iff.rfl
      · obtain ⟨staged, hstaged, rfl⟩ := List.mem_map.mp hentry
        exact segment_stageRecords records (h.named _ h.active) staged hstaged
      · rw [ne_eq, List.map_eq_nil_iff, ← List.length_eq_zero_iff]
        have hlength : (log.stageBatch clock records).records.length = records.length :=
          length_stageRecords herror
        rw [hlength, List.length_eq_zero_iff]
        exact hnil

theorem Listed.appendEncodedBatch {Z : Zstd} {log log' : PartitionLog} (h : log.Listed)
    {codec : Codec} {encodedRecords : Bytes} {uncompressedBytes : UInt32}
    {decodedRecords : List AppendRecord} {timestamp : UInt64} {metadata : BatchMetadata}
    (happend : PartitionLog.appendEncodedBatch Z log codec encodedRecords uncompressedBytes
      decodedRecords timestamp none = (log', .ok metadata)) : log'.Listed := by
  have hvalid := LogState.validate_of_appendEncodedBatch happend
  have hcount := (validateEncodedBatch_ok hvalid).1
  unfold PartitionLog.appendEncodedBatch at happend
  simp only [hvalid] at happend
  obtain ⟨rfl, -⟩ := Prod.mk.inj happend
  set staged := log.stageEncodedBatch codec encodedRecords uncompressedBytes decodedRecords.length
    timestamp with hstaged
  have hsegments : ∀ entry ∈ staged.entries log.nextOffset decodedRecords.length,
      entry.segment = staged.segment := by
    intro entry hentry
    obtain ⟨i, -, rfl⟩ := List.mem_map.mp hentry
    rfl
  have hne : staged.entries log.nextOffset decodedRecords.length ≠ [] := by
    rw [ne_eq, ← List.length_eq_zero_iff, StagedEncodedBatch.entries, batchEntries,
      List.length_map, List.length_range, List.length_eq_zero_iff]
    exact hcount
  have hwrites : ∀ (files : FileTable) (bytes : Bytes), files.append staged.segment bytes =
      files.writeAll [(staged.segment, bytes)] := fun _ _ ↦ rfl
  refine h.writeAll (hwrites _ _) (hwrites _ _) rfl (fun name ↦ ?_)
    (fun entry hentry ↦ ?_) hne (Nat.mod_lt _ (by norm_num))
  · rw [List.map_singleton, List.mem_singleton]
    constructor
    · rintro rfl
      obtain ⟨entry, hentry⟩ := List.exists_mem_of_ne_nil _ hne
      exact List.mem_map.mpr ⟨entry, hentry, hsegments entry hentry⟩
    · intro hname
      obtain ⟨entry, hentry, rfl⟩ := List.mem_map.mp hname
      exact hsegments entry hentry
  · rw [hsegments entry hentry, hstaged, PartitionLog.stageEncodedBatch]
    split_ifs
    · exact h.bound
    · exact h.named _ h.active

/-! ## Retention -/

theorem retentionLoop_sortedIndexes (env : RetentionEnv) (policy : RetentionPolicy)
    (summaries : List SegmentSummary) :
    ∀ {state : RetentionState}, state.dir.indexes.Sorted →
      (retentionLoop env policy summaries state).1.dir.indexes.Sorted := by
  induction summaries with
  | nil => exact id
  | cons summary rest ih =>
      intro state hsorted
      rw [retentionLoop]
      split_ifs
      · exact ih hsorted
      · exact hsorted
      · exact hsorted
      all_goals exact ih (hsorted.remove summary.baseOffset)

/-- Removing segments other than the active one, with their index entries. -/
theorem Listed.filter {log log' : PartitionLog} (h : log.Listed) {gone : List ℕ}
    (hlogs : log'.dir.logs = log.dir.logs.filter fun file ↦ file.1 ∉ gone)
    (hindexes : log'.dir.indexes.Sorted)
    (hindex : log'.index = log.index.filter fun entry ↦ entry.segment ∉ gone)
    (hnext : log'.nextOffset = log.nextOffset) (hactive : log.activeSegmentBase ∉ gone) :
    log'.Listed := by
  have hmem : ∀ name, name ∈ log'.dir.logs.map Prod.fst ↔
      name ∈ log.dir.logs.map Prod.fst ∧ name ∉ gone := by
    intro name
    rw [hlogs]
    constructor
    · intro hname
      obtain ⟨file, hfile, rfl⟩ := List.mem_map.mp hname
      rw [List.mem_filter, decide_eq_true_eq] at hfile
      exact ⟨List.mem_map_of_mem hfile.1, hfile.2⟩
    · rintro ⟨hname, hkept⟩
      obtain ⟨file, hfile, rfl⟩ := List.mem_map.mp hname
      exact List.mem_map_of_mem (List.mem_filter.mpr ⟨hfile, decide_eq_true hkept⟩)
  refine ⟨hlogs ▸ List.Pairwise.filter _ h.sorted, hindexes, fun name hname ↦
    h.named name ((hmem name).mp hname).1, hnext ▸ h.bound, fun entry hentry ↦ ?_,
    fun file hfile hcontent ↦ ?_, ?_⟩
  · rw [hindex, List.mem_filter, decide_eq_true_eq] at hentry
    exact (hmem _).mpr ⟨h.listed entry hentry.1, hentry.2⟩
  · rw [hlogs, List.mem_filter, decide_eq_true_eq] at hfile
    obtain ⟨entry, hentry, hsegment⟩ := h.stored file hfile.1 hcontent
    refine ⟨entry, ?_, hsegment⟩
    rw [hindex, List.mem_filter, decide_eq_true_eq, hsegment]
    exact ⟨hentry, hfile.2⟩
  · rw [activeSegmentBase_filter hindex (fun entry ↦ h.segment_lt) hactive]
    exact (hmem _).mpr ⟨h.active, hactive⟩

/-- What a retention pass that succeeds has done. -/
theorem applyRetention_ok {log log' : PartitionLog} {env : RetentionEnv} {policy : RetentionPolicy}
    {stats : RetentionStats} (h : log.applyRetention env policy = (log', .ok stats)) :
    ∃ walk, retentionLoop env policy log.segmentSummaries (RetentionState.initial log) =
        (walk, .ok ()) ∧
      log' = { log with
        dir := walk.dir
        index := log.index.filter fun entry ↦ entry.segment ∉ walk.deletedLogs } ∧
      stats =
        { segmentsDeleted := walk.segmentsDeleted
          bytesDeleted := walk.bytesDeleted
          segmentsRetained := log'.segmentSummaries.length
          bytesRetained := (log'.segmentSummaries.map SegmentSummary.logBytes).sum
          earliestOffset := log'.earliestOffset
          nextOffset := log'.nextOffset } := by
  rw [applyRetention] at h
  cases hwalk : retentionLoop env policy log.segmentSummaries (RetentionState.initial log) with
  | mk walk result =>
      cases result with
      | error message =>
          simp only [hwalk] at h
          cases (Prod.mk.inj h).2
      | ok =>
          simp only [hwalk] at h
          obtain ⟨rfl, hstats⟩ := Prod.mk.inj h
          exact ⟨walk, rfl, rfl, (Except.ok.inj hstats).symm⟩

theorem Listed.applyRetention {log log' : PartitionLog} (h : log.Listed) {env : RetentionEnv}
    {policy : RetentionPolicy} {stats : RetentionStats}
    (hretention : log.applyRetention env policy = (log', .ok stats)) : log'.Listed := by
  obtain ⟨walk, hwalk, rfl, -⟩ := applyRetention_ok hretention
  obtain ⟨gone, hgone, hlogs, hdeleted⟩ := retentionLoop_removes env policy
    log.segmentSummaries (RetentionState.initial log)
  have hsorted := @retentionLoop_sortedIndexes env policy log.segmentSummaries
    (RetentionState.initial log) h.sortedIndexes
  rw [hwalk] at hlogs hdeleted hsorted
  obtain rfl : walk.deletedLogs = gone := hdeleted rfl
  exact h.filter hlogs hsorted rfl rfl (active_not_mem_gone hgone)

/-! ## Opening -/

theorem foldl_max_lt {bound : ℕ} {offsets : List ℕ} (h : ∀ offset ∈ offsets, offset < bound) :
    ∀ {start : ℕ}, start < bound → offsets.foldl max start < bound := by
  induction offsets with
  | nil => exact id
  | cons offset offsets ih =>
      intro start hstart
      obtain ⟨hoffset, hoffsets⟩ := List.forall_mem_cons.mp h
      exact ih hoffsets (max_lt hstart hoffset)

theorem listed_openLog {Z : Zstd} {options : PartitionLogOptions} {dir : Directory}
    {log : PartitionLog} (hlogs : dir.logs.Sorted) (hindexes : dir.indexes.Sorted)
    (hnames : ∀ name ∈ dir.logs.map Prod.fst, name < 2 ^ 64)
    (hopen : openLog Z options dir = .ok log) : log.Listed := by
  obtain ⟨kept, h⟩ := recover_rebuilds Z options hlogs hindexes
  rw [openLog_eq (LogState.openOptions_of_openLog hopen)] at hopen
  obtain rfl := Except.ok.inj hopen
  have hfiles : ∀ file ∈ dir.logs, file.1 < 2 ^ 64 := fun file hfile ↦
    hnames _ (List.mem_map_of_mem hfile)
  have hnamesKept : ∀ name ∈ kept.map Prod.fst, name < 2 ^ 64 := h.name_lt hfiles
  have hopened := h.logs_opened hfiles hlogs
  set log := recover Z options dir
  have hmem : ∀ name, name ∈ log.openActiveSegment.dir.logs.map Prod.fst ↔
      name ∈ (opened kept log.activeSegmentBase).map Prod.fst := by
    intro name
    rw [hopened, names_contentsOf]
  have hopenedNames : ∀ name ∈ (opened kept log.activeSegmentBase).map Prod.fst,
      name ∈ kept.map Prod.fst ∨ name = 0 := by
    intro name hname
    rw [opened] at hname
    split_ifs at hname
    · exact Or.inl hname
    · rcases List.mem_cons.mp hname with rfl | hname
      · exact Or.inr rfl
      · exact Or.inl hname
  refine ⟨?_, h.sorted.append _ _, fun name hname ↦ ?_, ?_, fun entry hentry ↦ ?_,
    fun file hfile hcontent ↦ ?_, (hmem _).mpr (h.active_mem_opened hfiles)⟩
  · change (log.dir.logs.append log.activeSegmentBase []).Sorted
    rw [h.logs]
    exact (h.sorted_contents hlogs).append _ _
  · rcases hopenedNames name ((hmem name).mp hname) with hkept | rfl
    · exact hnamesKept name hkept
    · norm_num
  · change log.nextOffset < 2 ^ 64
    rw [h.nextOffset]
    refine foldl_max_lt (fun offset hoffset ↦ ?_) (by norm_num)
    obtain ⟨e, -, rfl⟩ := List.mem_map.mp hoffset
    exact endOffset_lt Z options e.2
  · have hsegment := segment_of_mem_indexOfAll (h.mem_index.mp hentry)
    rw [hmem, opened]
    split_ifs
    · exact hsegment
    · exact List.mem_cons_of_mem _ hsegment
  · rw [hopened] at hfile
    obtain ⟨segment, hsegment, rfl⟩ := List.mem_map.mp hfile
    have hkept : segment ∈ kept := by
      rw [opened] at hsegment
      split_ifs at hsegment
      · exact hsegment
      · rcases List.mem_cons.mp hsegment with rfl | hsegment
        · exact absurd rfl hcontent
        · exact hsegment
    obtain ⟨c, cs, hcs⟩ := List.exists_cons_of_ne_nil
      (show segment.2 ≠ [] from fun hnil ↦ hcontent (by rw [hnil]; rfl))
    have hentry := h.intact.all segment hkept c (by rw [hcs]; exact List.mem_cons_self)
    obtain ⟨entry, hmemOf⟩ := List.exists_mem_of_ne_nil _ (indexOf_ne_nil hentry segment.1 0)
    refine ⟨entry, h.mem_index.mpr (List.mem_flatMap.mpr ⟨segment, hkept, ?_⟩),
      segment_of_mem_indexOf hmemOf⟩
    rw [hcs, indexFrom]
    exact List.mem_append_left _ hmemOf

/-! ## Runs -/

theorem Listed.step {Z : Zstd} {state state' : LogState} {op : LogOp} (h : state.log.Listed)
    (hstep : state.step Z op = some state') : state'.log.Listed := by
  cases op with
  | append clock key value =>
      obtain ⟨metas, happend, -⟩ := LogState.step_appendBatch (LogState.step_append hstep)
      exact h.appendBatch happend
  | appendBatch clock records =>
      obtain ⟨metas, happend, -⟩ := LogState.step_appendBatch hstep
      exact h.appendBatch happend
  | appendEncodedBatch codec encodedRecords uncompressedBytes decodedRecords timestamp =>
      obtain ⟨metadata, happend, -⟩ := LogState.step_appendEncodedBatch hstep
      exact h.appendEncodedBatch happend
  | applyRetention env policy =>
      obtain ⟨⟨stats, hretention⟩, -⟩ := LogState.step_applyRetention hstep
      exact h.applyRetention hretention
  | reopen => exact listed_openLog h.sorted h.sortedIndexes h.named (LogState.step_reopen hstep).1

/-- Every log that successful calls reach. -/
theorem listed_run {Z : Zstd} {options : PartitionLogOptions} {log : PartitionLog}
    {ops : List LogOp} {state : LogState} (hopened : openLog Z options {} = .ok log)
    (hrun : run (LogState.step Z) ⟨log, []⟩ ops = some state) : state.log.Listed := by
  refine run_invariant (fun _ _ ↦ True) (fun state : LogState ↦ state.log.Listed)
    (fun _ _ _ _ hstep h ↦ h.step hstep) (along_of_forall (fun _ _ _ ↦ trivial) _) hrun ?_
  exact @listed_openLog Z options {} log List.Pairwise.nil List.Pairwise.nil (by simp) hopened

end PartitionLog

end BoltStream.Storage
