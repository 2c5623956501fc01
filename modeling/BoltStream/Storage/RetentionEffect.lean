import BoltStream.Storage.EncodedReadBack
import BoltStream.Storage.Listed

/-!
# What a retention pass does

A pass that succeeds has deleted whole inactive segments, each because of its
age or because of the bytes that were left when the walk came to it, and its
statistics count what is gone.
-/

namespace BoltStream.Storage

open BoltStream.Lib BoltStream.Protocol BoltStream.Compression

namespace PartitionLog

/-! ## The walk -/

/-- The bytes of the segments behind summaries. -/
def logBytes (summaries : List SegmentSummary) : ℕ := (summaries.map SegmentSummary.logBytes).sum

/-- What a walk that succeeds has deleted, in order. -/
structure Walks (env : RetentionEnv) (policy : RetentionPolicy) (summaries : List SegmentSummary)
    (state state' : RetentionState) (gone : List SegmentSummary) : Prop where
  sublist : gone.Sublist summaries
  deleted : state'.deletedLogs = state.deletedLogs ++ gone.map SegmentSummary.baseOffset
  count : state'.segmentsDeleted = state.segmentsDeleted + gone.length
  bytes : state'.bytesDeleted = state.bytesDeleted + logBytes gone
  logs : state'.dir.logs =
    state.dir.logs.filter fun file ↦ file.1 ∉ gone.map SegmentSummary.baseOffset
  indexes : state'.dir.indexes =
    state.dir.indexes.filter fun file ↦ file.1 ∉ gone.map SegmentSummary.baseOffset
  total : state'.totalBytes + logBytes gone = state.totalBytes
  due : ∀ before summary after, gone = before ++ summary :: after →
    deletionDue env policy (state.totalBytes - logBytes before) summary = true
  budget : 0 < policy.maxBytes → state'.totalBytes ≤ policy.maxBytes ∨
    ∀ summary ∈ summaries, summary.active = false → summary ∈ gone

theorem filter_remove (files : FileTable) (name : ℕ) (names : List ℕ) :
    ((files.remove name).filter fun file ↦ file.1 ∉ names) =
      files.filter fun file ↦ file.1 ∉ name :: names := by
  rw [FileTable.remove, List.filter_filter]
  refine List.filter_congr fun file _ ↦ ?_
  simp only [List.mem_cons, not_or, Bool.decide_and]
  exact Bool.and_comm _ _

theorem retentionLoop_walks {env : RetentionEnv} {policy : RetentionPolicy}
    {summaries : List SegmentSummary} :
    ∀ {state state' : RetentionState}, logBytes summaries ≤ state.totalBytes →
      retentionLoop env policy summaries state = (state', .ok ()) →
      ∃ gone, Walks env policy summaries state state' gone := by
  induction summaries with
  | nil =>
      intro state state' _ h
      obtain rfl := (Prod.mk.inj h).1
      refine ⟨[], List.Sublist.refl _, by simp, rfl, rfl, by simp, by simp, rfl, ?_, by simp⟩
      intro before summary after heq
      simp at heq
  | cons summary rest ih =>
      intro state state' hbytes h
      have hsum : logBytes (summary :: rest) = summary.logBytes + logBytes rest := rfl
      rcases retentionLoop_cons h with ⟨hdue, hrest⟩ | ⟨hdue, hrest⟩
      · -- The segment is kept.
        obtain ⟨gone, hwalks⟩ := ih (by omega) hrest
        refine ⟨gone, hwalks.sublist.cons summary, hwalks.deleted, hwalks.count, hwalks.bytes,
          hwalks.logs, hwalks.indexes, hwalks.total, hwalks.due, fun hmax ↦ ?_⟩
        rcases hwalks.budget hmax with hfits | hall
        · exact Or.inl hfits
        · have htotal := hwalks.total
          by_cases hover : policy.maxBytes < state.totalBytes
          · right
            intro other hother hinactive
            rcases List.mem_cons.mp hother with rfl | hother
            · simp [deletionDue, hinactive, hmax, hover] at hdue
            · exact hall other hother hinactive
          · exact Or.inl (by omega)
      · -- The segment is deleted.
        have htotal : (state.delete summary).totalBytes = state.totalBytes - summary.logBytes := by
          rw [RetentionState.delete]
          dsimp only
          split_ifs <;> omega
        obtain ⟨gone, hwalks⟩ := ih (by omega) hrest
        have hleft := hwalks.total
        have hgone : logBytes (summary :: gone) = summary.logBytes + logBytes gone := rfl
        refine ⟨summary :: gone, hwalks.sublist.cons_cons summary, ?_, ?_, ?_, ?_, ?_, ?_, ?_, ?_⟩
        · rw [hwalks.deleted]
          exact List.append_assoc _ _ _
        · rw [hwalks.count, List.length_cons, Nat.add_comm gone.length, ← Nat.add_assoc]
          rfl
        · rw [hwalks.bytes, hgone, ← Nat.add_assoc]
          rfl
        · rw [hwalks.logs]
          exact filter_remove _ _ _
        · rw [hwalks.indexes]
          exact filter_remove _ _ _
        · omega
        · intro before other after heq
          cases before with
          | nil =>
              obtain ⟨rfl, -⟩ := List.cons.inj heq
              exact hdue
          | cons first before =>
              obtain ⟨rfl, hbefore⟩ := List.cons.inj heq
              have hlater := hwalks.due before other after hbefore
              rw [htotal, Nat.sub_sub] at hlater
              exact hlater
        · intro hmax
          refine (hwalks.budget hmax).imp_right fun hall other hother hinactive ↦ ?_
          rcases List.mem_cons.mp hother with rfl | hother
          · exact List.mem_cons_self
          · exact List.mem_cons_of_mem _ (hall other hother hinactive)

/-- A walk never deletes the active segment. -/
theorem Walks.active_not_mem {log : PartitionLog} {env : RetentionEnv} {policy : RetentionPolicy}
    {state state' : RetentionState} {gone : List SegmentSummary}
    (h : Walks env policy log.segmentSummaries state state' gone) :
    log.activeSegmentBase ∉ gone.map SegmentSummary.baseOffset := by
  intro hmem
  obtain ⟨summary, hsummary, hbase⟩ := List.mem_map.mp hmem
  obtain ⟨before, after, hsplit⟩ := List.append_of_mem hsummary
  have hinactive := active_of_deletionDue (h.due before summary after hsplit)
  rw [active_of_mem_segmentSummaries (h.sublist.subset hsummary), hbase] at hinactive
  simp at hinactive

/-! ## The files -/

/-- A segment file is old enough, or the log is over its budget with the files
deleted before. -/
def DueForDeletion (env : RetentionEnv) (policy : RetentionPolicy) (log : PartitionLog)
    (before : FileTable) (file : ℕ × Bytes) : Prop :=
  0 < policy.maxAgeSeconds ∧ policy.maxAgeSeconds ≤ fileAgeSecondsOrZero (env.age file.1) ∨
    0 < policy.maxBytes ∧ policy.maxBytes < log.dir.logs.totalBytes - before.totalBytes

/-- What a retention pass that deletes the files `gone`, in this order, has done
to the log, and what it reports. -/
structure Retains (Z : Zstd) (env : RetentionEnv) (policy : RetentionPolicy)
    (log log' : PartitionLog) (stats : RetentionStats) (gone : FileTable) : Prop where
  nextOffset : log'.nextOffset = log.nextOffset
  active : log'.activeSegmentBase = log.activeSegmentBase ∧
    log.activeSegmentBase ∈ log'.dir.logs.map Prod.fst
  sublist : gone.Sublist log.dir.logs
  logs : log'.dir.logs = log.dir.logs.filter fun file ↦ file.1 ∉ gone.map Prod.fst
  indexes : log'.dir.indexes = log.dir.indexes.filter fun file ↦ file.1 ∉ gone.map Prod.fst
  index : log'.index = log.index.filter fun entry ↦ entry.segment ∉ gone.map Prod.fst
  reads : ∀ entry ∈ log'.index, log'.readEntry Z entry = log.readEntry Z entry
  due : ∀ before file after, gone = before ++ file :: after →
    DueForDeletion env policy log before file
  budget : 0 < policy.maxBytes → log'.dir.logs.totalBytes ≤ policy.maxBytes ∨
    log'.dir.logs.map Prod.fst = [log'.activeSegmentBase]
  segmentsDeleted : stats.segmentsDeleted + log'.dir.logs.length = log.dir.logs.length
  bytesDeleted : stats.bytesDeleted + log'.dir.logs.totalBytes = log.dir.logs.totalBytes
  segmentsRetained : stats.segmentsRetained = log'.dir.logs.length
  bytesRetained : stats.bytesRetained = log'.dir.logs.totalBytes
  statsOffsets : stats.earliestOffset = log'.earliestOffset ∧ stats.nextOffset = log'.nextOffset

/-- Files of a table and the others make up the table. -/
theorem perm_filter_append {files gone : FileTable} (hsorted : files.Sorted)
    (hsub : gone.Sublist files) :
    ((files.filter fun file ↦ file.1 ∉ gone.map Prod.fst) ++ gone).Perm files := by
  have hnodup : (files.map Prod.fst).Nodup :=
    (List.pairwise_map.mpr hsorted).imp Nat.ne_of_lt
  have hgone := LogState.filter_mem_of_sublist (f := Prod.fst) hsub hnodup
  have hperm := List.filter_append_perm (fun file : ℕ × Bytes ↦ file.1 ∈ gone.map Prod.fst) files
  rw [hgone] at hperm
  refine List.Perm.trans ?_ (List.perm_append_comm.trans hperm)
  refine List.Perm.append_right gone (List.Perm.of_eq (List.filter_congr fun file _ ↦ ?_))
  simp

theorem eq_singleton_of_all {α : Type*} {l : List α} {a : α} (hnodup : l.Nodup) (hmem : a ∈ l)
    (hall : ∀ b ∈ l, b = a) : l = [a] := by
  obtain ⟨before, after, rfl⟩ := List.append_of_mem hmem
  have hparts := List.nodup_append.mp hnodup
  have hbefore : before = [] := List.eq_nil_iff_forall_not_mem.mpr fun b hb ↦
    hparts.2.2 b hb a List.mem_cons_self (hall b (List.mem_append_left _ hb))
  have hafter : after = [] := List.eq_nil_iff_forall_not_mem.mpr fun b hb ↦
    (List.nodup_cons.mp hparts.2.1).1 (hall b (by simp [hb]) ▸ hb)
  rw [hbefore, hafter, List.nil_append]

theorem logBytes_eq (log : PartitionLog) {summaries : List SegmentSummary} {files : FileTable}
    (hkeys : summaries.map SegmentSummary.key = files.map log.fileKey) :
    logBytes summaries = files.totalBytes := by
  have hsizes := congrArg (List.map fun key : ℕ × ℕ × Bool ↦ key.2.1) hkeys
  rw [List.map_map, List.map_map] at hsizes
  rw [logBytes, FileTable.totalBytes]
  exact congrArg List.sum hsizes

theorem baseOffsets_eq (log : PartitionLog) {summaries : List SegmentSummary} {files : FileTable}
    (hkeys : summaries.map SegmentSummary.key = files.map log.fileKey) :
    summaries.map SegmentSummary.baseOffset = files.map Prod.fst := by
  have hnames := congrArg (List.map Prod.fst) hkeys
  rw [List.map_map, List.map_map] at hnames
  exact hnames

/-- The walk of a pass over a log whose index names existing segments. -/
theorem Listed.retains {Z : Zstd} {log log' : PartitionLog} (h : log.Listed) {env : RetentionEnv}
    {policy : RetentionPolicy} {stats : RetentionStats}
    (hretention : log.applyRetention env policy = (log', .ok stats)) :
    ∃ gone, Retains Z env policy log log' stats gone := by
  have hafter := h.applyRetention hretention
  obtain ⟨walk, hwalk, hlog, hstats⟩ := applyRetention_ok hretention
  have hkeys := key_segmentSummaries h.sorted h.listed
  have hkeys' := key_segmentSummaries hafter.sorted hafter.listed
  obtain ⟨summaries, hwalks⟩ := retentionLoop_walks le_rfl hwalk
  have hdeleted : walk.deletedLogs = summaries.map SegmentSummary.baseOffset := hwalks.deleted
  -- The files behind the summaries that were deleted.
  obtain ⟨gone, hsub, hgone⟩ := List.sublist_map_iff.mp
    (hkeys ▸ hwalks.sublist.map SegmentSummary.key)
  have hnames := baseOffsets_eq log hgone
  have hlogs : log'.dir.logs = log.dir.logs.filter fun file ↦ file.1 ∉ gone.map Prod.fst := by
    rw [hlog, ← hnames]
    exact hwalks.logs
  have hindex : log'.index = log.index.filter fun entry ↦ entry.segment ∉ gone.map Prod.fst := by
    rw [hlog, ← hnames, ← hdeleted]
  have hactiveGone : log.activeSegmentBase ∉ gone.map Prod.fst := hnames ▸ hwalks.active_not_mem
  have hactive := activeSegmentBase_filter hindex (fun entry ↦ h.segment_lt) hactiveGone
  have hperm := perm_filter_append h.sorted hsub
  rw [← hlogs] at hperm
  have hcount := hperm.length_eq
  have hbytes := (hperm.map fun file ↦ file.2.length).sum_eq
  rw [List.map_append, List.sum_append] at hbytes
  change log'.dir.logs.totalBytes + FileTable.totalBytes gone = log.dir.logs.totalBytes at hbytes
  rw [List.length_append] at hcount
  have hgoneBytes := logBytes_eq log hgone
  have hallBytes : (RetentionState.initial log).totalBytes = log.dir.logs.totalBytes :=
    logBytes_eq log hkeys
  have hlength := congrArg List.length hgone
  rw [List.length_map, List.length_map] at hlength
  refine ⟨gone, by rw [hlog], ⟨hactive, hactive ▸ hafter.active⟩, hsub, hlogs, ?_, hindex, ?_, ?_,
    ?_, ?_, ?_, ?_, ?_, ?_⟩
  · rw [hlog, ← hnames]
    exact hwalks.indexes
  · intro entry hentry
    rw [hindex, List.mem_filter, decide_eq_true_eq] at hentry
    refine readEntry_congr (by rw [hlog]) ?_
    rw [hlogs, FileTable.content?_filter log.dir.logs
      (fun name ↦ decide (name ∉ gone.map Prod.fst)), if_pos (decide_eq_true hentry.2)]
  · intro before file after hsplit
    rw [hsplit, List.map_append, List.map_cons] at hgone
    obtain ⟨front, back, hparts, hfront, hback⟩ := List.map_eq_append_iff.mp hgone
    obtain ⟨summary, rest, rfl, hsummary, -⟩ := List.map_eq_cons_iff.mp hback
    have hdue := hwalks.due front summary rest hparts
    have hbase : summary.baseOffset = file.1 := congrArg Prod.fst hsummary
    rw [logBytes_eq log hfront, hallBytes] at hdue
    simp only [deletionDue, Bool.and_eq_true, Bool.or_eq_true, decide_eq_true_eq, hbase] at hdue
    exact hdue.2
  · intro hmax
    have htotal := hwalks.total
    refine (hwalks.budget hmax).imp (fun hfits ↦ by omega) fun hall ↦ ?_
    rw [hactive]
    refine eq_singleton_of_all ?_ (hactive ▸ hafter.active) fun name hname ↦ ?_
    · exact (List.pairwise_map.mpr hafter.sorted).imp Nat.ne_of_lt
    · obtain ⟨file, hfile, rfl⟩ := List.mem_map.mp hname
      rw [hlogs, List.mem_filter, decide_eq_true_eq] at hfile
      by_contra hne
      have hkey : log.fileKey file ∈ log.segmentSummaries.map SegmentSummary.key := by
        rw [hkeys]
        exact List.mem_map_of_mem hfile.1
      obtain ⟨summary, hsummary, hsame⟩ := List.mem_map.mp hkey
      have hbase : summary.baseOffset = file.1 := congrArg Prod.fst hsame
      have hinactive : summary.active = (file.1 == log.activeSegmentBase) :=
        congrArg (fun key ↦ key.2.2) hsame
      rw [beq_false_of_ne hne] at hinactive
      apply hfile.2
      rw [← hnames, ← hbase]
      exact List.mem_map_of_mem (hall summary hsummary hinactive)
  · have hreported : stats.segmentsDeleted = walk.segmentsDeleted := by rw [hstats]
    have hdeletedCount := hwalks.count
    simp only [RetentionState.initial, Nat.zero_add] at hdeletedCount
    omega
  · have hreported : stats.bytesDeleted = walk.bytesDeleted := by rw [hstats]
    have hdeletedBytes := hwalks.bytes
    simp only [RetentionState.initial, Nat.zero_add] at hdeletedBytes
    omega
  · rw [hstats]
    have hcount' := congrArg List.length hkeys'
    rwa [List.length_map, List.length_map] at hcount'
  · rw [hstats]
    exact logBytes_eq log' hkeys'
  · rw [hstats]
    exact ⟨rfl, rfl⟩

/-! ## Offsets -/

/-- The offsets of the deleted records are not in the index any more, and the
earliest offset is the smallest one left. -/
def OffsetsGone (log log' : PartitionLog) : Prop :=
  (∀ entry ∈ log.index, entry ∉ log'.index →
    entry.offset ∉ log'.index.map IndexEntry.offset) ∧
  ∀ entry ∈ log'.index, log'.earliestOffset ≤ entry.offset

theorem Represents.offsets_increase {Z : Zstd} {log : PartitionLog} {layout : Layout}
    (hrep : log.Represents Z layout) :
    (log.index.map IndexEntry.offset).Pairwise (· < ·) := by
  rw [hrep.index, Layout.map_offset_index fun e he ↦ (hrep.written e he).stop_lt]
  exact hrep.placed.offsets_increase

theorem offsetsGone_of_increase {log log' : PartitionLog}
    (hincrease : (log.index.map IndexEntry.offset).Pairwise (· < ·)) {gone : List ℕ}
    (hindex : log'.index = log.index.filter fun entry ↦ entry.segment ∉ gone) :
    OffsetsGone log log' := by
  have hsub : log'.index.Sublist log.index := hindex ▸ List.filter_sublist
  constructor
  · intro entry hentry hdeleted hoffset
    obtain ⟨other, hother, hsame⟩ := List.mem_map.mp hoffset
    have hnodup : (log.index.map IndexEntry.offset).Nodup := hincrease.imp Nat.ne_of_lt
    exact hdeleted (List.inj_on_of_nodup_map hnodup hentry (hsub.subset hother) hsame.symm ▸ hother)
  · intro entry hentry
    have hincrease' := hincrease.sublist (hsub.map IndexEntry.offset)
    rw [earliestOffset]
    cases hcons : log'.index with
    | nil =>
        rw [hcons] at hentry
        cases hentry
    | cons first rest =>
        rw [hcons] at hentry hincrease'
        rcases List.mem_cons.mp hentry with rfl | hentry
        · exact le_rfl
        · exact ((List.pairwise_cons.mp hincrease').1 _ (List.mem_map_of_mem hentry)).le

end PartitionLog

open PartitionLog

/-- In every log reached by successful calls, a retention pass deletes only what
is due, keeps the rest as it was and reports just that; and in a log whose batches
fit their byte count no deleted offset is found any more. -/
theorem retention_retains (Z : Zstd) (options : PartitionLogOptions) (log₀ : PartitionLog)
    (hopened : openLog Z options {} = .ok log₀) (ops : List LogOp) (state : LogState)
    (hrun : run (LogState.step Z) ⟨log₀, []⟩ ops = some state) (env : RetentionEnv)
    (policy : RetentionPolicy) (log' : PartitionLog) (stats : RetentionStats)
    (hretention : state.log.applyRetention env policy = (log', .ok stats)) :
    (∃ gone, Retains Z env policy state.log log' stats gone) ∧
      ((∀ op ∈ ops, op.Sized) → state.acked.length < 2 ^ 64 → OffsetsGone state.log log') := by
  obtain ⟨gone, h⟩ := (listed_run hopened hrun).retains hretention
  refine ⟨⟨gone, h⟩, fun hsized hbound ↦ ?_⟩
  obtain ⟨layout, hreached⟩ := LogState.run_reached hopened hsized hrun hbound
  exact offsetsGone_of_increase hreached.represents.offsets_increase h.index

/-- Two records in a segment each. -/
def twoSegments : List LogOp :=
  [.append stillClock [107] [118], .append stillClock [107] [119]]

/-- Files of unknown age, and removals that succeed. -/
def noAges : RetentionEnv := ⟨fun _ ↦ ⟨none, 0⟩, fun _ ↦ false, fun _ ↦ false⟩

/-- A byte budget that one of the two segments fits. -/
theorem retention_retains_twoSegments :
    ∃ state log' stats, run (LogState.step noZstd) ⟨emptyLog smallSegments, []⟩ twoSegments =
        some state ∧
      state.log.applyRetention noAges ⟨0, 60⟩ = (log', .ok stats) ∧ stats.segmentsDeleted = 1 ∧
      (∃ gone, Retains noZstd noAges ⟨0, 60⟩ state.log log' stats gone) ∧
      OffsetsGone state.log log' := by
  have hends : (run (LogState.step noZstd) ⟨emptyLog smallSegments, []⟩ twoSegments).map
      (fun state ↦ (state.acked.length, ((state.log.applyRetention noAges ⟨0, 60⟩).2.map
        RetentionStats.segmentsDeleted).toOption)) = some (2, some 1) := by decide
  obtain ⟨state, hrun, hends⟩ := Option.map_eq_some_iff.mp hends
  obtain ⟨hacked, hdeleted⟩ := Prod.mk.inj hends
  cases hretention : state.log.applyRetention noAges ⟨0, 60⟩ with
  | mk log' result =>
      rw [hretention] at hdeleted
      cases result with
      | error message => cases hdeleted
      | ok stats =>
          obtain ⟨hretains, hgone⟩ := retention_retains noZstd smallSegments _
            (openLog_empty ⟨by decide, by decide⟩ noZstd) twoSegments state hrun noAges ⟨0, 60⟩
            log' stats hretention
          refine ⟨state, log', stats, hrun, hretention, Option.some.inj hdeleted, hretains,
            hgone ?_ (by rw [hacked]; norm_num)⟩
          simp [twoSegments, LogOp.Sized]

/-- The file was last written more than `seconds` seconds ago. -/
def OlderThan (reading : AgeReading) (seconds : ℕ) : Prop :=
  ∃ modified ∈ reading.modified, modified + seconds * 10 ^ 9 < reading.now

/-- Files last written exactly ten seconds ago. -/
def tenSeconds : RetentionEnv := ⟨fun _ ↦ ⟨some 0, 10 * 10 ^ 9⟩, fun _ ↦ false, fun _ ↦ false⟩

/-- A segment of exactly the maximal age is deleted, though it is not older and
there is no byte budget. -/
theorem deletes_not_older :
    ∃ state log' stats, run (LogState.step noZstd) ⟨emptyLog smallSegments, []⟩ twoSegments =
        some state ∧
      state.log.applyRetention tenSeconds ⟨10, 0⟩ = (log', .ok stats) ∧
      0 ∈ state.log.dir.logs.map Prod.fst ∧ 0 ∉ log'.dir.logs.map Prod.fst ∧
      ¬ OlderThan (tenSeconds.age 0) 10 := by
  have hends : (run (LogState.step noZstd) ⟨emptyLog smallSegments, []⟩ twoSegments).map
      (fun state ↦ decide ((state.log.applyRetention tenSeconds ⟨10, 0⟩).2.toBool = true ∧
        0 ∈ state.log.dir.logs.map Prod.fst ∧
        0 ∉ (state.log.applyRetention tenSeconds ⟨10, 0⟩).1.dir.logs.map Prod.fst)) =
          some true := by decide
  obtain ⟨state, hrun, hends⟩ := Option.map_eq_some_iff.mp hends
  obtain ⟨hok, hbefore, hafter⟩ := of_decide_eq_true hends
  cases hretention : state.log.applyRetention tenSeconds ⟨10, 0⟩ with
  | mk log' result =>
      rw [hretention] at hok hafter
      cases result with
      | error message => cases hok
      | ok stats =>
          refine ⟨state, log', stats, hrun, hretention, hbefore, hafter, ?_⟩
          rintro ⟨modified, hmodified, hlt⟩
          obtain rfl := Option.some.inj hmodified
          exact absurd hlt (by norm_num [tenSeconds])

end BoltStream.Storage
