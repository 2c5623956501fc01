import BoltStream.Storage.Appending
import BoltStream.Storage.Retention

/-!
# Retention on a layout

A retention pass removes segments other than the active one.  When the ages it
reads do not increase from a segment to a later one, the segments it removes
are the oldest ones.
-/

namespace BoltStream.Storage

open BoltStream.Lib BoltStream.Compression

/-- What the retention walk looks at. -/
def SegmentSummary.key (summary : SegmentSummary) : ℕ × ℕ × Bool :=
  (summary.baseOffset, summary.logBytes, summary.active)

namespace PartitionLog

/-! ## The summaries -/

theorem key_mergeIndexEntry (log : PartitionLog) {summaries : List SegmentSummary}
    {entry : IndexEntry} (h : ∃ summary ∈ summaries, summary.baseOffset = entry.segment) :
    (log.mergeIndexEntry summaries entry).map SegmentSummary.key =
      summaries.map SegmentSummary.key := by
  have hany : (summaries.any fun summary ↦ summary.baseOffset == entry.segment) = true := by
    simpa using h
  rw [mergeIndexEntry, if_pos hany, List.map_map]
  refine List.map_congr_left fun summary _ ↦ ?_
  simp only [Function.comp_apply]
  split_ifs <;> rfl

/-- The index only widens the summaries of the listed segments. -/
theorem key_foldl_mergeIndexEntry {log : PartitionLog} (entries : List IndexEntry) :
    ∀ summaries : List SegmentSummary,
      (∀ entry ∈ entries, ∃ summary ∈ summaries, summary.baseOffset = entry.segment) →
      (entries.foldl log.mergeIndexEntry summaries).map SegmentSummary.key =
        summaries.map SegmentSummary.key := by
  induction entries with
  | nil => exact fun _ _ ↦ rfl
  | cons entry entries ih =>
      intro summaries h
      have hkey := key_mergeIndexEntry log (h entry List.mem_cons_self)
      rw [List.foldl_cons, ih _ fun other hother ↦ ?_, hkey]
      obtain ⟨summary, hmem, hbase⟩ := h other (List.mem_cons_of_mem entry hother)
      have hmem' := List.mem_map_of_mem (f := SegmentSummary.key) hmem
      rw [← hkey] at hmem'
      obtain ⟨summary', hmem', hkey'⟩ := List.mem_map.mp hmem'
      exact ⟨summary', hmem', (congrArg Prod.fst hkey').trans hbase⟩

/-- What the walk looks at of a segment file. -/
def fileKey (log : PartitionLog) (file : ℕ × Bytes) : ℕ × ℕ × Bool :=
  (file.1, file.2.length, file.1 == log.activeSegmentBase)

/-- When the index names existing segments only, there is a summary for each file
and no other. -/
theorem key_segmentSummaries {log : PartitionLog} (hsorted : log.dir.logs.Sorted)
    (hlisted : ∀ entry ∈ log.index, entry.segment ∈ log.dir.logs.map Prod.fst) :
    log.segmentSummaries.map SegmentSummary.key = log.dir.logs.map log.fileKey := by
  rw [segmentSummaries]
  set listed := log.dir.logs.map fun segment ↦
    ({ baseOffset := segment.1
       firstOffset := segment.1
       lastOffset := segment.1
       logBytes := segment.2.length
       active := segment.1 == log.activeSegmentBase } : SegmentSummary) with hlistedFiles
  have hkeys : (log.index.foldl log.mergeIndexEntry listed).map SegmentSummary.key =
      log.dir.logs.map log.fileKey := by
    rw [key_foldl_mergeIndexEntry]
    · rw [hlistedFiles, List.map_map]
      rfl
    · intro entry hentry
      obtain ⟨file, hfile, hname⟩ := List.mem_map.mp (hlisted entry hentry)
      exact ⟨_, List.mem_map_of_mem hfile, hname⟩
  rw [List.Pairwise.insertionSort_eq, hkeys]
  have hkeysSorted : (log.dir.logs.map log.fileKey).Pairwise fun k k' ↦ k.1 ≤ k'.1 :=
    List.pairwise_map.mpr (List.Pairwise.imp Nat.le_of_lt hsorted)
  rw [← hkeys, List.pairwise_map] at hkeysSorted
  exact hkeysSorted

/-- The summary of a segment of a layout. -/
def segmentKey (log : PartitionLog) (s : Segment) : ℕ × ℕ × Bool :=
  (s.base, s.content.length, s.base == log.activeSegmentBase)

theorem Represents.key_segmentSummaries {Z : Zstd} {log : PartitionLog} {layout : Layout}
    (hrep : log.Represents Z layout) :
    log.segmentSummaries.map SegmentSummary.key = layout.map log.segmentKey := by
  rw [PartitionLog.key_segmentSummaries]
  · rw [hrep.logs, Layout.files, List.map_map]
    rfl
  · rw [hrep.logs]
    exact Layout.files_sorted hrep.placed.bases
  · intro entry hentry
    rw [hrep.index] at hentry
    obtain ⟨s, hs, hentry⟩ := List.mem_flatMap.mp hentry
    rw [Layout.segment_of_mem_indexFrom hentry, hrep.logs, Layout.files, List.map_map]
    exact List.mem_map_of_mem hs

/-! ## The walk -/

/-- The state after the files of a segment are removed. -/
def RetentionState.delete (state : RetentionState) (summary : SegmentSummary) : RetentionState :=
  { dir :=
      { logs := state.dir.logs.remove summary.baseOffset
        indexes := state.dir.indexes.remove summary.baseOffset }
    totalBytes :=
      if summary.logBytes > state.totalBytes then 0 else state.totalBytes - summary.logBytes
    deletedLogs := state.deletedLogs ++ [summary.baseOffset]
    segmentsDeleted := state.segmentsDeleted + 1
    bytesDeleted := state.bytesDeleted + summary.logBytes }

/-- One turn of a walk that ends well. -/
theorem retentionLoop_cons {env : RetentionEnv} {policy : RetentionPolicy}
    {summary : SegmentSummary} {rest : List SegmentSummary} {state state' : RetentionState}
    (h : retentionLoop env policy (summary :: rest) state = (state', .ok ())) :
    deletionDue env policy state.totalBytes summary = false ∧
        retentionLoop env policy rest state = (state', .ok ()) ∨
      deletionDue env policy state.totalBytes summary = true ∧
        retentionLoop env policy rest (state.delete summary) = (state', .ok ()) := by
  rw [retentionLoop] at h
  cases hdue : deletionDue env policy state.totalBytes summary with
  | false =>
      rw [if_pos hdue] at h
      exact Or.inl ⟨rfl, h⟩
  | true =>
      rw [if_neg (by simp [hdue])] at h
      refine Or.inr ⟨rfl, ?_⟩
      cases hlog : env.removeLogFails summary.baseOffset with
      | true =>
          rw [if_pos hlog] at h
          cases (Prod.mk.inj h).2
      | false =>
          rw [if_neg (by simp [hlog])] at h
          cases hindex : env.removeIndexFails summary.baseOffset with
          | true =>
              simp only [hindex, if_true] at h
              cases (Prod.mk.inj h).2
          | false =>
              simp only [hindex, Bool.false_eq_true, if_false] at h
              exact h

theorem active_of_deletionDue {env : RetentionEnv} {policy : RetentionPolicy} {totalBytes : ℕ}
    {summary : SegmentSummary} (h : deletionDue env policy totalBytes summary = true) :
    summary.active = false := by
  cases hactive : summary.active with
  | true => simp [deletionDue, hactive] at h
  | false => rfl

/-- A walk removes segments that are due, however it ends. -/
theorem retentionLoop_removes (env : RetentionEnv) (policy : RetentionPolicy)
    (summaries : List SegmentSummary) (state : RetentionState) :
    ∃ gone : List ℕ,
      (∀ name ∈ gone, ∃ summary ∈ summaries, summary.baseOffset = name ∧
        ∃ totalBytes ≤ state.totalBytes, deletionDue env policy totalBytes summary = true) ∧
      (retentionLoop env policy summaries state).1.dir.logs =
        state.dir.logs.filter (fun file ↦ file.1 ∉ gone) ∧
      ((retentionLoop env policy summaries state).2 = .ok () →
        (retentionLoop env policy summaries state).1.deletedLogs = state.deletedLogs ++ gone) := by
  induction summaries generalizing state with
  | nil => exact ⟨[], by simp [retentionLoop]⟩
  | cons summary rest ih =>
      have hlater : ∀ {gone : List ℕ} {bound : ℕ}, bound ≤ state.totalBytes →
          (∀ name ∈ gone, ∃ other ∈ rest, other.baseOffset = name ∧
            ∃ totalBytes ≤ bound, deletionDue env policy totalBytes other = true) →
          ∀ name ∈ gone, ∃ other ∈ summary :: rest, other.baseOffset = name ∧
            ∃ totalBytes ≤ state.totalBytes, deletionDue env policy totalBytes other = true := by
        intro gone bound hbound hgone name hname
        obtain ⟨other, hother, hbase, totalBytes, hle, hdue⟩ := hgone name hname
        exact ⟨other, List.mem_cons_of_mem summary hother, hbase, totalBytes,
          hle.trans hbound, hdue⟩
      rw [retentionLoop]
      by_cases hdue : deletionDue env policy state.totalBytes summary = false
      · rw [if_pos hdue]
        obtain ⟨gone, hgone, hrest⟩ := ih state
        exact ⟨gone, hlater le_rfl hgone, hrest⟩
      rw [if_neg hdue, Bool.not_eq_false] at *
      have hself : ∃ other ∈ summary :: rest, other.baseOffset = summary.baseOffset ∧
          ∃ totalBytes ≤ state.totalBytes, deletionDue env policy totalBytes other = true :=
        ⟨summary, List.mem_cons_self, rfl, state.totalBytes, le_rfl, hdue⟩
      by_cases hlog : env.removeLogFails summary.baseOffset = true
      · rw [if_pos hlog]
        exact ⟨[], by simp, by simp, by simp⟩
      rw [if_neg hlog]
      by_cases hindex : env.removeIndexFails summary.baseOffset = true
      · simp only [hindex, if_true]
        refine ⟨[summary.baseOffset], ?_, ?_, by simp⟩
        · simpa using hself
        · simp [FileTable.remove]
      · obtain ⟨gone, hgone, hlogs, hdeleted⟩ := ih (state.delete summary)
        have hbound : (state.delete summary).totalBytes ≤ state.totalBytes := by
          simp only [RetentionState.delete]
          split_ifs <;> omega
        simp only [hindex, Bool.false_eq_true, if_false]
        refine ⟨summary.baseOffset :: gone, ?_, hlogs.trans ?_, fun hok ↦ ?_⟩
        · exact List.forall_mem_cons.mpr ⟨hself, hlater hbound hgone⟩
        · rw [RetentionState.delete, FileTable.remove, List.filter_filter]
          refine List.filter_congr fun file _ ↦ ?_
          simp only [List.mem_cons, not_or, Bool.decide_and]
          exact Bool.and_comm _ _
        · exact (hdeleted hok).trans (List.append_assoc _ _ _)

/-- The flag of a summary says whether its segment is the active one. -/
theorem active_of_mem_segmentSummaries {log : PartitionLog} {summary : SegmentSummary}
    (h : summary ∈ log.segmentSummaries) :
    summary.active = (summary.baseOffset == log.activeSegmentBase) := by
  have hmerge : ∀ (entries : List IndexEntry) (summaries : List SegmentSummary),
      (∀ summary ∈ summaries, summary.active = (summary.baseOffset == log.activeSegmentBase)) →
      ∀ summary ∈ entries.foldl log.mergeIndexEntry summaries,
        summary.active = (summary.baseOffset == log.activeSegmentBase) := by
    intro entries
    induction entries with
    | nil => exact fun _ ↦ id
    | cons entry entries ih =>
        intro summaries hsummaries
        refine ih _ fun summary hsummary ↦ ?_
        rw [mergeIndexEntry] at hsummary
        split_ifs at hsummary with hany
        · obtain ⟨old, hold, rfl⟩ := List.mem_map.mp hsummary
          have hactive := hsummaries old hold
          split_ifs <;> exact hactive
        · rcases List.mem_cons.mp hsummary with rfl | hsummary
          · rfl
          · exact hsummaries summary hsummary
  rw [segmentSummaries, List.mem_insertionSort] at h
  refine hmerge log.index _ (fun summary hsummary ↦ ?_) summary h
  obtain ⟨segment, -, rfl⟩ := List.mem_map.mp hsummary
  rfl

/-- What a retention pass has removed is not the active segment. -/
theorem active_not_mem_gone {log : PartitionLog} {env : RetentionEnv} {policy : RetentionPolicy}
    {gone : List ℕ} {bound : ℕ}
    (hgone : ∀ name ∈ gone, ∃ summary ∈ log.segmentSummaries, summary.baseOffset = name ∧
      ∃ totalBytes ≤ bound, deletionDue env policy totalBytes summary = true) :
    log.activeSegmentBase ∉ gone := by
  intro hmem
  obtain ⟨summary, hsummary, hbase, totalBytes, -, hdue⟩ := hgone _ hmem
  have hactive := active_of_mem_segmentSummaries hsummary
  rw [active_of_deletionDue hdue, hbase] at hactive
  simp at hactive

/-- Dropping index entries of other segments keeps the active segment. -/
theorem activeSegmentBase_filter {log log' : PartitionLog} {gone : List ℕ}
    (hindex : log'.index = log.index.filter fun entry ↦ entry.segment ∉ gone)
    (hbound : ∀ entry ∈ log.index, entry.segment < 2 ^ 64)
    (hactive : log.activeSegmentBase ∉ gone) :
    log'.activeSegmentBase = log.activeSegmentBase := by
  rcases List.eq_nil_or_concat log.index with hnil | ⟨front, last, hlast⟩
  · rw [activeSegmentBase_of_nil hnil, activeSegmentBase_of_nil (by rw [hindex, hnil]; rfl)]
  · rw [List.concat_eq_append] at hlast
    have hsegment := hbound last (by rw [hlast]; simp)
    have hbase : log.activeSegmentBase = last.segment :=
      activeSegmentBase_of_last (by rw [hlast, List.getLast?_concat]) hsegment
    rw [hbase] at hactive ⊢
    refine activeSegmentBase_of_last ?_ hsegment
    rw [hindex, hlast, List.filter_append, List.filter_cons_of_pos (by simpa using hactive),
      List.filter_nil, List.getLast?_concat]

theorem Represents.segment_lt {Z : Zstd} {log : PartitionLog} {layout : Layout}
    (hrep : log.Represents Z layout) : ∀ entry ∈ log.index, entry.segment < 2 ^ 64 := by
  intro entry hentry
  rw [hrep.index] at hentry
  obtain ⟨s, hs, hentry⟩ := List.mem_flatMap.mp hentry
  have hstored : s.entries ≠ [] := fun hnil ↦ by
    rw [Segment.index, hnil] at hentry
    cases hentry
  have hlt := hrep.placed.base_lt (fun _ ↦ hrep.count_pos) hs hstored
  have hbound := hrep.bound
  rw [Layout.segment_of_mem_indexFrom hentry]
  omega

/-- A retention pass that succeeds: whole segments are gone, the last one with
entries and the active one are not. -/
theorem Represents.applyRetention {Z : Zstd} {log : PartitionLog} {layout : Layout}
    (hrep : log.Represents Z layout) {env : RetentionEnv} {policy : RetentionPolicy}
    {log' : PartitionLog} {stats : RetentionStats}
    (h : log.applyRetention env policy = (log', .ok stats)) :
    ∃ walk, retentionLoop env policy log.segmentSummaries (RetentionState.initial log) =
        (walk, .ok ()) ∧
      log'.Represents Z (layout.filter fun s ↦ s.base ∉ walk.deletedLogs) ∧
      log'.options = log.options ∧ log'.nextOffset = log.nextOffset := by
  rw [PartitionLog.applyRetention] at h
  obtain ⟨gone, hgone, hlogs, hdeleted⟩ := retentionLoop_removes env policy
    log.segmentSummaries (RetentionState.initial log)
  have hactive := active_not_mem_gone hgone
  cases hwalk : retentionLoop env policy log.segmentSummaries (RetentionState.initial log) with
  | mk walk result =>
    rw [hwalk] at hlogs hdeleted
    cases result with
    | error message =>
      simp only [hwalk] at h
      cases (Prod.mk.inj h).2
    | ok =>
      simp only [hwalk] at h
      obtain ⟨hlog, -⟩ := Prod.mk.inj h
      obtain rfl : walk.deletedLogs = gone := hdeleted rfl
      have hplaced : Layout.WellPlaced (layout.filter fun s ↦ s.base ∉ walk.deletedLogs)
          log.nextOffset := hrep.placed.filter fun s hs ↦ by
        rw [activeSegmentBase_of_lastStored hrep.index hrep.placed hrep.bound
          (fun _ ↦ hrep.count_pos) hs] at hactive
        simpa using hactive
      have hsub : (Layout.entries (layout.filter fun s ↦ s.base ∉ walk.deletedLogs)).Sublist
          layout.entries := List.filter_sublist.flatMap _
      have hindex : log'.index = log.index.filter fun entry ↦ entry.segment ∉ walk.deletedLogs := by
        rw [← hlog]
      have hbase := activeSegmentBase_filter hindex hrep.segment_lt hactive
      have hnext : log'.nextOffset = log.nextOffset := by rw [← hlog]
      refine ⟨walk, rfl, ⟨?_, ?_, hnext ▸ hplaced, hnext ▸ hrep.bound,
        fun e he ↦ hrep.written e (hsub.subset he), ?_⟩, by rw [← hlog], hnext⟩
      · rw [Layout.files_filter, ← hrep.logs, ← hlog]
        exact hlogs
      · rw [hindex, Layout.index_filter, hrep.index]
      · obtain ⟨s, hs, hsbase⟩ := hrep.active
        refine ⟨s, List.mem_filter.mpr ⟨hs, ?_⟩, by rw [hbase, hsbase]⟩
        simpa [hsbase] using hactive

/-! ## Ages in order -/

/-- The ages read for the segments of a log do not increase from a segment to a
later one. -/
def AgesOrdered (log : PartitionLog) (env : RetentionEnv) : Prop :=
  log.dir.logs.Pairwise fun f g ↦
    fileAgeSecondsOrZero (env.age g.1) ≤ fileAgeSecondsOrZero (env.age f.1)

/-- Behind an inactive segment that is kept, all are kept. -/
theorem retentionLoop_keep {env : RetentionEnv} {policy : RetentionPolicy}
    {summaries : List SegmentSummary} {state state' : RetentionState} (age : ℕ)
    (hage : policy.maxAgeSeconds = 0 ∨ age < policy.maxAgeSeconds)
    (hsize : policy.maxBytes = 0 ∨ state.totalBytes ≤ policy.maxBytes)
    (hages : ∀ summary ∈ summaries, fileAgeSecondsOrZero (env.age summary.baseOffset) ≤ age)
    (h : retentionLoop env policy summaries state = (state', .ok ())) : state' = state := by
  induction summaries with
  | nil => exact (Prod.mk.inj h).1.symm
  | cons summary rest ih =>
      have hle := hages summary List.mem_cons_self
      rcases retentionLoop_cons h with ⟨-, hrest⟩ | ⟨hdue, -⟩
      · exact ih (fun other hother ↦ hages other (List.mem_cons_of_mem summary hother)) hrest
      · simp only [deletionDue, Bool.and_eq_true, Bool.or_eq_true, decide_eq_true_eq] at hdue
        omega

/-- With ages in order the walk removes the inactive ones of the first segments. -/
theorem retentionLoop_ordered {env : RetentionEnv} {policy : RetentionPolicy}
    {summaries : List SegmentSummary} {state state' : RetentionState}
    (hages : summaries.Pairwise fun s t ↦
      fileAgeSecondsOrZero (env.age t.baseOffset) ≤ fileAgeSecondsOrZero (env.age s.baseOffset))
    (h : retentionLoop env policy summaries state = (state', .ok ())) :
    ∃ older newer, summaries = older ++ newer ∧
      state'.deletedLogs = state.deletedLogs ++
        (older.filter fun summary ↦ !summary.active).map SegmentSummary.baseOffset := by
  induction summaries generalizing state with
  | nil => exact ⟨[], [], rfl, by rw [← (Prod.mk.inj h).1]; simp⟩
  | cons summary rest ih =>
      obtain ⟨hhead, hrestAges⟩ := List.pairwise_cons.mp hages
      rcases retentionLoop_cons h with ⟨hdue, hrest⟩ | ⟨hdue, hrest⟩
      · cases hactive : summary.active with
        | true =>
            obtain ⟨older, newer, rfl, hdeleted⟩ := ih hrestAges hrest
            exact ⟨summary :: older, newer, rfl, by rw [hdeleted]; simp [hactive]⟩
        | false =>
            refine ⟨[], summary :: rest, rfl, ?_⟩
            simp only [deletionDue, hactive, Bool.not_false, Bool.true_and, Bool.or_eq_false_iff,
              decide_eq_false_iff_not] at hdue
            rw [retentionLoop_keep (fileAgeSecondsOrZero (env.age summary.baseOffset))
              (by omega) (by omega) hhead hrest]
            simp
      · obtain ⟨older, newer, rfl, hdeleted⟩ := ih hrestAges hrest
        refine ⟨summary :: older, newer, rfl, ?_⟩
        rw [hdeleted, List.filter_cons_of_pos (by simp [active_of_deletionDue hdue]), List.map_cons,
          List.append_cons]
        rfl

/-- With ages in order a retention pass removes entries from the front of the log
only. -/
theorem Represents.retention_suffix {Z : Zstd} {log : PartitionLog} {layout : Layout}
    (hrep : log.Represents Z layout) {env : RetentionEnv} {policy : RetentionPolicy}
    (hages : log.AgesOrdered env) {state : RetentionState}
    (h : retentionLoop env policy log.segmentSummaries (RetentionState.initial log) =
      (state, .ok ())) :
    Layout.entries (layout.filter fun s ↦ s.base ∉ state.deletedLogs) <:+ layout.entries := by
  have hkeys := hrep.key_segmentSummaries
  have hsummaries : log.segmentSummaries.Pairwise fun s t ↦
      fileAgeSecondsOrZero (env.age t.baseOffset) ≤
        fileAgeSecondsOrZero (env.age s.baseOffset) := by
    have hlayout : (layout.map log.segmentKey).Pairwise fun k k' ↦
        fileAgeSecondsOrZero (env.age k'.1) ≤ fileAgeSecondsOrZero (env.age k.1) := by
      rw [AgesOrdered, hrep.logs, Layout.files, List.pairwise_map] at hages
      exact List.pairwise_map.mpr hages
    rw [← hkeys, List.pairwise_map] at hlayout
    exact hlayout
  obtain ⟨older, newer, hsplit, hdeleted⟩ := retentionLoop_ordered hsummaries h
  rw [hsplit, List.map_append] at hkeys
  obtain ⟨front, back, hlayout, hfront, hback⟩ := List.map_eq_append_iff.mp hkeys.symm
  have hnames : state.deletedLogs =
      (front.filter fun s ↦ !(s.base == log.activeSegmentBase)).map Segment.base := by
    calc state.deletedLogs
        = ((older.map SegmentSummary.key).filter fun k ↦ !k.2.2).map Prod.fst := by
          rw [hdeleted, List.filter_map, List.map_map]
          rfl
      _ = ((front.map log.segmentKey).filter fun k ↦ !k.2.2).map Prod.fst := by rw [hfront]
      _ = _ := by
          rw [List.filter_map, List.map_map]
          rfl
  have hdeletedFront : ∀ s ∈ front, s.base ≠ log.activeSegmentBase → s.base ∈ state.deletedLogs :=
    fun s hs hne ↦ by
      rw [hnames]
      exact List.mem_map_of_mem (List.mem_filter.mpr ⟨hs, by simpa using hne⟩)
  have hbases := hrep.placed.bases
  rw [hlayout] at hbases
  obtain ⟨a, ha, hactive⟩ := hrep.active
  have hbehind := hrep.placeable.behind
  rw [hlayout, List.mem_append] at ha
  rw [hlayout] at hbehind ⊢
  rcases ha with ha | ha
  · -- Everything before the active segment is gone, and nothing is stored behind it.
    obtain ⟨before, after, rfl⟩ := List.append_of_mem ha
    rw [List.append_assoc, List.cons_append] at hbases hbehind ⊢
    have hbefore : ∀ s ∈ before, s.base < a.base := fun s hs ↦
      (List.pairwise_append.mp hbases).2.2 s hs a List.mem_cons_self
    have hempty : ∀ s ∈ after ++ back, s.entries = [] := fun s hs ↦
      hbehind s (List.mem_append_right _ (List.mem_cons_of_mem a hs)) (hactive ▸
        (List.pairwise_cons.mp (List.pairwise_append.mp hbases).2.1).1 s hs)
    have hgone : (before.filter fun s ↦ s.base ∉ state.deletedLogs) = [] :=
      List.filter_eq_nil_iff.mpr fun s hs ↦ by
        have hne := (hbefore s hs).ne
        rw [hactive] at hne
        simpa using hdeletedFront s (List.mem_append_left _ hs) hne
    have hkept : a.base ∉ state.deletedLogs := by
      rw [hnames, List.mem_map]
      rintro ⟨s, hs, hbase⟩
      have hne := (List.mem_filter.mp hs).2
      simp [hbase, hactive] at hne
    rw [List.filter_append, hgone, List.nil_append, List.filter_cons_of_pos (by simpa using hkept),
      Layout.entries_cons, Layout.entries_append, Layout.entries_cons,
      Layout.entries_eq_nil hempty, Layout.entries_eq_nil fun s hs ↦
        hempty s (List.mem_filter.mp hs).1, List.append_nil]
    exact List.suffix_append _ _
  · have hsep := (List.pairwise_append.mp hbases).2.2
    have hgone : (front.filter fun s ↦ s.base ∉ state.deletedLogs) = [] :=
      List.filter_eq_nil_iff.mpr fun s hs ↦ by
        have hne := (hsep s hs a ha).ne
        rw [hactive] at hne
        simpa using hdeletedFront s hs hne
    have hkept : (back.filter fun s ↦ s.base ∉ state.deletedLogs) = back :=
      List.filter_eq_self.mpr fun s hs ↦ by
        have hnot : s.base ∉ state.deletedLogs := by
          rw [hnames, List.mem_map]
          rintro ⟨t, ht, hbase⟩
          exact absurd hbase (hsep t (List.mem_filter.mp ht).1 s hs).ne
        simpa using hnot
    rw [List.filter_append, hgone, hkept, List.nil_append, Layout.entries_append]
    exact List.suffix_append _ _

end PartitionLog

end BoltStream.Storage
