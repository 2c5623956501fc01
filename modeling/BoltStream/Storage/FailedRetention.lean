import BoltStream.Storage.RetentionEffect

/-!
# A retention pass that fails

The pass removes segments one by one and drops their index entries at the end.
When a removal fails in between, the index still lists the segments that are
gone.
-/

namespace BoltStream.Storage

open BoltStream.Lib BoltStream.Protocol BoltStream.Compression

namespace PartitionLog

/-- The index lists entries of the segment. -/
def Stored (log : PartitionLog) (segment : ℕ) : Prop := ∃ entry ∈ log.index, entry.segment = segment

/-- The walk comes to a removal that fails before it has removed the log of a
segment with entries. -/
def FailsBefore (env : RetentionEnv) (policy : RetentionPolicy) (stored : ℕ → Prop)
    (totalBytes : ℕ) (summaries : List SegmentSummary) : Prop :=
  ∃ before summary after, summaries = before ++ summary :: after ∧
    deletionDue env policy totalBytes summary = true ∧
    (env.removeLogFails summary.baseOffset = true ∨
      ¬ stored summary.baseOffset ∧ env.removeIndexFails summary.baseOffset = true) ∧
    ∀ other ∈ before, deletionDue env policy totalBytes other = true → ¬ stored other.baseOffset

/-- The same condition on a log. -/
def FailsBeforeStored (env : RetentionEnv) (policy : RetentionPolicy) (log : PartitionLog) : Prop :=
  FailsBefore env policy log.Stored log.dir.logs.totalBytes log.segmentSummaries

section Walk

variable {env : RetentionEnv} {policy : RetentionPolicy} {stored : ℕ → Prop} {totalBytes : ℕ}
  {summary : SegmentSummary} {rest : List SegmentSummary}

/-- The first segment decides, unless it is passed over or empty. -/
theorem failsBefore_cons :
    FailsBefore env policy stored totalBytes (summary :: rest) ↔
      deletionDue env policy totalBytes summary = true ∧
          (env.removeLogFails summary.baseOffset = true ∨
            ¬ stored summary.baseOffset ∧ env.removeIndexFails summary.baseOffset = true) ∨
        (deletionDue env policy totalBytes summary = true → ¬ stored summary.baseOffset) ∧
          FailsBefore env policy stored totalBytes rest := by
  constructor
  · rintro ⟨before, failing, after, hsplit, hdue, hfails, hbefore⟩
    cases before with
    | nil =>
        obtain ⟨rfl, -⟩ := List.cons.inj hsplit
        exact Or.inl ⟨hdue, hfails⟩
    | cons first before =>
        obtain ⟨rfl, hrest⟩ := List.cons.inj hsplit
        obtain ⟨hfirst, hbefore⟩ := List.forall_mem_cons.mp hbefore
        exact Or.inr ⟨hfirst, before, failing, after, hrest, hdue, hfails, hbefore⟩
  · rintro (⟨hdue, hfails⟩ | ⟨hfirst, before, failing, after, hrest, hdue, hfails, hbefore⟩)
    · exact ⟨[], summary, rest, rfl, hdue, hfails, by simp⟩
    · exact ⟨summary :: before, failing, after, by rw [hrest]; rfl, hdue, hfails,
        List.forall_mem_cons.mpr ⟨hfirst, hbefore⟩⟩

/-- What a walk that fails has removed, and whether entries were stored there. -/
theorem retentionLoop_fails {summaries : List SegmentSummary}
    (hempty : ∀ summary ∈ summaries, ¬ stored summary.baseOffset → summary.logBytes = 0) :
    ∀ {state state' : RetentionState} {message : String},
      retentionLoop env policy summaries state = (state', .error message) →
      ∃ gone : List ℕ, state'.dir.logs = state.dir.logs.filter (fun file ↦ file.1 ∉ gone) ∧
        ((∀ name ∈ gone, ¬ stored name) ↔
          FailsBefore env policy stored state.totalBytes summaries) := by
  induction summaries with
  | nil =>
      intro state state' message h
      cases (Prod.mk.inj h).2
  | cons summary rest ih =>
      intro state state' message h
      obtain ⟨hsummary, hrest⟩ := List.forall_mem_cons.mp hempty
      rw [retentionLoop] at h
      rw [failsBefore_cons]
      by_cases hdue : deletionDue env policy state.totalBytes summary = false
      · rw [if_pos hdue] at h
        obtain ⟨gone, hlogs, hiff⟩ := ih hrest h
        exact ⟨gone, hlogs, by simp [hiff, hdue]⟩
      rw [if_neg hdue] at h
      rw [Bool.not_eq_false] at hdue
      by_cases hlog : env.removeLogFails summary.baseOffset = true
      · rw [if_pos hlog] at h
        obtain ⟨rfl, -⟩ := Prod.mk.inj h
        exact ⟨[], by simp, by simp [hdue, hlog]⟩
      rw [if_neg hlog] at h
      by_cases hindex : env.removeIndexFails summary.baseOffset = true
      · simp only [hindex, if_true] at h
        obtain ⟨rfl, -⟩ := Prod.mk.inj h
        refine ⟨[summary.baseOffset], by simp [FileTable.remove], ?_⟩
        simp only [List.forall_mem_singleton, hdue, hlog, hindex, true_and, and_true, forall_const]
        tauto
      · simp only [hindex, Bool.false_eq_true, if_false] at h
        obtain ⟨gone, hlogs, hiff⟩ := @ih hrest (state.delete summary) state' message h
        refine ⟨summary.baseOffset :: gone, hlogs.trans (filter_remove _ _ _), ?_⟩
        rw [List.forall_mem_cons, hiff]
        simp only [hdue, hlog, hindex, Bool.false_eq_true, and_false, false_or, forall_const]
        refine and_congr_right fun hnone ↦ ?_
        have htotal : (state.delete summary).totalBytes = state.totalBytes := by
          simp [RetentionState.delete, hsummary hnone]
        rw [htotal]

end Walk

theorem applyRetention_error {log log' : PartitionLog} {env : RetentionEnv}
    {policy : RetentionPolicy} {message : String}
    (h : log.applyRetention env policy = (log', .error message)) :
    ∃ walk, retentionLoop env policy log.segmentSummaries (RetentionState.initial log) =
        (walk, .error message) ∧ log' = { log with dir := walk.dir } := by
  rw [applyRetention] at h
  cases hwalk : retentionLoop env policy log.segmentSummaries (RetentionState.initial log) with
  | mk walk result =>
      cases result with
      | error text =>
          simp only [hwalk] at h
          obtain ⟨rfl, hmessage⟩ := Prod.mk.inj h
          exact ⟨walk, by rw [Except.error.inj hmessage], rfl⟩
      | ok =>
          simp only [hwalk] at h
          cases (Prod.mk.inj h).2

/-- A record cannot be read from a segment that is gone. -/
theorem readEntry_removed {Z : Zstd} {log : PartitionLog} {entry : IndexEntry}
    (h : log.dir.logs.content? entry.segment = none) :
    log.readEntry Z entry = .error "failed to open segment for read" := by
  rw [readEntry, readStored, h]
  rfl

theorem Listed.logBytes_of_not_stored {log : PartitionLog} (h : log.Listed) :
    ∀ summary ∈ log.segmentSummaries, ¬ log.Stored summary.baseOffset → summary.logBytes = 0 := by
  intro summary hsummary hnone
  have hkey := List.mem_map_of_mem (f := SegmentSummary.key) hsummary
  rw [key_segmentSummaries h.sorted h.listed] at hkey
  obtain ⟨file, hfile, hsame⟩ := List.mem_map.mp hkey
  have hbase : file.1 = summary.baseOffset := congrArg Prod.fst hsame
  have hbytes : file.2.length = summary.logBytes := congrArg (fun key ↦ key.2.1) hsame
  rw [← hbytes, List.length_eq_zero_iff]
  by_contra hcontent
  obtain ⟨entry, hentry, hsegment⟩ := h.stored file hfile hcontent
  exact hnone ⟨entry, hentry, hsegment.trans hbase⟩

theorem Listed.allReadable_iff {Z : Zstd} {log log' : PartitionLog} (h : log.Listed)
    {env : RetentionEnv} {policy : RetentionPolicy} {message : String}
    (hretention : log.applyRetention env policy = (log', .error message)) :
    log'.AllReadable Z ↔ log.AllReadable Z ∧ FailsBeforeStored env policy log := by
  obtain ⟨walk, hwalk, rfl⟩ := applyRetention_error hretention
  obtain ⟨gone, hlogs, hiff⟩ := retentionLoop_fails h.logBytes_of_not_stored hwalk
  have htotal : (RetentionState.initial log).totalBytes = log.dir.logs.totalBytes :=
    logBytes_eq log (key_segmentSummaries h.sorted h.listed)
  rw [htotal] at hiff
  have hcontent : ∀ name, walk.dir.logs.content? name =
      if name ∈ gone then none else log.dir.logs.content? name := by
    intro name
    rw [hlogs]
    have hfilter := FileTable.content?_filter (RetentionState.initial log).dir.logs
      (fun other ↦ decide (other ∉ gone)) name
    rw [hfilter]
    by_cases hname : name ∈ gone <;> simp [hname, RetentionState.initial]
  rw [FailsBeforeStored, ← hiff]
  constructor
  · intro hreadable
    have hkept : ∀ entry ∈ log.index, entry.segment ∉ gone := by
      intro entry hentry hgone
      obtain ⟨record, hrecord⟩ := hreadable entry hentry
      rw [readEntry_removed ((hcontent _).trans (if_pos hgone))] at hrecord
      cases hrecord
    constructor
    · intro entry hentry
      obtain ⟨record, hrecord⟩ := hreadable entry hentry
      refine ⟨record, ?_⟩
      rw [← hrecord]
      exact readEntry_congr rfl ((hcontent _).trans (if_neg (hkept entry hentry))).symm
    · rintro name hname ⟨entry, hentry, hsegment⟩
      exact hkept entry hentry (hsegment ▸ hname)
  · rintro ⟨hreadable, hkept⟩ entry hentry
    obtain ⟨record, hrecord⟩ := hreadable entry hentry
    have hsegment : entry.segment ∉ gone := fun hgone ↦ hkept _ hgone ⟨entry, hentry, rfl⟩
    refine ⟨record, ?_⟩
    rw [← hrecord]
    exact readEntry_congr rfl ((hcontent _).trans (if_neg hsegment))

end PartitionLog

open PartitionLog

/-- After a retention pass that fails, every record the index lists can be read
exactly when all could be read before and no log with entries was removed before
the removal that fails. -/
theorem failedRetention_readable_iff (Z : Zstd) (options : PartitionLogOptions)
    (log₀ : PartitionLog) (hopened : openLog Z options {} = .ok log₀) (ops : List LogOp)
    (state : LogState) (hrun : run (LogState.step Z) ⟨log₀, []⟩ ops = some state)
    (env : RetentionEnv) (policy : RetentionPolicy) (log' : PartitionLog) (message : String)
    (hretention : state.log.applyRetention env policy = (log', .error message)) :
    log'.AllReadable Z ↔ state.log.AllReadable Z ∧ FailsBeforeStored env policy state.log :=
  (listed_run hopened hrun).allReadable_iff hretention

/-- Every removal of a segment log fails. -/
def stuckLogs : RetentionEnv := ⟨fun _ ↦ ⟨none, 0⟩, fun _ ↦ true, fun _ ↦ false⟩

/-- Every removal of an index file fails. -/
def stuckIndexes : RetentionEnv := ⟨fun _ ↦ ⟨none, 0⟩, fun _ ↦ false, fun _ ↦ true⟩

/-- The first removal fails, so nothing is lost. -/
theorem failedRetention_readable_stuckLogs :
    ∃ state log' message, run (LogState.step noZstd) ⟨emptyLog smallSegments, []⟩ twoSegments =
        some state ∧
      state.log.applyRetention stuckLogs ⟨0, 60⟩ = (log', .error message) ∧
      log'.AllReadable noZstd := by
  have hends : (run (LogState.step noZstd) ⟨emptyLog smallSegments, []⟩ twoSegments).map
      (fun state ↦ decide ((state.log.applyRetention stuckLogs ⟨0, 60⟩).2.toBool = false ∧
        (state.log.index.all fun entry ↦ (state.log.readEntry noZstd entry).toBool) = true ∧
        state.log.segmentSummaries.head?.map (deletionDue stuckLogs ⟨0, 60⟩
          state.log.dir.logs.totalBytes) = some true)) = some true := by decide +kernel
  obtain ⟨state, hrun, hends⟩ := Option.map_eq_some_iff.mp hends
  obtain ⟨herror, hreadable, hdue⟩ := of_decide_eq_true hends
  cases hretention : state.log.applyRetention stuckLogs ⟨0, 60⟩ with
  | mk log' result =>
      rw [hretention] at herror
      cases result with
      | ok stats => cases herror
      | error message =>
          refine ⟨state, log', message, hrun, hretention, ?_⟩
          refine (failedRetention_readable_iff noZstd smallSegments _
            (openLog_empty ⟨by decide, by decide⟩ noZstd) twoSegments state hrun stuckLogs ⟨0, 60⟩
            log' message hretention).mpr ⟨fun entry hentry ↦ ?_, ?_⟩
          · have hentry := List.all_eq_true.mp hreadable entry hentry
            cases hread : state.log.readEntry noZstd entry with
            | error message =>
                rw [hread] at hentry
                cases hentry
            | ok record => exact ⟨record, rfl⟩
          · obtain ⟨summary, hhead, hdue⟩ := Option.map_eq_some_iff.mp hdue
            obtain ⟨rest, hsplit⟩ := List.head?_eq_some_iff.mp hhead
            exact ⟨[], summary, rest, hsplit, hdue, Or.inl rfl, by simp⟩

/-- The log of the first segment is removed, its index file is not: the earliest
offset cannot be fetched any more. -/
theorem failedRetention_unreadable_stuckIndexes :
    ∃ state log' message, run (LogState.step noZstd) ⟨emptyLog smallSegments, []⟩ twoSegments =
        some state ∧
      state.log.applyRetention stuckIndexes ⟨0, 60⟩ = (log', .error message) ∧
      ¬ log'.AllReadable noZstd ∧
      log'.readFrom noZstd log'.earliestOffset 1 0 =
        .error "failed to open segment for read" := by
  have hends : (run (LogState.step noZstd) ⟨emptyLog smallSegments, []⟩ twoSegments).map
      (fun state ↦ decide ((state.log.applyRetention stuckIndexes ⟨0, 60⟩).2.toBool = false ∧
        ((state.log.applyRetention stuckIndexes ⟨0, 60⟩).1.index.all fun entry ↦
          ((state.log.applyRetention stuckIndexes ⟨0, 60⟩).1.readEntry noZstd entry).toBool) =
            false ∧
        (state.log.applyRetention stuckIndexes ⟨0, 60⟩).1.readFrom noZstd
          (state.log.applyRetention stuckIndexes ⟨0, 60⟩).1.earliestOffset 1 0 =
            .error "failed to open segment for read")) = some true := by decide
  obtain ⟨state, hrun, hends⟩ := Option.map_eq_some_iff.mp hends
  obtain ⟨herror, hunreadable, hfetch⟩ := of_decide_eq_true hends
  cases hretention : state.log.applyRetention stuckIndexes ⟨0, 60⟩ with
  | mk log' result =>
      rw [hretention] at herror hunreadable hfetch
      cases result with
      | ok stats => cases herror
      | error message =>
          refine ⟨state, log', message, hrun, hretention, fun hall ↦ ?_, hfetch⟩
          obtain ⟨entry, hentry, hread⟩ := List.all_eq_false.mp hunreadable
          obtain ⟨record, hrecord⟩ := hall entry hentry
          rw [hrecord] at hread
          exact hread rfl

end BoltStream.Storage
