import BoltStream.Storage.ArbitraryFiles
import BoltStream.Storage.LogRuns

/-!
# What an open keeps

Opening a partition keeps the entries in front of the first bytes that do not
decode.  Opening it once more changes nothing, unless an index file was left
over for a first segment that does not exist.
-/

namespace BoltStream.Storage

open BoltStream.Lib BoltStream.Protocol BoltStream.Compression

namespace PartitionLog

section Recover

variable {Z : Zstd} {options : PartitionLogOptions} {dir : Directory}

/-- What `recover` makes of the files of a directory. -/
structure Rebuilds (Z : Zstd) (options : PartitionLogOptions) (dir : Directory)
    (kept : List (ℕ × List Bytes)) (log : PartitionLog) : Prop where
  sameOptions : log.options = options
  intact : IntactPart (IsEntry Z options) dir.logs kept
  logs : log.dir.logs = contentsOf kept
  sorted : log.dir.indexes.Sorted
  indexes : ∀ name, log.dir.indexes.content? name =
    if name ∈ dir.logs.map Prod.fst then (kept.lookup name).map (indexBytes Z options name)
    else dir.indexes.content? name
  index : log.index = (indexOfAll Z options kept).insertionSort fun left right ↦
    left.offset ≤ right.offset
  nextOffset : log.nextOffset =
    ((entriesOf kept).map fun e ↦ endOffset Z options e.2).foldl max 0
  scanned : log.recoveryStats.segmentsScanned = kept.length
  recovered : log.recoveryStats.recordsRecovered = (indexOfAll Z options kept).length
  truncated : log.recoveryStats.bytesTruncated + FileTable.totalBytes (contentsOf kept) =
    dir.logs.totalBytes
  statsNext : log.recoveryStats.nextOffset = log.nextOffset

theorem recover_rebuilds (Z : Zstd) (options : PartitionLogOptions) (hlogs : dir.logs.Sorted)
    (hindexes : dir.indexes.Sorted) :
    ∃ kept, Rebuilds Z options dir kept (recover Z options dir) := by
  obtain ⟨kept, h⟩ := @recover_passes Z options dir.logs [] (RecoverState.initial dir) rfl rfl
    hlogs hindexes
  refine ⟨kept, rfl, h.intact, h.logs, h.sorted, h.indexes, ?_, h.nextOffset, ?_, ?_, ?_, rfl⟩
  · rw [recover]
    exact congrArg _ h.index
  · exact h.scanned.trans (Nat.zero_add _)
  · exact h.recovered.trans (Nat.zero_add _)
  · exact h.truncated.trans (Nat.zero_add _)

theorem names_contentsOf (kept : List (ℕ × List Bytes)) :
    (contentsOf kept).map Prod.fst = kept.map Prod.fst := by
  rw [contentsOf, List.map_map]
  rfl

section Kept

variable {kept : List (ℕ × List Bytes)} {log : PartitionLog}

theorem indexOfAll_eq_nil (hkept : ∀ file ∈ kept, ∀ c ∈ file.2, IsEntry Z options c) :
    indexOfAll Z options kept = [] ↔ entriesOf kept = [] := by
  have hfile : ∀ file ∈ kept, indexFrom Z options file.1 0 file.2 = [] ↔ file.2 = [] := by
    intro file hfile
    cases hcs : file.2 with
    | nil => simp [indexFrom]
    | cons c cs =>
        have hc := hkept file hfile c (by rw [hcs]; exact List.mem_cons_self)
        simp [indexFrom, indexOf_ne_nil hc]
  simp only [indexOfAll, entriesOf, List.flatMap_eq_nil_iff, List.map_eq_nil_iff]
  exact ⟨fun h file hmem ↦ (hfile file hmem).mp (h file hmem),
    fun h file hmem ↦ (hfile file hmem).mpr (h file hmem)⟩

theorem segment_of_mem_indexOfAll {entry : IndexEntry} (h : entry ∈ indexOfAll Z options kept) :
    entry.segment ∈ kept.map Prod.fst := by
  obtain ⟨file, hfile, hentry⟩ := List.mem_flatMap.mp h
  rw [segment_of_mem_indexFrom file.2 hentry]
  exact List.mem_map_of_mem hfile

theorem Rebuilds.mem_index (h : Rebuilds Z options dir kept log) {entry : IndexEntry} :
    entry ∈ log.index ↔ entry ∈ indexOfAll Z options kept := by
  rw [h.index, List.mem_insertionSort]

theorem Rebuilds.index_eq_nil (h : Rebuilds Z options dir kept log) :
    log.index = [] ↔ entriesOf kept = [] := by
  rw [h.index, ← indexOfAll_eq_nil h.intact.all, ← List.length_eq_zero_iff,
    List.length_insertionSort, List.length_eq_zero_iff]

theorem Rebuilds.name_lt (h : Rebuilds Z options dir kept log)
    (hnames : ∀ file ∈ dir.logs, file.1 < 2 ^ 64) : ∀ name ∈ kept.map Prod.fst, name < 2 ^ 64 := by
  intro name hname
  obtain ⟨file, hfile, rfl⟩ := List.mem_map.mp (h.intact.names.subset hname)
  exact hnames file hfile

/-- The active segment is one that was kept, or segment 0 of a log without
entries. -/
theorem Rebuilds.active (h : Rebuilds Z options dir kept log)
    (hnames : ∀ file ∈ dir.logs, file.1 < 2 ^ 64) :
    log.activeSegmentBase ∈ kept.map Prod.fst ∨
      log.activeSegmentBase = 0 ∧ entriesOf kept = [] := by
  rcases List.eq_nil_or_concat log.index with hnil | ⟨front, last, hlast⟩
  · exact Or.inr ⟨activeSegmentBase_of_nil hnil, h.index_eq_nil.mp hnil⟩
  · left
    have hmem : last ∈ log.index := by
      rw [hlast]
      simp
    have hsegment := segment_of_mem_indexOfAll (h.mem_index.mp hmem)
    rw [activeSegmentBase_of_last (by rw [hlast]; simp) (h.name_lt hnames _ hsegment)]
    exact hsegment

theorem Rebuilds.sorted_contents (h : Rebuilds Z options dir kept log) (hlogs : dir.logs.Sorted) :
    FileTable.Sorted (contentsOf kept) := by
  have hnames : (dir.logs.map Prod.fst).Pairwise (· < ·) := List.pairwise_map.mpr hlogs
  have hkept := hnames.sublist h.intact.names.sublist
  rw [← names_contentsOf, List.pairwise_map] at hkept
  exact hkept

/-- Segment 0 is the first one, so it is never behind bytes that do not decode. -/
theorem Rebuilds.zero_mem (h : Rebuilds Z options dir kept log) (hlogs : dir.logs.Sorted) :
    0 ∈ kept.map Prod.fst ↔ ∃ file ∈ dir.logs, file.1 = 0 := by
  have hhead := h.intact.head?_names
  constructor
  · intro hmem
    obtain ⟨file, hfile, hzero⟩ := List.mem_map.mp (h.intact.names.subset hmem)
    exact ⟨file, hfile, hzero⟩
  · rintro ⟨file, hfile, hzero⟩
    cases hcons : dir.logs with
    | nil =>
        rw [hcons] at hfile
        cases hfile
    | cons first rest =>
        rw [hcons] at hfile hhead hlogs
        have hfirst : first.1 = 0 := by
          rcases List.mem_cons.mp hfile with rfl | hfile
          · exact hzero
          · have hlt := (List.pairwise_cons.mp hlogs).1 file hfile
            omega
        rw [List.map_cons, List.head?_cons, hfirst] at hhead
        exact List.mem_of_mem_head? hhead

/-- The entries of the files behind an open: segment 0 may have been created. -/
def opened (kept : List (ℕ × List Bytes)) (active : ℕ) : List (ℕ × List Bytes) :=
  if active ∈ kept.map Prod.fst then kept else (0, []) :: kept

theorem entriesOf_opened (kept : List (ℕ × List Bytes)) (active : ℕ) :
    entriesOf (opened kept active) = entriesOf kept := by
  rw [opened]
  split_ifs <;> rfl

theorem indexOfAll_opened (kept : List (ℕ × List Bytes)) (active : ℕ) :
    indexOfAll Z options (opened kept active) = indexOfAll Z options kept := by
  rw [opened]
  split_ifs <;> rfl

theorem Rebuilds.logs_opened (h : Rebuilds Z options dir kept log)
    (hnames : ∀ file ∈ dir.logs, file.1 < 2 ^ 64) (hlogs : dir.logs.Sorted) :
    log.openActiveSegment.dir.logs = contentsOf (opened kept log.activeSegmentBase) := by
  have hsorted := h.sorted_contents hlogs
  change log.dir.logs.append log.activeSegmentBase [] = _
  rw [h.logs, opened]
  split_ifs with hactive
  · exact hsorted.append_nil (by rwa [names_contentsOf])
  · obtain ⟨hzero, -⟩ := (h.active hnames).resolve_left hactive
    rw [hzero] at hactive ⊢
    refine @FileTable.append_missing [] _ 0 [] (by simp) fun f hf ↦ ?_
    refine Nat.pos_of_ne_zero fun hf0 ↦ hactive ?_
    rw [← names_contentsOf, ← hf0]
    exact List.mem_map_of_mem hf

theorem Rebuilds.active_mem_opened (h : Rebuilds Z options dir kept log)
    (hnames : ∀ file ∈ dir.logs, file.1 < 2 ^ 64) :
    log.activeSegmentBase ∈ (opened kept log.activeSegmentBase).map Prod.fst := by
  rw [opened]
  split_ifs with hactive
  · exact hactive
  · rw [((h.active hnames).resolve_left hactive).1]
    exact List.mem_cons_self

end Kept

/-! ## Opening twice -/

/-- An index file of segment 0 whose log is missing, in a directory whose files
start with no entry. -/
def StaleFirstIndex (Z : Zstd) (options : PartitionLogOptions) (dir : Directory) : Prop :=
  (∀ file ∈ dir.logs, file.1 ≠ 0) ∧
    (∀ es, ParsesOver (IsEntry Z options) dir.logs es → es = []) ∧
    0 < dir.indexes.sizeOrZero 0

/-- Opening a directory that an open has left. -/
theorem Rebuilds.again {kept : List (ℕ × List Bytes)} {log : PartitionLog}
    (h : Rebuilds Z options dir kept log) (hnames : ∀ file ∈ dir.logs, file.1 < 2 ^ 64)
    (hlogs : dir.logs.Sorted) :
    Rebuilds Z options log.openActiveSegment.dir (opened kept log.activeSegmentBase)
      (recover Z options log.openActiveSegment.dir) := by
  have hfiles := h.logs_opened hnames hlogs
  have hsorted : log.openActiveSegment.dir.logs.Sorted := by
    change (log.dir.logs.append log.activeSegmentBase []).Sorted
    rw [h.logs]
    exact (h.sorted_contents hlogs).append _ _
  obtain ⟨kept', h'⟩ := recover_rebuilds Z options hsorted
    (h.sorted.append log.activeSegmentBase [])
  have hall : ∀ file ∈ opened kept log.activeSegmentBase, ∀ c ∈ file.2, IsEntry Z options c := by
    intro file hfile
    rw [opened] at hfile
    split_ifs at hfile
    · exact h.intact.all file hfile
    · rcases List.mem_cons.mp hfile with rfl | hfile
      · simp
      · exact h.intact.all file hfile
  have hintact := hfiles ▸ IntactPart.contents hall
  rwa [h'.intact.unique (selfDelimiting_isEntry Z options) hintact] at h'

section Again

variable {kept : List (ℕ × List Bytes)} {log log' : PartitionLog}

/-- A second open finds the same entries. -/
theorem Rebuilds.again_same (h : Rebuilds Z options dir kept log)
    (h' : Rebuilds Z options log.openActiveSegment.dir (opened kept log.activeSegmentBase) log') :
    log'.index = log.index ∧ log'.nextOffset = log.nextOffset ∧
      log'.activeSegmentBase = log.activeSegmentBase := by
  have hindex : log'.index = log.index := by rw [h'.index, h.index, indexOfAll_opened]
  have hnext : log'.nextOffset = log.nextOffset := by
    rw [h'.nextOffset, h.nextOffset, entriesOf_opened]
  refine ⟨hindex, hnext, ?_⟩
  unfold activeSegmentBase
  rw [hindex, hnext]

theorem Rebuilds.again_logs (h : Rebuilds Z options dir kept log)
    (h' : Rebuilds Z options log.openActiveSegment.dir (opened kept log.activeSegmentBase) log')
    (hnames : ∀ file ∈ dir.logs, file.1 < 2 ^ 64) (hlogs : dir.logs.Sorted) :
    log'.openActiveSegment.dir.logs = log.openActiveSegment.dir.logs ∧
      log'.recoveryStats.bytesTruncated = 0 := by
  have hfiles := h.logs_opened hnames hlogs
  have hactive := (h.again_same h').2.2
  have hsorted : (log.openActiveSegment.dir.logs).Sorted := by
    change (log.dir.logs.append log.activeSegmentBase []).Sorted
    rw [h.logs]
    exact (h.sorted_contents hlogs).append _ _
  constructor
  · change log'.dir.logs.append log'.activeSegmentBase [] = _
    rw [h'.logs, hactive, hfiles]
    refine FileTable.Sorted.append_nil (hfiles ▸ hsorted) ?_
    rw [names_contentsOf]
    exact h.active_mem_opened hnames
  · have htruncated := h'.truncated
    rw [hfiles] at htruncated
    omega

/-- The index file of a segment that was created by the open. -/
theorem Rebuilds.stale_of_created (h : Rebuilds Z options dir kept log)
    (hnames : ∀ file ∈ dir.logs, file.1 < 2 ^ 64) (hlogs : dir.logs.Sorted)
    (hcreated : log.activeSegmentBase ∉ kept.map Prod.fst) :
    StaleFirstIndex Z options dir ↔ 0 < dir.indexes.sizeOrZero 0 := by
  obtain ⟨hzero, hnone⟩ := (h.active hnames).resolve_left hcreated
  rw [hzero, h.zero_mem hlogs] at hcreated
  refine ⟨fun hstale ↦ hstale.2.2, fun hsize ↦ ⟨fun file hfile hbase ↦
    hcreated ⟨file, hfile, hbase⟩, fun es hes ↦ ?_, hsize⟩⟩
  have hprefix := (h.intact.longest (selfDelimiting_isEntry Z options)).2 es hes
  rw [hnone] at hprefix
  exact List.prefix_nil.mp hprefix

theorem Rebuilds.not_stale (h : Rebuilds Z options dir kept log) (hlogs : dir.logs.Sorted)
    (hactive : log.activeSegmentBase ∈ kept.map Prod.fst) : ¬ StaleFirstIndex Z options dir := by
  rintro ⟨hmissing, hnone, -⟩
  have hentries := hnone _ h.intact.parsesOver
  have hzero : log.activeSegmentBase = 0 := activeSegmentBase_of_nil (h.index_eq_nil.mpr hentries)
  rw [hzero, h.zero_mem hlogs] at hactive
  obtain ⟨file, hfile, hbase⟩ := hactive
  exact hmissing file hfile hbase

/-- A second open writes the index files anew.  They are the same, but for one
that was left over for segment 0. -/
theorem Rebuilds.again_indexes (h : Rebuilds Z options dir kept log)
    (h' : Rebuilds Z options log.openActiveSegment.dir (opened kept log.activeSegmentBase) log')
    (hnames : ∀ file ∈ dir.logs, file.1 < 2 ^ 64) (hlogs : dir.logs.Sorted) :
    log'.openActiveSegment.dir.indexes = log.openActiveSegment.dir.indexes ↔
      ¬ StaleFirstIndex Z options dir := by
  have hactive := (h.again_same h').2.2
  have hfiles : (log.openActiveSegment.dir.logs).map Prod.fst =
      (opened kept log.activeSegmentBase).map Prod.fst := by
    rw [h.logs_opened hnames hlogs, names_contentsOf]
  have hkept : ∀ name ∈ kept.map Prod.fst, name ∈ dir.logs.map Prod.fst := fun name hname ↦
    h.intact.names.subset hname
  have hfirst : ∀ name, log.openActiveSegment.dir.indexes.content? name =
      if name = log.activeSegmentBase then some ((log.dir.indexes.content? name).getD [])
      else log.dir.indexes.content? name := by
    intro name
    change (log.dir.indexes.append log.activeSegmentBase []).content? name = _
    rw [FileTable.content?_append h.sorted, List.append_nil]
    split_ifs with hname
    · rw [hname]
    · rfl
  have hsecond : ∀ name, log'.openActiveSegment.dir.indexes.content? name =
      if name = log.activeSegmentBase then some ((log'.dir.indexes.content? name).getD [])
      else log'.dir.indexes.content? name := by
    intro name
    change (log'.dir.indexes.append log'.activeSegmentBase []).content? name = _
    rw [FileTable.content?_append h'.sorted, List.append_nil, hactive]
    split_ifs with hname
    · rw [hname]
    · rfl
  -- Index files other than those of a created segment 0 are as they were.
  have hsame : ∀ name, name ∈ kept.map Prod.fst ∨
      name ∉ (opened kept log.activeSegmentBase).map Prod.fst →
      log'.openActiveSegment.dir.indexes.content? name =
        log.openActiveSegment.dir.indexes.content? name := by
    rintro name (hname | hname)
    · have hlookup : (opened kept log.activeSegmentBase).lookup name = kept.lookup name := by
        rw [opened]
        split_ifs with hcase
        · rfl
        · have hne : name ≠ 0 := fun hzero ↦ by
            rw [((h.active hnames).resolve_left hcase).1, ← hzero] at hcase
            exact hcase hname
          rw [List.lookup_cons, beq_false_of_ne hne]
      have hmem : name ∈ (opened kept log.activeSegmentBase).map Prod.fst := by
        rw [opened]
        split_ifs
        · exact hname
        · exact List.mem_cons_of_mem _ hname
      rw [hsecond, h'.indexes, hfiles, if_pos hmem, hlookup, hfirst, h.indexes,
        if_pos (hkept name hname)]
    · have hne : name ≠ log.activeSegmentBase := fun heq ↦
        hname (heq ▸ h.active_mem_opened hnames)
      rw [hsecond, if_neg hne, h'.indexes, hfiles, if_neg hname]
  by_cases hcase : log.activeSegmentBase ∈ kept.map Prod.fst
  · refine iff_of_true ?_ (h.not_stale hlogs hcase)
    refine (h'.sorted.append _ _).ext (h.sorted.append _ _) fun name ↦ hsame name ?_
    rw [opened, if_pos hcase]
    exact Decidable.em _
  · obtain ⟨hzero, -⟩ := (h.active hnames).resolve_left hcase
    have hmissing : (0 : ℕ) ∉ dir.logs.map Prod.fst := by
      rw [hzero, h.zero_mem hlogs] at hcase
      rintro hmem
      obtain ⟨file, hfile, hbase⟩ := List.mem_map.mp hmem
      exact hcase ⟨file, hfile, hbase⟩
    have hopened : opened kept log.activeSegmentBase = (0, []) :: kept := if_neg hcase
    have hfirst0 : log.openActiveSegment.dir.indexes.content? 0 =
        some ((dir.indexes.content? 0).getD []) := by
      rw [hfirst, if_pos hzero.symm, h.indexes, if_neg hmissing]
    have hsecond0 : log'.openActiveSegment.dir.indexes.content? 0 = some [] := by
      rw [hsecond, if_pos hzero.symm, h'.indexes, hfiles, hopened]
      simp [indexBytes, indexFrom]
    have hsize : dir.indexes.sizeOrZero 0 = ((dir.indexes.content? 0).getD []).length := by
      rw [FileTable.sizeOrZero]
      cases dir.indexes.content? 0 <;> rfl
    rw [h.stale_of_created hnames hlogs hcase, hsize, List.length_pos_iff, not_not]
    constructor
    · intro heq
      rw [heq, hfirst0] at hsecond0
      exact Option.some.inj hsecond0
    · intro hempty
      refine (h'.sorted.append _ _).ext (h.sorted.append _ _) fun name ↦ ?_
      by_cases hname : name = 0
      · rw [hname]
        exact hsecond0.trans (by rw [hfirst0, hempty])
      · refine hsame name ?_
        rw [hopened, List.map_cons, List.mem_cons]
        tauto

end Again

end Recover

/-! ## Any directory -/

/-- The log files hold the longest sequence of entries that decode one behind the
other, the statistics and the next offset are those of these entries, and the
index files of their segments list them. -/
structure KeepsLongest (Z : Zstd) (options : PartitionLogOptions) (dir : Directory)
    (log : PartitionLog) (kept : List (ℕ × List Bytes)) : Prop where
  longest : LongestParse (IsEntry Z options) dir.logs (entriesOf kept)
  survivors : kept.map Prod.fst <+: dir.logs.map Prod.fst
  logs : log.dir.logs = FileTable.append (contentsOf kept) log.activeSegmentBase []
  truncated : log.recoveryStats.bytesTruncated + log.dir.logs.totalBytes = dir.logs.totalBytes
  nextOffset : log.nextOffset =
    ((entriesOf kept).map fun e ↦ endOffset Z options e.2).foldl max 0
  indexes : ∀ file ∈ kept,
    log.dir.indexes.content? file.1 = some (indexBytes Z options file.1 file.2)
  index : log.index.Perm (indexOfAll Z options kept)
  recovered : log.recoveryStats.recordsRecovered = log.index.length

/-- Opening the directory of the log again gives the log, with other statistics
that count no truncated byte. -/
def ReopensUnchanged (Z : Zstd) (log : PartitionLog) : Prop :=
  ∃ again, openLog Z log.options log.dir = .ok again ∧
    again = { log with recoveryStats := again.recoveryStats } ∧
    again.recoveryStats.bytesTruncated = 0 ∧
    again.recoveryStats.recordsRecovered = log.recoveryStats.recordsRecovered

/-- An open succeeds, keeps the longest sequence of entries, and another open has
nothing left to do. -/
def RecoversExactly (Z : Zstd) (options : PartitionLogOptions) (dir : Directory) : Prop :=
  ∃ log kept, openLog Z options dir = .ok log ∧ KeepsLongest Z options dir log kept ∧
    ReopensUnchanged Z log

theorem eq_withStats {log log' : PartitionLog} (hoptions : log'.options = log.options)
    (hlogs : log'.dir.logs = log.dir.logs) (hindexes : log'.dir.indexes = log.dir.indexes)
    (hindex : log'.index = log.index) (hnext : log'.nextOffset = log.nextOffset) :
    log' = { log with recoveryStats := log'.recoveryStats } := by
  obtain ⟨options, ⟨logs, indexes⟩, index, next, stats⟩ := log
  obtain ⟨options', ⟨logs', indexes'⟩, index', next', stats'⟩ := log'
  simp only at hoptions hlogs hindexes hindex hnext
  simp only [hoptions, hlogs, hindexes, hindex, hnext]

theorem Rebuilds.keepsLongest {Z : Zstd} {options : PartitionLogOptions} {dir : Directory}
    {kept : List (ℕ × List Bytes)} {log : PartitionLog} (h : Rebuilds Z options dir kept log)
    (hlogs : dir.logs.Sorted) : KeepsLongest Z options dir log.openActiveSegment kept := by
  have hsorted := h.sorted_contents hlogs
  refine ⟨h.intact.longest (selfDelimiting_isEntry Z options), h.intact.names, ?_, ?_,
    h.nextOffset, fun file hfile ↦ ?_, ?_, ?_⟩
  · rw [← h.logs]
    rfl
  · change _ + (log.dir.logs.append log.activeSegmentBase []).totalBytes = _
    rw [FileTable.totalBytes_append_nil, h.logs]
    exact h.truncated
  · have hlookup : kept.lookup file.1 = some file.2 := by
      obtain ⟨before, after, rfl⟩ := List.append_of_mem hfile
      refine List.lookup_eq_some_iff.mpr ⟨before, after, rfl, fun other hother ↦ ?_⟩
      have hparts := List.pairwise_append.mp (List.pairwise_map.mp hsorted)
      simpa using (hparts.2.2 other hother file List.mem_cons_self).ne'
    have hname := h.intact.names.subset (List.mem_map_of_mem (f := Prod.fst) hfile)
    have hcontent : log.dir.indexes.content? file.1 =
        some (indexBytes Z options file.1 file.2) := by
      rw [h.indexes, if_pos hname, hlookup]
      rfl
    change (log.dir.indexes.append log.activeSegmentBase []).content? file.1 = _
    rw [FileTable.content?_append h.sorted]
    split_ifs with hactive
    · rw [← hactive, hcontent]
      simp
    · exact hcontent
  · change log.index.Perm _
    rw [h.index]
    exact List.perm_insertionSort _ _
  · change log.recoveryStats.recordsRecovered = log.index.length
    rw [h.recovered, h.index, List.length_insertionSort]

/-- For all files an open keeps what decodes in front of the first damage, and
another open changes nothing, unless the index file of a missing first segment
was left over. -/
theorem recoversExactly_iff (Z : Zstd) (options : PartitionLogOptions)
    (hoptions : OpenOptions options) (dir : Directory) (hlogs : dir.logs.Sorted)
    (hnames : ∀ file ∈ dir.logs, file.1 < 2 ^ 64) (hindexes : dir.indexes.Sorted) :
    RecoversExactly Z options dir ↔ ¬ StaleFirstIndex Z options dir := by
  obtain ⟨kept, h⟩ := recover_rebuilds Z options hlogs hindexes
  have hopen := openLog_eq hoptions Z dir
  have hopen' := openLog_eq hoptions Z (recover Z options dir).openActiveSegment.dir
  have h' := h.again hnames hlogs
  obtain ⟨hindex, hnext, -⟩ := h.again_same h'
  obtain ⟨hagainLogs, htruncated⟩ := h.again_logs h' hnames hlogs
  rw [← h.again_indexes h' hnames hlogs]
  set log := recover Z options dir
  constructor
  · rintro ⟨opened, -, hopened, -, again, hagain, hsame, -⟩
    obtain rfl : opened = log.openActiveSegment := Except.ok.inj (hopened.symm.trans hopen)
    obtain rfl : again = (recover Z options log.openActiveSegment.dir).openActiveSegment :=
      Except.ok.inj (hagain.symm.trans hopen')
    rw [hsame]
  · intro hagainIndexes
    refine ⟨log.openActiveSegment, kept, hopen, h.keepsLongest hlogs, _, hopen', ?_, htruncated, ?_⟩
    · exact eq_withStats rfl hagainLogs hagainIndexes hindex hnext
    · change (recover Z options log.openActiveSegment.dir).recoveryStats.recordsRecovered =
        log.recoveryStats.recordsRecovered
      rw [h'.recovered, h.recovered, indexOfAll_opened]

/-- A record with two torn bytes behind it, in a directory with index files of
other content. -/
theorem recoversExactly_tornRecord :
    RecoversExactly noZstd smallSegments
      { logs := [(0, frameBody (recordBody 0 7 [107] [118]) ++ [0, 0])]
        indexes := [(0, [9]), (7, [1])] } := by
  refine (recoversExactly_iff noZstd smallSegments ⟨by decide, by decide⟩ _
    (by simp [FileTable.Sorted]) (by simp) (by simp [FileTable.Sorted])).mpr ?_
  rintro ⟨hmissing, -⟩
  exact hmissing _ (List.mem_singleton.mpr rfl) rfl

/-- A directory with nothing but an index file: the second open empties it. -/
theorem not_recoversExactly_staleIndex :
    ¬ RecoversExactly noZstd smallSegments { logs := [], indexes := [(0, [1])] } := by
  rintro ⟨log, kept, hopen, -, again, hagain, hsame, -⟩
  have hoptions : OpenOptions smallSegments := ⟨by decide, by decide⟩
  obtain rfl := Except.ok.inj (hopen.symm.trans (openLog_eq hoptions noZstd _))
  obtain rfl := Except.ok.inj (hagain.symm.trans (openLog_eq hoptions noZstd _))
  have hindexes := congrArg (fun log : PartitionLog ↦ log.dir.indexes) hsame
  revert hindexes
  decide

end PartitionLog

end BoltStream.Storage
