import BoltStream.Storage.Layout

/-!
# Logs and their layouts

`Represents` ties a partition log to the layout it stores: the segment files
hold the entries of the layout and the in-memory index lists them.  Opening a
directory whose files hold a layout gives a log that represents it; when the
files end in bytes that do not decode, the layout loses what follows them.
-/

namespace BoltStream.Storage

open BoltStream.Lib BoltStream.Protocol BoltStream.Compression

namespace Entry

/-- An entry as an accepted append writes it. -/
def Written (Z : Zstd) (e : Entry) : Prop := e.Fits ∧ ∃ limit, e.Accepted Z limit

theorem Written.count_pos {Z : Zstd} {e : Entry} (h : e.Written Z) : 0 < e.count :=
  Entry.count_pos h.2.choose_spec

theorem Written.stop_lt {Z : Zstd} {e : Entry} (h : e.Written Z) : e.stop < 2 ^ 64 := h.1.1

end Entry

namespace PartitionLog

/-- The directory and the index of a log hold the layout. -/
structure Represents (Z : Zstd) (log : PartitionLog) (layout : Layout) : Prop where
  logs : log.dir.logs = layout.files
  index : log.index = layout.index
  placed : layout.WellPlaced log.nextOffset
  bound : log.nextOffset < 2 ^ 64
  written : ∀ e ∈ layout.entries, e.Written Z
  active : ∃ s ∈ layout, s.base = log.activeSegmentBase

/-! ## The active segment -/

theorem activeSegmentBase_of_nil {log : PartitionLog} (h : log.index = []) :
    log.activeSegmentBase = 0 := by
  rw [activeSegmentBase, h]
  rfl

theorem activeSegmentBase_of_last {log : PartitionLog} {entry : IndexEntry}
    (h : log.index.getLast? = some entry) (hbase : entry.segment < 2 ^ 64) :
    log.activeSegmentBase = entry.segment := by
  unfold activeSegmentBase
  rw [h]
  simp only [parseBaseOffset_segmentPath hbase, Option.getD_some]

section Active

variable {Z : Zstd} {log : PartitionLog} {layout : Layout}

theorem activeSegmentBase_of_lastStored (hindex : log.index = layout.index)
    (hplaced : layout.WellPlaced log.nextOffset) (hbound : log.nextOffset < 2 ^ 64)
    (hcount : ∀ e ∈ layout.entries, 0 < e.count) {s : Segment} (hs : layout.LastStored s) :
    log.activeSegmentBase = s.base := by
  obtain ⟨entry, hlast, hsegment⟩ := hs.segment_eq hplaced.bases hcount
  have hlt := hplaced.base_lt hcount hs.mem hs.stored
  rw [activeSegmentBase_of_last (hindex ▸ hlast) (by omega), hsegment]

/-- Appends go to the active segment. -/
theorem placeable_active (hindex : log.index = layout.index)
    (hplaced : layout.WellPlaced log.nextOffset) (hbound : log.nextOffset < 2 ^ 64)
    (hcount : ∀ e ∈ layout.entries, 0 < e.count) :
    layout.Placeable log.nextOffset log.activeSegmentBase := by
  by_cases hnil : layout.entries = []
  · have hempty : ∀ s ∈ layout, s.entries = [] := List.flatMap_eq_nil_iff.mp hnil
    have hbase : log.activeSegmentBase = 0 :=
      activeSegmentBase_of_nil (hindex.trans (Layout.index_of_entries_nil hempty))
    have hnext : log.nextOffset = 0 := hplaced.start hnil
    exact ⟨fun s hs _ ↦ hempty s hs, fun _ ↦ by rw [hbase, hnext]⟩
  · obtain ⟨s, hs⟩ := Layout.exists_lastStored hplaced.bases hnil
    rw [activeSegmentBase_of_lastStored hindex hplaced hbound hcount hs]
    exact ⟨hs.behind, fun h ↦ absurd (h s hs.mem rfl) hs.stored⟩

end Active

/-! ## Scanning -/

/-- Bytes at which the scan of a segment gives up. -/
def Breaks (Z : Zstd) (options : PartitionLogOptions) (rest : Bytes) : Prop :=
  ∀ segment fuel next position, scanLoop Z options segment (fuel + 1) next position rest =
    .stopped next position true

theorem breaks_torn (Z : Zstd) (options : PartitionLogOptions) {e : Entry} (hfits : e.Fits)
    {torn : Bytes} (hfrontBytes : torn <+: e.bytes) (hne : torn ≠ [])
    (hlt : torn.length < e.bytes.length) : Breaks Z options torn :=
  fun segment fuel next position ↦
    Entry.scanLoop_torn Z options segment fuel next position hfits hfrontBytes hne hlt

theorem breaks_not_decodable {Z : Zstd} {options : PartitionLogOptions} {e : Entry}
    (hwritten : e.Written Z) (hrefused : ¬ e.Decodable options.maxUncompressedBatchBytes)
    (rest : Bytes) : Breaks Z options (e.bytes ++ rest) := by
  intro segment fuel next position
  obtain ⟨hfits, limit, haccepted⟩ := hwritten
  obtain ⟨message, hscan⟩ :=
    Entry.scanEntry_of_not_decodable segment position hfits haccepted hrefused
  rw [Entry.scanLoop_bytes segment fuel next position hfits, hscan]

theorem length_le_content (es : List Entry) : es.length ≤ (es.flatMap Entry.bytes).length := by
  induction es with
  | nil => exact le_rfl
  | cons e es ih =>
      have hpos := Entry.bytes_length_pos e
      rw [List.flatMap_cons, List.length_append, List.length_cons]
      omega

/-- The scan of a segment that holds whole entries. -/
theorem scanSegment_entries {Z : Zstd} {options : PartitionLogOptions} {es : List Entry}
    (hkept : ∀ e ∈ es, e.Kept Z options) (next base : ℕ) :
    scanSegment Z options next (base, es.flatMap Entry.bytes) =
      { entries := Entry.indexFrom base 0 es
        nextOffset := Entry.stopAfter next es
        recordsRecovered := (Entry.indexFrom base 0 es).length
        position := (es.flatMap Entry.bytes).length
        truncate := false } := by
  have hle := length_le_content es
  have hfuel : (es.flatMap Entry.bytes).length + 1 =
      ((es.flatMap Entry.bytes).length + 1 - es.length) + es.length := by omega
  have hloop := Entry.scanLoop_entries base hkept []
    ((es.flatMap Entry.bytes).length + 1 - es.length) next 0
  rw [List.append_nil, Entry.scanLoop_nil] at hloop
  rw [scanSegment, hfuel, hloop]
  simp [SegmentScan.prepend, SegmentScan.stopped]

/-- The scan of a segment whose whole entries are followed by bytes that do not
decode. -/
theorem scanSegment_broken {Z : Zstd} {options : PartitionLogOptions} {es : List Entry}
    (hkept : ∀ e ∈ es, e.Kept Z options) {rest : Bytes} (hbreaks : Breaks Z options rest)
    (next base : ℕ) :
    scanSegment Z options next (base, es.flatMap Entry.bytes ++ rest) =
      { entries := Entry.indexFrom base 0 es
        nextOffset := Entry.stopAfter next es
        recordsRecovered := (Entry.indexFrom base 0 es).length
        position := (es.flatMap Entry.bytes).length
        truncate := true } := by
  have hle := length_le_content es
  have hfuel : (es.flatMap Entry.bytes ++ rest).length + 1 =
      ((es.flatMap Entry.bytes ++ rest).length - es.length + 1) + es.length := by
    rw [List.length_append]
    omega
  rw [scanSegment, hfuel, Entry.scanLoop_entries base hkept, hbreaks]
  simp [SegmentScan.prepend, SegmentScan.stopped]

/-! ## Recovering -/

/-- The walk of `recover` over segments of whole entries. -/
theorem recoverSegment_files {Z : Zstd} {options : PartitionLogOptions} (layout : Layout)
    (hkept : ∀ e ∈ layout.entries, e.Kept Z options) (state : RecoverState)
    (hgo : state.stopAfterCorruption = false) :
    ∃ indexes stats, layout.files.foldl (recoverSegment Z options) state =
      { dir := { logs := state.dir.logs, indexes := indexes }
        index := state.index ++ layout.index
        nextOffset := Entry.stopAfter state.nextOffset layout.entries
        stats := stats
        stopAfterCorruption := false } := by
  induction layout generalizing state with
  | nil =>
      refine ⟨state.dir.indexes, state.stats, ?_⟩
      simp [Layout.files, Layout.index, Layout.entries, Entry.stopAfter, ← hgo]
  | cons s layout ih =>
      have hhead : ∀ e ∈ s.entries, e.Kept Z options := fun e he ↦
        hkept e (by rw [Layout.entries_cons]; exact List.mem_append_left _ he)
      have htail : ∀ e ∈ Layout.entries layout, e.Kept Z options := fun e he ↦
        hkept e (by rw [Layout.entries_cons]; exact List.mem_append_right _ he)
      have hscan := scanSegment_entries hhead state.nextOffset s.base
      rw [Layout.files_cons, List.foldl_cons]
      obtain ⟨indexes, stats, hfold⟩ := ih htail (recoverSegment Z options state s.file) (by
        simp [recoverSegment, hgo, Segment.file, Segment.content, hscan])
      refine ⟨indexes, stats, ?_⟩
      rw [hfold]
      simp [recoverSegment, hgo, Segment.file, Segment.content, hscan, Layout.index_cons,
        Layout.entries_cons, Segment.index, Entry.stopAfter, List.foldl_append]

/-- Segments behind a broken one are removed. -/
theorem recoverSegment_stopped {Z : Zstd} {options : PartitionLogOptions} (files : FileTable)
    (state : RecoverState) (hstop : state.stopAfterCorruption = true) :
    files.foldl (recoverSegment Z options) state =
      { dir :=
          { logs := state.dir.logs.filter fun file ↦ file.1 ∉ files.map Prod.fst
            indexes := state.dir.indexes.filter fun file ↦ file.1 ∉ files.map Prod.fst }
        index := state.index
        nextOffset := state.nextOffset
        stats :=
          { state.stats with
            bytesTruncated :=
              state.stats.bytesTruncated + (files.map fun file ↦ file.2.length).sum }
        stopAfterCorruption := true } := by
  induction files generalizing state with
  | nil =>
      obtain ⟨dir, index, next, stats, stop⟩ := state
      obtain rfl : stop = true := hstop
      simp
  | cons file files ih =>
      have hfilter : ∀ table : FileTable,
          ((table.remove file.1).filter fun other ↦ other.1 ∉ files.map Prod.fst) =
            table.filter fun other ↦ other.1 ∉ (file :: files).map Prod.fst := by
        intro table
        rw [FileTable.remove, List.filter_filter]
        refine List.filter_congr fun other _ ↦ ?_
        simp only [List.map_cons, List.mem_cons, not_or, Bool.decide_and]
        exact Bool.and_comm _ _
      rw [List.foldl_cons, ih _ (by simp [recoverSegment, hstop])]
      simp only [recoverSegment, hstop, if_true, hfilter, List.map_cons, List.sum_cons,
        Nat.add_assoc]

/-- A broken segment is cut behind its last whole entry. -/
theorem recoverSegment_broken {Z : Zstd} {options : PartitionLogOptions} {es : List Entry}
    (hkept : ∀ e ∈ es, e.Kept Z options) {rest : Bytes} (hbreaks : Breaks Z options rest)
    (base : ℕ) (state : RecoverState) (hgo : state.stopAfterCorruption = false) :
    ∃ indexes stats, recoverSegment Z options state (base, es.flatMap Entry.bytes ++ rest) =
      { dir :=
          { logs := state.dir.logs.resize base (es.flatMap Entry.bytes).length
            indexes := indexes }
        index := state.index ++ Entry.indexFrom base 0 es
        nextOffset := Entry.stopAfter state.nextOffset es
        stats := stats
        stopAfterCorruption := true } := by
  have hscan := scanSegment_broken hkept hbreaks state.nextOffset base
  rw [recoverSegment, hgo, if_neg Bool.false_ne_true, hscan]
  exact ⟨_, _, rfl⟩

/-- The walk over whole segments, a broken one and those behind it. -/
theorem recoverSegment_broken_files {Z : Zstd} {options : PartitionLogOptions} {layout : Layout}
    {es : List Entry} (hkept : ∀ e ∈ layout.entries ++ es, e.Kept Z options) {rest : Bytes}
    (hbreaks : Breaks Z options rest) (base : ℕ) (after : FileTable) (state : RecoverState)
    (hgo : state.stopAfterCorruption = false) :
    ∃ indexes stats,
      (layout.files ++ (base, es.flatMap Entry.bytes ++ rest) :: after).foldl
          (recoverSegment Z options) state =
        { dir :=
            { logs := (state.dir.logs.resize base (es.flatMap Entry.bytes).length).filter
                fun file ↦ file.1 ∉ after.map Prod.fst
              indexes := indexes }
          index := state.index ++ layout.index ++ Entry.indexFrom base 0 es
          nextOffset := Entry.stopAfter state.nextOffset (layout.entries ++ es)
          stats := stats
          stopAfterCorruption := true } := by
  obtain ⟨indexes₁, stats₁, hfold⟩ := recoverSegment_files layout
    (fun e he ↦ hkept e (List.mem_append_left _ he)) state hgo
  rw [List.foldl_append, List.foldl_cons, hfold]
  obtain ⟨indexes₂, stats₂, hbroken⟩ := recoverSegment_broken
    (fun e he ↦ hkept e (List.mem_append_right _ he)) hbreaks base
    { dir := { logs := state.dir.logs, indexes := indexes₁ }
      index := state.index ++ layout.index
      nextOffset := Entry.stopAfter state.nextOffset layout.entries
      stats := stats₁
      stopAfterCorruption := false } rfl
  rw [hbroken, Entry.stopAfter, Entry.stopAfter, ← List.foldl_append]
  exact ⟨_, _, recoverSegment_stopped after _ rfl⟩

theorem stopAfter_le {next bound : ℕ} {es : List Entry} (hnext : next ≤ bound)
    (hstop : ∀ e ∈ es, e.stop ≤ bound) : Entry.stopAfter next es ≤ bound := by
  induction es generalizing next with
  | nil => exact hnext
  | cons e es ih =>
      exact ih (max_le hnext (hstop e (by simp))) fun f hf ↦ hstop f (List.mem_cons_of_mem e hf)

/-- The next offset `recover` finds is one past the last entry. -/
theorem stopAfter_entries {layout : Layout} {next : ℕ} (h : layout.WellPlaced next) :
    Entry.stopAfter 0 layout.entries = next := by
  rcases List.eq_nil_or_concat layout.entries with hnil | ⟨es, e, hes⟩
  · rw [hnil, h.start hnil]
    rfl
  · have hlast : e.stop = next := h.last e (by rw [hes, List.concat_eq_append]; simp)
    have hle : Entry.stopAfter 0 es ≤ next := stopAfter_le (Nat.zero_le _) fun f hf ↦
      h.stop_le f (by rw [hes, List.concat_eq_append]; exact List.mem_append_left _ hf)
    rw [hes, List.concat_eq_append, Entry.stopAfter, List.foldl_append]
    exact (max_eq_right (hlast ▸ hle)).trans hlast

theorem insertionSort_index {layout : Layout} {next : ℕ} (h : layout.WellPlaced next)
    (hstop : ∀ e ∈ layout.entries, e.stop < 2 ^ 64) :
    (layout.index.insertionSort fun left right ↦ left.offset ≤ right.offset) = layout.index := by
  apply List.Pairwise.insertionSort_eq
  have hoffsets := h.offsets_increase
  rw [← Layout.map_offset_index hstop, List.pairwise_map] at hoffsets
  exact hoffsets.imp Nat.le_of_lt

theorem openActiveSegment_nextOffset (log : PartitionLog) :
    log.openActiveSegment.nextOffset = log.nextOffset := rfl

theorem openActiveSegment_index (log : PartitionLog) :
    log.openActiveSegment.index = log.index := rfl

/-- Opening the active segment completes a recovered log. -/
theorem represents_openActiveSegment {Z : Zstd} {log : PartitionLog} {layout : Layout}
    (hlogs : log.dir.logs = layout.files) (hindex : log.index = layout.index)
    (hplaced : layout.WellPlaced log.nextOffset) (hbound : log.nextOffset < 2 ^ 64)
    (hwritten : ∀ e ∈ layout.entries, e.Written Z) :
    log.openActiveSegment.Represents Z (layout.touch log.activeSegmentBase) := by
  refine ⟨?_, ?_, hplaced.touch _, hbound, ?_, ?_⟩
  · rw [Layout.files_touch, ← hlogs]
    rfl
  · rw [Layout.index_touch, ← hindex]
    rfl
  · rw [Layout.entries_touch]
    exact hwritten
  · exact Layout.exists_mem_touch layout log.activeSegmentBase

/-- What `recover` rebuilds: the files, index and next offset of a layout. -/
structure Recovers (log : PartitionLog) (options : PartitionLogOptions) (layout : Layout)
    (next : ℕ) : Prop where
  options : log.options = options
  logs : log.dir.logs = layout.files
  index : log.index = layout.index
  nextOffset : log.nextOffset = next

section Recover

variable {Z : Zstd} {options : PartitionLogOptions} {layout : Layout} {next : ℕ}

theorem recover_files (hplaced : layout.WellPlaced next)
    (hkept : ∀ e ∈ layout.entries, e.Kept Z options) (indexes : FileTable) :
    (recover Z options { logs := layout.files, indexes := indexes }).Recovers options layout
      next := by
  obtain ⟨indexes', stats, hfold⟩ := recoverSegment_files layout hkept
    (RecoverState.initial { logs := layout.files, indexes := indexes }) rfl
  have hsort := insertionSort_index hplaced fun e he ↦ (hkept e he).1.1
  refine ⟨rfl, ?_, ?_, ?_⟩
  · rw [recover, hfold]
    rfl
  · rw [recover, hfold]
    simpa [RecoverState.initial] using hsort
  · rw [recover, hfold]
    exact stopAfter_entries hplaced

/-- Bytes that do not decode are cut off, with all segments behind them. -/
theorem recover_broken {base : ℕ} {es : List Entry} {rest : Bytes}
    (hplaced : Layout.WellPlaced (layout ++ [⟨base, es⟩]) next)
    (hkept : ∀ e ∈ Layout.entries (layout ++ [⟨base, es⟩]), e.Kept Z options)
    (hbreaks : Breaks Z options rest) (after : FileTable) (hafter : ∀ file ∈ after, base < file.1)
    (indexes : FileTable) :
    (recover Z options
      { logs := layout.files ++ (base, es.flatMap Entry.bytes ++ rest) :: after
        indexes := indexes }).Recovers options (layout ++ [⟨base, es⟩]) next := by
  have hentries : Layout.entries (layout ++ [⟨base, es⟩]) = layout.entries ++ es := by
    simp [Layout.entries]
  have hindex : Layout.index (layout ++ [⟨base, es⟩]) =
      layout.index ++ Entry.indexFrom base 0 es := by
    simp [Layout.index, Segment.index]
  have hbefore : ∀ s ∈ layout, s.base < base := fun s hs ↦
    (List.pairwise_append.mp hplaced.bases).2.2 s hs ⟨base, es⟩ (List.mem_singleton.mpr rfl)
  have hsort := insertionSort_index hplaced fun e he ↦ (hkept e he).1.1
  have hnext := stopAfter_entries hplaced
  rw [hentries] at hkept hnext
  rw [hindex] at hsort
  obtain ⟨indexes', stats, hfold⟩ := recoverSegment_broken_files hkept hbreaks base after
    (RecoverState.initial
      { logs := layout.files ++ (base, es.flatMap Entry.bytes ++ rest) :: after
        indexes := indexes }) rfl
  have hlogs := FileTable.filter_resize_cut layout.files (es.flatMap Entry.bytes) rest
    (fun file hfile ↦ by
      obtain ⟨s, hs, rfl⟩ := List.mem_map.mp hfile
      exact hbefore s hs) hafter
  refine ⟨rfl, ?_, ?_, ?_⟩
  · rw [recover, hfold]
    rw [RecoverState.initial, hlogs]
    simp [Layout.files, Segment.file, Segment.content]
  · rw [recover, hfold, hindex]
    simpa [RecoverState.initial] using hsort
  · rw [recover, hfold, ← hnext]
    rfl

end Recover

/-! ## Opening -/

/-- Options `PartitionLog::open` accepts. -/
def OpenOptions (options : PartitionLogOptions) : Prop :=
  isValidTopicName options.topic = true ∧ options.maxSegmentBytes ≠ 0

theorem openLog_eq {options : PartitionLogOptions} (hoptions : OpenOptions options) (Z : Zstd)
    (dir : Directory) : openLog Z options dir = .ok (recover Z options dir).openActiveSegment := by
  rw [openLog, if_neg (by rw [hoptions.1]; exact Bool.false_ne_true.symm),
    if_neg hoptions.2]

/-- The log after the open of an empty directory. -/
def emptyLog (options : PartitionLogOptions) : PartitionLog :=
  { options := options
    dir := { logs := [(0, [])], indexes := [(0, [])] }
    index := []
    nextOffset := 0
    recoveryStats := {} }

theorem openLog_empty {options : PartitionLogOptions} (hoptions : OpenOptions options)
    (Z : Zstd) : openLog Z options {} = .ok (emptyLog options) := by
  rw [openLog_eq hoptions]
  rfl

section Open

variable {Z : Zstd} {options : PartitionLogOptions} {layout : Layout} {next : ℕ}

theorem openLog_of_recovers (hoptions : OpenOptions options) {dir : Directory}
    (hrecovers : (recover Z options dir).Recovers options layout next)
    (hplaced : layout.WellPlaced next) (hbound : next < 2 ^ 64)
    (hwritten : ∀ e ∈ layout.entries, e.Written Z) :
    ∃ log, openLog Z options dir = .ok log ∧ log.options = options ∧ log.nextOffset = next ∧
      log.Represents Z (layout.touch log.activeSegmentBase) := by
  refine ⟨_, openLog_eq hoptions Z dir, hrecovers.options, hrecovers.nextOffset, ?_⟩
  have hnext := hrecovers.nextOffset
  exact represents_openActiveSegment hrecovers.logs hrecovers.index (by rw [hnext]; exact hplaced)
    (by rw [hnext]; exact hbound) hwritten

/-- Opening a directory that holds a layout of decodable entries. -/
theorem openLog_files (hoptions : OpenOptions options) (hplaced : layout.WellPlaced next)
    (hbound : next < 2 ^ 64) (hkept : ∀ e ∈ layout.entries, e.Kept Z options)
    (indexes : FileTable) :
    ∃ log, openLog Z options { logs := layout.files, indexes := indexes } = .ok log ∧
      log.options = options ∧ log.nextOffset = next ∧
      log.Represents Z (layout.touch log.activeSegmentBase) :=
  openLog_of_recovers hoptions (recover_files hplaced hkept indexes) hplaced hbound
    fun e he ↦ ⟨(hkept e he).1, (hkept e he).2.1⟩

/-- Reopening a log whose entries decode. -/
theorem Represents.openLog {log : PartitionLog} (hrep : log.Represents Z layout)
    (hoptions : OpenOptions options)
    (hdecodable : ∀ e ∈ layout.entries, e.Decodable options.maxUncompressedBatchBytes)
    (indexes : FileTable) :
    ∃ log', PartitionLog.openLog Z options { logs := log.dir.logs, indexes := indexes } =
        .ok log' ∧
      log'.options = options ∧ log'.nextOffset = log.nextOffset ∧ log'.Represents Z layout := by
  obtain ⟨log', hopen, hopts, hnext, hrep'⟩ := openLog_files hoptions hrep.placed hrep.bound
    (fun e he ↦ ⟨(hrep.written e he).1, (hrep.written e he).2, hdecodable e he⟩) indexes
  have hindex : log'.index = log.index := by
    rw [hrep'.index, Layout.index_touch, hrep.index]
  have hactive : log'.activeSegmentBase = log.activeSegmentBase := by
    unfold activeSegmentBase
    rw [hindex, hnext]
  obtain ⟨s, hs, hbase⟩ := hrep.active
  rw [hactive, ← hbase, Layout.touch_of_mem hrep.placed.bases hs] at hrep'
  rw [← hrep.logs] at hopen
  exact ⟨log', hopen, hopts, hnext, hrep'⟩

theorem exists_first {α : Type*} {p : α → Prop} {l : List α} (h : ¬ ∀ a ∈ l, p a) :
    ∃ before a after, l = before ++ a :: after ∧ (∀ b ∈ before, p b) ∧ ¬ p a := by
  induction l with
  | nil => exact absurd (fun a ha ↦ absurd ha List.not_mem_nil) h
  | cons a l ih =>
      by_cases ha : p a
      · obtain ⟨before, b, after, rfl, hbefore, hb⟩ := ih fun hl ↦ h fun c hc ↦ by
          rcases List.mem_cons.mp hc with rfl | hc
          · exact ha
          · exact hl c hc
        refine ⟨a :: before, b, after, rfl, fun c hc ↦ ?_, hb⟩
        rcases List.mem_cons.mp hc with rfl | hc
        · exact ha
        · exact hbefore c hc
      · exact ⟨[], a, l, rfl, by simp, ha⟩

/-- Opening a log with an entry that does not decode: the log is cut in front of
the first one. -/
theorem Represents.openLog_cut {log : PartitionLog} (hrep : log.Represents Z layout)
    (hoptions : OpenOptions options)
    (hrefused : ¬ ∀ e ∈ layout.entries, e.Decodable options.maxUncompressedBatchBytes)
    (indexes : FileTable) :
    ∃ log' layout' e rest,
      PartitionLog.openLog Z options { logs := log.dir.logs, indexes := indexes } = .ok log' ∧
      log'.options = options ∧ log'.Represents Z layout' ∧
      layout.entries = layout'.entries ++ e :: rest ∧
      log'.nextOffset ≤ log.nextOffset ∧ log'.dir.logs ≠ log.dir.logs := by
  -- The first segment with such an entry, and the entry in it.
  obtain ⟨before, s, after, rfl, hbefore, hs⟩ := exists_first
    (p := fun s : Segment ↦ ∀ e ∈ s.entries, e.Decodable options.maxUncompressedBatchBytes)
    (l := layout) fun h ↦ hrefused fun e he ↦ by
      obtain ⟨s, hs, he⟩ := Layout.mem_entries.mp he
      exact h s hs e he
  obtain ⟨es, e, rest, hes, hkept, he⟩ := exists_first hs
  obtain ⟨base, entries⟩ := s
  obtain rfl : entries = es ++ e :: rest := hes
  obtain ⟨next', hle, hcut⟩ := hrep.placed.cut
  have hentries : Layout.entries (before ++ [⟨base, es⟩]) = Layout.entries before ++ es := by
    simp [Layout.entries]
  have hall : Layout.entries (before ++ ⟨base, es ++ e :: rest⟩ :: after) =
      Layout.entries (before ++ [⟨base, es⟩]) ++ e :: (rest ++ Layout.entries after) := by
    rw [hentries, Layout.entries_append, Layout.entries_cons]
    simp
  have hwritten : ∀ f ∈ Layout.entries (before ++ [⟨base, es⟩]), f.Written Z := fun f hf ↦
    hrep.written f (by rw [hall]; exact List.mem_append_left _ hf)
  have hdecodable : ∀ f ∈ Layout.entries (before ++ [⟨base, es⟩]),
      f.Decodable options.maxUncompressedBatchBytes := fun f hf ↦ by
    rw [hentries] at hf
    rcases List.mem_append.mp hf with hf | hf
    · obtain ⟨s, hs, hf⟩ := Layout.mem_entries.mp hf
      exact hbefore s hs f hf
    · exact hkept f hf
  have hbreaks : Breaks Z options (e.bytes ++ rest.flatMap Entry.bytes) :=
    breaks_not_decodable (hrep.written e (by rw [hall]; simp)) he _
  have hbases := List.pairwise_append.mp hrep.placed.bases
  have hrecovers := recover_broken hcut
    (fun f hf ↦ ⟨(hwritten f hf).1, (hwritten f hf).2, hdecodable f hf⟩) hbreaks
    (Layout.files after) (fun f hf ↦ by
      obtain ⟨t, ht, rfl⟩ := List.mem_map.mp hf
      exact (List.pairwise_cons.mp hbases.2.1).1 t ht) indexes
  obtain ⟨log', hopen, hopts, hnext, hrep'⟩ := openLog_of_recovers hoptions hrecovers hcut
    (lt_of_le_of_lt hle hrep.bound) hwritten
  have hfiles : Layout.files before ++ (base, es.flatMap Entry.bytes ++
      (e.bytes ++ rest.flatMap Entry.bytes)) :: Layout.files after = log.dir.logs := by
    rw [hrep.logs]
    simp [Layout.files, Segment.file, Segment.content]
  rw [hfiles] at hopen
  refine ⟨log', _, e, rest ++ Layout.entries after, hopen, hopts, hrep', ?_, hnext ▸ hle, ?_⟩
  · rw [Layout.entries_touch, hall]
  · intro hsame
    -- The broken segment has become shorter.
    have hold : log.dir.logs.content? base = some (es.flatMap Entry.bytes ++
        (e.bytes ++ rest.flatMap Entry.bytes)) := by
      rw [← hfiles]
      refine FileTable.content?_append_cons fun f hf ↦ ?_
      obtain ⟨t, ht, rfl⟩ := List.mem_map.mp hf
      exact (hbases.2.2 t ht _ List.mem_cons_self).ne
    have hnew : log'.dir.logs.content? base = some (es.flatMap Entry.bytes) := by
      rw [hrep'.logs]
      have hmem : (⟨base, es⟩ : Segment) ∈ before ++ [⟨base, es⟩] := by simp
      exact FileTable.content?_of_mem (Layout.files_sorted hrep'.placed.bases)
        (List.mem_map_of_mem (f := Segment.file) (Layout.mem_touch_of_mem _ hmem))
    rw [hsame, hold] at hnew
    have hlength := congrArg List.length (Option.some.inj hnew)
    have hpos := e.bytes_length_pos
    simp only [List.length_append] at hlength
    omega

/-- Opening a directory where part of an entry was written behind a layout: the
entries of the layout are recovered and the part is cut off. -/
theorem openLog_torn (hoptions : OpenOptions options) (hplaced : layout.WellPlaced next)
    (hbound : next < 2 ^ 64) (hkept : ∀ e ∈ layout.entries, e.Kept Z options) {base : ℕ}
    (hplace : layout.Placeable next base) {e : Entry} (hfits : e.Fits) {torn : Bytes}
    (hfrontBytes : torn <+: e.bytes) (hlt : torn.length < e.bytes.length) (indexes : FileTable) :
    ∃ log layout', openLog Z options
        { logs := layout.files.append base torn, indexes := indexes } = .ok log ∧
      log.options = options ∧ log.nextOffset = next ∧ log.Represents Z layout' ∧
      layout'.entries = layout.entries := by
  have htouched := hplaced.touch base
  have hentries := Layout.entries_touch layout base
  by_cases hnil : torn = []
  · obtain ⟨log, hopen, hopts, hnext, hrep⟩ := openLog_files hoptions htouched hbound
      (fun e he ↦ hkept e (hentries ▸ he)) indexes
    rw [Layout.files_touch, ← hnil] at hopen
    exact ⟨log, _, hopen, hopts, hnext, hrep, by rw [Layout.entries_touch, hentries]⟩
  · obtain ⟨s, hs, hbase⟩ := Layout.exists_mem_touch layout base
    obtain ⟨before, after, hsplit⟩ := List.append_of_mem hs
    have hbases := hsplit ▸ htouched.bases
    have hsorted := List.pairwise_append.mp hbases
    have hbehind : ∀ t ∈ after, s.base < t.base := (List.pairwise_cons.mp hsorted.2.1).1
    have hafter : Layout.entries after = [] := Layout.entries_eq_nil fun t ht ↦ by
      have htmem : t ∈ layout.touch base := by rw [hsplit]; simp [ht]
      rcases Layout.mem_touch htmem with htmem | rfl
      · exact hplace.behind t htmem (hbase ▸ hbehind t ht)
      · rfl
    have hcut : Layout.entries (before ++ [s]) = layout.entries := by
      rw [← hentries, hsplit, List.append_cons before s after]
      exact (Layout.entries_append_nil _ hafter).symm
    have hfiles : layout.files.append base torn =
        Layout.files before ++ (s.base, s.entries.flatMap Entry.bytes ++ torn) ::
          Layout.files after := by
      rw [← List.nil_append torn, ← FileTable.append_append, ← Layout.files_touch, hsplit, ← hbase,
        Layout.files, List.map_append, List.map_cons]
      refine FileTable.append_existing torn fun f hf ↦ ?_
      obtain ⟨t, ht, rfl⟩ := List.mem_map.mp hf
      exact hsorted.2.2 t ht s List.mem_cons_self
    have hplaced' : Layout.WellPlaced (before ++ [s]) next := by
      rw [hsplit, List.append_cons before s after] at htouched
      exact htouched.of_append_nil hafter
    have hkept' : ∀ e ∈ Layout.entries (before ++ [s]), e.Kept Z options := fun e he ↦
      hkept e (hcut ▸ he)
    have hrecovers := recover_broken hplaced' hkept'
      (breaks_torn Z options hfits hfrontBytes hnil hlt)
      (Layout.files after) (fun f hf ↦ by
        obtain ⟨t, ht, rfl⟩ := List.mem_map.mp hf
        exact hbehind t ht) indexes
    obtain ⟨log, hopen, hopts, hnext, hrep⟩ := openLog_of_recovers hoptions hrecovers hplaced'
      hbound fun e he ↦ ⟨(hkept' e he).1, (hkept' e he).2.1⟩
    rw [← hfiles] at hopen
    exact ⟨log, _, hopen, hopts, hnext, hrep, by rw [Layout.entries_touch, hcut]⟩

end Open

end PartitionLog

end BoltStream.Storage
