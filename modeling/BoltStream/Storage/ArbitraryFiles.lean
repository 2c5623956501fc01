import BoltStream.Lib.SelfDelimiting
import BoltStream.Storage.Represents

/-!
# Recovery of arbitrary files

Whatever bytes the files of a partition hold, `recover` keeps the longest
sequence of entries that decode one behind the other and nothing else, and the
index files it writes list these entries.
-/

namespace BoltStream.Storage

open BoltStream.Lib BoltStream.Protocol BoltStream.Compression

namespace PartitionLog

/-! ## Entries -/

/-- A byte count, and that many bytes that decode. -/
def IsEntry (Z : Zstd) (options : PartitionLogOptions) (c : Bytes) : Prop :=
  c.length = 4 + readU32Be c 0 ∧ kMinimumRecordBytes ≤ readU32Be c 0 ∧
    ∃ scanned, scanEntry Z options 0 0 (readU32Be c 0) (c.drop 4) = .ok scanned

/-- The index entries of a stored entry. -/
def indexOf (Z : Zstd) (options : PartitionLogOptions) (segment position : ℕ) (c : Bytes) :
    List IndexEntry :=
  match scanEntry Z options segment position (readU32Be c 0) (c.drop 4) with
  | .ok scanned => scanned.1
  | .error _ => []

/-- The offset behind the records of a stored entry, in 64 bits. -/
def endOffset (Z : Zstd) (options : PartitionLogOptions) (c : Bytes) : ℕ :=
  match scanEntry Z options 0 0 (readU32Be c 0) (c.drop 4) with
  | .ok scanned => scanned.2
  | .error _ => 0

/-- The index of a segment that holds these entries from `position` on. -/
def indexFrom (Z : Zstd) (options : PartitionLogOptions) (segment : ℕ) :
    ℕ → List Bytes → List IndexEntry
  | _, [] => []
  | position, c :: cs =>
      indexOf Z options segment position c ++ indexFrom Z options segment (position + c.length) cs

/-- The index of a directory that holds these entries. -/
def indexOfAll (Z : Zstd) (options : PartitionLogOptions) (kept : List (ℕ × List Bytes)) :
    List IndexEntry :=
  kept.flatMap fun file ↦ indexFrom Z options file.1 0 file.2

/-- The bytes of the index file of a segment with these entries. -/
def indexBytes (Z : Zstd) (options : PartitionLogOptions) (segment : ℕ) (cs : List Bytes) : Bytes :=
  (indexFrom Z options segment 0 cs).flatMap writeIndexEntry

section Scan

variable {Z : Zstd} {options : PartitionLogOptions}

/-- What a decoded batch says of itself. -/
theorem decodeBatch_metadata {topic : Bytes} {partition batchBytes maximum : ℕ} {bodyAndCrc : Bytes}
    {batch : DecodedBatch}
    (h : decodeBatch Z topic partition batchBytes bodyAndCrc maximum = .ok batch) :
    batch.metadata.recordCount ≠ 0 ∧ batch.metadata.nextOffset < 2 ^ 64 := by
  unfold decodeBatch at h
  split_ifs at h
  dsimp only at h
  split_ifs at h with hheader
  cases hraw : decompress Z (Codec.ofField (readU16Be bodyAndCrc 4))
      ((bodyAndCrc.drop kFixedBatchBodyBytes).take (readU32Be bodyAndCrc 32))
      (readU32Be bodyAndCrc 28) maximum with
  | error message =>
      rw [hraw] at h
      cases h
  | ok raw =>
      rw [hraw, ok_bind] at h
      cases hrecords : decodeRecordSet raw (readU32Be bodyAndCrc 24) with
      | error message =>
          rw [hrecords] at h
          cases h
      | ok records =>
          rw [hrecords, ok_bind] at h
          rw [← Except.ok.inj h]
          simp only [not_or] at hheader
          exact ⟨hheader.2.1, Nat.mod_lt _ (by norm_num)⟩

/-- An entry that decodes has index entries, and ends at a 64-bit offset. -/
theorem scanEntry_ok {segment position recordBytes : ℕ} {bodyAndCrc : Bytes}
    {scanned : List IndexEntry × ℕ}
    (h : scanEntry Z options segment position recordBytes bodyAndCrc = .ok scanned) :
    scanned.1 ≠ [] ∧ scanned.2 < 2 ^ 64 := by
  rw [scanEntry] at h
  by_cases hbatch : readU16Be bodyAndCrc 0 = kBatchVersion
  · rw [if_pos hbatch] at h
    cases hdecode : decodeBatch Z options.topic options.partitionId recordBytes bodyAndCrc
        options.maxUncompressedBatchBytes with
    | error message =>
        rw [hdecode] at h
        cases h
    | ok batch =>
        obtain ⟨hcount, hnext⟩ := decodeBatch_metadata hdecode
        rw [hdecode, ok_map] at h
        rw [← Except.ok.inj h]
        exact ⟨by simpa [batchEntries] using hcount, hnext⟩
  · rw [if_neg hbatch] at h
    cases hdecode : decodeRecord options.topic options.partitionId recordBytes bodyAndCrc with
    | error message =>
        rw [hdecode] at h
        cases h
    | ok decoded =>
        rw [hdecode, ok_map] at h
        rw [← Except.ok.inj h]
        exact ⟨List.cons_ne_nil _ _, Nat.mod_lt _ (by norm_num)⟩

/-- Where an entry lies matters to its index entries only. -/
theorem scanEntry_at (segment position recordBytes : ℕ) (bodyAndCrc : Bytes) :
    scanEntry Z options segment position recordBytes bodyAndCrc =
      (scanEntry Z options 0 0 recordBytes bodyAndCrc).map fun scanned ↦
        (scanned.1.map fun entry ↦ { entry with filePosition := position, segment := segment },
          scanned.2) := by
  rw [scanEntry, scanEntry]
  by_cases hbatch : readU16Be bodyAndCrc 0 = kBatchVersion
  · rw [if_pos hbatch, if_pos hbatch]
    cases decodeBatch Z options.topic options.partitionId recordBytes bodyAndCrc
        options.maxUncompressedBatchBytes with
    | error message => rfl
    | ok batch => simp [Except.map, batchEntries, Function.comp_def]
  · rw [if_neg hbatch, if_neg hbatch]
    cases decodeRecord options.topic options.partitionId recordBytes bodyAndCrc with
    | error message => rfl
    | ok decoded => simp [Except.map]

theorem scanEntry_of_isEntry {c : Bytes} (h : IsEntry Z options c) (segment position : ℕ) :
    scanEntry Z options segment position (readU32Be c 0) (c.drop 4) =
      .ok (indexOf Z options segment position c, endOffset Z options c) := by
  obtain ⟨-, -, scanned, hscan⟩ := h
  have hat : scanEntry Z options segment position (readU32Be c 0) (c.drop 4) = .ok
      (scanned.1.map fun entry ↦ { entry with filePosition := position, segment := segment },
        scanned.2) := by
    rw [scanEntry_at, hscan, ok_map]
  unfold indexOf endOffset
  rw [hat, hscan]

theorem readU32Be_append {c : Bytes} (rest : Bytes) (h : 4 ≤ c.length) :
    readU32Be (c ++ rest) 0 = readU32Be c 0 := by
  rw [readU32Be, readU32Be, readBe, readBe, List.drop_zero, List.drop_zero,
    List.take_append_of_le_length h]

theorem IsEntry.four_le {c : Bytes} (h : IsEntry Z options c) : 4 ≤ c.length := by
  have hlength := h.1
  omega

theorem selfDelimiting_isEntry (Z : Zstd) (options : PartitionLogOptions) :
    SelfDelimiting (IsEntry Z options) := by
  refine ⟨fun c hc hnil ↦ ?_, fun c d x y hc hd heq ↦ ?_⟩
  · have hlength := hc.four_le
    rw [hnil] at hlength
    simp at hlength
  · have hcount : readU32Be c 0 = readU32Be d 0 := by
      rw [← readU32Be_append x hc.four_le, heq, readU32Be_append y hd.four_le]
    exact (List.append_inj heq (by rw [hc.1, hd.1, hcount])).1

/-- Some index entry stands for every entry. -/
theorem indexOf_ne_nil {c : Bytes} (h : IsEntry Z options c) (segment position : ℕ) :
    indexOf Z options segment position c ≠ [] :=
  (scanEntry_ok (scanEntry_of_isEntry h segment position)).1

theorem segment_of_mem_indexOf {c : Bytes} {segment position : ℕ} {entry : IndexEntry}
    (h : entry ∈ indexOf Z options segment position c) : entry.segment = segment := by
  rw [indexOf, scanEntry_at] at h
  cases hscan : scanEntry Z options 0 0 (readU32Be c 0) (c.drop 4) with
  | error message =>
      rw [hscan] at h
      cases h
  | ok scanned =>
      rw [hscan, ok_map] at h
      obtain ⟨other, -, rfl⟩ := List.mem_map.mp h
      rfl

theorem segment_of_mem_indexFrom {segment : ℕ} {entry : IndexEntry} (cs : List Bytes) :
    ∀ {position : ℕ}, entry ∈ indexFrom Z options segment position cs →
      entry.segment = segment := by
  induction cs with
  | nil =>
      intro position h
      cases h
  | cons c cs ih =>
      intro position h
      rcases List.mem_append.mp h with h | h
      · exact segment_of_mem_indexOf h
      · exact ih h

theorem endOffset_lt (Z : Zstd) (options : PartitionLogOptions) (c : Bytes) :
    endOffset Z options c < 2 ^ 64 := by
  rw [endOffset]
  cases hscan : scanEntry Z options 0 0 (readU32Be c 0) (c.drop 4) with
  | error message => norm_num
  | ok scanned => exact (scanEntry_ok hscan).2

/-! ## The scan -/

/-- What the scan of a segment reports when it has passed these entries. -/
def scanned (Z : Zstd) (options : PartitionLogOptions) (segment next position : ℕ)
    (cs : List Bytes) (truncate : Bool) : SegmentScan :=
  { entries := indexFrom Z options segment position cs
    nextOffset := (cs.map (endOffset Z options)).foldl max next
    recordsRecovered := (indexFrom Z options segment position cs).length
    position := position + cs.flatten.length
    truncate := truncate }

theorem isEntry_take {rest : Bytes} (hfour : 4 ≤ rest.length)
    (hmin : kMinimumRecordBytes ≤ readU32Be rest 0) (hfits : readU32Be rest 0 ≤ rest.length - 4)
    {found : List IndexEntry × ℕ} {segment position : ℕ}
    (hscan : scanEntry Z options segment position (readU32Be rest 0)
      ((rest.drop 4).take (readU32Be rest 0)) = .ok found) :
    IsEntry Z options (rest.take (4 + readU32Be rest 0)) := by
  have hcount : readU32Be (rest.take (4 + readU32Be rest 0)) 0 = readU32Be rest 0 := by
    conv_rhs => rw [← List.take_append_drop (4 + readU32Be rest 0) rest]
    rw [readU32Be_append _ (by rw [List.length_take]; omega)]
  have hdrop : (rest.take (4 + readU32Be rest 0)).drop 4 =
      (rest.drop 4).take (readU32Be rest 0) := by
    rw [List.drop_take, Nat.add_sub_cancel_left]
  refine ⟨by rw [hcount, List.length_take]; omega, by rw [hcount]; exact hmin, ?_⟩
  rw [hcount, hdrop]
  rw [scanEntry_at] at hscan
  cases hat : scanEntry Z options 0 0 (readU32Be rest 0)
      ((rest.drop 4).take (readU32Be rest 0)) with
  | error message =>
      rw [hat] at hscan
      cases hscan
  | ok found => exact ⟨found, rfl⟩

/-- Bytes with an entry in front pass the checks of the scan. -/
theorem IsEntry.front {c rest : Bytes} (h : IsEntry Z options c) (hfront : c <+: rest) :
    4 ≤ rest.length ∧ kMinimumRecordBytes ≤ readU32Be rest 0 ∧
      readU32Be rest 0 ≤ rest.length - 4 ∧
      (rest.drop 4).take (readU32Be rest 0) = c.drop 4 ∧ readU32Be rest 0 = readU32Be c 0 := by
  obtain ⟨more, rfl⟩ := hfront
  have hfour := h.four_le
  have hlength := h.1
  have hcount := readU32Be_append more hfour
  rw [hcount, List.length_append, List.drop_append_of_le_length hfour,
    List.take_left' (by rw [List.length_drop]; omega)]
  exact ⟨by omega, h.2.1, by omega, rfl, rfl⟩

/-- The scan of a segment passes entries until it comes to bytes that are none. -/
theorem scanLoop_intact (Z : Zstd) (options : PartitionLogOptions) (segment fuel : ℕ) :
    ∀ (next position : ℕ) (rest : Bytes), rest.length < fuel →
      ∃ cs behind, rest = cs.flatten ++ behind ∧ (∀ c ∈ cs, IsEntry Z options c) ∧
        (behind ≠ [] → ∀ c, IsEntry Z options c → ¬ c <+: behind) ∧
        scanLoop Z options segment fuel next position rest =
          scanned Z options segment next position cs (decide (behind ≠ [])) := by
  induction fuel with
  | zero => intro next position rest h; exact absurd h (Nat.not_lt_zero _)
  | succ fuel ih =>
      intro next position rest hfuel
      by_cases hnil : rest = []
      · refine ⟨[], [], by simp [hnil], by simp, by simp, ?_⟩
        rw [scanLoop, if_pos hnil]
        rfl
      -- The scan gives up in front of bytes that are not an entry.
      have hgivesUp : scanLoop Z options segment (fuel + 1) next position rest =
            .stopped next position true → (∀ c, IsEntry Z options c → ¬ c <+: rest) →
          ∃ cs behind, rest = cs.flatten ++ behind ∧ (∀ c ∈ cs, IsEntry Z options c) ∧
            (behind ≠ [] → ∀ c, IsEntry Z options c → ¬ c <+: behind) ∧
            scanLoop Z options segment (fuel + 1) next position rest =
              scanned Z options segment next position cs (decide (behind ≠ [])) := by
        intro hstop hnone
        refine ⟨[], rest, rfl, by simp, fun _ ↦ hnone, ?_⟩
        rw [hstop, decide_eq_true hnil]
        rfl
      by_cases hfour : rest.length < 4
      · refine hgivesUp (by rw [scanLoop, if_neg hnil, if_pos hfour]) fun c hc hfront ↦ ?_
        have hlength := (hc.front hfront).1
        omega
      by_cases hcount : readU32Be rest 0 < kMinimumRecordBytes ∨
          readU32Be rest 0 > rest.length - 4
      · refine hgivesUp ?_ fun c hc hfront ↦ ?_
        · rw [scanLoop, if_neg hnil, if_neg hfour]
          exact if_pos hcount
        · obtain ⟨-, hmin, hfits, -⟩ := hc.front hfront
          omega
      cases hscan : scanEntry Z options segment position (readU32Be rest 0)
          ((rest.drop 4).take (readU32Be rest 0)) with
      | error message =>
          refine hgivesUp ?_ fun c hc hfront ↦ ?_
          · rw [scanLoop, if_neg hnil, if_neg hfour]
            dsimp only
            rw [if_neg hcount, hscan]
          · obtain ⟨-, -, -, hbody, hsize⟩ := hc.front hfront
            rw [hbody, hsize, scanEntry_of_isEntry hc] at hscan
            cases hscan
      | ok found =>
          have hentry := isEntry_take (by omega) (by omega) (by omega) hscan
          obtain ⟨cs, behind, hrest, hcs, hbehind, hloop⟩ := ih (max next found.2)
            (position + (4 + readU32Be rest 0)) (rest.drop (4 + readU32Be rest 0))
            (by rw [List.length_drop]; omega)
          set c := rest.take (4 + readU32Be rest 0) with hc
          have hfront := hentry.front (List.take_prefix _ rest)
          have hfound : found = (indexOf Z options segment position c, endOffset Z options c) := by
            have hsame := scanEntry_of_isEntry hentry segment position
            rw [← hfront.2.2.2.1, ← hfront.2.2.2.2, hscan] at hsame
            exact Except.ok.inj hsame
          refine ⟨c :: cs, behind, ?_, List.forall_mem_cons.mpr ⟨hentry, hcs⟩, hbehind, ?_⟩
          · rw [List.flatten_cons, List.append_assoc, ← hrest, hc, List.take_append_drop]
          · rw [scanLoop, if_neg hnil, if_neg hfour]
            dsimp only
            rw [if_neg hcount, hscan]
            dsimp only
            rw [hloop, hfound]
            have hlength : c.length = 4 + readU32Be rest 0 := by
              rw [hc, List.length_take]
              omega
            simp only [SegmentScan.prepend, scanned, indexFrom, List.map_cons, List.foldl_cons,
              List.flatten_cons, List.length_append, hlength, Nat.add_assoc]

theorem scanSegment_intact (Z : Zstd) (options : PartitionLogOptions) (next name : ℕ)
    (content : Bytes) :
    ∃ cs behind, content = cs.flatten ++ behind ∧ (∀ c ∈ cs, IsEntry Z options c) ∧
      (behind ≠ [] → ∀ c, IsEntry Z options c → ¬ c <+: behind) ∧
      scanSegment Z options next (name, content) =
        scanned Z options name next 0 cs (decide (behind ≠ [])) :=
  scanLoop_intact Z options name (content.length + 1) next 0 content (Nat.lt_succ_self _)

/-! ## The walk over the segments -/

/-- What the walk over `files` leaves of them, with the segments before them
already passed. -/
structure Passes (Z : Zstd) (options : PartitionLogOptions) (before files : FileTable)
    (kept : List (ℕ × List Bytes)) (state final : RecoverState) : Prop where
  intact : IntactPart (IsEntry Z options) files kept
  logs : final.dir.logs = before ++ contentsOf kept
  sorted : final.dir.indexes.Sorted
  indexes : ∀ name, final.dir.indexes.content? name =
    if name ∈ files.map Prod.fst then (kept.lookup name).map (indexBytes Z options name)
    else state.dir.indexes.content? name
  index : final.index = state.index ++ indexOfAll Z options kept
  nextOffset : final.nextOffset =
    ((entriesOf kept).map fun e ↦ endOffset Z options e.2).foldl max state.nextOffset
  scanned : final.stats.segmentsScanned = state.stats.segmentsScanned + kept.length
  rebuilt : final.stats.indexesRebuilt = state.stats.indexesRebuilt + kept.length
  recovered : final.stats.recordsRecovered =
    state.stats.recordsRecovered + (indexOfAll Z options kept).length
  truncated : final.stats.bytesTruncated + FileTable.totalBytes (contentsOf kept) =
    state.stats.bytesTruncated + files.totalBytes

theorem indexOfAll_cons (name : ℕ) (cs : List Bytes) (kept : List (ℕ × List Bytes)) :
    indexOfAll Z options ((name, cs) :: kept) =
      indexFrom Z options name 0 cs ++ indexOfAll Z options kept := rfl

theorem ends_cons (name : ℕ) (cs : List Bytes) (kept : List (ℕ × List Bytes)) :
    ((entriesOf ((name, cs) :: kept)).map fun e ↦ endOffset Z options e.2) =
      cs.map (endOffset Z options) ++ (entriesOf kept).map fun e ↦ endOffset Z options e.2 := by
  rw [entriesOf_cons, List.map_append, List.map_map]
  rfl

section Segments

variable {before files : FileTable} {state : RecoverState} {name : ℕ} {content : Bytes}
  {cs : List Bytes}

/-- The walk over a segment that is intact to its end. -/
theorem recoverSegment_passed (hgo : state.stopAfterCorruption = false)
    (hscan : scanSegment Z options state.nextOffset (name, content) =
      scanned Z options name state.nextOffset 0 cs false) :
    recoverSegment Z options state (name, content) =
      { dir :=
          { logs := state.dir.logs
            indexes := state.dir.indexes.overwrite name (indexBytes Z options name cs) }
        index := state.index ++ indexFrom Z options name 0 cs
        nextOffset := (cs.map (endOffset Z options)).foldl max state.nextOffset
        stats :=
          { segmentsScanned := state.stats.segmentsScanned + 1
            indexesRebuilt := state.stats.indexesRebuilt + 1
            recordsRecovered :=
              state.stats.recordsRecovered + (indexFrom Z options name 0 cs).length
            bytesTruncated := state.stats.bytesTruncated
            nextOffset := state.stats.nextOffset }
        stopAfterCorruption := false } := by
  rw [recoverSegment, hgo, if_neg Bool.false_ne_true, hscan]
  rfl

/-- The walk over a segment that is cut. -/
theorem recoverSegment_cut (hgo : state.stopAfterCorruption = false)
    (hscan : scanSegment Z options state.nextOffset (name, content) =
      scanned Z options name state.nextOffset 0 cs true) :
    recoverSegment Z options state (name, content) =
      { dir :=
          { logs := state.dir.logs.resize name cs.flatten.length
            indexes := state.dir.indexes.overwrite name (indexBytes Z options name cs) }
        index := state.index ++ indexFrom Z options name 0 cs
        nextOffset := (cs.map (endOffset Z options)).foldl max state.nextOffset
        stats :=
          { segmentsScanned := state.stats.segmentsScanned + 1
            indexesRebuilt := state.stats.indexesRebuilt + 1
            recordsRecovered :=
              state.stats.recordsRecovered + (indexFrom Z options name 0 cs).length
            bytesTruncated :=
              state.stats.bytesTruncated + (content.length - cs.flatten.length)
            nextOffset := state.stats.nextOffset }
        stopAfterCorruption := true } := by
  rw [recoverSegment, hgo, if_neg Bool.false_ne_true, hscan]
  simp only [scanned, Nat.zero_add, if_true, indexBytes]

/-- A segment that is intact to its end is kept in front of what is kept of the rest. -/
theorem passes_whole {kept : List (ℕ × List Bytes)} {final : RecoverState}
    (hgo : state.stopAfterCorruption = false) (hcs : ∀ c ∈ cs, IsEntry Z options c)
    (hcontent : content = cs.flatten)
    (hscan : scanSegment Z options state.nextOffset (name, content) =
      scanned Z options name state.nextOffset 0 cs false)
    (hfresh : name ∉ files.map Prod.fst) (hindexes : state.dir.indexes.Sorted)
    (h : Passes Z options (before ++ [(name, content)]) files kept
      (recoverSegment Z options state (name, content)) final) :
    Passes Z options before ((name, content) :: files) ((name, cs) :: kept) state final := by
  have hoverwrite := FileTable.content?_overwrite hindexes name (indexBytes Z options name cs)
  rw [recoverSegment_passed hgo hscan] at h
  refine ⟨?_, ?_, h.sorted, fun other ↦ ?_, ?_, ?_, ?_, ?_, ?_, ?_⟩
  · rw [hcontent]
    exact .whole hcs h.intact
  · rw [h.logs, contentsOf_cons, ← hcontent, ← List.append_cons]
  · rw [h.indexes, hoverwrite, List.map_cons, List.lookup_cons]
    by_cases hother : other = name
    · rw [hother, if_neg hfresh]
      simp
    · simp only [hother, beq_false_of_ne hother, List.mem_cons, false_or, if_false]
  · rw [h.index, indexOfAll_cons, List.append_assoc]
  · rw [h.nextOffset, ends_cons, List.foldl_append]
  · rw [h.scanned, List.length_cons, Nat.add_comm kept.length, Nat.add_assoc]
  · rw [h.rebuilt, List.length_cons, Nat.add_comm kept.length, Nat.add_assoc]
  · rw [h.recovered, indexOfAll_cons, List.length_append, Nat.add_assoc]
  · have htruncated := h.truncated
    simp only [FileTable.totalBytes, contentsOf_cons, List.map_cons, List.sum_cons,
      ← hcontent] at htruncated ⊢
    omega

/-- A broken segment is cut, and those behind it are removed. -/
theorem passes_broken {behind : Bytes} (hgo : state.stopAfterCorruption = false)
    (hlogs : state.dir.logs = before ++ (name, content) :: files)
    (hearlier : ∀ f ∈ before, f.1 < name) (hlater : ∀ f ∈ files, name < f.1)
    (hindexes : state.dir.indexes.Sorted) (hcs : ∀ c ∈ cs, IsEntry Z options c)
    (hcontent : content = cs.flatten ++ behind) (hbehind : behind ≠ [])
    (hnone : ∀ c, IsEntry Z options c → ¬ c <+: behind)
    (hscan : scanSegment Z options state.nextOffset (name, content) =
      scanned Z options name state.nextOffset 0 cs true) :
    Passes Z options before ((name, content) :: files) [(name, cs)] state
      (files.foldl (recoverSegment Z options)
        (recoverSegment Z options state (name, content))) := by
  have hoverwrite := FileTable.content?_overwrite hindexes name (indexBytes Z options name cs)
  have hfresh : name ∉ files.map Prod.fst := fun h ↦ by
    obtain ⟨f, hf, hname⟩ := List.mem_map.mp h
    exact absurd (hlater f hf) (by omega)
  rw [recoverSegment_cut hgo hscan, recoverSegment_stopped files _ rfl]
  refine ⟨?_, ?_, ?_, fun other ↦ ?_, ?_, ?_, rfl, rfl, ?_, ?_⟩
  · rw [hcontent]
    exact .broken hcs hbehind hnone
  · simp only [hlogs, hcontent]
    exact FileTable.filter_resize_cut before _ behind hearlier hlater
  · exact List.Pairwise.filter _ (hindexes.overwrite name _)
  · have hfilter := FileTable.content?_filter
      (state.dir.indexes.overwrite name (indexBytes Z options name cs))
      (fun other ↦ decide (other ∉ files.map Prod.fst)) other
    simp only [hfilter, hoverwrite, List.map_cons, List.mem_cons, List.lookup_cons]
    by_cases hother : other = name
    · rw [hother]
      simp [hfresh]
    · by_cases hbehindCut : other ∈ files.map Prod.fst <;>
        simp [hother, hbehindCut, beq_false_of_ne hother]
  · rw [indexOfAll_cons, indexOfAll, List.flatMap_nil, List.append_nil]
  · rw [ends_cons, entriesOf, List.flatMap_nil, List.map_nil, List.append_nil]
  · rw [indexOfAll_cons, indexOfAll, List.flatMap_nil, List.append_nil]
  · have hlength := congrArg List.length hcontent
    rw [List.length_append] at hlength
    simp only [FileTable.totalBytes, contentsOf, List.map_cons, List.map_nil, List.sum_cons,
      List.sum_nil]
    omega

end Segments

theorem recover_passes {files : FileTable} :
    ∀ (before : FileTable) (state : RecoverState), state.stopAfterCorruption = false →
      state.dir.logs = before ++ files → FileTable.Sorted (before ++ files) →
      state.dir.indexes.Sorted →
      ∃ kept, Passes Z options before files kept state
        (files.foldl (recoverSegment Z options) state) := by
  induction files with
  | nil =>
      intro before state _ hlogs _ hindexes
      exact ⟨[], .nil, hlogs, hindexes, by simp, by simp [indexOfAll], rfl, rfl, rfl,
        by simp [indexOfAll], rfl⟩
  | cons file files ih =>
      intro before state hgo hlogs hsorted hindexes
      obtain ⟨name, content⟩ := file
      obtain ⟨cs, behind, hcontent, hcs, hbehind, hscan⟩ :=
        scanSegment_intact Z options state.nextOffset name content
      have hparts := List.pairwise_append.mp hsorted
      have hlater : ∀ f ∈ files, name < f.1 := (List.pairwise_cons.mp hparts.2.1).1
      have hearlier : ∀ f ∈ before, f.1 < name := fun f hf ↦
        hparts.2.2 f hf _ List.mem_cons_self
      rw [List.foldl_cons]
      by_cases hwhole : behind = []
      · rw [hwhole, List.append_nil] at hcontent
        rw [hwhole, show decide (([] : Bytes) ≠ []) = false from rfl] at hscan
        have hfresh : name ∉ files.map Prod.fst := fun h ↦ by
          obtain ⟨f, hf, hname⟩ := List.mem_map.mp h
          exact absurd (hlater f hf) (by omega)
        have hstep := recoverSegment_passed hgo hscan
        obtain ⟨kept, h⟩ := ih (before ++ [(name, content)])
          (recoverSegment Z options state (name, content)) (by rw [hstep])
          (by rw [hstep, ← List.append_cons]; exact hlogs) (by rwa [← List.append_cons])
          (by rw [hstep]; exact hindexes.overwrite name (indexBytes Z options name cs))
        exact ⟨(name, cs) :: kept, passes_whole hgo hcs hcontent hscan hfresh hindexes h⟩
      · rw [decide_eq_true hwhole] at hscan
        exact ⟨[(name, cs)], passes_broken hgo hlogs hearlier hlater hindexes hcs hcontent hwhole
          (hbehind hwhole) hscan⟩

end Scan

end PartitionLog

end BoltStream.Storage
