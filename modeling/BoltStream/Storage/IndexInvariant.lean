import BoltStream.Storage.CrashRecovery

/-!
# The index invariant

The in-memory index lists the offsets from the earliest one to the next one
without a hole, every entry of it points at the record appended under its
offset, and a reopen rebuilds it.
-/

namespace BoltStream.Storage

open BoltStream.Lib BoltStream.Protocol BoltStream.Compression PartitionLog

structure IndexInvariant (Z : Zstd) (state : LogState) : Prop where
  earliest_le : state.log.earliestOffset ≤ state.log.nextOffset
  contiguous : state.log.index.map IndexEntry.offset =
    List.range' state.log.earliestOffset (state.log.nextOffset - state.log.earliestOffset)
  points : ∀ entry ∈ state.log.index,
    ∃ r, state.acked[entry.offset]? = some r ∧ state.log.PointsAt Z entry r
  reopens : ∃ log', openLog Z state.log.options state.log.dir = .ok log' ∧
    log'.index = state.log.index ∧ log'.nextOffset = state.log.nextOffset ∧
    ∀ offset maxRecords maxBytes, log'.readFrom Z offset maxRecords maxBytes =
      state.log.readFrom Z offset maxRecords maxBytes

/-- The condition on one call: an encoded batch fits its byte count and has
values, and a retention pass reads ages in order. -/
def LogOp.Regular (log : PartitionLog) (op : LogOp) : Prop :=
  op.Sized ∧ op.ValuesPresent ∧ op.AgesOrdered log

namespace LogState

variable {Z : Zstd} {options : PartitionLogOptions} {state state' : LogState} {layout : Layout}

/-- A layout without holes. -/
def TracksConsecutive (Z : Zstd) (options : PartitionLogOptions) (state : LogState) : Prop :=
  ∃ layout first, TracksDecodable Z options state layout ∧
    Consecutive first layout.entries state.log.nextOffset

theorem TracksConsecutive.step (h : TracksConsecutive Z options state)
    (hopen : OpenOptions options) {op : LogOp} (hregular : op.Regular state.log)
    (hbound : state'.acked.length < 2 ^ 64) (hstep : state.step Z op = some state') :
    TracksConsecutive Z options state' := by
  obtain ⟨layout, first, hlayout, hconsecutive⟩ := h
  obtain ⟨hsized, hvalues, hages⟩ := hregular
  obtain ⟨layout', hlayout', hfollows⟩ := hlayout.step hopen hsized hvalues hbound hstep
  have hall := hconsecutive.append (op.consecutive state.log.nextOffset)
  obtain ⟨first', hfirst'⟩ := hall.of_suffix (hfollows.ordered hages)
  exact ⟨layout', first', hlayout', hfollows.next ▸ hfirst'⟩

theorem run_tracksConsecutive {log : PartitionLog} {ops : List LogOp}
    (hopened : openLog Z options {} = .ok log)
    (hregular : Along (step Z) (fun state op ↦ op.Regular state.log) ⟨log, []⟩ ops)
    (hrun : run (LogState.step Z) ⟨log, []⟩ ops = some state)
    (hbound : state.acked.length < 2 ^ 64) : TracksConsecutive Z options state := by
  refine run_invariant (fun state op ↦ op.Regular state.log) (fun state ↦
    state.acked.length < 2 ^ 64 → TracksConsecutive Z options state) ?_ hregular hrun ?_ hbound
  · intro state op state' hregular hstep hinv hbound
    have hlength := length_acked_step hstep
    exact (hinv (by omega)).step (openOptions_of_openLog hopened) hregular hbound hstep
  · intro _
    obtain ⟨layout, hlayout, hnil⟩ := tracks_opened hopened
    refine ⟨layout, 0, ⟨hlayout, by simp [hnil]⟩, ?_⟩
    rw [hnil, Consecutive, hlayout.next]
    rfl

/-- The acknowledged record with offset n is the n-th. -/
theorem Tracks.getElem?_acked (h : state.Tracks Z options layout) {r : StoredRecord}
    (hr : r ∈ state.acked) : state.acked[r.offset]? = some r := by
  obtain ⟨i, hi, rfl⟩ := List.getElem_of_mem hr
  have hoffset : (state.acked.map StoredRecord.offset)[i]? = some i := by
    rw [h.offsets, List.getElem?_range hi]
  rw [List.getElem?_map, List.getElem?_eq_getElem hi, Option.map_some] at hoffset
  rw [Option.some.inj hoffset, List.getElem?_eq_getElem hi]

theorem TracksConsecutive.indexInvariant (h : TracksConsecutive Z options state)
    (hopen : OpenOptions options) : IndexInvariant Z state := by
  obtain ⟨layout, first, ⟨htracks, hdecodable⟩, hconsecutive⟩ := h
  have hrep := htracks.represents
  have hoffsets : state.log.index.map IndexEntry.offset =
      List.range' first (state.log.nextOffset - first) := by
    rw [hrep.index, Layout.map_offset_index fun e he ↦ (hrep.written e he).stop_lt]
    exact hconsecutive.map_offset
  have hle := hconsecutive.le
  have hearliest : state.log.earliestOffset = first := by
    unfold earliestOffset
    cases hindex : state.log.index with
    | nil =>
        have hlength := congrArg List.length hoffsets
        rw [hindex, List.length_map, List.length_range', List.length_nil] at hlength
        simp only [List.head?_nil]
        omega
    | cons entry rest =>
        have hhead := congrArg List.head? hoffsets
        rw [hindex, List.map_cons, List.head?_cons, List.head?_range'] at hhead
        simp only [List.head?_cons]
        split_ifs at hhead with hzero
        exact Option.some.inj hhead
  refine ⟨by omega, by rw [hearliest, hoffsets], fun entry hentry ↦ ?_, ?_⟩
  · have hpoints := hrep.pointsAt (htracks.options ▸ hdecodable)
    obtain ⟨i, hi, rfl⟩ := List.getElem_of_mem hentry
    obtain ⟨hlength, hpoints⟩ := List.forall₂_iff_get.mp hpoints
    have hpoint := hpoints i hi (hlength ▸ hi)
    refine ⟨_, ?_, hpoint⟩
    have hmem : layout.records.get ⟨i, hlength ▸ hi⟩ ∈ state.acked :=
      htracks.kept.subset (List.get_mem _ _)
    have hget := htracks.getElem?_acked hmem
    rwa [← hpoint.1] at hget
  · obtain ⟨log', hopened, hoptions, hnext, hrep'⟩ := hrep.openLog (htracks.options ▸ hopen)
      (htracks.options ▸ hdecodable) state.log.dir.indexes
    have hindex : log'.index = state.log.index := by rw [hrep'.index, hrep.index]
    have hlogs : log'.dir.logs = state.log.dir.logs := by rw [hrep'.logs, hrep.logs]
    exact ⟨log', hopened, hindex, hnext, readFrom_congr hoptions hlogs hindex⟩

end LogState

/-- The index invariant holds along every run of regular calls. -/
theorem run_indexInvariant (Z : Zstd) (options : PartitionLogOptions) (log₀ : PartitionLog)
    (hopened : openLog Z options {} = .ok log₀) (ops : List LogOp)
    (hregular : Along (LogState.step Z) (fun state op ↦ op.Regular state.log) ⟨log₀, []⟩ ops)
    (state : LogState) (hrun : run (LogState.step Z) ⟨log₀, []⟩ ops = some state)
    (hbound : state.acked.length < 2 ^ 64) : IndexInvariant Z state :=
  (LogState.run_tracksConsecutive hopened hregular hrun hbound).indexInvariant
    (LogState.openOptions_of_openLog hopened)

/-- One segment for each record. -/
def singleRecordSegments : PartitionLogOptions :=
  { topic := [116]
    partitionId := 0
    maxSegmentBytes := 1
    segmentMaxAgeSeconds := 0
    maxUncompressedBatchBytes := 1048576 }

/-- A retention pass with a limit of ten seconds over segments that were written
at the same moment.  The clock ticks between the first and the second. -/
def tickingRetention : LogOp :=
  .applyRetention
    ⟨fun segment ↦ ⟨some 0, if segment = 0 then 9999999999 else 10000000000⟩,
      fun _ ↦ false, fun _ ↦ false⟩ ⟨10, 0⟩

/-- The same pass at one moment. -/
def steadyRetention : LogOp :=
  .applyRetention ⟨fun _ ↦ ⟨some 0, 10000000000⟩, fun _ ↦ false, fun _ ↦ false⟩ ⟨10, 0⟩

def threeRecords : List LogOp :=
  [.append stillClock [] [1], .append stillClock [] [2], .append stillClock [] [3]]

/-- A run with a reopen and a retention pass that reads the clock once. -/
theorem run_indexInvariant_threeRecords :
    ∃ state, run (LogState.step noZstd) ⟨emptyLog singleRecordSegments, []⟩
        (threeRecords ++ [steadyRetention, .reopen]) = some state ∧
      IndexInvariant noZstd state := by
  have hlength : (run (LogState.step noZstd) ⟨emptyLog singleRecordSegments, []⟩
      (threeRecords ++ [steadyRetention, .reopen])).map (fun state ↦ state.acked.length) =
        some 3 := by decide
  obtain ⟨state, hrun, hacked⟩ := Option.map_eq_some_iff.mp hlength
  refine ⟨state, hrun, run_indexInvariant noZstd singleRecordSegments _
    (openLog_empty ⟨by decide, by decide⟩ noZstd) _ (along_of_forall ?_ _) state hrun
    (by rw [hacked]; norm_num)⟩
  intro op hop state
  simp only [threeRecords, steadyRetention, List.cons_append, List.nil_append, List.mem_cons,
    List.not_mem_nil, or_false] at hop
  rcases hop with rfl | rfl | rfl | rfl | rfl
  · exact ⟨trivial, trivial, trivial⟩
  · exact ⟨trivial, trivial, trivial⟩
  · exact ⟨trivial, trivial, trivial⟩
  · exact ⟨trivial, trivial, List.pairwise_of_forall fun _ _ ↦ le_rfl⟩
  · exact ⟨trivial, trivial, trivial⟩

/-- The invariant fails behind a batch whose byte count wraps, and behind a
retention pass whose clock ticks. -/
theorem indexInvariant_broken :
    (∃ state, run (LogState.step noZstd) ⟨emptyLog unlimitedOptions, []⟩
        [oneRecordBatch (List.replicate (2 ^ 32 - 52) 0) (UInt32.ofNat (2 ^ 32 - 40))] =
          some state ∧ ¬ IndexInvariant noZstd state) ∧
    ∃ state, run (LogState.step noZstd) ⟨emptyLog singleRecordSegments, []⟩
        (threeRecords ++ [tickingRetention]) = some state ∧ ¬ IndexInvariant noZstd state := by
  refine ⟨?_, ?_⟩
  · obtain ⟨state, hrun, hoptions, -, hindex, hreopen⟩ := openLog_of_wraps noZstd
      (List.replicate (2 ^ 32 - 52) 0) (UInt32.ofNat (2 ^ 32 - 40)) List.length_replicate
      (by decide)
    refine ⟨state, hrun, fun hinvariant ↦ ?_⟩
    obtain ⟨log', hopen, hsame, -⟩ := hinvariant.reopens
    obtain ⟨recovered, hopen', hnil, -⟩ := hreopen state.log.dir.indexes
    rw [hoptions, hopen'] at hopen
    rw [← hsame, ← Except.ok.inj hopen, hnil] at hindex
    cases hindex
  · have hoffsets : (run (LogState.step noZstd) ⟨emptyLog singleRecordSegments, []⟩
        (threeRecords ++ [tickingRetention])).map (fun state ↦
          (state.log.index.map IndexEntry.offset, state.log.earliestOffset,
            state.log.nextOffset)) = some ([0, 2], 0, 3) := by decide
    obtain ⟨state, hrun, hstate⟩ := Option.map_eq_some_iff.mp hoffsets
    obtain ⟨hindex, hstate⟩ := Prod.mk.inj hstate
    obtain ⟨hearliest, hnext⟩ := Prod.mk.inj hstate
    refine ⟨state, hrun, fun hinvariant ↦ ?_⟩
    have hcontiguous := hinvariant.contiguous
    rw [hindex, hearliest, hnext] at hcontiguous
    exact absurd hcontiguous (by decide)

end BoltStream.Storage
