import BoltStream.Storage.EncodedReadBack

/-!
# Opening under another limit

`max_uncompressed_batch_bytes` is checked again when a stored batch is decoded,
and recovery takes every decoding error for torn data.  A log opened under a
smaller limit than it was written with loses its large batches and all that is
stored behind them.
-/

namespace BoltStream.Storage

open BoltStream.Lib BoltStream.Protocol BoltStream.Compression PartitionLog

/-- The open leaves every segment log as it was and finds all records. -/
def OpensIntact (Z : Zstd) (options : PartitionLogOptions) (state : LogState) : Prop :=
  ∃ log, openLog Z options state.log.dir = .ok log ∧ log.dir.logs = state.log.dir.logs ∧
    (log.readFrom Z 0 log.index.length 0).map (List.map Record.stored) = .ok state.acked

theorem opensIntact_iff {Z : Zstd} {options : PartitionLogOptions} {state : LogState}
    {layout : Layout} (hrep : state.log.Represents Z layout)
    (hacked : state.acked = layout.records) (hopen : OpenOptions options) :
    OpensIntact Z options state ↔
      ∀ e ∈ layout.entries, e.Decodable options.maxUncompressedBatchBytes := by
  constructor
  · rintro ⟨log, hopened, hlogs, -⟩
    by_contra hrefused
    obtain ⟨log', layout', e, rest, hopened', -, -, -, -, hchanged⟩ :=
      hrep.openLog_cut hopen hrefused state.log.dir.indexes
    obtain rfl : log = log' := Except.ok.inj (hopened.symm.trans hopened')
    exact hchanged hlogs
  · intro hdecodable
    obtain ⟨log, hopened, hoptions, -, hrep'⟩ :=
      hrep.openLog hopen hdecodable state.log.dir.indexes
    refine ⟨log, hopened, hrep'.logs.trans hrep.logs.symm, ?_⟩
    rw [readFrom_all (hrep'.readsAs (hoptions ▸ hdecodable)), hacked]

/-- A log written by appends opens intact under other options exactly when every
encoded batch is within their limit, and has no empty value. -/
theorem opensIntact_iff_withinLimit (Z : Zstd) (options other : PartitionLogOptions)
    (hother : OpenOptions other) (log : PartitionLog) (hopened : openLog Z options {} = .ok log)
    (ops : List LogOp) (happends : ∀ op ∈ ops, op.IsAppend ∧ op.Sized) (state : LogState)
    (hrun : run (LogState.step Z) ⟨log, []⟩ ops = some state)
    (hbound : state.acked.length < 2 ^ 64) :
    OpensIntact Z other state ↔ ∀ op ∈ ops, op.WithinLimit other.maxUncompressedBatchBytes := by
  obtain ⟨layout, htracks, hempty⟩ := LogState.tracks_opened hopened
  have hnext : log.nextOffset = 0 := htracks.next
  have hoptions : log.options = options := htracks.options
  obtain ⟨layout', added, hextends, hlimit, -⟩ := LogState.run_extends htracks.represents
    (hoptions ▸ LogState.openOptions_of_openLog hopened) happends hrun
    (by simpa [hnext] using hbound)
  have hentries : layout'.entries = added := by
    rw [hextends.entries, hempty, List.nil_append]
  have hacked : state.acked = layout'.records := by
    rw [hextends.acked, Layout.records, hentries, List.nil_append]
  rw [opensIntact_iff hextends.represents hacked hother, hentries, hlimit]

/-- Two records in one batch, opened under a smaller limit that still holds them. -/
theorem opensIntact_smallerLimit :
    ∃ state, run (LogState.step noZstd) ⟨emptyLog smallSegments, []⟩
        [.append stillClock [107] [118],
          .appendEncodedBatch .none (encodeRecordSet [⟨[97], [98]⟩]) 14 [⟨[97], [98]⟩] 8] =
          some state ∧
      OpensIntact noZstd { smallSegments with maxUncompressedBatchBytes := 14 } state := by
  have hchecks : (run (LogState.step noZstd) ⟨emptyLog smallSegments, []⟩
      [.append stillClock [107] [118],
        .appendEncodedBatch .none (encodeRecordSet [⟨[97], [98]⟩]) 14 [⟨[97], [98]⟩] 8]).map
      (fun state ↦ state.acked.length) = some 2 := by decide
  obtain ⟨state, hrun, hacked⟩ := Option.map_eq_some_iff.mp hchecks
  refine ⟨state, hrun, ?_⟩
  rw [opensIntact_iff_withinLimit noZstd smallSegments _ ⟨by decide, by decide⟩ _
    (openLog_empty ⟨by decide, by decide⟩ noZstd) _ ?_ state hrun (by omega)]
  · simp [LogOp.WithinLimit]
  · simp only [List.forall_mem_cons, List.not_mem_nil, false_imp_iff, implies_true, and_true]
    exact ⟨⟨trivial, trivial⟩, trivial, by rw [LogOp.Sized]; decide⟩

/-- A batch of 14 bytes does not survive a limit of 13. -/
theorem not_opensIntact_tooSmall :
    ∃ state, openLog noZstd smallSegments {} = .ok (emptyLog smallSegments) ∧
      run (LogState.step noZstd) ⟨emptyLog smallSegments, []⟩
        [.appendEncodedBatch .none (encodeRecordSet [⟨[97], [98]⟩]) 14 [⟨[97], [98]⟩] 8] =
          some state ∧
      ¬ OpensIntact noZstd { smallSegments with maxUncompressedBatchBytes := 13 } state := by
  have hchecks : (run (LogState.step noZstd) ⟨emptyLog smallSegments, []⟩
      [.appendEncodedBatch .none (encodeRecordSet [⟨[97], [98]⟩]) 14 [⟨[97], [98]⟩] 8]).map
      (fun state ↦ decide ((openLog noZstd
        { smallSegments with maxUncompressedBatchBytes := 13 } state.log.dir).map
          (fun log ↦ log.dir.logs) = .ok state.log.dir.logs)) = some false := by decide +kernel
  obtain ⟨state, hrun, hchanged⟩ := Option.map_eq_some_iff.mp hchecks
  refine ⟨state, openLog_empty ⟨by decide, by decide⟩ noZstd, hrun, ?_⟩
  rintro ⟨log, hopened, hlogs, -⟩
  rw [hopened, ok_map, hlogs] at hchanged
  simp at hchanged

end BoltStream.Storage
