import BoltStream.Storage.LogRuns

/-!
# Crash recovery

A crash in the middle of an append leaves the first part of its log bytes on
disk, cut anywhere, and index files that may hold anything.  The next open
finds the acknowledged records and the records of the interrupted append whose
entries are whole.
-/

namespace BoltStream.Storage

open BoltStream.Lib BoltStream.Protocol BoltStream.Compression

/-- The append that was under way. -/
inductive InFlight where
  | appendBatch (clock : AppendClock) (records : List AppendRecord)
  | appendEncodedBatch (codec : Codec) (encodedRecords : Bytes) (uncompressedBytes : UInt32)
      (decodedRecords : List AppendRecord) (timestamp : UInt64)

namespace InFlight

open PartitionLog

/-- The appends to segment logs it was to make, in order. -/
def writes (Z : Zstd) (log : PartitionLog) : InFlight → List (ℕ × Bytes)
  | appendBatch clock records => (log.stageBatch clock records).logWrites
  | appendEncodedBatch codec encodedRecords uncompressedBytes decodedRecords timestamp =>
      match validateEncodedBatch Z log.options codec encodedRecords uncompressedBytes
          decodedRecords with
      | .error _ => []
      | .ok () =>
          let staged := log.stageEncodedBatch codec encodedRecords uncompressedBytes
            decodedRecords.length timestamp
          [(staged.segment, staged.encoded)]

/-- Its records, with the offsets and timestamps they were to get. -/
def records (log : PartitionLog) : InFlight → List StoredRecord
  | appendBatch clock records =>
      records.mapIdx fun i record ↦
        ⟨log.nextOffset + i, (clock.timestamp i).toNat, record.key, record.value⟩
  | appendEncodedBatch _ _ _ decodedRecords timestamp =>
      decodedRecords.mapIdx fun i record ↦
        ⟨log.nextOffset + i, timestamp.toNat, record.key, record.value⟩

def Sized : InFlight → Prop
  | appendBatch _ _ => True
  | appendEncodedBatch _ encodedRecords _ _ _ => encodedRecords.length + 40 < 2 ^ 32

def ValuesPresent : InFlight → Prop
  | appendBatch _ _ => True
  | appendEncodedBatch _ _ _ decodedRecords _ => ∀ record ∈ decodedRecords, record.value ≠ []

def IsEncoded : InFlight → Prop
  | appendBatch _ _ => False
  | appendEncodedBatch _ _ _ _ _ => True

/-- The directory after the crash: the first `cut` log bytes have arrived. -/
def crash (Z : Zstd) (log : PartitionLog) (flight : InFlight) (created : Bool) (cut : ℕ)
    (indexes : FileTable) : Directory :=
  { logs := FileTable.writeUpTo created cut (flight.writes Z log) log.dir.logs
    indexes := indexes }

/-- The plan of an interrupted append: entries that fit and decode, whose records
are the first of its records, and for an encoded batch one entry or none. -/
structure Planned (Z : Zstd) (log : PartitionLog) (layout : Layout) (flight : InFlight)
    (plan : Layout.Plan) : Prop where
  writes : flight.writes Z log = plan.writes
  placed : ∃ stop, layout.Placements log.nextOffset plan stop
  kept : ∀ write ∈ plan, write.2.Kept Z log.options
  records : (plan.map Prod.snd).flatMap Entry.records <+: flight.records log
  single : ∀ write ∈ plan, flight.IsEncoded → plan = [write] ∧
    write.2.records = flight.records log

theorem records_recordEntries (clock : AppendClock) (next : ℕ) (records : List AppendRecord) :
    ∀ i, (recordEntries clock next i records).flatMap Entry.records =
      records.mapIdx fun j record ↦
        ⟨next + (i + j), (clock.timestamp (i + j)).toNat, record.key, record.value⟩ := by
  induction records with
  | nil => exact fun _ ↦ rfl
  | cons record records ih =>
      intro i
      rw [recordEntries, List.flatMap_cons, ih (i + 1), List.mapIdx_cons]
      simp only [Entry.records, List.singleton_append, Nat.add_zero, Nat.add_assoc,
        Nat.add_comm 1]

variable {Z : Zstd} {log : PartitionLog} {layout : Layout}

theorem exists_planned (hrep : log.Represents Z layout) {flight : InFlight}
    (hsized : flight.Sized) (hvalues : flight.ValuesPresent)
    (hbound : log.nextOffset + (flight.records log).length < 2 ^ 64) :
    ∃ plan, Planned Z log layout flight plan := by
  cases flight with
  | appendBatch clock records =>
      rw [InFlight.records, List.length_mapIdx] at hbound
      obtain ⟨plan, hplan⟩ := hrep.stageBatch_follows clock hbound
      refine ⟨plan, hplan.writes, ⟨_, hplan.placed⟩, fun write hwrite ↦ ?_, ?_,
        fun _ _ h ↦ h.elim⟩
      · refine ⟨hplan.fits write hwrite, ⟨0, hplan.accepted Z 0 write hwrite⟩, ?_⟩
        have hmem : write.2 ∈ recordEntries clock log.nextOffset 0 records := by
          have hmem := List.mem_map_of_mem (f := Prod.snd) hwrite
          rw [hplan.entries_eq] at hmem
          exact List.mem_of_mem_take hmem
        exact LogState.decodable_recordEntries _ clock _ records 0 _ hmem
      · have hrecords := records_recordEntries clock log.nextOffset records 0
        simp only [Nat.zero_add] at hrecords
        rw [hplan.entries_eq, InFlight.records, ← hrecords]
        exact (List.take_prefix _ _).flatMap _
  | appendEncodedBatch codec encodedRecords uncompressedBytes decodedRecords timestamp =>
      rw [InFlight.records, List.length_mapIdx] at hbound
      cases hvalid : validateEncodedBatch Z log.options codec encodedRecords uncompressedBytes
          decodedRecords with
      | error message =>
          refine ⟨[], ?_, ⟨_, .nil _ _⟩, by simp, List.nil_prefix, by simp⟩
          rw [InFlight.writes, hvalid]
          rfl
      | ok =>
          obtain ⟨segment, hplace, hstaged⟩ := hrep.stageEncodedBatch hvalid timestamp
          have hrecords : (batchEntry log.nextOffset codec encodedRecords decodedRecords
              timestamp).records = InFlight.records log (.appendEncodedBatch codec encodedRecords
                uncompressedBytes decodedRecords timestamp) := by
            refine List.ext_getElem ?_ fun i hi hi' ↦ ?_ <;>
              simp [batchEntry, Entry.records, InFlight.records, batchRecords]
          refine ⟨[(segment, batchEntry log.nextOffset codec encodedRecords decodedRecords
            timestamp)], ?_, ⟨_, .cons hplace rfl (.nil _ _)⟩, fun write hwrite ↦ ?_, ?_,
            fun write hwrite _ ↦ ?_⟩
          · rw [InFlight.writes, hvalid, hstaged]
            rfl
          · rw [List.mem_singleton.mp hwrite]
            exact ⟨fits_batchEntry hvalid hbound hsized timestamp, ⟨_, accepted_batchEntry hvalid _
              timestamp⟩, (LogState.decodable_batchEntry_iff hvalid _ timestamp).mpr hvalues⟩
          · rw [List.map_singleton, List.flatMap_singleton, hrecords]
          · rw [List.mem_singleton.mp hwrite]
            exact ⟨rfl, hrecords⟩

/-- The whole entries of the plan hold a first part of the records. -/
theorem Planned.survived {flight : InFlight} {plan : Layout.Plan}
    (hplan : Planned Z log layout flight plan) (k : ℕ) :
    ((plan.take k).map Prod.snd).flatMap Entry.records <+: flight.records log :=
  (((List.take_prefix k plan).map _).flatMap _).trans hplan.records

/-- Opening after a crash: the layout with the whole entries of the plan. -/
theorem openLog_crash (hrep : log.Represents Z layout) (hoptions : OpenOptions log.options)
    (hdecodable : ∀ e ∈ layout.entries, e.Decodable log.options.maxUncompressedBatchBytes)
    {flight : InFlight} {plan : Layout.Plan} (hplan : Planned Z log layout flight plan)
    (hbound : log.nextOffset + (flight.records log).length < 2 ^ 64)
    (created : Bool) (cut : ℕ) (indexes : FileTable) :
    ∃ recovered layout' k, openLog Z log.options (flight.crash Z log created cut indexes) =
        .ok recovered ∧
      recovered.options = log.options ∧ recovered.Represents Z layout' ∧
      layout'.entries = layout.entries ++ (plan.take k).map Prod.snd ∧
      log.nextOffset ≤ recovered.nextOffset := by
  obtain ⟨stop, hplacements⟩ := hplan.placed
  obtain ⟨k, hcut⟩ := Layout.writeUpTo_plan created cut plan layout
  obtain ⟨stop', htake⟩ := hplacements.take k
  have hplaced := htake.wellPlaced hrep.placed
  have hentries := htake.entries_eq hrep.placed
  have hkept : ∀ e ∈ (layout.placeAll (plan.take k)).entries, e.Kept Z log.options := by
    intro e he
    rw [hentries, List.mem_append] at he
    rcases he with he | he
    · exact ⟨(hrep.written e he).1, (hrep.written e he).2, hdecodable e he⟩
    · obtain ⟨write, hwrite, rfl⟩ := List.mem_map.mp he
      exact hplan.kept write (List.mem_of_mem_take hwrite)
  have hstop : log.nextOffset ≤ stop' ∧ stop' < 2 ^ 64 := by
    have hlength := (hplan.survived k).length_le
    rw [List.length_flatMap, List.map_map] at hlength
    rw [htake.stop_eq]
    simp only [Function.comp_def, Entry.length_records] at hlength
    omega
  rcases hcut with hcut | ⟨base, e, torn, he, hfrontBytes, hlt, hcut⟩
  · obtain ⟨recovered, hopen, hopts, hnext, hrep'⟩ :=
      openLog_files hoptions hplaced hstop.2 hkept indexes
    refine ⟨recovered, _, k, ?_, hopts, hrep', by rw [Layout.entries_touch, hentries],
      by rw [hnext]; exact hstop.1⟩
    rw [crash, hplan.writes, hrep.logs, hcut, hopen]
  · obtain ⟨recovered, layout', hopen, hopts, hnext, hrep', hentries'⟩ :=
      openLog_torn hoptions hplaced hstop.2 hkept (hplacements.placeable_at he htake)
        (hplan.kept (base, e) (List.mem_of_getElem? he)).1 hfrontBytes hlt indexes
    refine ⟨recovered, layout', k, ?_, hopts, hrep', by rw [hentries', hentries],
      by rw [hnext]; exact hstop.1⟩
    rw [crash, hplan.writes, hrep.logs, hcut, hopen]

end InFlight

open PartitionLog

theorem Layout.WellPlaced.getLast?_records {layout : Layout} {next : ℕ} (h : layout.WellPlaced next)
    (hcount : ∀ e ∈ layout.entries, 0 < e.count) :
    (layout.records.getLast?.map fun r ↦ r.offset + 1).getD 0 = next := by
  rcases List.eq_nil_or_concat layout.entries with hnil | ⟨es, e, hes⟩
  · rw [Layout.records, hnil, h.start hnil]
    rfl
  · rw [List.concat_eq_append] at hes
    have hlast : e.stop = next := h.last e (by rw [hes]; simp)
    have hpos := hcount e (by rw [hes]; simp)
    have hoffsets := Layout.map_offset_records e
    have hne : e.records ≠ [] := by
      rw [← List.length_pos_iff, Entry.length_records]
      exact hpos
    have hlastRecord : e.records.getLast?.map StoredRecord.offset =
        some (e.first + (e.count - 1)) := by
      rw [← List.getLast?_map, hoffsets, List.getLast?_range']
      simp only [hpos.ne', if_false, Option.some.injEq]
      omega
    rw [Layout.records, hes, List.flatMap_append, List.flatMap_singleton,
      List.getLast?_append_of_ne_nil _ hne]
    obtain ⟨r, hr, hoffset⟩ := Option.map_eq_some_iff.mp hlastRecord
    rw [hr, ← hlast, Entry.stop]
    simp only [Option.map_some, Option.getD_some, hoffset]
    omega

/-- The open after a crash finds the acknowledged records that were retained,
followed by a first part of the interrupted records, of an encoded batch all or
none. -/
def RecoversAcknowledged (Z : Zstd) (options : PartitionLogOptions) (state : LogState)
    (flight : InFlight) (created : Bool) (cut : ℕ) (indexes : FileTable) : Prop :=
  ∃ recovered survived,
    openLog Z options (flight.crash Z state.log created cut indexes) = .ok recovered ∧
    survived <+: flight.records state.log ∧
    (flight.IsEncoded → survived = [] ∨ survived = flight.records state.log) ∧
    (recovered.readFrom Z 0 recovered.index.length 0).map (List.map Record.stored) =
      .ok (state.retained ++ survived) ∧
    ((state.retained ++ survived).getLast?.map fun r ↦ r.offset + 1).getD 0 =
      recovered.nextOffset ∧
    state.log.nextOffset ≤ recovered.nextOffset

/-- Crash recovery keeps the acknowledged records of every run whose encoded
batches fit their byte count. -/
theorem recovers_acknowledged (Z : Zstd) (options : PartitionLogOptions) (log₀ : PartitionLog)
    (hopened : openLog Z options {} = .ok log₀) (ops : List LogOp)
    (hsized : ∀ op ∈ ops, op.Sized) (hvalues : ∀ op ∈ ops, op.ValuesPresent) (state : LogState)
    (hrun : run (LogState.step Z) ⟨log₀, []⟩ ops = some state) (flight : InFlight)
    (hflightSized : flight.Sized) (hflightValues : flight.ValuesPresent)
    (hbound : state.acked.length + (flight.records state.log).length < 2 ^ 64)
    (created : Bool) (cut : ℕ) (indexes : FileTable) :
    RecoversAcknowledged Z options state flight created cut indexes := by
  obtain ⟨layout, htracks, hdecodable⟩ :=
    LogState.run_tracksDecodable hopened hsized hvalues hrun (by omega)
  have hrep := htracks.represents
  have hoptions := LogState.openOptions_of_openLog hopened
  rw [← htracks.next] at hbound
  rw [← htracks.options] at hoptions hdecodable
  obtain ⟨plan, hplan⟩ := InFlight.exists_planned hrep hflightSized hflightValues hbound
  obtain ⟨recovered, layout', k, hopen, hopts, hrep', hentries, hnext⟩ :=
    InFlight.openLog_crash hrep hoptions hdecodable hplan hbound created cut indexes
  have hrecords : layout'.records = state.retained ++
      ((plan.take k).map Prod.snd).flatMap Entry.records := by
    rw [Layout.records, hentries, List.flatMap_append, htracks.retained_eq]
    rfl
  have hdecodable' : ∀ e ∈ layout'.entries,
      e.Decodable recovered.options.maxUncompressedBatchBytes := by
    rw [hopts, hentries]
    intro e he
    rcases List.mem_append.mp he with he | he
    · exact hdecodable e he
    · obtain ⟨write, hwrite, rfl⟩ := List.mem_map.mp he
      exact (hplan.kept write (List.mem_of_mem_take hwrite)).2.2
  refine ⟨recovered, ((plan.take k).map Prod.snd).flatMap Entry.records,
    by rw [← htracks.options, hopen], hplan.survived k, fun hencoded ↦ ?_, ?_, ?_, hnext⟩
  · cases htake : plan.take k with
    | nil => exact Or.inl rfl
    | cons write rest =>
        have hmem : write ∈ plan := List.mem_of_mem_take (htake ▸ List.mem_cons_self)
        obtain ⟨hsingle, hwhole⟩ := hplan.single write hmem hencoded
        right
        have hrest : rest = [] := by
          have hlength := List.length_take_le' k plan
          rw [htake, hsingle] at hlength
          simpa using hlength
        rw [hrest, List.map_singleton, List.flatMap_singleton, hwhole]
  · rw [← hrecords]
    exact readFrom_all (hrep'.readsAs hdecodable')
  · rw [← hrecords]
    exact hrep'.placed.getLast?_records fun e he ↦ hrep'.count_pos he

/-- A record, a compressed batch, a retention pass that removes the record's
segment, and another record. -/
def shortRun : List LogOp :=
  [.append stillClock [107] [118],
    .appendEncodedBatch .zstd
      ([40, 181, 47, 253, 32, 14, 113, 0, 0] ++ encodeRecordSet [⟨[97], [98]⟩])
      14 [⟨[97], [98]⟩] 8,
    .applyRetention ⟨fun _ ↦ ⟨none, 0⟩, fun _ ↦ false, fun _ ↦ false⟩ ⟨0, 70⟩,
    .append stillClock [] [119]]

theorem sized_shortRun : ∀ op ∈ shortRun, op.Sized := by
  simp only [shortRun, List.mem_cons, List.not_mem_nil, or_false, forall_eq_or_imp, forall_eq,
    LogOp.Sized, true_and, and_true]
  decide

theorem valuesPresent_shortRun : ∀ op ∈ shortRun, op.ValuesPresent := by
  simp only [shortRun, List.mem_cons, List.not_mem_nil, or_false, forall_eq_or_imp, forall_eq,
    LogOp.ValuesPresent, true_and, and_true]
  decide

/-- A crash in the second of two records. -/
theorem recovers_acknowledged_shortRun :
    ∃ state, run (LogState.step rawBlockZstd) ⟨emptyLog smallSegments, []⟩ shortRun = some state ∧
      state.retained.map StoredRecord.offset = [1, 2] ∧
      RecoversAcknowledged rawBlockZstd smallSegments state
        (.appendBatch stillClock [⟨[1], [2]⟩, ⟨[3], [4]⟩]) true 45 [(1, [9])] := by
  have hretained : (run (LogState.step rawBlockZstd) ⟨emptyLog smallSegments, []⟩ shortRun).map
      (fun state ↦ (state.acked.length, state.retained.map StoredRecord.offset)) =
        some (3, [1, 2]) := by decide
  obtain ⟨state, hrun, hstate⟩ := Option.map_eq_some_iff.mp hretained
  obtain ⟨hacked, hoffsets⟩ := Prod.mk.inj hstate
  refine ⟨state, hrun, hoffsets, recovers_acknowledged rawBlockZstd smallSegments _
    (openLog_empty ⟨by decide, by decide⟩ rawBlockZstd) shortRun sized_shortRun
    valuesPresent_shortRun state hrun
    (.appendBatch stillClock [⟨[1], [2]⟩, ⟨[3], [4]⟩]) trivial trivial ?_ true 45 [(1, [9])]⟩
  rw [hacked, InFlight.records, List.length_mapIdx]
  decide

/-! ## A batch that does not fit its byte count

`encode_batch` writes its byte count into 32 bits without the check that
`encode_record` makes. -/

theorem breaks_oversized (Z : Zstd) (options : PartitionLogOptions) {e : Entry}
    (h : e.recordBytes % 2 ^ 32 < kMinimumRecordBytes) (rest : Bytes) :
    Breaks Z options (e.bytes ++ rest) := by
  intro segment fuel next position
  have hlength : (e.bytes ++ rest).length = 4 + e.recordBytes + rest.length := by
    rw [List.length_append, Entry.length_bytes]
  have hcount : readU32Be (e.bytes ++ rest) 0 = e.recordBytes % 2 ^ 32 := by
    rw [Entry.bytes_eq, List.append_assoc, readU32Be_front]
  rw [scanLoop, if_neg (by rw [← List.length_eq_zero_iff, hlength]; omega), if_neg (by omega),
    hcount, if_pos (Or.inl h)]

/-- A log of one partition of the topic `t` that admits batches of any size. -/
def unlimitedOptions : PartitionLogOptions :=
  { topic := [116]
    partitionId := 0
    maxSegmentBytes := 1048576
    segmentMaxAgeSeconds := 0
    maxUncompressedBatchBytes := 2 ^ 32 - 1 }

/-- An uncompressed batch with one record. -/
def oneRecordBatch (value : Bytes) (uncompressedBytes : UInt32) : LogOp :=
  .appendEncodedBatch .none (encodeRecordSet [⟨[], value⟩]) uncompressedBytes [⟨[], value⟩] 0

theorem step_oneRecordBatch (Z : Zstd) (options : PartitionLogOptions) (value : Bytes)
    (uncompressedBytes : UInt32) (hsize : 12 + value.length = uncompressedBytes.toNat)
    (hlimit : 12 + value.length ≤ options.maxUncompressedBatchBytes) :
    ∃ state, LogState.step Z ⟨emptyLog options, []⟩ (oneRecordBatch value uncompressedBytes) =
        some state ∧
      state.log.options = options ∧ state.log.nextOffset = 1 ∧
      state.acked = [⟨0, 0, [], value⟩] ∧
      (∃ recordBytes, state.log.index = [⟨0, 0, recordBytes, 0, 0, 1⟩]) ∧
      state.log.dir.logs = [(0, (batchEntry 0 .none (encodeRecordSet [⟨[], value⟩])
        [⟨[], value⟩] 0).bytes)] := by
  have hlength : (encodeRecordSet [⟨[], value⟩]).length = uncompressedBytes.toNat := by
    rw [← hsize, length_encodeRecordSet]
    simp
    omega
  have hdecompress : decompress Z .none (encodeRecordSet [⟨[], value⟩]) uncompressedBytes.toNat
      options.maxUncompressedBatchBytes = .ok (encodeRecordSet [⟨[], value⟩]) := by
    unfold decompress
    rw [if_neg (by omega)]
    exact if_neg (not_not.mpr hlength)
  have hvalid : validateEncodedBatch Z (emptyLog options).options .none
      (encodeRecordSet [⟨[], value⟩]) uncompressedBytes [⟨[], value⟩] = .ok () := by
    unfold validateEncodedBatch
    rw [if_neg (by simp)]
    simp only [List.map_cons, List.map_nil]
    rw [if_neg (not_not.mpr hlength), emptyLog, hdecompress, ok_bind,
      if_neg (not_not.mpr rfl)]
  have hstaged : (emptyLog options).stageEncodedBatch .none (encodeRecordSet [⟨[], value⟩])
      uncompressedBytes [(⟨[], value⟩ : AppendRecord)].length 0 =
      { segment := 0
        position := 0
        encoded :=
          (batchEntry 0 .none (encodeRecordSet [⟨[], value⟩]) [⟨[], value⟩] 0).bytes } := by
    unfold stageEncodedBatch
    rw [if_neg (fun h ↦ absurd h.1 (lt_irrefl 0)), ← hlength]
    rfl
  unfold LogState.step oneRecordBatch PartitionLog.appendEncodedBatch
  simp only [hvalid, hstaged]
  exact ⟨_, rfl, rfl, rfl, rfl, ⟨_, rfl⟩, rfl⟩

theorem openOptions_unlimited : OpenOptions unlimitedOptions := ⟨by decide, by decide⟩

/-- The byte count of a batch of 2^32 bytes. -/
theorem recordBytes_wraps {value : Bytes} (hvalue : value.length = 2 ^ 32 - 52) :
    (batchEntry 0 .none (encodeRecordSet [⟨[], value⟩]) [⟨[], value⟩] 0).recordBytes = 2 ^ 32 := by
  rw [recordBytes_batchEntry, length_encodeRecordSet]
  simp only [List.map_cons, List.map_nil, List.sum_cons, List.sum_nil, List.length_nil, hvalue]
  norm_num

/-- A batch whose byte count wraps to zero does not survive the next open. -/
theorem openLog_of_wraps (Z : Zstd) (value : Bytes) (uncompressedBytes : UInt32)
    (hvalue : value.length = 2 ^ 32 - 52) (hsize : uncompressedBytes.toNat = 2 ^ 32 - 40) :
    ∃ state, run (LogState.step Z) ⟨emptyLog unlimitedOptions, []⟩
        [oneRecordBatch value uncompressedBytes] = some state ∧
      state.log.options = unlimitedOptions ∧ state.log.nextOffset = 1 ∧
      state.log.index.map IndexEntry.offset = [0] ∧
      ∀ indexes, ∃ recovered,
        openLog Z unlimitedOptions { logs := state.log.dir.logs, indexes := indexes } =
          .ok recovered ∧
        recovered.index = [] ∧ recovered.nextOffset = 0 := by
  obtain ⟨state, hstep, hoptions, hnext, -, ⟨recordBytes, hindex⟩, hlogs⟩ :=
    step_oneRecordBatch Z unlimitedOptions value uncompressedBytes (by omega)
      (by rw [hvalue, unlimitedOptions]; norm_num)
  refine ⟨state, by rw [run, hstep]; rfl, hoptions, hnext, by rw [hindex]; rfl,
    fun indexes ↦ ?_⟩
  set e := batchEntry 0 .none (encodeRecordSet [⟨[], value⟩]) [⟨[], value⟩] 0 with he
  have hwraps : e.recordBytes % 2 ^ 32 < kMinimumRecordBytes := by
    rw [he, recordBytes_wraps hvalue]
    decide
  have hbreaks : Breaks Z unlimitedOptions e.bytes := by
    have hbreaks := breaks_oversized Z unlimitedOptions hwraps []
    rwa [List.append_nil] at hbreaks
  have hplaced : Layout.WellPlaced ([] ++ [⟨0, []⟩]) 0 :=
    ⟨List.pairwise_singleton _ _, List.Pairwise.nil, by simp, by simp [Layout.entries],
      by simp [Layout.entries], fun _ ↦ rfl⟩
  have hrecovers := recover_broken hplaced (by simp [Layout.entries]) hbreaks [] (by simp) indexes
  refine ⟨_, openLog_eq openOptions_unlimited Z _, ?_, ?_⟩
  · rw [hlogs, openActiveSegment_index]
    exact hrecovers.index
  · rw [hlogs, openActiveSegment_nextOffset]
    exact hrecovers.nextOffset

/-- An acknowledged batch is gone after the next open: its byte count is 2^32,
the field says zero, and recovery cuts the segment in front of it. -/
theorem acknowledged_batch_lost :
    openLog noZstd unlimitedOptions {} = .ok (emptyLog unlimitedOptions) ∧
    (oneRecordBatch (List.replicate (2 ^ 32 - 52) 0)
      (UInt32.ofNat (2 ^ 32 - 40))).ValuesPresent ∧
    ∃ state, run (LogState.step noZstd) ⟨emptyLog unlimitedOptions, []⟩
        [oneRecordBatch (List.replicate (2 ^ 32 - 52) 0) (UInt32.ofNat (2 ^ 32 - 40))] =
          some state ∧
      ¬ RecoversAcknowledged noZstd unlimitedOptions state (.appendBatch stillClock []) false 0
        [] := by
  obtain ⟨state, hrun, -, hnext, -, hreopen⟩ := openLog_of_wraps noZstd
    (List.replicate (2 ^ 32 - 52) 0) (UInt32.ofNat (2 ^ 32 - 40)) List.length_replicate (by decide)
  refine ⟨openLog_empty openOptions_unlimited noZstd, ?_, state, hrun, ?_⟩
  · intro record hrecord
    rw [List.mem_singleton.mp hrecord]
    exact fun h ↦ absurd (congrArg List.length h) (by rw [List.length_replicate]; decide)
  · rintro ⟨recovered, survived, hopen, -, -, -, -, hle⟩
    obtain ⟨recovered', hopen', -, hzero⟩ := hreopen []
    have hcrash : (InFlight.appendBatch stillClock []).crash noZstd state.log false 0 [] =
        { logs := state.log.dir.logs, indexes := [] } := rfl
    rw [hcrash, hopen'] at hopen
    rw [Except.ok.inj hopen] at hzero
    omega

end BoltStream.Storage
