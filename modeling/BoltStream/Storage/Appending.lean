import BoltStream.Storage.Represents

/-!
# Appending to a layout

The appends write a sequence of entries, each to a segment it can be placed in.
`Placements` describes such a sequence; cut off anywhere, it leaves a shorter
one and part of an entry.
-/

namespace BoltStream.Storage

open BoltStream.Lib BoltStream.Protocol BoltStream.Compression

namespace Layout

/-- Entries and the segments they go to, in order. -/
abbrev Plan := List (ℕ × Entry)

def placeAll (layout : Layout) (plan : Plan) : Layout :=
  plan.foldl (fun layout write ↦ layout.place write.1 write.2) layout

/-- The appends that carry out a plan. -/
def Plan.writes (plan : Plan) : List (ℕ × Bytes) :=
  plan.map fun write ↦ (write.1, write.2.bytes)

/-- Every entry of the plan can be placed in its turn, `next` becoming `stop`. -/
inductive Placements : Layout → ℕ → Plan → ℕ → Prop
  | nil (layout : Layout) (next : ℕ) : Placements layout next [] next
  | cons {layout : Layout} {next base stop : ℕ} {e : Entry} {plan : Plan}
      (hplace : layout.Placeable next base) (hfirst : e.first = next)
      (hrest : Placements (layout.place base e) e.stop plan stop) :
      Placements layout next ((base, e) :: plan) stop

theorem files_placeAll (layout : Layout) (plan : Plan) :
    (layout.placeAll plan).files = layout.files.writeAll plan.writes := by
  induction plan generalizing layout with
  | nil => rfl
  | cons write plan ih =>
      rw [placeAll, List.foldl_cons]
      change (placeAll (layout.place write.1 write.2) plan).files = _
      rw [ih, files_place]
      rfl

namespace Placements

variable {layout : Layout} {next stop : ℕ} {plan : Plan}

theorem wellPlaced (h : Placements layout next plan stop) (hplaced : layout.WellPlaced next) :
    (layout.placeAll plan).WellPlaced stop := by
  induction h with
  | nil => exact hplaced
  | cons hplace hfirst _ ih => exact ih (hplaced.place hplace hfirst)

theorem entries_eq (h : Placements layout next plan stop) (hplaced : layout.WellPlaced next) :
    (layout.placeAll plan).entries = layout.entries ++ plan.map Prod.snd := by
  induction h with
  | nil => simp [placeAll]
  | @cons layout next base stop e plan hplace hfirst _ ih =>
      have hrest := ih (hplaced.place hplace hfirst)
      rw [entries_place hplaced.bases hplace.behind] at hrest
      rw [List.map_cons, List.append_cons]
      exact hrest

theorem take (h : Placements layout next plan stop) (k : ℕ) :
    ∃ stop', Placements layout next (plan.take k) stop' := by
  induction h generalizing k with
  | nil layout next => exact ⟨next, by rw [List.take_nil]; exact .nil layout next⟩
  | @cons layout next base stop e plan hplace hfirst _ ih =>
      cases k with
      | zero => exact ⟨next, .nil layout next⟩
      | succ k =>
          obtain ⟨stop', hrest⟩ := ih k
          exact ⟨stop', .cons hplace hfirst hrest⟩

/-- The entry a cut falls into could be placed there. -/
theorem placeable_at (h : Placements layout next plan stop) {k base : ℕ} {e : Entry}
    (hk : plan[k]? = some (base, e)) {stop' : ℕ}
    (htake : Placements layout next (plan.take k) stop') :
    (layout.placeAll (plan.take k)).Placeable stop' base := by
  induction h generalizing k with
  | nil => cases hk
  | @cons layout next base' stop e' plan hplace hfirst _ ih =>
      cases k with
      | zero =>
          obtain rfl : base' = base := congrArg Prod.fst (Option.some.inj hk)
          cases htake
          exact hplace
      | succ k =>
          cases htake with
          | cons _ _ hrest => exact ih hk hrest

theorem stop_eq (h : Placements layout next plan stop) :
    stop = next + (plan.map fun write ↦ write.2.count).sum := by
  induction h with
  | nil => rfl
  | @cons layout next base stop e plan hplace hfirst _ ih =>
      rw [ih, List.map_cons, List.sum_cons, Entry.stop, hfirst, Nat.add_assoc]

end Placements

/-- What a cut-off sequence of appends leaves behind: whole entries, and
possibly a part of the next. -/
theorem writeUpTo_plan (created : Bool) (cut : ℕ) (plan : Plan) (layout : Layout) :
    ∃ k, FileTable.writeUpTo created cut plan.writes layout.files =
          (layout.placeAll (plan.take k)).files ∨
        ∃ base e torn, plan[k]? = some (base, e) ∧ torn <+: e.bytes ∧
          torn.length < e.bytes.length ∧
          FileTable.writeUpTo created cut plan.writes layout.files =
            (layout.placeAll (plan.take k)).files.append base torn := by
  induction plan generalizing layout cut with
  | nil => exact ⟨0, Or.inl rfl⟩
  | cons write plan ih =>
      rw [Plan.writes, List.map_cons, FileTable.writeUpTo]
      by_cases hwhole : write.2.bytes.length ≤ cut
      · obtain ⟨k, hk⟩ := ih (cut - write.2.bytes.length) (layout.place write.1 write.2)
        rw [files_place] at hk
        refine ⟨k + 1, ?_⟩
        rw [if_pos hwhole]
        exact hk
      · refine ⟨0, ?_⟩
        rw [if_neg hwhole]
        by_cases hnone : cut = 0 ∧ created = false
        · exact Or.inl (if_pos hnone)
        · refine Or.inr ⟨write.1, write.2, write.2.bytes.take cut, rfl, List.take_prefix _ _, ?_,
            if_neg hnone⟩
          rw [List.length_take]
          omega

/-- A segment named by the next offset is missing or empty. -/
theorem WellPlaced.sizeOrZero_next {layout : Layout} {next : ℕ} (h : layout.WellPlaced next)
    (hcount : ∀ e ∈ layout.entries, 0 < e.count) : layout.files.sizeOrZero next = 0 := by
  by_cases hexists : ∃ s ∈ layout, s.base = next
  · obtain ⟨s, hs, hbase⟩ := hexists
    have hnil := h.entries_of_le_base hcount hs hbase.ge
    have hcontent : layout.files.content? next = some s.content :=
      FileTable.content?_of_mem (files_sorted h.bases) (hbase ▸ List.mem_map_of_mem hs)
    rw [FileTable.sizeOrZero, hcontent, Segment.content, hnil]
    rfl
  · have hcontent : layout.files.content? next = none := FileTable.content?_eq_none fun f hf ↦ by
      obtain ⟨s, hs, rfl⟩ := List.mem_map.mp hf
      exact fun hbase ↦ hexists ⟨s, hs, hbase⟩
    rw [FileTable.sizeOrZero, hcontent]
    rfl

end Layout

namespace PartitionLog

/-! ## Batches of records -/

theorem encodeRecord_ok {offset timestamp : ℕ} {key value encoded : Bytes}
    (h : encodeRecord offset timestamp key value = .ok encoded) :
    encoded = (Entry.record offset timestamp key value).bytes ∧
      (Entry.record offset timestamp key value).recordBytes < 2 ^ 32 := by
  rw [encodeRecord] at h
  split_ifs at h with hparts hwhole
  refine ⟨(Except.ok.inj h).symm, ?_⟩
  simp only [Entry.recordBytes, Entry.body] at hwhole ⊢
  omega

/-- The entries of a batch of records, in order. -/
def recordEntries (clock : AppendClock) (next : ℕ) : ℕ → List AppendRecord → List Entry
  | _, [] => []
  | i, record :: rest =>
      .record (next + i) (clock.timestamp i).toNat record.key record.value ::
        recordEntries clock next (i + 1) rest

/-- What a producer was told about one record. -/
def acknowledged (metadata : RecordMetadata) (record : AppendRecord) : StoredRecord :=
  { offset := metadata.offset
    timestamp := metadata.timestampUnixNs
    key := record.key
    value := record.value }

/-- The staged part of a batch as a plan: its first records, in order, each in
a segment it can be placed in, and all of them if no record was refused. -/
structure StagedBatch.Follows (staged : StagedBatch) (layout : Layout) (next : ℕ)
    (entries : List Entry) (records : List AppendRecord) (plan : Layout.Plan) : Prop where
  placed : layout.Placements next plan (next + plan.length)
  fits : ∀ write ∈ plan, write.2.Fits
  accepted : ∀ Z limit, ∀ write ∈ plan, write.2.Accepted Z limit
  entries_eq : plan.map Prod.snd = entries.take plan.length
  whole : staged.error = none → plan.length = entries.length
  writes : staged.logWrites = plan.writes
  index : (layout.placeAll plan).index = layout.index ++ staged.records.map StagedRecord.entry
  acknowledged : List.zipWith acknowledged (staged.records.map StagedRecord.metadata) records =
    (plan.map Prod.snd).flatMap Entry.records

/-- The record staged for one entry of a batch. -/
def stagedRecord (options : PartitionLogOptions) (offset timestamp : ℕ) (record : AppendRecord)
    (base position : ℕ) : StagedRecord :=
  let e := Entry.record offset timestamp record.key record.value
  { entry :=
      { offset := offset
        filePosition := position
        recordBytes := e.recordBytes
        segment := base }
    metadata :=
      { topic := options.topic
        partition := options.partitionId
        offset := offset
        timestampUnixNs := timestamp
        encodedByteSize := e.bytes.length % 2 ^ 32 }
    encoded := e.bytes }

/-- One turn of the loop: the record goes to the current segment or to a new
one named by its offset. -/
theorem stageRecords_cons (options : PartitionLogOptions) {clock : AppendClock}
    {original i : ℕ} (hoffset : original + i < 2 ^ 64) {record : AppendRecord} {encoded : Bytes}
    (hencoded : encodeRecord (original + i) (clock.timestamp i).toNat record.key record.value =
      .ok encoded) (base size : ℕ) (rest : List AppendRecord) :
    ∃ base' size', (base' = base ∧ size' = size ∨ base' = original + i ∧ size' = 0 ∧ 0 < size) ∧
      stageRecords options clock original i base size (record :: rest) =
        { stageRecords options clock original (i + 1) base' (size' + encoded.length) rest with
          records := stagedRecord options (original + i) (clock.timestamp i).toNat record base'
              size' ::
            (stageRecords options clock original (i + 1) base' (size' + encoded.length)
              rest).records } := by
  obtain ⟨hbytes, hfits⟩ := encodeRecord_ok hencoded
  have hlength : (encoded.length - 4) % 2 ^ 32 =
      (Entry.record (original + i) (clock.timestamp i).toNat record.key
        record.value).recordBytes := by
    rw [hbytes, Entry.length_bytes, Nat.add_sub_cancel_left, Nat.mod_eq_of_lt hfits]
  rw [stageRecords]
  simp only [Nat.mod_eq_of_lt hoffset, hencoded]
  by_cases hroll : (decide (size > 0 ∧ size + encoded.length > options.maxSegmentBytes) ||
      decide (options.segmentMaxAgeSeconds > 0 ∧ size > 0 ∧
        fileAgeSecondsOrZero (clock.age i) ≥ options.segmentMaxAgeSeconds)) = true
  · refine ⟨original + i, 0, Or.inr ⟨rfl, rfl, ?_⟩, ?_⟩
    · simp only [Bool.or_eq_true, decide_eq_true_eq] at hroll
      omega
    simp only [hroll, if_true, hlength, stagedRecord, ← hbytes]
  · refine ⟨base, size, Or.inl ⟨rfl, rfl⟩, ?_⟩
    rw [Bool.not_eq_true] at hroll
    simp only [hroll, Bool.false_eq_true, if_false, hlength, stagedRecord, ← hbytes]

theorem stageRecords_follows (options : PartitionLogOptions) (clock : AppendClock)
    (original : ℕ) (records : List AppendRecord) :
    ∀ (i base size : ℕ) (layout : Layout), layout.WellPlaced (original + i) →
      (∀ e ∈ layout.entries, 0 < e.count) → layout.Placeable (original + i) base →
      layout.files.sizeOrZero base = size → original + i + records.length < 2 ^ 64 →
      ∃ plan, (stageRecords options clock original i base size records).Follows layout
        (original + i) (recordEntries clock original i records) records plan := by
  induction records with
  | nil =>
      intro i base size layout hplaced hcount hplace hsize hbound
      exact ⟨[], .nil _ _, by simp, by simp, rfl, fun _ ↦ rfl, rfl,
        by simp [Layout.placeAll, stageRecords], by simp [stageRecords]⟩
  | cons record rest ih =>
      intro i base size layout hplaced hcount hplace hsize hbound
      rw [List.length_cons] at hbound
      have hoffset : original + i < 2 ^ 64 := by omega
      cases hencoded : encodeRecord (original + i) (clock.timestamp i).toNat record.key
          record.value with
      | error message =>
          have hstage : stageRecords options clock original i base size (record :: rest) =
              { records := [], error := some message } := by
            rw [stageRecords]
            simp only [Nat.mod_eq_of_lt hoffset, hencoded]
          rw [hstage]
          exact ⟨[], .nil _ _, by simp, by simp, rfl,
            fun h ↦ (Option.some_ne_none message h).elim, rfl, by simp [Layout.placeAll], by simp⟩
      | ok encoded =>
          obtain ⟨base', size', hcases, hstage⟩ :=
            stageRecords_cons options hoffset hencoded base size rest
          obtain ⟨hbytes, hfits⟩ := encodeRecord_ok hencoded
          have hplace' : layout.Placeable (original + i) base' := by
            rcases hcases with ⟨rfl, -⟩ | ⟨rfl, -⟩
            · exact hplace
            · exact hplaced.placeable_next hcount
          have hsize' : layout.files.sizeOrZero base' = size' := by
            rcases hcases with ⟨rfl, rfl⟩ | ⟨rfl, rfl, -⟩
            · exact hsize
            · exact hplaced.sizeOrZero_next hcount
          set e := Entry.record (original + i) (clock.timestamp i).toNat record.key record.value
            with he
          obtain ⟨plan, hplan⟩ := ih (i + 1) base' (size' + encoded.length)
            (layout.place base' e) (hplaced.place hplace' rfl) (fun f hf ↦ by
              rw [Layout.entries_place hplaced.bases hplace'.behind, List.mem_append,
                List.mem_singleton] at hf
              rcases hf with hf | rfl
              · exact hcount f hf
              · exact Nat.one_pos) (hplace'.place hplaced) (by
              rw [Layout.files_place, FileTable.sizeOrZero_append _ _ _
                (Layout.files_sorted hplaced.bases), hsize', hbytes]) (by omega)
          have hindex := Layout.index_place hplaced.bases hplace'.behind e
          refine ⟨(base', e) :: plan, ?_, ?_, ?_, ?_, ?_, ?_, ?_, ?_⟩
          · rw [List.length_cons, show original + i + (plan.length + 1) =
              original + (i + 1) + plan.length by omega]
            exact .cons hplace' rfl hplan.placed
          · intro write hwrite
            rcases List.mem_cons.mp hwrite with rfl | hwrite
            · exact ⟨by simp only [he, Entry.stop, Entry.first, Entry.count]; omega, hfits,
                (clock.timestamp i).toNat_lt⟩
            · exact hplan.fits write hwrite
          · intro Z limit write hwrite
            rcases List.mem_cons.mp hwrite with rfl | hwrite
            · trivial
            · exact hplan.accepted Z limit write hwrite
          · rw [List.map_cons, hplan.entries_eq, recordEntries, List.length_cons,
              List.take_succ_cons]
          · rw [hstage]
            intro hnone
            rw [List.length_cons, hplan.whole hnone, recordEntries, List.length_cons]
          · rw [hstage]
            have hwrites := hplan.writes
            rw [StagedBatch.logWrites] at hwrites ⊢
            rw [List.map_cons, hwrites]
            rfl
          · rw [hstage, List.map_cons, List.append_cons]
            have hrest := hplan.index
            rw [hindex, hsize'] at hrest
            exact hrest
          · rw [hstage, List.map_cons, List.zipWith_cons_cons, hplan.acknowledged, List.map_cons,
              List.flatMap_cons]
            rfl

theorem length_recordEntries (clock : AppendClock) (next i : ℕ) (records : List AppendRecord) :
    (recordEntries clock next i records).length = records.length := by
  induction records generalizing i with
  | nil => rfl
  | cons record rest ih => rw [recordEntries, List.length_cons, List.length_cons, ih]

section Represents

variable {Z : Zstd} {log : PartitionLog} {layout : Layout}

theorem Represents.count_pos (hrep : log.Represents Z layout) {e : Entry}
    (he : e ∈ layout.entries) : 0 < e.count :=
  (hrep.written e he).count_pos

theorem Represents.placeable (hrep : log.Represents Z layout) :
    layout.Placeable log.nextOffset log.activeSegmentBase :=
  placeable_active hrep.index hrep.placed hrep.bound fun _ ↦ hrep.count_pos

theorem Represents.stageBatch_follows (hrep : log.Represents Z layout) (clock : AppendClock)
    {records : List AppendRecord} (hbound : log.nextOffset + records.length < 2 ^ 64) :
    ∃ plan, (log.stageBatch clock records).Follows layout log.nextOffset
      (recordEntries clock log.nextOffset 0 records) records plan :=
  stageRecords_follows log.options clock log.nextOffset records 0 log.activeSegmentBase _ layout
    hrep.placed (fun _ ↦ hrep.count_pos) hrep.placeable (by rw [hrep.logs]) hbound

/-- A log whose files, index and next offset have followed a plan represents
the layout with the plan's entries. -/
theorem Represents.placeAll (hrep : log.Represents Z layout) {plan : Layout.Plan} {stop : ℕ}
    (hplacements : layout.Placements log.nextOffset plan stop) (hstop : stop < 2 ^ 64)
    (hwritten : ∀ write ∈ plan, write.2.Written Z) (hne : plan ≠ []) {log' : PartitionLog}
    (hlogs : log'.dir.logs = log.dir.logs.writeAll plan.writes)
    (hindex : log'.index = (layout.placeAll plan).index) (hnext : log'.nextOffset = stop) :
    log'.Represents Z (layout.placeAll plan) := by
  have hplaced := hplacements.wellPlaced hrep.placed
  have hentries := hplacements.entries_eq hrep.placed
  have hwritten' : ∀ e ∈ (layout.placeAll plan).entries, e.Written Z := fun e he ↦ by
    rw [hentries, List.mem_append] at he
    rcases he with he | he
    · exact hrep.written e he
    · obtain ⟨write, hwrite, rfl⟩ := List.mem_map.mp he
      exact hwritten write hwrite
  have hstored : (layout.placeAll plan).entries ≠ [] := by
    rw [hentries]
    exact fun h ↦ hne (List.map_eq_nil_iff.mp (List.append_eq_nil_iff.mp h).2)
  obtain ⟨s, hs⟩ := Layout.exists_lastStored hplaced.bases hstored
  have hactive := activeSegmentBase_of_lastStored hindex (by rw [hnext]; exact hplaced)
    (by rw [hnext]; exact hstop) (fun e he ↦ (hwritten' e he).count_pos) hs
  refine ⟨?_, hindex, by rw [hnext]; exact hplaced, by rw [hnext]; exact hstop, hwritten',
    s, hs.mem, hactive.symm⟩
  rw [hlogs, hrep.logs, Layout.files_placeAll]

/-- A batch that was appended without a fault. -/
theorem Represents.appendBatch (hrep : log.Represents Z layout) {clock : AppendClock}
    {records : List AppendRecord} (hbound : log.nextOffset + records.length < 2 ^ 64)
    {log' : PartitionLog} {metas : List RecordMetadata}
    (happend : log.appendBatch clock none records = (log', .ok metas)) :
    ∃ layout', log'.Represents Z layout' ∧ log'.options = log.options ∧
      log'.nextOffset = log.nextOffset + records.length ∧
      layout'.entries = layout.entries ++ recordEntries clock log.nextOffset 0 records ∧
      List.zipWith acknowledged metas records =
        (recordEntries clock log.nextOffset 0 records).flatMap Entry.records := by
  rw [PartitionLog.appendBatch] at happend
  by_cases hnil : records = []
  · rw [if_pos hnil] at happend
    obtain ⟨rfl, hmetas⟩ := Prod.mk.inj happend
    refine ⟨layout, hrep, rfl, by simp [hnil], by simp [hnil, recordEntries], ?_⟩
    simp [hnil, recordEntries]
  · rw [if_neg hnil] at happend
    obtain ⟨plan, hplan⟩ := hrep.stageBatch_follows clock hbound
    cases herror : (log.stageBatch clock records).error with
    | some message =>
        simp only [herror] at happend
        cases (Prod.mk.inj happend).2
    | none =>
        simp only [herror] at happend
        obtain ⟨hlog, hmetas⟩ := Prod.mk.inj happend
        have hlength : plan.length = records.length := by
          rw [hplan.whole herror, length_recordEntries]
        have hentries : plan.map Prod.snd = recordEntries clock log.nextOffset 0 records := by
          rw [hplan.entries_eq, hplan.whole herror, List.take_length]
        have hplacements := hplan.placed
        rw [hlength] at hplacements
        have hrep' : log'.Represents Z (layout.placeAll plan) := by
          refine hrep.placeAll hplacements hbound
            (fun write hwrite ↦ ⟨hplan.fits write hwrite, 0, hplan.accepted Z 0 write hwrite⟩)
            (fun h ↦ hnil ?_) ?_ ?_ ?_
          · rwa [h, List.length_nil, eq_comm, List.length_eq_zero_iff] at hlength
          · rw [← hlog, ← hplan.writes]
          · rw [← hlog, hplan.index, hrep.index]
          · rw [← hlog]
            exact Nat.mod_eq_of_lt hbound
        refine ⟨layout.placeAll plan, hrep', by rw [← hlog], ?_, ?_, ?_⟩
        · rw [← hlog]
          exact Nat.mod_eq_of_lt hbound
        · rw [hplacements.entries_eq hrep.placed, hentries]
        · rw [← Except.ok.inj hmetas, hplan.acknowledged, hentries]

/-! ## Encoded batches -/

/-- The records of an encoded batch, as its record set holds them. -/
def batchRecords (decodedRecords : List AppendRecord) : List BatchRecord :=
  decodedRecords.map fun record ↦ ⟨record.key, record.value⟩

/-- The entry of an encoded batch. -/
def batchEntry (next : ℕ) (codec : Codec) (encodedRecords : Bytes)
    (decodedRecords : List AppendRecord) (timestamp : UInt64) : Entry :=
  .batch next timestamp.toNat codec encodedRecords (batchRecords decodedRecords)

theorem length_batchRecords (decodedRecords : List AppendRecord) :
    (batchRecords decodedRecords).length = decodedRecords.length := List.length_map _

theorem recordBytes_batchEntry (next : ℕ) (codec : Codec) (encodedRecords : Bytes)
    (decodedRecords : List AppendRecord) (timestamp : UInt64) :
    (batchEntry next codec encodedRecords decodedRecords timestamp).recordBytes =
      encodedRecords.length + 40 := by
  simp only [batchEntry, Entry.recordBytes, Entry.body, length_batchBody]
  omega

/-- What the validation of `append_encoded_batch` has checked. -/
theorem validateEncodedBatch_ok {options : PartitionLogOptions} {codec : Codec}
    {encodedRecords : Bytes} {uncompressedBytes : UInt32} {decodedRecords : List AppendRecord}
    (h : validateEncodedBatch Z options codec encodedRecords uncompressedBytes decodedRecords =
      .ok ()) :
    decodedRecords ≠ [] ∧ decodedRecords.length < 2 ^ 32 ∧
      (encodeRecordSet (batchRecords decodedRecords)).length = uncompressedBytes.toNat ∧
      decompress Z codec encodedRecords (encodeRecordSet (batchRecords decodedRecords)).length
        options.maxUncompressedBatchBytes =
          .ok (encodeRecordSet (batchRecords decodedRecords)) := by
  unfold validateEncodedBatch at h
  split_ifs at h with hcount
  dsimp only at h
  split_ifs at h with hsize
  rw [not_or, Nat.not_lt] at hcount
  rw [ne_eq, not_not] at hsize
  change (encodeRecordSet (batchRecords decodedRecords)).length = _ at hsize
  refine ⟨hcount.1, by omega, hsize, ?_⟩
  rw [hsize]
  cases hdecoded : decompress Z codec encodedRecords uncompressedBytes.toNat
      options.maxUncompressedBatchBytes with
  | error message =>
      rw [hdecoded] at h
      cases h
  | ok decoded =>
      rw [hdecoded, ok_bind] at h
      split_ifs at h with hcontent
      rw [ne_eq, not_not] at hcontent
      rw [hcontent]
      rfl

/-- Where `append_encoded_batch` writes: the entry of the batch, at the end of a
segment it can be placed in. -/
theorem Represents.stageEncodedBatch (hrep : log.Represents Z layout) {codec : Codec}
    {encodedRecords : Bytes} {uncompressedBytes : UInt32} {decodedRecords : List AppendRecord}
    (hvalid : validateEncodedBatch Z log.options codec encodedRecords uncompressedBytes
      decodedRecords = .ok ()) (timestamp : UInt64) :
    ∃ segment, layout.Placeable log.nextOffset segment ∧
      log.stageEncodedBatch codec encodedRecords uncompressedBytes decodedRecords.length timestamp =
        { segment := segment
          position := layout.files.sizeOrZero segment
          encoded := (batchEntry log.nextOffset codec encodedRecords decodedRecords
            timestamp).bytes } := by
  obtain ⟨-, hcount, hsize, -⟩ := validateEncodedBatch_ok hvalid
  have hencoded : encodeBatch log.nextOffset timestamp.toNat codec
      (decodedRecords.length % 2 ^ 32) uncompressedBytes.toNat encodedRecords =
        (batchEntry log.nextOffset codec encodedRecords decodedRecords timestamp).bytes := by
    rw [Nat.mod_eq_of_lt hcount, ← hsize, ← length_batchRecords]
    rfl
  rw [PartitionLog.stageEncodedBatch, hencoded]
  split_ifs with hroll
  · refine ⟨log.nextOffset, hrep.placed.placeable_next fun _ ↦ hrep.count_pos, ?_⟩
    rw [hrep.placed.sizeOrZero_next fun _ ↦ hrep.count_pos]
  · exact ⟨log.activeSegmentBase, hrep.placeable, by rw [hrep.logs]⟩

theorem fits_batchEntry {options : PartitionLogOptions} {codec : Codec} {encodedRecords : Bytes}
    {uncompressedBytes : UInt32} {decodedRecords : List AppendRecord}
    (hvalid : validateEncodedBatch Z options codec encodedRecords uncompressedBytes
      decodedRecords = .ok ()) {next : ℕ} (hbound : next + decodedRecords.length < 2 ^ 64)
    (hfits : encodedRecords.length + 40 < 2 ^ 32) (timestamp : UInt64) :
    (batchEntry next codec encodedRecords decodedRecords timestamp).Fits := by
  obtain ⟨-, -, hsize, -⟩ := validateEncodedBatch_ok hvalid
  refine ⟨?_, by rwa [recordBytes_batchEntry], timestamp.toNat_lt, ?_⟩
  · rwa [batchEntry, Entry.stop, Entry.first, Entry.count, length_batchRecords]
  · rw [hsize]
    exact uncompressedBytes.toNat_lt

theorem accepted_batchEntry {options : PartitionLogOptions} {codec : Codec}
    {encodedRecords : Bytes} {uncompressedBytes : UInt32} {decodedRecords : List AppendRecord}
    (hvalid : validateEncodedBatch Z options codec encodedRecords uncompressedBytes
      decodedRecords = .ok ()) (next : ℕ) (timestamp : UInt64) :
    (batchEntry next codec encodedRecords decodedRecords timestamp).Accepted Z
      options.maxUncompressedBatchBytes := by
  obtain ⟨hne, -, -, hdecompress⟩ := validateEncodedBatch_ok hvalid
  refine ⟨fun h ↦ hne ?_, hdecompress⟩
  exact List.map_eq_nil_iff.mp h

/-- An encoded batch that was appended without a fault. -/
theorem Represents.appendEncodedBatch (hrep : log.Represents Z layout) {codec : Codec}
    {encodedRecords : Bytes} {uncompressedBytes : UInt32} {decodedRecords : List AppendRecord}
    {timestamp : UInt64} (hbound : log.nextOffset + decodedRecords.length < 2 ^ 64)
    (hfits : encodedRecords.length + 40 < 2 ^ 32) {log' : PartitionLog}
    {metadata : BatchMetadata}
    (happend : PartitionLog.appendEncodedBatch Z log codec encodedRecords uncompressedBytes
      decodedRecords timestamp none = (log', .ok metadata)) :
    validateEncodedBatch Z log.options codec encodedRecords uncompressedBytes decodedRecords =
        .ok () ∧
      ∃ layout', log'.Represents Z layout' ∧ log'.options = log.options ∧
        log'.nextOffset = log.nextOffset + decodedRecords.length ∧
        layout'.entries = layout.entries ++
          [batchEntry log.nextOffset codec encodedRecords decodedRecords timestamp] ∧
        metadata.baseOffset = log.nextOffset ∧
        metadata.timestampUnixNs = timestamp.toNat := by
  unfold PartitionLog.appendEncodedBatch at happend
  cases hvalid : validateEncodedBatch Z log.options codec encodedRecords uncompressedBytes
      decodedRecords with
  | error message =>
      rw [hvalid] at happend
      cases (Prod.mk.inj happend).2
  | ok =>
      rw [hvalid] at happend
      obtain ⟨segment, hplace, hstaged⟩ := hrep.stageEncodedBatch hvalid timestamp
      simp only [hstaged] at happend
      obtain ⟨hlog, hmetadata⟩ := Prod.mk.inj happend
      set e := batchEntry log.nextOffset codec encodedRecords decodedRecords timestamp with he
      have hcount : e.count = decodedRecords.length := length_batchRecords decodedRecords
      have hplacements : layout.Placements log.nextOffset [(segment, e)] e.stop :=
        .cons hplace rfl (.nil _ _)
      have hstop : e.stop = log.nextOffset + decodedRecords.length := by
        rw [Entry.stop, hcount]
        rfl
      have hnext : log'.nextOffset = log.nextOffset + decodedRecords.length := by
        rw [← hlog]
        exact Nat.mod_eq_of_lt hbound
      have hwritten : e.Written Z :=
        ⟨fits_batchEntry hvalid hbound hfits timestamp, _,
          accepted_batchEntry hvalid log.nextOffset timestamp⟩
      have hindex : log'.index = (layout.placeAll [(segment, e)]).index := by
        have hplaced := Layout.index_place hrep.placed.bases hplace.behind e
        have hbytes : (e.bytes.length - 4) % 2 ^ 32 = e.recordBytes := by
          rw [Entry.length_bytes, Nat.add_sub_cancel_left, Nat.mod_eq_of_lt hwritten.1.2.1]
        rw [Layout.placeAll, List.foldl_cons, List.foldl_nil, hplaced, ← hlog, hrep.index,
          StagedEncodedBatch.entries, hbytes, ← length_batchRecords]
        rfl
      refine ⟨rfl, layout.placeAll [(segment, e)], ?_, by rw [← hlog], hnext, ?_, ?_, ?_⟩
      · refine hrep.placeAll hplacements (by omega) (fun write hwrite ↦ ?_) (by simp) ?_ hindex
          (by rw [hnext, hstop])
        · rw [List.mem_singleton.mp hwrite]
          exact hwritten
        · rw [← hlog]
          rfl
      · rw [hplacements.entries_eq hrep.placed]
        rfl
      · rw [← Except.ok.inj hmetadata]
      · rw [← Except.ok.inj hmetadata]

end Represents

end PartitionLog

end BoltStream.Storage
