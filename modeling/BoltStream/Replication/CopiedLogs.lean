import BoltStream.Replication.Simulation
import BoltStream.Storage.Oversized
import BoltStream.Storage.PagedReading

/-!
# Copying a log batch by batch

A log that was only appended to holds consecutive entries from offset zero on.
Reading its next batch and appending it to a log that holds the entries in front
of it gives a log that holds one entry more; only the timestamps differ.
-/

namespace BoltStream.Storage

open BoltStream.Lib BoltStream.Protocol BoltStream.Compression

/-! ## Entries up to their timestamps -/

namespace Entry

def untimed : Entry → Entry
  | record offset _ key value => record offset 0 key value
  | batch baseOffset _ codec encoded records => batch baseOffset 0 codec encoded records

@[simp] theorem first_untimed (e : Entry) : e.untimed.first = e.first := by
  cases e <;> rfl

@[simp] theorem stop_untimed (e : Entry) : e.untimed.stop = e.stop := by
  cases e <;> rfl

end Entry

/-- What a reader sees of a record. -/
def StoredRecord.seen (r : StoredRecord) : ℕ × Bytes × Bytes := (r.offset, r.key, r.value)

theorem seen_records_untimed (e : Entry) :
    e.untimed.records.map StoredRecord.seen = e.records.map StoredRecord.seen := by
  cases e with
  | record => rfl
  | batch baseOffset timestamp codec encoded records =>
      refine List.ext_getElem (by simp [Entry.untimed, Entry.records]) fun i hi hi' ↦ ?_
      simp [Entry.untimed, Entry.records, StoredRecord.seen]

theorem seen_of_untimed {es fs : List Entry} (h : es.map Entry.untimed = fs.map Entry.untimed) :
    (es.flatMap Entry.records).map StoredRecord.seen =
      (fs.flatMap Entry.records).map StoredRecord.seen := by
  have hseen : ∀ gs : List Entry, (gs.flatMap Entry.records).map StoredRecord.seen =
      (gs.map Entry.untimed).flatMap fun e ↦ e.records.map StoredRecord.seen := by
    intro gs
    rw [List.map_flatMap, List.flatMap_map]
    simp only [seen_records_untimed]
  rw [hseen, hseen, h]

namespace Consecutive

variable {first stop stop' : ℕ} {es fs : List Entry}

theorem unique (h : Consecutive first es stop) (h' : Consecutive first es stop') :
    stop = stop' := by
  induction es generalizing first with
  | nil => exact Eq.trans h (Eq.symm h')
  | cons e es ih => exact ih h.2 h'.2

theorem split (h : Consecutive first (es ++ fs) stop) :
    ∃ middle, Consecutive first es middle ∧ Consecutive middle fs stop := by
  induction es generalizing first with
  | nil => exact ⟨first, rfl, h⟩
  | cons e es ih =>
      obtain ⟨middle, hes, hfs⟩ := ih h.2
      exact ⟨middle, ⟨h.1, hes⟩, hfs⟩

theorem untimed_iff :
    Consecutive first (es.map Entry.untimed) stop ↔ Consecutive first es stop := by
  induction es generalizing first with
  | nil => exact Iff.rfl
  | cons e es ih =>
      simp only [List.map_cons, Consecutive, Entry.first_untimed, Entry.stop_untimed, ih]

end Consecutive

/-- The entry is the batch of the records. -/
def Entry.IsBatchOf (e : Entry) (records : List AppendRecord) : Prop :=
  ∃ baseOffset timestamp codec encoded,
    e = .batch baseOffset timestamp codec encoded (PartitionLog.batchRecords records)

/-- Records numbered from an offset on. -/
def numbered (first : ℕ) (records : List AppendRecord) : List (ℕ × Bytes × Bytes) :=
  records.mapIdx fun i record ↦ (first + i, record.key, record.value)

theorem numbered_append (first : ℕ) (records records' : List AppendRecord) :
    numbered first (records ++ records') =
      numbered first records ++ numbered (first + records.length) records' := by
  rw [numbered, List.mapIdx_append]
  simp only [numbered, Nat.add_assoc, Nat.add_comm records.length]

/-- A log of batches holds their records, numbered. -/
theorem seen_of_batches {es : List Entry} {batches : List (List AppendRecord)}
    (h : List.Forall₂ Entry.IsBatchOf es batches) {first stop : ℕ}
    (hconsecutive : Consecutive first es stop) :
    (es.flatMap Entry.records).map StoredRecord.seen = numbered first batches.flatten ∧
      stop = first + batches.flatten.length := by
  induction h generalizing first with
  | nil => exact ⟨rfl, hconsecutive⟩
  | @cons e records es batches he _ ih =>
      obtain ⟨baseOffset, timestamp, codec, encoded, rfl⟩ := he
      obtain ⟨rfl, hrest⟩ := hconsecutive
      have hstop : (Entry.batch baseOffset timestamp codec encoded
          (PartitionLog.batchRecords records)).stop = baseOffset + records.length := by
        rw [Entry.stop, Entry.count, PartitionLog.length_batchRecords]
        rfl
      rw [hstop] at hrest
      obtain ⟨hseen, hlength⟩ := ih hrest
      refine ⟨?_, ?_⟩
      · rw [List.flatMap_cons, List.map_append, hseen, List.flatten_cons, numbered_append]
        congr 1
        refine List.ext_getElem (by simp [Entry.records, PartitionLog.batchRecords, numbered])
          fun i hi hi' ↦ ?_
        simp [Entry.records, PartitionLog.batchRecords, numbered, StoredRecord.seen, Entry.first]
      · rw [hlength, List.flatten_cons, List.length_append, Entry.first, Nat.add_assoc]

/-! ## Logs that were only appended to -/

/-- The log holds the entries of the layout, from offset zero on, and all decode. -/
structure PartitionLog.Grown (Z : Zstd) (options : PartitionLogOptions) (log : PartitionLog)
    (layout : Layout) : Prop where
  represents : log.Represents Z layout
  decodable : ∀ e ∈ layout.entries, e.Decodable options.maxUncompressedBatchBytes
  consecutive : Consecutive 0 layout.entries log.nextOffset
  options : log.options = options

namespace PartitionLog

variable {Z : Zstd} {options : PartitionLogOptions} {log log' : PartitionLog} {layout : Layout}

theorem grown_opened (h : openLog Z options {} = .ok log) :
    ∃ layout, log.Grown Z options layout ∧ layout.entries = [] := by
  obtain ⟨layout, htracks, hnil⟩ := LogState.tracks_opened h
  refine ⟨layout, ⟨htracks.represents, by simp [hnil], ?_, htracks.options⟩, hnil⟩
  rw [hnil, htracks.next]
  rfl

theorem Grown.reopen (h : log.Grown Z options layout) (hopen : OpenOptions options) :
    ∃ log', openLog Z options log.dir = .ok log' ∧ log'.Grown Z options layout ∧
      log'.nextOffset = log.nextOffset := by
  obtain ⟨log', hopened, hoptions, hnext, hrep⟩ :=
    h.represents.openLog hopen h.decodable log.dir.indexes
  exact ⟨log', hopened, ⟨hrep, h.decodable, hnext ▸ h.consecutive, hoptions⟩, hnext⟩

/-- An accepted batch whose entry fits its byte count. -/
theorem Grown.append (h : log.Grown Z options layout) {codec : Codec} {encodedRecords : Bytes}
    {uncompressedBytes : UInt32} {decodedRecords : List AppendRecord} {timestamp : UInt64}
    {metadata : BatchMetadata} (hbound : log.nextOffset + decodedRecords.length < 2 ^ 64)
    (hfits : encodedRecords.length + 40 < 2 ^ 32)
    (hvalues : ∀ record ∈ decodedRecords, record.value ≠ [])
    (happend : appendEncodedBatch Z log codec encodedRecords uncompressedBytes decodedRecords
      timestamp none = (log', .ok metadata)) :
    ∃ layout', log'.Grown Z options layout' ∧
      layout'.entries = layout.entries ++
        [batchEntry log.nextOffset codec encodedRecords decodedRecords timestamp] ∧
      log'.nextOffset = log.nextOffset + decodedRecords.length := by
  obtain ⟨hvalid, layout', hrep', hoptions', hnext', hentries, -, -⟩ :=
    h.represents.appendEncodedBatch hbound hfits happend
  refine ⟨layout', ⟨hrep', ?_, ?_, hoptions'.trans h.options⟩, hentries, hnext'⟩
  · intro e he
    rw [hentries, List.mem_append, List.mem_singleton] at he
    rcases he with he | rfl
    · exact h.decodable e he
    · rw [h.options] at hvalid
      exact (LogState.decodable_batchEntry_iff hvalid _ timestamp).mpr hvalues
  · rw [hentries]
    refine h.consecutive.append ⟨rfl, ?_⟩
    rw [hnext', Consecutive, Entry.stop, batchEntry, Entry.first, Entry.count, length_batchRecords]

theorem Grown.indexed (h : log.Grown Z options layout) :
    log.index.map IndexEntry.offset = List.range log.nextOffset := by
  rw [h.represents.index, Layout.map_offset_index fun e he ↦ (h.represents.written e he).stop_lt,
    Layout.records, h.consecutive.map_offset, Nat.sub_zero, List.range_eq_range']

/-- Reading all of it. -/
theorem Grown.readAll (h : log.Grown Z options layout) :
    (log.readFrom Z log.earliestOffset log.nextOffset 0).map (List.map Record.stored) =
      .ok layout.records := by
  have hearliest : log.earliestOffset = 0 := earliestOffset_of_indexed h.indexed
  have hlength : layout.records.length = log.nextOffset := by
    have hcount := congrArg List.length h.consecutive.map_offset
    rwa [List.length_map, List.length_range', Nat.sub_zero] at hcount
  rw [readFrom_readsAs (h.represents.readsAs (h.options ▸ h.decodable)), hearliest, ← hlength]
  simp

/-! ## Copying a batch -/

variable {baseOffset timestamp : ℕ} {codec : Codec} {encoded : Bytes} {records : List BatchRecord}

/-- A batch is read from where it starts. -/
theorem Represents.readEncodedBatch_mem (hrep : log.Represents Z layout)
    (he : Entry.batch baseOffset timestamp codec encoded records ∈ layout.entries)
    (hdecodable : (Entry.batch baseOffset timestamp codec encoded records).Decodable
      log.options.maxUncompressedBatchBytes) :
    log.readEncodedBatch Z baseOffset =
      .ok (some { metadata := storedBatchMetadata log.options.topic log.options.partitionId
                    baseOffset timestamp codec records.length (encodeRecordSet records).length
                    encoded
                  encodedRecords := encoded }) := by
  have hstop : ∀ f ∈ layout.entries, f.stop < 2 ^ 64 := fun f hf ↦ (hrep.written f hf).stop_lt
  have hpos : 0 < records.length := (hrep.written _ he).count_pos
  have hindexed : baseOffset ∈ log.index.map IndexEntry.offset := by
    rw [hrep.index, Layout.map_offset_index hstop, Layout.records, List.map_flatMap,
      List.mem_flatMap]
    refine ⟨_, he, ?_⟩
    rw [Layout.map_offset_records, List.mem_range'_1]
    exact ⟨le_rfl, Nat.lt_add_of_pos_right hpos⟩
  obtain ⟨entry, hfind⟩ : ∃ entry, (log.index.find? fun entry ↦ entry.offset = baseOffset) =
      some entry := by
    rw [← Option.isSome_iff_exists, List.find?_isSome]
    obtain ⟨entry, hentry, hoffset⟩ := List.mem_map.mp hindexed
    exact ⟨entry, hentry, by simpa using hoffset⟩
  have hoffset : entry.offset = baseOffset := by simpa using List.find?_some hfind
  obtain ⟨s, hs, es, f, es', hsplit, hentry⟩ :=
    Layout.exists_of_mem_index (hrep.index ▸ List.mem_of_find?_eq_some hfind)
  have hf : f ∈ layout.entries :=
    Layout.mem_entries.mpr ⟨s, hs, by rw [hsplit]; exact List.mem_append_right _ (by simp)⟩
  have hcovers : f.first ≤ baseOffset ∧ baseOffset < f.stop := by
    have hmem := List.mem_map_of_mem (f := IndexEntry.offset) hentry
    rwa [Layout.map_offset_indexEntries (hstop f hf), hoffset, List.mem_range'_1] at hmem
  -- The entries of a layout do not overlap.
  obtain rfl : f = .batch baseOffset timestamp codec encoded records := by
    obtain ⟨before, after, hentries⟩ := List.append_of_mem he
    have hchain := hrep.placed.chain
    rw [hentries, List.pairwise_append, List.pairwise_cons] at hchain
    obtain ⟨-, ⟨hafter, -⟩, hbefore⟩ := hchain
    rw [hentries, List.mem_append, List.mem_cons] at hf
    rcases hf with hf | hf | hf
    · have hle : f.stop ≤ baseOffset := hbefore f hf _ List.mem_cons_self
      omega
    · exact hf
    · have hle : baseOffset + records.length ≤ f.first := hafter f hf
      omega
  obtain ⟨i, hi, rfl⟩ := List.mem_map.mp hentry
  have hi : i = 0 := by
    have hlt := List.mem_range.mp hi
    have hbound : baseOffset + records.length < 2 ^ 64 := hstop _ he
    have hmod : (baseOffset + i) % 2 ^ 64 = baseOffset := hoffset
    rw [Nat.mod_eq_of_lt (by omega)] at hmod
    omega
  subst hi
  exact readEncodedBatch_of_find hfind rfl rfl (hrep.holds hs hsplit) (hrep.written _ he) hdecodable

/-- What `replicate_once` reads of the next batch. -/
theorem Grown.readBatch (h : log.Grown Z options layout) {old rest : List Entry}
    (hentries : layout.entries =
      old ++ .batch baseOffset timestamp codec encoded records :: rest) :
    log.readEncodedBatch Z baseOffset =
        .ok (some { metadata := storedBatchMetadata options.topic options.partitionId
                      baseOffset timestamp codec records.length (encodeRecordSet records).length
                      encoded
                    encodedRecords := encoded }) ∧
      ∃ read, log.readFrom Z baseOffset records.length 0 = .ok read ∧
        batchRecords (read.map fun record ↦ ⟨record.key, record.value⟩) = records := by
  have he : Entry.batch baseOffset timestamp codec encoded records ∈ layout.entries := by
    rw [hentries]
    exact List.mem_append_right _ List.mem_cons_self
  refine ⟨?_, ?_⟩
  · rw [h.represents.readEncodedBatch_mem he (h.options ▸ h.decodable _ he), h.options]
  · have hchain := h.represents.placed.chain
    rw [hentries, List.pairwise_append] at hchain
    have hconsecutive := h.consecutive
    rw [hentries] at hconsecutive
    obtain ⟨middle, -, hnew⟩ := hconsecutive.split
    obtain rfl : baseOffset = middle := hnew.1
    have hread := h.represents.readFrom_new (h.options ▸ h.decodable) hentries
      (fun f hf ↦ hchain.2.2 f hf _ List.mem_cons_self) hnew records.length
    rw [Entry.first] at hread
    cases hfrom : log.readFrom Z baseOffset records.length 0 with
    | error message =>
        rw [hfrom] at hread
        cases hread
    | ok read =>
        refine ⟨read, rfl, ?_⟩
        rw [hfrom, ok_map] at hread
        have hstored := Except.ok.inj hread
        have hlength : (Entry.batch baseOffset timestamp codec encoded records).records.length =
            records.length := Entry.length_records _
        rw [List.flatMap_cons, List.take_append_of_le_length hlength.ge,
          List.take_of_length_le hlength.le] at hstored
        have hkeys := congrArg (List.map fun r : StoredRecord ↦ (⟨r.key, r.value⟩ : BatchRecord))
          hstored
        rw [List.map_map] at hkeys
        rw [batchRecords, List.map_map]
        refine Eq.trans ?_ (hkeys.trans ?_)
        · rfl
        · refine List.ext_getElem (by simp [Entry.records]) fun i hi hi' ↦ ?_
          simp [Entry.records]

/-- A batch that some log accepted is accepted wherever the limit admits it. -/
theorem validateEncodedBatch_of_written
    (hwritten : (Entry.batch baseOffset timestamp codec encoded records).Written Z)
    (hdecodable : (Entry.batch baseOffset timestamp codec encoded records).Decodable
      options.maxUncompressedBatchBytes) {decodedRecords : List AppendRecord}
    (hrecords : batchRecords decodedRecords = records) :
    validateEncodedBatch Z options codec encoded (UInt32.ofNat (encodeRecordSet records).length)
      decodedRecords = .ok () := by
  obtain ⟨⟨-, -, -, hsize⟩, limit, hne, hdecompress⟩ := hwritten
  have hlength : decodedRecords.length = records.length := by rw [← hrecords, length_batchRecords]
  have hcount := length_lt_encodeRecordSet records
  have hpos := List.length_pos_iff.mpr hne
  have hfield : (UInt32.ofNat (encodeRecordSet records).length).toNat =
      (encodeRecordSet records).length := UInt32.toNat_ofNat_of_lt hsize
  rw [decompress_of_le (decompress_le hdecompress) hdecodable.1] at hdecompress
  unfold validateEncodedBatch
  rw [if_neg (by rw [← List.length_eq_zero_iff]; omega)]
  change (if (encodeRecordSet (batchRecords decodedRecords)).length ≠ _ then _ else _) = _
  rw [hrecords, if_neg (not_not.mpr hfield.symm), hfield, hdecompress, ok_bind]
  exact if_neg (not_not.mpr (congrArg _ hrecords.symm))

theorem appendEncodedBatch_of_valid {encodedRecords : Bytes} {uncompressedBytes : UInt32}
    {decodedRecords : List AppendRecord} (timestamp : UInt64)
    (hvalid : validateEncodedBatch Z log.options codec encodedRecords uncompressedBytes
      decodedRecords = .ok ()) :
    ∃ log' metadata, appendEncodedBatch Z log codec encodedRecords uncompressedBytes
        decodedRecords timestamp none = (log', .ok metadata) ∧
      metadata.baseOffset = log.nextOffset ∧
      metadata.nextOffset = (log.nextOffset + decodedRecords.length) % 2 ^ 64 := by
  unfold appendEncodedBatch
  rw [hvalid]
  exact ⟨_, _, rfl, rfl, rfl⟩

/-- Appending the next batch of another log. -/
theorem Grown.copy (h : log.Grown Z options layout)
    (hwritten : (Entry.batch baseOffset timestamp codec encoded records).Written Z)
    (hdecodable : (Entry.batch baseOffset timestamp codec encoded records).Decodable
      options.maxUncompressedBatchBytes) (hbase : baseOffset = log.nextOffset)
    {decodedRecords : List AppendRecord} (hrecords : batchRecords decodedRecords = records)
    (copyTime : UInt64) :
    ∃ log' copied layout', appendEncodedBatch Z log codec encoded
        (UInt32.ofNat (encodeRecordSet records).length) decodedRecords copyTime none =
          (log', .ok copied) ∧
      log'.Grown Z options layout' ∧
      layout'.entries.map Entry.untimed = layout.entries.map Entry.untimed ++
        [(Entry.batch baseOffset timestamp codec encoded records).untimed] ∧
      copied.baseOffset = baseOffset ∧
      copied.nextOffset = (baseOffset + records.length) % 2 ^ 64 := by
  have hlength : decodedRecords.length = records.length := by rw [← hrecords, length_batchRecords]
  obtain ⟨log', copied, happend, hcopiedBase, hcopiedNext⟩ :=
    appendEncodedBatch_of_valid copyTime
      (h.options.symm ▸ validateEncodedBatch_of_written hwritten hdecodable hrecords)
  have hbound : baseOffset + records.length < 2 ^ 64 := hwritten.stop_lt
  have hfits : encoded.length + 40 < 2 ^ 32 := by
    have hbytes := hwritten.1.2.1
    simp only [Entry.recordBytes, Entry.body, length_batchBody] at hbytes
    omega
  have hvalues : ∀ record ∈ decodedRecords, record.value ≠ [] := by
    intro record hrecord
    refine hdecodable.2 ⟨record.key, record.value⟩ ?_
    rw [← hrecords]
    exact List.mem_map_of_mem (f := fun r : AppendRecord ↦ (⟨r.key, r.value⟩ : BatchRecord)) hrecord
  obtain ⟨layout', hgrown, hentries, -⟩ := h.append (by omega) hfits hvalues happend
  refine ⟨log', copied, layout', happend, hgrown, ?_, hcopiedBase.trans hbase.symm, ?_⟩
  · rw [hentries, List.map_append, batchEntry, hrecords, hbase]
    rfl
  · rw [hcopiedNext, hlength, hbase]

end PartitionLog

end BoltStream.Storage
