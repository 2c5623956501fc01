import BoltStream.Storage.Appending

/-!
# Reading a layout

Index entries lead to the bytes of the entry they were made for, so reading
through the index gives back the records of the layout.
-/

namespace BoltStream.Storage

open BoltStream.Lib BoltStream.Protocol BoltStream.Compression

namespace PartitionLog

/-- The bytes of `e` are in `segment` at `position`. -/
def Holds (log : PartitionLog) (segment position : ℕ) (e : Entry) : Prop :=
  ∃ before after, log.dir.logs.content? segment = some (before ++ (e.bytes ++ after)) ∧
    before.length = position

/-- The bytes an index entry leads to are a batch with the record `r` in its
place. -/
structure PointsAtBatch (Z : Zstd) (options : PartitionLogOptions) (entry : IndexEntry)
    (bodyAndCrc : Bytes) (r : StoredRecord) (batch : DecodedBatch) : Prop where
  version : readU16Be bodyAndCrc 0 = kBatchVersion
  decodes : decodeBatch Z options.topic options.partitionId entry.recordBytes bodyAndCrc
    options.maxUncompressedBatchBytes = .ok batch
  offset : batch.metadata.baseOffset + entry.recordIndex = r.offset
  timestamp : batch.metadata.timestampUnixNs = r.timestamp
  recordCount : batch.metadata.recordCount = entry.recordCount
  record : batch.records[entry.recordIndex]? = some ⟨r.key, r.value⟩

/-- The bytes an index entry leads to are the record `r`. -/
structure PointsAtRecord (options : PartitionLogOptions) (entry : IndexEntry)
    (bodyAndCrc : Bytes) (r : StoredRecord) (decoded : DecodedRecord) : Prop where
  version : readU16Be bodyAndCrc 0 ≠ kBatchVersion
  decodes : decodeRecord options.topic options.partitionId entry.recordBytes bodyAndCrc =
    .ok decoded
  record : decoded.record.stored = r
  recordIndex : entry.recordIndex = 0
  recordCount : entry.recordCount = 1

/-- An index entry points at an entry on disk that decodes to the record `r`. -/
def PointsAt (Z : Zstd) (log : PartitionLog) (entry : IndexEntry) (r : StoredRecord) : Prop :=
  entry.offset = r.offset ∧
    ∃ bodyAndCrc, log.readStored entry = .ok (entry.recordBytes, bodyAndCrc) ∧
      ((∃ batch, PointsAtBatch Z log.options entry bodyAndCrc r batch) ∨
        ∃ decoded, PointsAtRecord log.options entry bodyAndCrc r decoded)

/-- Reading through an index entry gives the record `r`. -/
def ReadsAs (Z : Zstd) (log : PartitionLog) (entry : IndexEntry) (r : StoredRecord) : Prop :=
  entry.offset = r.offset ∧
    ∃ record, log.readEntry Z entry = .ok (record, entry.recordBytes) ∧ record.stored = r

/-- What the decoders accept has a version field. -/
theorem two_le_of_decodeBatch {Z : Zstd} {topic : Bytes} {partition batchBytes maximum : ℕ}
    {bodyAndCrc : Bytes} {batch : DecodedBatch}
    (h : decodeBatch Z topic partition batchBytes bodyAndCrc maximum = .ok batch) :
    ¬ batchBytes < 2 := by
  intro hshort
  rw [decodeBatch, if_pos (Or.inr (by rw [kFixedBatchBodyBytes]; omega))] at h
  cases h

theorem two_le_of_decodeRecord {topic : Bytes} {partition recordBytes : ℕ} {bodyAndCrc : Bytes}
    {decoded : DecodedRecord}
    (h : decodeRecord topic partition recordBytes bodyAndCrc = .ok decoded) :
    ¬ recordBytes < 2 := by
  intro hshort
  rw [decodeRecord, if_pos (Or.inr (by rw [kMinimumRecordBytes]; omega))] at h
  cases h

theorem PointsAt.readsAs {Z : Zstd} {log : PartitionLog} {entry : IndexEntry} {r : StoredRecord}
    (h : log.PointsAt Z entry r) : log.ReadsAs Z entry r := by
  obtain ⟨hoffset, bodyAndCrc, hstored, ⟨batch, hbatch⟩ | ⟨decoded, hdecoded⟩⟩ := h
  · refine ⟨hoffset, ?_⟩
    rw [readEntry, hstored, ok_bind, if_neg (two_le_of_decodeBatch hbatch.decodes),
      if_pos hbatch.version, hbatch.decodes, ok_bind, hbatch.record, orError_some, ok_bind]
    refine ⟨_, rfl, ?_⟩
    simp only [Record.stored, hoffset, hbatch.timestamp]
  · refine ⟨hoffset, decoded.record, ?_, hdecoded.record⟩
    rw [readEntry, hstored, ok_bind, if_neg (two_le_of_decodeRecord hdecoded.decodes),
      if_neg hdecoded.version, hdecoded.decodes, ok_map]

section Entry

variable {Z : Zstd} {log : PartitionLog} {segment position : ℕ} {e : Entry}

theorem readStored_of_holds (hholds : log.Holds segment position e) (hfits : e.Fits)
    {entry : IndexEntry} (hsegment : entry.segment = segment)
    (hposition : entry.filePosition = position) :
    log.readStored entry = .ok (e.recordBytes, e.bodyAndCrc) := by
  obtain ⟨before, after, hcontent, hlength⟩ := hholds
  have hdrop : (before ++ (e.bytes ++ after)).drop position = e.bytes ++ after :=
    List.drop_left' hlength
  have hbody : (e.bytes ++ after).drop 4 = e.bodyAndCrc ++ after := by
    rw [Entry.bytes_eq, List.append_assoc, List.drop_left' (length_writeU32 _)]
  have hbytes : (e.bytes ++ after).length = 4 + e.recordBytes + after.length := by
    rw [List.length_append, Entry.length_bytes]
  have hrest : (e.bodyAndCrc ++ after).length = e.recordBytes + after.length := by
    rw [List.length_append, Entry.length_bodyAndCrc]
  rw [readStored, hsegment, hcontent, orError_some, ok_bind, hposition, hdrop]
  dsimp only
  rw [hbody, Entry.readU32Be_bytes hfits, if_neg (by omega), if_neg (by omega)]
  rw [← Entry.length_bodyAndCrc, List.take_left]

/-- The index entries of an entry the decoders accept. -/
theorem pointsAt_of_holds (hholds : log.Holds segment position e) (hwritten : e.Written Z)
    (hdecodable : e.Decodable log.options.maxUncompressedBatchBytes) :
    List.Forall₂ (log.PointsAt Z) (e.indexEntries segment position) e.records := by
  obtain ⟨hfits, limit, haccepted⟩ := hwritten
  cases e with
  | record offset timestamp key value =>
      refine List.Forall₂.cons ⟨rfl, _, readStored_of_holds hholds hfits rfl rfl, Or.inr ?_⟩
        List.Forall₂.nil
      exact ⟨_, Entry.version_record _ _ _ _, Entry.decodeRecord_record _ _ hfits, rfl, rfl, rfl⟩
  | batch baseOffset timestamp codec encoded records =>
      have hstop : baseOffset + records.length < 2 ^ 64 := hfits.1
      have hdecode := Entry.decodeBatch_batch log.options.maxUncompressedBatchBytes
        log.options.topic log.options.partitionId hfits haccepted
      rw [if_pos hdecodable.1, if_pos hdecodable.2] at hdecode
      rw [List.forall₂_iff_get]
      refine ⟨by simp [Entry.indexEntries, batchEntries, Entry.records], fun i hi hi' ↦ ?_⟩
      have hi : i < records.length := by
        simpa [Entry.records] using hi'
      have hoffset : (baseOffset + i) % 2 ^ 64 = baseOffset + i := Nat.mod_eq_of_lt (by omega)
      simp only [List.get_eq_getElem, Entry.indexEntries, batchEntries, List.getElem_map,
        List.getElem_range, Entry.records, List.getElem_mapIdx, hoffset]
      refine ⟨rfl, _, readStored_of_holds hholds hfits rfl rfl, Or.inl ?_⟩
      exact ⟨_, Entry.version_batch _ _ _ _ _, hdecode, rfl, rfl, rfl, List.getElem?_eq_getElem hi⟩

/-- Reading a record of a batch the decoders refuse. -/
theorem readEntry_of_not_decodable (hholds : log.Holds segment position e)
    (hwritten : e.Written Z) (hrefused : ¬ e.Decodable log.options.maxUncompressedBatchBytes)
    {entry : IndexEntry} (hentry : entry ∈ e.indexEntries segment position) :
    ∃ message, log.readEntry Z entry = .error message := by
  obtain ⟨hfits, limit, haccepted⟩ := hwritten
  cases e with
  | record => exact (hrefused trivial).elim
  | batch baseOffset timestamp codec encoded records =>
      obtain ⟨i, -, rfl⟩ := List.mem_map.mp hentry
      have hminimum :=
        (Entry.batch baseOffset timestamp codec encoded records).kMinimum_le_recordBytes
      rw [kMinimumRecordBytes] at hminimum
      rw [readEntry, readStored_of_holds hholds hfits rfl rfl, ok_bind,
        if_neg (by dsimp only; omega), if_pos (Entry.version_batch _ _ _ _ _),
        Entry.decodeBatch_batch _ _ _ hfits haccepted]
      by_cases hlimit : (encodeRecordSet records).length ≤ log.options.maxUncompressedBatchBytes
      · rw [if_pos hlimit, if_neg fun hvalues ↦ hrefused ⟨hlimit, hvalues⟩, error_bind]
        exact ⟨_, rfl⟩
      · rw [if_neg hlimit, error_bind]
        exact ⟨_, rfl⟩

end Entry

section Layout

variable {Z : Zstd} {log : PartitionLog} {layout : Layout}

theorem Represents.content?_eq (hrep : log.Represents Z layout) {s : Segment} (hs : s ∈ layout) :
    log.dir.logs.content? s.base = some s.content := by
  rw [hrep.logs]
  exact FileTable.content?_of_mem (Layout.files_sorted hrep.placed.bases) (List.mem_map_of_mem hs)

/-- Every entry of a segment lies behind those before it. -/
theorem Represents.holds (hrep : log.Represents Z layout) {s : Segment} (hs : s ∈ layout)
    {es es' : List Entry} {e : Entry} (hsplit : s.entries = es ++ e :: es') :
    log.Holds s.base (es.flatMap Entry.bytes).length e := by
  refine ⟨es.flatMap Entry.bytes, es'.flatMap Entry.bytes, ?_, rfl⟩
  rw [hrep.content?_eq hs, Segment.content, hsplit, List.flatMap_append, List.flatMap_cons]

theorem Represents.pointsAt_segment (hrep : log.Represents Z layout) {s : Segment}
    (hs : s ∈ layout)
    (hdecodable : ∀ e ∈ s.entries, e.Decodable log.options.maxUncompressedBatchBytes) :
    List.Forall₂ (log.PointsAt Z) s.index (s.entries.flatMap Entry.records) := by
  -- The entries still to come, behind those already read.
  have hsuffix : ∀ es' es, s.entries = es ++ es' →
      List.Forall₂ (log.PointsAt Z)
        (Entry.indexFrom s.base (es.flatMap Entry.bytes).length es')
        (es'.flatMap Entry.records) := by
    intro es'
    induction es' with
    | nil => exact fun _ _ ↦ List.Forall₂.nil
    | cons e es' ih =>
        intro es hsplit
        have he : e ∈ s.entries := by
          rw [hsplit]
          exact List.mem_append_right es List.mem_cons_self
        have hrest := ih (es ++ [e]) (by rw [hsplit, List.append_cons])
        rw [Layout.content_snoc, List.length_append] at hrest
        rw [Entry.indexFrom, List.flatMap_cons]
        exact List.rel_append (pointsAt_of_holds (hrep.holds hs hsplit)
          (hrep.written e (Layout.mem_entries.mpr ⟨s, hs, he⟩)) (hdecodable e he)) hrest
  exact hsuffix s.entries [] rfl

/-- The index points at the records of the layout, one by one. -/
theorem Represents.pointsAt (hrep : log.Represents Z layout)
    (hdecodable : ∀ e ∈ layout.entries, e.Decodable log.options.maxUncompressedBatchBytes) :
    List.Forall₂ (log.PointsAt Z) log.index layout.records := by
  have hpart : ∀ part : Layout, (∀ s ∈ part, s ∈ layout) →
      List.Forall₂ (log.PointsAt Z) part.index part.records := by
    intro part
    induction part with
    | nil => exact fun _ ↦ List.Forall₂.nil
    | cons s part ih =>
        intro hsub
        have hs := hsub s List.mem_cons_self
        have hrest := ih fun t ht ↦ hsub t (List.mem_cons_of_mem s ht)
        rw [Layout.index_cons, Layout.records, Layout.entries_cons, List.flatMap_append]
        exact List.rel_append (hrep.pointsAt_segment hs fun e he ↦
          hdecodable e (Layout.mem_entries.mpr ⟨s, hs, he⟩)) hrest
  rw [hrep.index]
  exact hpart layout fun _ ↦ id

theorem Represents.readsAs (hrep : log.Represents Z layout)
    (hdecodable : ∀ e ∈ layout.entries, e.Decodable log.options.maxUncompressedBatchBytes) :
    List.Forall₂ (log.ReadsAs Z) log.index layout.records :=
  (hrep.pointsAt hdecodable).imp fun _ _ h ↦ h.readsAs

theorem Represents.offset_lt_of_stop_le (hrep : log.Represents Z layout) {offset : ℕ}
    (hold : ∀ e ∈ layout.entries, e.stop ≤ offset) :
    ∀ entry ∈ log.index, entry.offset < offset := by
  intro entry hentry
  have hmem := List.mem_map_of_mem (f := IndexEntry.offset) hentry
  rw [hrep.index, Layout.map_offset_index fun e he ↦ (hrep.written e he).stop_lt,
    List.mem_map] at hmem
  obtain ⟨r, hr, hoffset⟩ := hmem
  obtain ⟨e, he, hr⟩ := List.mem_flatMap.mp hr
  have hrange := List.mem_map_of_mem (f := StoredRecord.offset) hr
  rw [Layout.map_offset_records, List.mem_range'_1] at hrange
  have hstop : e.first + e.count ≤ offset := hold e he
  omega

theorem Represents.offset_lt (hrep : log.Represents Z layout) :
    ∀ entry ∈ log.index, entry.offset < log.nextOffset :=
  hrep.offset_lt_of_stop_le hrep.placed.stop_le

end Layout

/-! ## The read loop -/

section Loop

variable {Z : Zstd} {log : PartitionLog}

/-- Entries below the requested offset are passed over unread. -/
theorem readLoop_below {offset : ℕ} (maxRecords maxBytes : ℕ) {entries : List IndexEntry}
    (h : ∀ entry ∈ entries, entry.offset < offset) (rest : List IndexEntry) (count bytes : ℕ) :
    readLoop Z log offset maxRecords maxBytes (entries ++ rest) count bytes =
      readLoop Z log offset maxRecords maxBytes rest count bytes := by
  induction entries with
  | nil => rfl
  | cons entry entries ih =>
      rw [List.cons_append, readLoop, if_pos (h entry List.mem_cons_self)]
      exact ih fun other hother ↦ h other (List.mem_cons_of_mem entry hother)

/-- Without a byte limit the loop returns the records from the requested offset
on, up to the record limit. -/
theorem readLoop_readsAs (offset maxRecords : ℕ) {entries : List IndexEntry}
    {rs : List StoredRecord} (h : List.Forall₂ (log.ReadsAs Z) entries rs) (count bytes : ℕ) :
    ∃ records, readLoop Z log offset maxRecords 0 entries count bytes = .ok records ∧
      records.map Record.stored =
        (rs.filter fun r ↦ offset ≤ r.offset).take (maxRecords - count) := by
  induction h generalizing count bytes with
  | nil => exact ⟨[], rfl, by simp⟩
  | @cons entry r entries rs hread _ ih =>
      obtain ⟨hoffset, record, hrecord, hstored⟩ := hread
      rw [readLoop]
      by_cases hbelow : entry.offset < offset
      · obtain ⟨records, hloop, hrecords⟩ := ih count bytes
        refine ⟨records, by rw [if_pos hbelow, hloop], ?_⟩
        rw [hrecords, List.filter_cons_of_neg (by simp; omega)]
      · rw [if_neg hbelow]
        by_cases hfull : count ≥ maxRecords
        · refine ⟨[], if_pos hfull, ?_⟩
          rw [Nat.sub_eq_zero_of_le hfull]
          rfl
        · obtain ⟨records, hloop, hrecords⟩ := ih (count + 1) (bytes + (entry.recordBytes + 4))
          refine ⟨record :: records, ?_, ?_⟩
          · rw [if_neg hfull, if_neg (by simp), hrecord, ok_bind, hloop, ok_map]
          · rw [List.map_cons, hrecords, hstored, List.filter_cons_of_pos (by simp; omega),
              show maxRecords - count = maxRecords - (count + 1) + 1 by omega,
              List.take_succ_cons]

theorem readFrom_readsAs {rs : List StoredRecord}
    (h : List.Forall₂ (log.ReadsAs Z) log.index rs) (offset maxRecords : ℕ) :
    (log.readFrom Z offset maxRecords 0).map (List.map Record.stored) =
      .ok ((rs.filter fun r ↦ offset ≤ r.offset).take maxRecords) := by
  obtain ⟨records, hloop, hrecords⟩ :=
    readLoop_readsAs offset maxRecords h 0 0
  rw [readFrom, hloop, ok_map, hrecords, Nat.sub_zero]

/-- Reading the whole log. -/
theorem readFrom_all {rs : List StoredRecord}
    (h : List.Forall₂ (log.ReadsAs Z) log.index rs) :
    (log.readFrom Z 0 log.index.length 0).map (List.map Record.stored) = .ok rs := by
  rw [readFrom_readsAs h, h.length_eq]
  simp

/-- Nothing is read once the requested number is reached. -/
theorem readLoop_full {offset maxRecords : ℕ} (maxBytes : ℕ) {count : ℕ}
    (hfull : maxRecords ≤ count) (entries : List IndexEntry) (bytes : ℕ) :
    readLoop Z log offset maxRecords maxBytes entries count bytes = .ok [] := by
  induction entries with
  | nil => rfl
  | cons entry entries ih =>
      rw [readLoop, ih, if_pos hfull]
      split_ifs <;> rfl

/-- Reading one record, with older entries before it in the index. -/
theorem readFrom_one {front back : List IndexEntry} {entry : IndexEntry} {r : StoredRecord}
    (hindex : log.index = front ++ entry :: back) (hfront : ∀ e ∈ front, e.offset < r.offset)
    (hread : log.ReadsAs Z entry r) :
    (log.readFrom Z r.offset 1 0).map (List.map Record.stored) = .ok [r] := by
  obtain ⟨hoffset, record, hrecord, hstored⟩ := hread
  rw [readFrom, hindex, readLoop_below 1 0 hfront, readLoop, if_neg (by omega), if_neg (by omega),
    if_neg (by simp), hrecord, ok_bind, readLoop_full 0 le_rfl, ok_map, ok_map]
  simp only [List.map_cons, List.map_nil, hstored]

/-- Reading an entry looks at the options and its segment only. -/
theorem readEntry_congr {log' : PartitionLog} {entry : IndexEntry}
    (hoptions : log'.options = log.options)
    (hcontent : log'.dir.logs.content? entry.segment = log.dir.logs.content? entry.segment) :
    log'.readEntry Z entry = log.readEntry Z entry := by
  rw [readEntry, readEntry, readStored, readStored, hoptions, hcontent]

/-- Reading depends on the options, the segment files and the index only. -/
theorem readFrom_congr {log' : PartitionLog} (hoptions : log'.options = log.options)
    (hlogs : log'.dir.logs = log.dir.logs) (hindex : log'.index = log.index)
    (offset maxRecords maxBytes : ℕ) :
    log'.readFrom Z offset maxRecords maxBytes = log.readFrom Z offset maxRecords maxBytes := by
  have hentry : ∀ entry, log'.readEntry Z entry = log.readEntry Z entry := fun entry ↦
    readEntry_congr hoptions (by rw [hlogs])
  have hloop : ∀ entries count bytes,
      readLoop Z log' offset maxRecords maxBytes entries count bytes =
        readLoop Z log offset maxRecords maxBytes entries count bytes := by
    intro entries
    induction entries with
    | nil => exact fun _ _ ↦ rfl
    | cons entry entries ih =>
        intro count bytes
        rw [readLoop, readLoop, hentry]
        simp only [ih]
  rw [readFrom, readFrom, hindex, hloop]

end Loop

end PartitionLog

end BoltStream.Storage
