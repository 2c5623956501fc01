import BoltStream.Lib.Paging
import BoltStream.Storage.EncodedReadBack

/-!
# Reading a log in pages

`read_from` stops at a number of records or bytes, `read_encoded_batch` answers
with a whole stored batch.  Both give consecutive records of the layout.
-/

namespace BoltStream.Storage

open BoltStream.Lib BoltStream.Protocol BoltStream.Compression

namespace Layout

variable {layout : Layout}

theorem exists_of_mem_indexFrom {segment : ℕ} {entry : IndexEntry} :
    ∀ {rest : List Entry} {position : ℕ}, entry ∈ Entry.indexFrom segment position rest →
      ∃ es e es', rest = es ++ e :: es' ∧
        entry ∈ e.indexEntries segment (position + (es.flatMap Entry.bytes).length) := by
  intro rest
  induction rest with
  | nil => exact fun h ↦ absurd h List.not_mem_nil
  | cons e rest ih =>
      intro position h
      rcases List.mem_append.mp h with h | h
      · exact ⟨[], e, rest, rfl, h⟩
      · obtain ⟨es, f, es', hrest, hentry⟩ := ih h
        refine ⟨e :: es, f, es', by rw [hrest]; rfl, ?_⟩
        rwa [List.flatMap_cons, List.length_append, ← Nat.add_assoc]

/-- Every index entry was made for an entry of some segment. -/
theorem exists_of_mem_index {entry : IndexEntry} (h : entry ∈ layout.index) :
    ∃ s ∈ layout, ∃ es e es', s.entries = es ++ e :: es' ∧
      entry ∈ e.indexEntries s.base (es.flatMap Entry.bytes).length := by
  obtain ⟨s, hs, h⟩ := List.mem_flatMap.mp h
  obtain ⟨es, e, es', hsplit, hentry⟩ := exists_of_mem_indexFrom h
  exact ⟨s, hs, es, e, es', hsplit, by rwa [Nat.zero_add] at hentry⟩

theorem WellPlaced.records_sorted {next : ℕ} (h : layout.WellPlaced next) :
    layout.records.Pairwise fun a b ↦ a.offset < b.offset :=
  List.pairwise_map.mp h.offsets_increase

theorem mem_entry_records {e : Entry} {r : StoredRecord} (h : r ∈ e.records) :
    e.first ≤ r.offset ∧ r.offset < e.stop := by
  have hmem := List.mem_map_of_mem (f := StoredRecord.offset) h
  rwa [map_offset_records, List.mem_range'_1] at hmem

/-- The records of an entry are those between its first offset and its stop. -/
theorem WellPlaced.records_entry {next : ℕ} (h : layout.WellPlaced next) {e : Entry}
    (he : e ∈ layout.entries) :
    itemsWithin StoredRecord.offset layout.records e.first e.stop = e.records := by
  obtain ⟨before, after, hsplit⟩ := List.append_of_mem he
  have hchain := h.chain
  rw [hsplit, List.pairwise_append, List.pairwise_cons] at hchain
  obtain ⟨-, ⟨hafter, -⟩, hbefore⟩ := hchain
  have hout : ∀ fs : List Entry, (∀ f ∈ fs, f.stop ≤ e.first ∨ e.stop ≤ f.first) →
      itemsWithin StoredRecord.offset (fs.flatMap Entry.records) e.first e.stop = [] := by
    intro fs hfs
    rw [itemsWithin, List.filter_eq_nil_iff]
    intro r hr
    obtain ⟨f, hf, hr⟩ := List.mem_flatMap.mp hr
    obtain ⟨hfirst, hstop⟩ := mem_entry_records hr
    simp only [decide_eq_true_eq]
    rcases hfs f hf with hle | hle
    · omega
    · omega
  have hin : itemsWithin StoredRecord.offset e.records e.first e.stop = e.records := by
    rw [itemsWithin, List.filter_eq_self]
    intro r hr
    simpa using mem_entry_records hr
  have hfront := hout before fun f hf ↦ Or.inl (hbefore f hf e List.mem_cons_self)
  have hback := hout after fun f hf ↦ Or.inr (hafter f hf)
  rw [records, hsplit, List.flatMap_append, List.flatMap_cons, itemsWithin, List.filter_append,
    List.filter_append]
  rw [itemsWithin] at hfront hin hback
  rw [hfront, hin, hback, List.nil_append, List.append_nil]

/-- Below the next offset there is always a record left. -/
theorem WellPlaced.exists_record {next : ℕ} (h : layout.WellPlaced next)
    (hcount : ∀ e ∈ layout.entries, 0 < e.count) {position : ℕ} (hposition : position < next) :
    (layout.records.filter fun r ↦ position ≤ r.offset) ≠ [] := by
  have hne : layout.entries ≠ [] := fun hnil ↦ by
    rw [h.start hnil] at hposition
    exact Nat.not_lt_zero _ hposition
  have hlast := h.last _ (List.getLast?_eq_some_getLast hne)
  have hmem := List.getLast_mem hne
  set e := layout.entries.getLast hne
  have hpos := hcount e hmem
  have hstop : e.first + e.count = next := hlast
  have hoffset : next - 1 ∈ e.records.map StoredRecord.offset := by
    rw [map_offset_records, List.mem_range'_1]
    omega
  obtain ⟨r, hr, hoffset⟩ := List.mem_map.mp hoffset
  refine List.ne_nil_of_mem (List.mem_filter.mpr ⟨List.mem_flatMap.mpr ⟨e, hmem, hr⟩, ?_⟩)
  simp only [decide_eq_true_eq]
  omega

end Layout

namespace PartitionLog

variable {Z : Zstd} {log : PartitionLog} {layout : Layout}

/-- Under any limits the loop returns the first records from the requested offset
on, and at least one if a record may be returned at all. -/
theorem readLoop_take (offset maxRecords maxBytes : ℕ) {entries : List IndexEntry}
    {rs : List StoredRecord} (h : List.Forall₂ (log.ReadsAs Z) entries rs) (count bytes : ℕ) :
    ∃ records taken, readLoop Z log offset maxRecords maxBytes entries count bytes = .ok records ∧
      records.map Record.stored = (rs.filter fun r ↦ offset ≤ r.offset).take taken ∧
      (count = 0 → 0 < maxRecords → 0 < taken) := by
  induction h generalizing count bytes with
  | nil => exact ⟨[], 1, rfl, rfl, fun _ _ ↦ Nat.one_pos⟩
  | @cons entry r entries rs hread _ ih =>
      obtain ⟨hoffset, record, hrecord, hstored⟩ := hread
      rw [readLoop]
      by_cases hbelow : entry.offset < offset
      · obtain ⟨records, taken, hloop, hrecords, hpos⟩ := ih count bytes
        refine ⟨records, taken, by rw [if_pos hbelow, hloop], ?_, hpos⟩
        rw [hrecords, List.filter_cons_of_neg (by simp; omega)]
      · rw [if_neg hbelow]
        by_cases hstop : count ≥ maxRecords ∨
            (maxBytes > 0 ∧ count ≠ 0 ∧ bytes + entry.recordBytes + 4 > maxBytes)
        · refine ⟨[], 0, ?_, rfl, fun hcount hmax ↦ by omega⟩
          split_ifs with hfull hbytes
          · rfl
          · rfl
          · exact (hstop.elim hfull hbytes).elim
        · obtain ⟨records, taken, hloop, hrecords, -⟩ :=
            ih (count + 1) (bytes + (entry.recordBytes + 4))
          refine ⟨record :: records, taken + 1, ?_, ?_, fun _ _ ↦ Nat.succ_pos _⟩
          · rw [if_neg (fun h ↦ hstop (Or.inl h)), if_neg (fun h ↦ hstop (Or.inr h)), hrecord,
              ok_bind, hloop, ok_map]
          · rw [List.map_cons, hrecords, hstored, List.filter_cons_of_pos (by simp; omega),
              List.take_succ_cons]

theorem Represents.readFrom_take (hrep : log.Represents Z layout)
    (hdecodable : ∀ e ∈ layout.entries, e.Decodable log.options.maxUncompressedBatchBytes)
    (offset : ℕ) {maxRecords : ℕ} (hmax : 0 < maxRecords) (maxBytes : ℕ) :
    ∃ records taken, log.readFrom Z offset maxRecords maxBytes = .ok records ∧
      records.map Record.stored = (layout.records.filter fun r ↦ offset ≤ r.offset).take taken ∧
      0 < taken := by
  obtain ⟨records, taken, hloop, hrecords, hpos⟩ :=
    readLoop_take offset maxRecords maxBytes (hrep.readsAs hdecodable) 0 0
  exact ⟨records, taken, hloop, hrecords, hpos rfl hmax⟩

/-! ## Stored batches -/

/-- What `read_encoded_batch` answers: nothing, or the stored batch that starts
at the offset. -/
theorem Represents.readEncodedBatch_cases (hrep : log.Represents Z layout)
    (hdecodable : ∀ e ∈ layout.entries, e.Decodable log.options.maxUncompressedBatchBytes)
    (offset : ℕ) :
    log.readEncodedBatch Z offset = .ok none ∨
      ∃ timestamp codec encoded records,
        Entry.batch offset timestamp codec encoded records ∈ layout.entries ∧
        log.readEncodedBatch Z offset =
          .ok (some { metadata := storedBatchMetadata log.options.topic log.options.partitionId
                        offset timestamp codec records.length (encodeRecordSet records).length
                        encoded
                      encodedRecords := encoded }) := by
  cases hfind : log.index.find? fun entry ↦ entry.offset = offset with
  | none =>
      left
      unfold readEncodedBatch
      rw [hfind]
  | some entry =>
      have hoffset : entry.offset = offset := by simpa using List.find?_some hfind
      obtain ⟨s, hs, es, e, es', hsplit, hentry⟩ :=
        Layout.exists_of_mem_index (hrep.index ▸ List.mem_of_find?_eq_some hfind)
      have he : e ∈ layout.entries :=
        Layout.mem_entries.mpr ⟨s, hs, by rw [hsplit]; exact List.mem_append_right _ (by simp)⟩
      have hwritten := hrep.written e he
      have hholds := hrep.holds hs hsplit
      by_cases hindex : entry.recordIndex = 0
      · cases e with
        | record recordOffset timestamp key value =>
            left
            obtain rfl := List.mem_singleton.mp hentry
            obtain ⟨before, after, hcontent, hposition⟩ := hholds
            unfold readEncodedBatch
            rw [hfind]
            simp only [ne_eq, not_true_eq_false, if_false]
            rw [hcontent, orError_some, ok_bind]
            simp only [Entry.drop_bytes hposition, Entry.take_bodyAndCrc]
            have hminimum := (Entry.record recordOffset timestamp key value).kMinimum_le_recordBytes
            rw [kMinimumRecordBytes] at hminimum
            rw [if_neg (by rw [List.length_append, Entry.length_bodyAndCrc]; omega),
              if_neg (by omega), if_pos (Entry.version_record _ _ _ _)]
        | batch baseOffset timestamp codec encoded records =>
            right
            obtain ⟨i, -, rfl⟩ := List.mem_map.mp hentry
            have hi : i = 0 := hindex
            subst hi
            have hbase : baseOffset = offset := by
              have hstop : baseOffset + records.length < 2 ^ 64 := hwritten.stop_lt
              rw [← hoffset]
              exact (Nat.mod_eq_of_lt (by omega)).symm
            subst hbase
            exact ⟨timestamp, codec, encoded, records, he,
              readEncodedBatch_of_find hfind rfl rfl hholds hwritten (hdecodable _ he)⟩
      · left
        unfold readEncodedBatch
        rw [hfind]
        simp only [ne_eq, hindex, not_false_eq_true, if_true]

end PartitionLog

end BoltStream.Storage
