import BoltStream.Storage.LogRuns

/-!
# Batches behind a wrapped byte count

The byte count of an entry has 32 bits.  `append_encoded_batch` accepts batches
that do not fit; what is read back of them is a front part.  If no front part of
the encoded records decompresses to the record set, reading the batch fails, now
and after any further appends.
-/

namespace BoltStream.Storage

open BoltStream.Lib BoltStream.Protocol BoltStream.Compression

theorem readBe_take {k width offset : ℕ} (h : offset + width ≤ k) (bytes : Bytes) :
    readBe width (bytes.take k) offset = readBe width bytes offset := by
  rw [readBe, readBe, List.drop_take, List.take_take, min_eq_left (by omega)]

namespace Entry

/-- A batch whose byte count wraps and that cannot be told from a front part. -/
def Refused (Z : Zstd) (limit : ℕ) : Entry → Prop
  | record _ _ _ _ => False
  | batch _ _ codec encoded records =>
      2 ^ 32 ≤ encoded.length + 40 ∧ isSupported codec = true ∧
        (encodeRecordSet records).length < 2 ^ 32 ∧
        ∀ n < encoded.length, ∀ raw,
          decompress Z codec (encoded.take n) (encodeRecordSet records).length limit ≠ .ok raw

variable {Z : Zstd} {baseOffset timestamp : ℕ} {codec : Codec} {encoded : Bytes}
  {records : List BatchRecord} {limit : ℕ}

/-- The fields of the header survive in every front part that holds them. -/
theorem batchHeader_take {k : ℕ} (hk : 36 ≤ k) :
    let front := (batch baseOffset timestamp codec encoded records).bodyAndCrc.take k
    readU16Be front 0 = kBatchVersion ∧
      readU16Be front 4 = codec.toField % 2 ^ 16 ∧
      readU32Be front 28 = (encodeRecordSet records).length % 2 ^ 32 := by
  obtain ⟨hversion, -, hcodec, -, -, -, -, hsize, -⟩ := batchBody_fields baseOffset timestamp codec
    records.length (encodeRecordSet records).length encoded
      (writeU32 (crc32 (batch baseOffset timestamp codec encoded records).body))
  refine ⟨?_, ?_, ?_⟩
  · rw [readU16Be, readBe_take (by omega)]
    exact hversion
  · rw [readU16Be, readBe_take (by omega)]
    exact hcodec
  · rw [readU32Be, readBe_take (by omega)]
    exact hsize

/-- The encoded records of a front part are a front part of the encoded records. -/
theorem encoded_take {k : ℕ} (hk : 40 ≤ k) (hshort : k - 40 ≤ encoded.length) :
    (((batch baseOffset timestamp codec encoded records).bodyAndCrc.take k).drop
      kFixedBatchBodyBytes).take (k - 4 - kFixedBatchBodyBytes) = encoded.take (k - 40) := by
  rw [kFixedBatchBodyBytes, List.drop_take, bodyAndCrc, body, drop_batchBody, List.take_take,
    min_eq_left (by omega), Nat.sub_sub, List.take_append_of_le_length hshort]

/-- The bytes behind a wrapped byte count do not decode. -/
theorem Refused.decode_error
    (h : (batch baseOffset timestamp codec encoded records).Refused Z limit)
    (topic : Bytes) (partition : ℕ) :
    let count := (encoded.length + 40) % 2 ^ 32
    ∃ message, decodeBatch Z topic partition count
      ((batch baseOffset timestamp codec encoded records).bodyAndCrc.take count) limit =
        .error message := by
  intro count
  obtain ⟨hwraps, hsupported, hsize, hfront⟩ := h
  have hlt : count < encoded.length + 40 := by
    have hmod : count < 2 ^ 32 := Nat.mod_lt _ (by norm_num)
    omega
  unfold decodeBatch
  by_cases hlength : count ≠ ((batch baseOffset timestamp codec encoded records).bodyAndCrc.take
      count).length ∨ count < kFixedBatchBodyBytes + 4
  · exact ⟨_, if_pos hlength⟩
  rw [if_neg hlength]
  rw [not_or, Nat.not_lt, kFixedBatchBodyBytes] at hlength
  obtain ⟨-, hcodec, hlogical⟩ := @batchHeader_take baseOffset timestamp codec encoded records
    count (by omega)
  split_ifs with hcrc hheader
  · exact ⟨_, rfl⟩
  · exact ⟨_, rfl⟩
  dsimp only
  rw [hcodec, hlogical, Nat.mod_eq_of_lt hsize]
  split_ifs with hfields
  · exact ⟨_, rfl⟩
  simp only [not_or, not_not] at hfields
  have hcodec' : Codec.ofField (codec.toField % 2 ^ 16) = codec := by
    cases codec with
    | none => rfl
    | zstd => rfl
    | other value => simp [isSupported] at hsupported
  rw [hfields.2.2.2, encoded_take hlength.2 (by omega), hcodec']
  cases hraw : decompress Z codec (encoded.take (count - 40)) (encodeRecordSet records).length
      limit with
  | error message => exact ⟨_, rfl⟩
  | ok raw => exact (hfront _ (by omega) raw hraw).elim

end Entry

namespace PartitionLog

variable {Z : Zstd} {log log' : PartitionLog} {layout : Layout}

/-- Reading through an index entry of such a batch fails. -/
theorem readEntry_of_refused {entry : IndexEntry} {e : Entry}
    (hholds : log.Holds entry.segment entry.filePosition e)
    (hrefused : e.Refused Z log.options.maxUncompressedBatchBytes) :
    ∃ message, log.readEntry Z entry = .error message := by
  cases e with
  | record => exact hrefused.elim
  | batch baseOffset timestamp codec encoded records =>
      set e := Entry.batch baseOffset timestamp codec encoded records with he
      have hbytes : e.recordBytes = encoded.length + 40 := by
        simp only [he, Entry.recordBytes, Entry.body, length_batchBody]
        omega
      set count := (encoded.length + 40) % 2 ^ 32 with hcount
      have hle : count ≤ e.recordBytes := hbytes ▸ Nat.mod_le _ _
      have hstored : log.readStored entry = .ok (count, e.bodyAndCrc.take count) := by
        obtain ⟨before, after, hcontent, hposition⟩ := hholds
        have hfield : readU32Be (e.bytes ++ after) 0 = count := by
          rw [Entry.bytes_eq, List.append_assoc, readU32Be_front, hbytes]
        have hbody : (e.bytes ++ after).drop 4 = e.bodyAndCrc ++ after := by
          rw [Entry.bytes_eq, List.append_assoc, List.drop_left' (length_writeU32 _)]
        have hlength : (e.bytes ++ after).length = 4 + e.recordBytes + after.length := by
          rw [List.length_append, Entry.length_bytes]
        rw [readStored, hcontent, orError_some, ok_bind, List.drop_left' hposition]
        dsimp only
        rw [hbody, hfield, if_neg (by omega),
          if_neg (by rw [List.length_append, Entry.length_bodyAndCrc]; omega),
          List.take_append_of_le_length (by rwa [Entry.length_bodyAndCrc])]
      rw [readEntry, hstored, ok_bind]
      dsimp only
      by_cases hempty : count < 2
      · rw [if_pos hempty]
        exact ⟨_, rfl⟩
      rw [if_neg hempty]
      by_cases hversion : readU16Be (e.bodyAndCrc.take count) 0 = kBatchVersion
      · obtain ⟨message, herror⟩ := hrefused.decode_error log.options.topic log.options.partitionId
        exact ⟨message, by rw [if_pos hversion, herror]; rfl⟩
      · -- Only a front part without the version is taken for a record.
        have hshort : count < kMinimumRecordBytes := by
          by_contra hlong
          exact hversion (Entry.batchHeader_take (by
            rw [kMinimumRecordBytes, kFixedRecordBodyBytes] at hlong
            omega)).1
        rw [if_neg hversion, decodeRecord, if_pos (Or.inr hshort)]
        exact ⟨_, rfl⟩

/-- A log that was only appended to and has such a batch. -/
structure Stuck (Z : Zstd) (log : PartitionLog) : Prop where
  sorted : FileTable.Sorted log.dir.logs
  indexed : log.index.map IndexEntry.offset = List.range log.nextOffset
  refused : ∃ entry ∈ log.index, ∃ e, log.Holds entry.segment entry.filePosition e ∧
    e.Refused Z log.options.maxUncompressedBatchBytes

variable {codec : Codec} {encodedRecords : Bytes} {uncompressedBytes : UInt32}
  {decodedRecords : List AppendRecord} {timestamp : UInt64} {metadata : BatchMetadata}

/-- What an accepted batch leaves of the log. -/
theorem appendEncodedBatch_parts
    (happend : appendEncodedBatch Z log codec encodedRecords uncompressedBytes decodedRecords
      timestamp none = (log', .ok metadata)) :
    let staged := log.stageEncodedBatch codec encodedRecords uncompressedBytes
      decodedRecords.length timestamp
    log'.options = log.options ∧ log'.dir.logs = log.dir.logs.append staged.segment staged.encoded ∧
      log'.index = log.index ++ staged.entries log.nextOffset decodedRecords.length ∧
      log'.nextOffset = (log.nextOffset + decodedRecords.length) % 2 ^ 64 := by
  have hvalid := LogState.validate_of_appendEncodedBatch happend
  unfold appendEncodedBatch at happend
  rw [hvalid] at happend
  obtain ⟨rfl, -⟩ := Prod.mk.inj happend
  exact ⟨rfl, rfl, rfl, rfl⟩

theorem Holds.append {segment position : ℕ} {e : Entry} (h : log.Holds segment position e)
    (hsorted : FileTable.Sorted log.dir.logs) {name : ℕ} {bytes : Bytes}
    (hlogs : log'.dir.logs = log.dir.logs.append name bytes) : log'.Holds segment position e := by
  obtain ⟨before, after, hcontent, hposition⟩ := h
  by_cases hname : segment = name
  · refine ⟨before, after ++ bytes, ?_, hposition⟩
    rw [hlogs, FileTable.content?_append hsorted, if_pos hname, ← hname, hcontent]
    simp
  · exact ⟨before, after, by rw [hlogs, FileTable.content?_append hsorted, if_neg hname, hcontent],
      hposition⟩

theorem indexed_append (hindexed : log.index.map IndexEntry.offset = List.range log.nextOffset)
    (hbound : log.nextOffset + decodedRecords.length < 2 ^ 64)
    (happend : appendEncodedBatch Z log codec encodedRecords uncompressedBytes decodedRecords
      timestamp none = (log', .ok metadata)) :
    log'.index.map IndexEntry.offset = List.range log'.nextOffset := by
  obtain ⟨-, -, hindex, hnext⟩ := appendEncodedBatch_parts happend
  have hoffsets : ((List.range decodedRecords.length).map fun i ↦
      (log.nextOffset + i) % 2 ^ 64) = List.range' log.nextOffset decodedRecords.length := by
    rw [List.range'_eq_map_range]
    refine List.map_congr_left fun i hi ↦ ?_
    have hlt := List.mem_range.mp hi
    exact Nat.mod_eq_of_lt (by omega)
  rw [hindex, hnext, Nat.mod_eq_of_lt hbound, List.map_append, hindexed,
    StagedEncodedBatch.entries, batchEntries, List.map_map]
  refine (congrArg _ hoffsets).trans ?_
  rw [List.range_eq_range', List.range_eq_range', ← List.range'_append_1, Nat.zero_add]

theorem Stuck.append (h : log.Stuck Z) (hbound : log.nextOffset + decodedRecords.length < 2 ^ 64)
    (happend : appendEncodedBatch Z log codec encodedRecords uncompressedBytes decodedRecords
      timestamp none = (log', .ok metadata)) : log'.Stuck Z := by
  obtain ⟨hoptions, hlogs, hindex, -⟩ := appendEncodedBatch_parts happend
  obtain ⟨entry, hentry, e, hholds, hrefused⟩ := h.refused
  refine ⟨hlogs ▸ h.sorted.append _ _, indexed_append h.indexed hbound happend, entry, ?_, e,
    hholds.append h.sorted hlogs, hoptions ▸ hrefused⟩
  rw [hindex]
  exact List.mem_append_left _ hentry

/-- The append that makes a log so. -/
theorem Represents.stuck (hrep : log.Represents Z layout)
    (hindexed : log.index.map IndexEntry.offset = List.range log.nextOffset)
    (hbound : log.nextOffset + decodedRecords.length < 2 ^ 64)
    (hrefused : (batchEntry log.nextOffset codec encodedRecords decodedRecords timestamp).Refused Z
      log.options.maxUncompressedBatchBytes)
    (happend : PartitionLog.appendEncodedBatch Z log codec encodedRecords uncompressedBytes
      decodedRecords timestamp none = (log', .ok metadata)) : log'.Stuck Z := by
  have hvalid := LogState.validate_of_appendEncodedBatch happend
  obtain ⟨hne, -, -, -⟩ := validateEncodedBatch_ok hvalid
  obtain ⟨segment, -, hstaged⟩ := hrep.stageEncodedBatch hvalid timestamp
  obtain ⟨hoptions, hlogs, hindex, -⟩ := appendEncodedBatch_parts happend
  have hsorted : FileTable.Sorted log.dir.logs :=
    hrep.logs ▸ Layout.files_sorted hrep.placed.bases
  rw [hstaged] at hlogs hindex
  dsimp only at hlogs hindex
  have hcontent : log'.dir.logs.content? segment = some ((log.dir.logs.content? segment).getD [] ++
      (batchEntry log.nextOffset codec encodedRecords decodedRecords timestamp).bytes) := by
    rw [hlogs, FileTable.content?_append hsorted, if_pos rfl]
  have hsize : ((log.dir.logs.content? segment).getD []).length =
      layout.files.sizeOrZero segment := by
    rw [← hrep.logs, FileTable.sizeOrZero]
    cases log.dir.logs.content? segment <;> rfl
  refine ⟨hlogs ▸ hsorted.append _ _, indexed_append hindexed hbound happend, ?_⟩
  set staged : StagedEncodedBatch :=
    { segment := segment
      position := layout.files.sizeOrZero segment
      encoded := (batchEntry log.nextOffset codec encodedRecords decodedRecords timestamp).bytes }
  -- The first index entry of the batch leads to it.
  obtain ⟨entry, hentry, hsegment, hposition⟩ :
      ∃ entry ∈ staged.entries log.nextOffset decodedRecords.length,
        entry.segment = segment ∧ entry.filePosition = layout.files.sizeOrZero segment :=
    ⟨_, List.mem_map.mpr ⟨0, List.mem_range.mpr (List.length_pos_iff.mpr hne), rfl⟩, rfl, rfl⟩
  refine ⟨entry, by rw [hindex]; exact List.mem_append_right _ hentry, _,
    ⟨(log.dir.logs.content? segment).getD [], [], ?_, ?_⟩, hoptions ▸ hrefused⟩
  · rw [hsegment, hcontent, List.append_nil]
  · rw [hposition, hsize]

theorem readLoop_error {maxRecords : ℕ} {entries : List IndexEntry}
    (herror : ∃ entry ∈ entries, ∃ message, log.readEntry Z entry = .error message) :
    ∀ count bytes, count + entries.length ≤ maxRecords →
      ∃ message, readLoop Z log 0 maxRecords 0 entries count bytes = .error message := by
  induction entries with
  | nil =>
      obtain ⟨entry, hentry, -⟩ := herror
      cases hentry
  | cons entry entries ih =>
      intro count bytes hcount
      rw [List.length_cons] at hcount
      rw [readLoop, if_neg (Nat.not_lt_zero _), if_neg (by omega),
        if_neg (fun h ↦ absurd h.1 (lt_irrefl 0))]
      cases hread : log.readEntry Z entry with
      | error message => exact ⟨message, rfl⟩
      | ok record =>
          obtain ⟨other, hother, message, hmessage⟩ := herror
          rcases List.mem_cons.mp hother with rfl | hother
          · rw [hread] at hmessage
            cases hmessage
          · obtain ⟨message', hloop⟩ := ih ⟨other, hother, message, hmessage⟩ (count + 1)
              (bytes + (record.2 + 4)) (by omega)
            exact ⟨message', by rw [ok_bind, hloop]; rfl⟩

/-- A log that was only appended to starts at offset zero. -/
theorem earliestOffset_of_indexed
    (h : log.index.map IndexEntry.offset = List.range log.nextOffset) : log.earliestOffset = 0 := by
  have hlength : log.index.length = log.nextOffset := by
    rw [← List.length_map (f := IndexEntry.offset), h, List.length_range]
  rw [earliestOffset]
  cases hindex : log.index with
  | nil => rw [← hlength, hindex]; rfl
  | cons first rest =>
      rw [← hlength, hindex, List.length_cons, List.range_succ_eq_map] at h
      exact (List.cons.inj h).1

/-- Such a log cannot be read as a whole. -/
theorem Stuck.readAll (h : log.Stuck Z) :
    ∃ message, log.readFrom Z log.earliestOffset log.nextOffset 0 = .error message := by
  obtain ⟨entry, hentry, e, hholds, hrefused⟩ := h.refused
  have hlength : log.index.length = log.nextOffset := by
    rw [← List.length_map (f := IndexEntry.offset), h.indexed, List.length_range]
  have hearliest := earliestOffset_of_indexed h.indexed
  rw [hearliest, readFrom]
  exact readLoop_error ⟨entry, hentry, readEntry_of_refused hholds hrefused⟩ 0 0 (by omega)

end PartitionLog

end BoltStream.Storage
