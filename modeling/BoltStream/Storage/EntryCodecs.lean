import BoltStream.Storage.Appending

/-!
# The codecs of stored entries

Decoding a written record gives it back, and nothing else decodes as a record: the
bytes it accepts are the bytes the encoder writes for what it returns.  A batch reads
back as long as its byte count and the offset behind it fit their fields.
-/

namespace BoltStream.Storage

open BoltStream.Lib BoltStream.Protocol BoltStream.Compression

/-! ## Bytes as fields -/

theorem readU64Be_lt (bytes : Bytes) (offset : ℕ) : readU64Be bytes offset < 2 ^ 64 := by
  have hlt := readBe_lt 8 bytes offset
  rwa [show 256 ^ 8 = 2 ^ 64 by norm_num] at hlt

/-- The header in front of the key. -/
theorem recordHeader_eq {bytes : Bytes} (h : 32 ≤ bytes.length) :
    bytes = writeU16 (readU16Be bytes 0) ++ (writeU16 (readU16Be bytes 2) ++
      (writeU64 (readU64Be bytes 4) ++ (writeU64 (readU64Be bytes 12) ++
        (writeU32 (readU32Be bytes 20) ++ (writeU32 (readU32Be bytes 24) ++
          (writeU32 (readU32Be bytes 28) ++ bytes.drop 32)))))) := by
  have hversion := drop_eq_field 2 (show 0 + 2 ≤ bytes.length by omega)
  have hflags := drop_eq_field 2 (show 2 + 2 ≤ bytes.length by omega)
  have hoffset := drop_eq_field 8 (show 4 + 8 ≤ bytes.length by omega)
  have htimestamp := drop_eq_field 8 (show 12 + 8 ≤ bytes.length by omega)
  have hkey := drop_eq_field 4 (show 20 + 4 ≤ bytes.length by omega)
  have hvalue := drop_eq_field 4 (show 24 + 4 ≤ bytes.length by omega)
  have hcount := drop_eq_field 4 (show 28 + 4 ≤ bytes.length by omega)
  rw [List.drop_zero, hflags, hoffset, htimestamp, hkey, hvalue, hcount] at hversion
  exact hversion

/-! ## Records -/

/-- A body whose fields are those of a record is the one written for it. -/
theorem eq_recordBody {bytes : Bytes} {recordBytes : ℕ} (hlength : bytes.length = recordBytes)
    (hminimum : kMinimumRecordBytes ≤ recordBytes)
    (hcrc : readU32Be bytes (recordBytes - 4) = crc32 (bytes.take (recordBytes - 4)))
    (hversion : readU16Be bytes 0 = kRecordVersion) (hflags : readU16Be bytes 2 = kRecordFlags)
    (hcount : readU32Be bytes 28 = kHeaderCount)
    (hsize : 32 + readU32Be bytes 20 + readU32Be bytes 24 = recordBytes - 4) :
    let key := (bytes.drop 32).take (readU32Be bytes 20)
    let value := (bytes.drop (32 + readU32Be bytes 20)).take (readU32Be bytes 24)
    key.length = readU32Be bytes 20 ∧ value.length = readU32Be bytes 24 ∧
      bytes = recordBody (readU64Be bytes 4) (readU64Be bytes 12) key value ++
        writeU32 (crc32 (recordBody (readU64Be bytes 4) (readU64Be bytes 12) key value)) := by
  intro key value
  rw [kMinimumRecordBytes, kFixedRecordBodyBytes] at hminimum
  have hkey : key.length = readU32Be bytes 20 := by
    rw [List.length_take, List.length_drop]
    omega
  have hvalue : value.length = readU32Be bytes 24 := by
    rw [List.length_take, List.length_drop]
    omega
  have hcrcField : bytes.drop (recordBytes - 4) =
      writeU32 (crc32 (bytes.take (recordBytes - 4))) := by
    have hfield := drop_eq_field 4 (show recordBytes - 4 + 4 ≤ bytes.length by omega)
    have hend : bytes.drop (recordBytes - 4 + 4) = [] := List.drop_of_length_le (by omega)
    rw [hfield, hend, List.append_nil, ← hcrc]
    rfl
  have hpayload : bytes.drop 32 = key ++ (value ++ bytes.drop (recordBytes - 4)) := by
    have hbehind : bytes.drop (32 + readU32Be bytes 20) =
        value ++ bytes.drop (recordBytes - 4) := by
      rw [← hsize, ← @List.drop_drop _ (readU32Be bytes 24) (32 + readU32Be bytes 20)]
      exact (List.take_append_drop _ _).symm
    rw [← hbehind, ← List.drop_drop]
    exact (List.take_append_drop _ _).symm
  have hbody : bytes = recordBody (readU64Be bytes 4) (readU64Be bytes 12) key value ++
      bytes.drop (recordBytes - 4) := by
    conv_lhs => rw [recordHeader_eq (by omega : 32 ≤ bytes.length), hpayload]
    rw [hversion, hflags, hcount, recordBody, hkey, hvalue]
    simp only [List.append_assoc]
  have htake : bytes.take (recordBytes - 4) =
      recordBody (readU64Be bytes 4) (readU64Be bytes 12) key value := by
    have hbodyLength : (recordBody (readU64Be bytes 4) (readU64Be bytes 12) key value).length =
        recordBytes - 4 := by
      rw [length_recordBody, hkey, hvalue, hsize]
    conv_lhs => rw [hbody]
    rw [← hbodyLength, List.take_left]
  refine ⟨hkey, hvalue, ?_⟩
  rw [hcrcField, htake] at hbody
  exact hbody

theorem encodeRecord_eq_ok_iff {offset timestamp : ℕ} {key value encoded : Bytes} :
    encodeRecord offset timestamp key value = .ok encoded ↔
      36 + key.length + value.length < 2 ^ 32 ∧
        encoded = frameBody (recordBody offset timestamp key value) := by
  rw [encodeRecord, length_recordBody]
  constructor
  · intro h
    split_ifs at h with hparts hwhole
    exact ⟨by omega, (Except.ok.inj h).symm⟩
  · rintro ⟨hfits, rfl⟩
    rw [if_neg (by omega), if_neg (by omega)]

/-- What `decode_record` accepts is what `encode_record` writes for what it returns. -/
theorem decodeRecord_eq_ok_iff (topic : Bytes) (partition : ℕ) {recordBytes : ℕ}
    (hwidth : recordBytes < 2 ^ 32) {bodyAndCrc : Bytes} {decoded : DecodedRecord} :
    decodeRecord topic partition recordBytes bodyAndCrc = .ok decoded ↔
      bodyAndCrc.length = recordBytes ∧ ∃ offset timestamp key value,
        offset < 2 ^ 64 ∧ timestamp < 2 ^ 64 ∧
        encodeRecord offset timestamp key value = .ok (writeU32 recordBytes ++ bodyAndCrc) ∧
        decoded = { record := storedRecord topic partition offset timestamp key value
                    recordBytes := recordBytes } := by
  constructor
  · intro h
    rw [decodeRecord] at h
    split_ifs at h with hlength hcrc hheader hsize
    rw [not_or, not_not, not_lt] at hlength
    rw [not_not] at hcrc hsize
    rw [not_or, not_or, not_not, not_not, not_not] at hheader
    obtain ⟨hkey, hvalue, hbytes⟩ := eq_recordBody hlength.1.symm hlength.2 hcrc hheader.1
      hheader.2.1 hheader.2.2 hsize
    have hminimum := hlength.2
    rw [kMinimumRecordBytes, kFixedRecordBodyBytes] at hminimum
    rw [kFixedRecordBodyBytes] at hsize
    refine ⟨hlength.1.symm, readU64Be bodyAndCrc 4, readU64Be bodyAndCrc 12,
      (bodyAndCrc.drop 32).take (readU32Be bodyAndCrc 20),
      (bodyAndCrc.drop (32 + readU32Be bodyAndCrc 20)).take (readU32Be bodyAndCrc 24),
      readU64Be_lt _ _, readU64Be_lt _ _, encodeRecord_eq_ok_iff.mpr ⟨?_, ?_⟩, ?_⟩
    · rw [hkey, hvalue]
      omega
    · have hcount : 32 + readU32Be bodyAndCrc 20 + readU32Be bodyAndCrc 24 + 4 = recordBytes := by
        omega
      rw [frameBody, ← hbytes, length_recordBody, hkey, hvalue, hcount]
    · rw [← Except.ok.inj h, storedRecord, hkey, hvalue]
      have hcount : 36 + readU32Be bodyAndCrc 20 + readU32Be bodyAndCrc 24 = recordBytes := by
        omega
      rw [hcount]
      rfl
  · rintro ⟨hlength, offset, timestamp, key, value, hoffset, htimestamp, hencoded, rfl⟩
    obtain ⟨hfits, hframe⟩ := encodeRecord_eq_ok_iff.mp hencoded
    rw [frameBody] at hframe
    have hbody := (List.append_inj hframe (by rw [length_writeU32, length_writeU32])).2
    have hcount : recordBytes = 36 + key.length + value.length := by
      rw [← hlength, hbody, List.length_append, length_recordBody, length_writeU32]
      omega
    rw [hbody, hcount]
    exact decodeRecord_recordBody topic partition hoffset htimestamp hfits

/-- A record decodes to what was encoded. -/
theorem decodeRecord_encodeRecord (topic : Bytes) (partition : ℕ) {offset timestamp : ℕ}
    {key value encoded : Bytes} (hoffset : offset < 2 ^ 64) (htimestamp : timestamp < 2 ^ 64)
    (h : encodeRecord offset timestamp key value = .ok encoded) :
    decodeRecord topic partition (readU32Be encoded 0) (encoded.drop 4) =
      .ok { record := storedRecord topic partition offset timestamp key value
            recordBytes := encoded.length - 4 } := by
  obtain ⟨hfits, rfl⟩ := encodeRecord_eq_ok_iff.mp h
  have hcount : (recordBody offset timestamp key value).length + 4 =
      36 + key.length + value.length := by
    rw [length_recordBody]
    omega
  have hlength : (frameBody (recordBody offset timestamp key value)).length - 4 =
      36 + key.length + value.length := by
    rw [length_frameBody, ← hcount, Nat.add_sub_assoc (by norm_num)]
  rw [hlength, frameBody, readU32Be_front, hcount, Nat.mod_eq_of_lt hfits,
    List.drop_left' (length_writeU32 _)]
  exact decodeRecord_recordBody topic partition hoffset htimestamp hfits

/-! ## Batches -/

/-- Decoding a written batch gives back its records, its offsets and its timestamp. -/
def BatchReadsBack (Z : Zstd) (topic : Bytes) (partition limit baseOffset timestamp : ℕ)
    (codec : Codec) (records : List BatchRecord) (encoded : Bytes) : Prop :=
  let written := encodeBatch baseOffset timestamp codec records.length
    (encodeRecordSet records).length encoded
  ∃ batch, decodeBatch Z topic partition (readU32Be written 0) (written.drop 4) limit =
      .ok batch ∧
    batch.records = records ∧ batch.metadata.baseOffset = baseOffset ∧
    batch.metadata.timestampUnixNs = timestamp ∧
    batch.metadata.recordCount = records.length ∧
    batch.metadata.nextOffset = baseOffset + records.length

/-- The count and the body of a written batch, as a reader sees them. -/
theorem encodeBatch_parts (baseOffset timestamp count size : ℕ) (codec : Codec)
    (encoded : Bytes) :
    let written := encodeBatch baseOffset timestamp codec count size encoded
    let body := batchBody baseOffset timestamp codec count size encoded
    readU32Be written 0 = (40 + encoded.length) % 2 ^ 32 ∧
      written.drop 4 = body ++ writeU32 (crc32 body) := by
  dsimp only
  have hcount : 36 + encoded.length + 4 = 40 + encoded.length := by omega
  rw [encodeBatch, frameBody, readU32Be_front, length_batchBody, hcount,
    List.drop_left' (length_writeU32 _)]
  exact ⟨rfl, rfl⟩

/-- A batch whose byte count wraps is refused by its length. -/
theorem decodeBatch_wraps (Z : Zstd) (topic : Bytes) (partition limit : ℕ)
    (baseOffset timestamp count size : ℕ) (codec : Codec) {encoded : Bytes}
    (hwraps : 2 ^ 32 ≤ encoded.length + 40) :
    let written := encodeBatch baseOffset timestamp codec count size encoded
    decodeBatch Z topic partition (readU32Be written 0) (written.drop 4) limit =
      .error "invalid batch length" := by
  dsimp only
  obtain ⟨hcount, hbody⟩ := encodeBatch_parts baseOffset timestamp count size codec encoded
  have hlt : (40 + encoded.length) % 2 ^ 32 < 2 ^ 32 := Nat.mod_lt _ (by norm_num)
  rw [hcount, hbody, decodeBatch, if_pos]
  left
  rw [List.length_append, length_batchBody, length_writeU32]
  omega

section Batch

variable {Z : Zstd} {codec : Codec} {level : ℤ} {records : List BatchRecord} {encoded : Bytes}

theorem batchReadsBack_iff (hrestores : Z.Restores) (topic : Bytes) (partition : ℕ)
    {limit baseOffset timestamp : ℕ} (hbase : baseOffset < 2 ^ 64)
    (htimestamp : timestamp < 2 ^ 64) (hne : records ≠ [])
    (hvalues : ∀ record ∈ records, record.message ≠ [])
    (hlimit : (encodeRecordSet records).length ≤ limit)
    (hwidth : (encodeRecordSet records).length < 2 ^ 32)
    (hcompress : compress Z codec (encodeRecordSet records) level = .ok encoded) :
    BatchReadsBack Z topic partition limit baseOffset timestamp codec records encoded ↔
      encoded.length + 40 < 2 ^ 32 ∧ baseOffset + records.length < 2 ^ 64 := by
  have hpos : 0 < (encodeRecordSet records).length :=
    (Nat.zero_le _).trans_lt (length_lt_encodeRecordSet records)
  have hdecompress := decompress_of_compress hrestores (List.ne_nil_of_length_pos hpos) hcompress
    hlimit
  rw [BatchReadsBack]
  by_cases hwraps : 2 ^ 32 ≤ encoded.length + 40
  · rw [decodeBatch_wraps _ _ _ _ _ _ _ _ _ hwraps]
    refine iff_of_false ?_ fun h ↦ absurd h.1 (Nat.not_lt.mpr hwraps)
    rintro ⟨batch, hbatch, -⟩
    cases hbatch
  · obtain ⟨hcount, hbody⟩ := encodeBatch_parts baseOffset timestamp records.length
      (encodeRecordSet records).length codec encoded
    rw [hcount, hbody, Nat.mod_eq_of_lt (by omega), decodeBatch_batchBody Z topic partition limit
      hbase htimestamp (isSupported_of_decompress hdecompress) (List.length_pos_iff.mpr hne)
      ((length_lt_encodeRecordSet records).trans hwidth) hpos hwidth (by omega), hdecompress,
      ok_bind, decodeRecordSet_encodeRecordSet hwidth, if_pos hvalues, ok_bind]
    constructor
    · rintro ⟨batch, hbatch, -, -, -, -, hnext⟩
      obtain rfl := Except.ok.inj hbatch
      refine ⟨by omega, ?_⟩
      rw [← hnext]
      exact Nat.mod_lt _ (by norm_num)
    · rintro ⟨-, hoffsets⟩
      exact ⟨_, rfl, rfl, rfl, rfl, rfl, Nat.mod_eq_of_lt hoffsets⟩

end Batch

/-! ## Versions -/

theorem version_of_decodeRecord {topic bodyAndCrc : Bytes} {partition recordBytes : ℕ}
    {decoded : DecodedRecord}
    (h : decodeRecord topic partition recordBytes bodyAndCrc = .ok decoded) :
    readU16Be bodyAndCrc 0 = kRecordVersion := by
  rw [decodeRecord] at h
  split_ifs at h with hlength hcrc hheader
  rw [not_or, not_not] at hheader
  exact hheader.1

theorem version_of_decodeBatch {Z : Zstd} {topic bodyAndCrc : Bytes}
    {partition batchBytes limit : ℕ} {batch : DecodedBatch}
    (h : decodeBatch Z topic partition batchBytes bodyAndCrc limit = .ok batch) :
    readU16Be bodyAndCrc 0 = kBatchVersion := by
  rw [decodeBatch] at h
  split_ifs at h with hlength hcrc hheader
  rw [not_or, not_not] at hheader
  exact hheader.1

/-- Records decode exactly, a batch reads back just when neither its byte count nor the
offset behind it wraps, and the version tells the one from the other. -/
theorem entries_decode_exactly (Z : Zstd) (hrestores : Z.Restores) (topic : Bytes)
    (partition limit : ℕ) :
    (∀ offset timestamp key value encoded, offset < 2 ^ 64 → timestamp < 2 ^ 64 →
      encodeRecord offset timestamp key value = .ok encoded →
        decodeRecord topic partition (readU32Be encoded 0) (encoded.drop 4) =
          .ok { record := storedRecord topic partition offset timestamp key value
                recordBytes := encoded.length - 4 }) ∧
    (∀ recordBytes bodyAndCrc decoded, recordBytes < 2 ^ 32 →
      (decodeRecord topic partition recordBytes bodyAndCrc = .ok decoded ↔
        bodyAndCrc.length = recordBytes ∧ ∃ offset timestamp key value,
          offset < 2 ^ 64 ∧ timestamp < 2 ^ 64 ∧
          encodeRecord offset timestamp key value = .ok (writeU32 recordBytes ++ bodyAndCrc) ∧
          decoded = { record := storedRecord topic partition offset timestamp key value
                      recordBytes := recordBytes })) ∧
    (∀ baseOffset timestamp codec level records encoded, baseOffset < 2 ^ 64 →
      timestamp < 2 ^ 64 → records ≠ [] → (∀ record ∈ records, record.message ≠ []) →
      (encodeRecordSet records).length ≤ limit → (encodeRecordSet records).length < 2 ^ 32 →
      compress Z codec (encodeRecordSet records) level = .ok encoded →
        (BatchReadsBack Z topic partition limit baseOffset timestamp codec records encoded ↔
          encoded.length + 40 < 2 ^ 32 ∧ baseOffset + records.length < 2 ^ 64)) ∧
    (∀ recordBytes bodyAndCrc decoded,
      decodeRecord topic partition recordBytes bodyAndCrc = .ok decoded →
        readU16Be bodyAndCrc 0 ≠ kBatchVersion ∧ ∀ batchBytes batch,
          decodeBatch Z topic partition batchBytes bodyAndCrc limit ≠ .ok batch) ∧
    (∀ batchBytes bodyAndCrc batch,
      decodeBatch Z topic partition batchBytes bodyAndCrc limit = .ok batch →
        readU16Be bodyAndCrc 0 = kBatchVersion) := by
  have hversions : kRecordVersion ≠ kBatchVersion := by decide
  refine ⟨?_, ?_, ?_, ?_, ?_⟩
  · intro offset timestamp key value encoded hoffset htimestamp hencoded
    exact decodeRecord_encodeRecord topic partition hoffset htimestamp hencoded
  · intro recordBytes bodyAndCrc decoded hwidth
    exact decodeRecord_eq_ok_iff topic partition hwidth
  · intro baseOffset timestamp codec level records encoded hbase htimestamp hne hvalues hlimit
      hwidth hcompress
    exact batchReadsBack_iff hrestores topic partition hbase htimestamp hne hvalues hlimit hwidth
      hcompress
  · intro recordBytes bodyAndCrc decoded hdecoded
    have hversion := version_of_decodeRecord hdecoded
    refine ⟨hversion ▸ hversions, fun batchBytes batch hbatch ↦ ?_⟩
    exact hversions (hversion.symm.trans (version_of_decodeBatch hbatch))
  · intro batchBytes bodyAndCrc batch hbatch
    exact version_of_decodeBatch hbatch

/-- A compressed batch of two records. -/
theorem entries_decode_exactly_two :
    BatchReadsBack rawBlockZstd [116] 0 100 5 7 .zstd [⟨[1], [2]⟩, ⟨[], [3, 4]⟩]
      ([40, 181, 47, 253, 32, 24, 193, 0, 0] ++
        encodeRecordSet [⟨[1], [2]⟩, ⟨[], [3, 4]⟩]) := by
  obtain ⟨-, -, hbatch, -⟩ := entries_decode_exactly rawBlockZstd restores_rawBlockZstd [116] 0 100
  exact (hbatch 5 7 .zstd 0 [⟨[1], [2]⟩, ⟨[], [3, 4]⟩] _ (by norm_num) (by norm_num) (by decide)
    (by decide) (by decide) (by decide) (by decide)).mpr ⟨by decide, by decide⟩

/-- A batch of 2^32 - 40 bytes is refused by its own decoder. -/
theorem wrapped_batch_refused :
    let value : Bytes := List.replicate (2 ^ 32 - 52) 0
    value ≠ [] ∧ (encodeRecordSet [⟨[], value⟩]).length ≤ 2 ^ 32 - 1 ∧
      compress noZstd .none (encodeRecordSet [⟨[], value⟩]) 0 =
        .ok (encodeRecordSet [⟨[], value⟩]) ∧
      ¬ BatchReadsBack noZstd [] 0 (2 ^ 32 - 1) 0 0 .none [⟨[], value⟩]
        (encodeRecordSet [⟨[], value⟩]) := by
  intro value
  have hvalue : value.length = 2 ^ 32 - 52 := List.length_replicate
  have hlength : (encodeRecordSet [⟨[], value⟩]).length = 2 ^ 32 - 40 := by
    rw [length_encodeRecordSet]
    simp only [List.map_cons, List.map_nil, List.sum_cons, List.sum_nil, List.length_nil, hvalue]
    omega
  refine ⟨List.ne_nil_of_length_pos (by omega), by omega, rfl, ?_⟩
  rintro ⟨batch, hbatch, -⟩
  rw [decodeBatch_wraps _ _ _ _ _ _ _ _ _ (by omega)] at hbatch
  cases hbatch

end BoltStream.Storage
