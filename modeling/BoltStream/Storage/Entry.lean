import BoltStream.Storage.Recovery

/-!
# Stored entries

The abstract content of a segment is a list of entries, each a record or an
encoded batch.  This module says what bytes an entry is written as and proves
that scanning and reading those bytes gives the entry back, in exactly the
cases where the decoders accept it.
-/

namespace BoltStream.Storage

open BoltStream.Lib BoltStream.Protocol BoltStream.Compression

/-- What was appended under one offset. -/
structure StoredRecord where
  offset : ℕ
  timestamp : ℕ
  key : Bytes
  value : Bytes
  deriving DecidableEq, Repr

/-- The part of a record that was handed to the log. -/
def Record.stored (record : Record) : StoredRecord :=
  { offset := record.metadata.offset
    timestamp := record.metadata.timestampUnixNs
    key := record.key
    value := record.value }

inductive Entry where
  | record (offset timestamp : ℕ) (key value : Bytes)
  | batch (baseOffset timestamp : ℕ) (codec : Codec) (encoded : Bytes)
      (records : List BatchRecord)
  deriving DecidableEq, Repr

namespace Entry

/-- The offset of the entry's first record. -/
def first : Entry → ℕ
  | record offset _ _ _ => offset
  | batch baseOffset _ _ _ _ => baseOffset

def count : Entry → ℕ
  | record _ _ _ _ => 1
  | batch _ _ _ _ records => records.length

/-- One past the offset of the entry's last record. -/
def stop (e : Entry) : ℕ := e.first + e.count

def body : Entry → Bytes
  | record offset timestamp key value => recordBody offset timestamp key value
  | batch baseOffset timestamp codec encoded records =>
      batchBody baseOffset timestamp codec records.length (encodeRecordSet records).length encoded

def bytes (e : Entry) : Bytes := frameBody e.body

/-- The byte count in front of the entry. -/
def recordBytes (e : Entry) : ℕ := e.body.length + 4

def records : Entry → List StoredRecord
  | record offset timestamp key value => [⟨offset, timestamp, key, value⟩]
  | batch baseOffset timestamp _ _ records =>
      records.mapIdx fun i r ↦ ⟨baseOffset + i, timestamp, r.key, r.message⟩

def indexEntries (segment position : ℕ) : Entry → List IndexEntry
  | e@(record offset _ _ _) =>
      [{ offset := offset, filePosition := position, recordBytes := e.recordBytes,
         segment := segment }]
  | e@(batch baseOffset _ _ _ records) =>
      PartitionLog.batchEntries baseOffset position e.recordBytes segment records.length

/-- The entry's fields are within the widths of the format. -/
def Fits (e : Entry) : Prop :=
  e.stop < 2 ^ 64 ∧ e.recordBytes < 2 ^ 32 ∧
    match e with
    | record _ timestamp _ _ => timestamp < 2 ^ 64
    | batch _ timestamp _ _ records =>
        timestamp < 2 ^ 64 ∧ (encodeRecordSet records).length < 2 ^ 32

/-- The validation of the append that wrote the entry, under a limit. -/
def Accepted (Z : Zstd) (limit : ℕ) : Entry → Prop
  | record _ _ _ _ => True
  | batch _ _ codec encoded records =>
      records ≠ [] ∧ decompress Z codec encoded (encodeRecordSet records).length limit =
        .ok (encodeRecordSet records)

/-- The decoders' own conditions on the entry, under a limit. -/
def Decodable (limit : ℕ) : Entry → Prop
  | record _ _ _ _ => True
  | batch _ _ _ _ records =>
      (encodeRecordSet records).length ≤ limit ∧ ∀ r ∈ records, r.message ≠ []

instance (limit : ℕ) : (e : Entry) → Decidable (e.Decodable limit)
  | record _ _ _ _ => inferInstanceAs (Decidable True)
  | batch _ _ _ _ _ => inferInstanceAs (Decidable (_ ∧ _))

theorem length_bytes (e : Entry) : e.bytes.length = 4 + e.recordBytes := by
  rw [bytes, length_frameBody, recordBytes]
  omega

theorem kMinimum_le_recordBytes (e : Entry) : kMinimumRecordBytes ≤ e.recordBytes := by
  cases e with
  | record => simp [recordBytes, body, kMinimumRecordBytes, kFixedRecordBodyBytes]; omega
  | batch => simp [recordBytes, body, kMinimumRecordBytes, kFixedRecordBodyBytes]; omega

theorem bytes_length_pos (e : Entry) : 0 < e.bytes.length := by
  rw [length_bytes]
  omega

theorem length_records (e : Entry) : e.records.length = e.count := by
  cases e with
  | record => rfl
  | batch => simp [records, count]

theorem count_pos {Z : Zstd} {limit : ℕ} {e : Entry} (h : e.Accepted Z limit) : 0 < e.count := by
  cases e with
  | record => exact Nat.one_pos
  | batch => exact List.length_pos_iff.mpr h.1

/-! ## Decoding a written entry -/

/-- The bytes behind the count field. -/
def bodyAndCrc (e : Entry) : Bytes := e.body ++ writeU32 (crc32 e.body)

theorem bytes_eq (e : Entry) : e.bytes = writeU32 e.recordBytes ++ e.bodyAndCrc := rfl

theorem length_bodyAndCrc (e : Entry) : e.bodyAndCrc.length = e.recordBytes := by
  simp [bodyAndCrc, recordBytes]

/-- What `decode_batch` answers on the bytes of a batch entry. -/
theorem decodeBatch_batch {Z : Zstd} {limit : ℕ} (limit' : ℕ) (topic : Bytes) (partition : ℕ)
    {baseOffset timestamp : ℕ} {codec : Codec} {encoded : Bytes} {records : List BatchRecord}
    (hfits : (batch baseOffset timestamp codec encoded records).Fits)
    (haccepted : (batch baseOffset timestamp codec encoded records).Accepted Z limit) :
    decodeBatch Z topic partition (batch baseOffset timestamp codec encoded records).recordBytes
        (batch baseOffset timestamp codec encoded records).bodyAndCrc limit' =
      if (encodeRecordSet records).length ≤ limit' then
        if ∀ r ∈ records, r.message ≠ [] then
          .ok { metadata := storedBatchMetadata topic partition baseOffset timestamp codec
                  records.length (encodeRecordSet records).length encoded
                records := records
                batchBytes := 40 + encoded.length }
        else .error "malformed record set"
      else .error "uncompressed batch exceeds configured limit" := by
  obtain ⟨hstop, hbytes, hts, hsize⟩ := hfits
  obtain ⟨hne, hdecompress⟩ := haccepted
  have hbase : baseOffset < 2 ^ 64 := lt_of_le_of_lt (Nat.le_add_right _ _) hstop
  have hrecordBytes : (batch baseOffset timestamp codec encoded records).recordBytes =
      40 + encoded.length := by
    simp [recordBytes, body]
    omega
  have hcount : records.length < 2 ^ 32 := (length_lt_encodeRecordSet records).trans hsize
  rw [hrecordBytes] at hbytes ⊢
  rw [bodyAndCrc, body, decodeBatch_batchBody Z topic partition limit' hbase hts
    (isSupported_of_decompress hdecompress) (List.length_pos_iff.mpr hne) hcount
    (lt_of_le_of_lt (Nat.zero_le _) (length_lt_encodeRecordSet records)) hsize hbytes]
  by_cases hlimit : (encodeRecordSet records).length ≤ limit'
  · rw [if_pos hlimit, decompress_of_le hlimit (decompress_le hdecompress), hdecompress]
    rw [ok_bind, decodeRecordSet_encodeRecordSet hsize]
    by_cases hvalues : ∀ r ∈ records, r.message ≠ []
    · rw [if_pos hvalues, if_pos hvalues, ok_bind]
    · rw [if_neg hvalues, if_neg hvalues, error_bind]
  · rw [if_neg hlimit, decompress_of_lt (Nat.lt_of_not_le hlimit), error_bind]

theorem decodeRecord_record (topic : Bytes) (partition : ℕ) {offset timestamp : ℕ}
    {key value : Bytes} (hfits : (record offset timestamp key value).Fits) :
    decodeRecord topic partition (record offset timestamp key value).recordBytes
        (record offset timestamp key value).bodyAndCrc =
      .ok { record := storedRecord topic partition offset timestamp key value
            recordBytes := 36 + key.length + value.length } := by
  obtain ⟨hstop, hbytes, hts⟩ := hfits
  have hrecordBytes : (record offset timestamp key value).recordBytes =
      36 + key.length + value.length := by
    simp only [recordBytes, body, length_recordBody]
    omega
  rw [hrecordBytes] at hbytes ⊢
  exact decodeRecord_recordBody topic partition (lt_of_le_of_lt (Nat.le_add_right _ _) hstop) hts
    hbytes

theorem version_record (offset timestamp : ℕ) (key value : Bytes) :
    readU16Be (record offset timestamp key value).bodyAndCrc 0 ≠ kBatchVersion := by
  rw [bodyAndCrc, body, (recordBody_fields _ _ _ _ _).1]
  decide

theorem version_batch (baseOffset timestamp : ℕ) (codec : Codec) (encoded : Bytes)
    (records : List BatchRecord) :
    readU16Be (batch baseOffset timestamp codec encoded records).bodyAndCrc 0 = kBatchVersion :=
  (batchBody_fields _ _ _ _ _ _ _).1

/-- Scanning the bytes of an entry the decoders accept: its index entries and
its end. -/
theorem scanEntry_of_decodable {Z : Zstd} {limit : ℕ} {options : PartitionLogOptions}
    (segment position : ℕ) {e : Entry} (hfits : e.Fits) (haccepted : e.Accepted Z limit)
    (hdecodable : e.Decodable options.maxUncompressedBatchBytes) :
    PartitionLog.scanEntry Z options segment position e.recordBytes e.bodyAndCrc =
      .ok (e.indexEntries segment position, e.stop) := by
  cases e with
  | record offset timestamp key value =>
      have hstop : offset + 1 < 2 ^ 64 := hfits.1
      rw [PartitionLog.scanEntry, if_neg (version_record _ _ _ _), decodeRecord_record _ _ hfits,
        ok_map]
      simp only [storedRecord, Nat.mod_eq_of_lt hstop]
      rfl
  | batch baseOffset timestamp codec encoded records =>
      have hstop : baseOffset + records.length < 2 ^ 64 := hfits.1
      rw [PartitionLog.scanEntry, if_pos (version_batch _ _ _ _ _),
        decodeBatch_batch _ _ _ hfits haccepted, if_pos hdecodable.1, if_pos hdecodable.2, ok_map]
      simp only [storedBatchMetadata, Nat.mod_eq_of_lt hstop]
      rfl

/-- Scanning the bytes of an entry the decoders refuse. -/
theorem scanEntry_of_not_decodable {Z : Zstd} {limit : ℕ} {options : PartitionLogOptions}
    (segment position : ℕ) {e : Entry} (hfits : e.Fits) (haccepted : e.Accepted Z limit)
    (hrefused : ¬ e.Decodable options.maxUncompressedBatchBytes) :
    ∃ message, PartitionLog.scanEntry Z options segment position e.recordBytes e.bodyAndCrc =
      .error message := by
  cases e with
  | record offset timestamp key value => exact (hrefused trivial).elim
  | batch baseOffset timestamp codec encoded records =>
      rw [PartitionLog.scanEntry, if_pos (version_batch _ _ _ _ _),
        decodeBatch_batch _ _ _ hfits haccepted]
      by_cases hlimit : (encodeRecordSet records).length ≤ options.maxUncompressedBatchBytes
      · have hvalues : ¬ ∀ r ∈ records, r.message ≠ [] := fun h ↦ hrefused ⟨hlimit, h⟩
        rw [if_pos hlimit, if_neg hvalues]
        exact ⟨_, rfl⟩
      · rw [if_neg hlimit]
        exact ⟨_, rfl⟩

/-! ## The scan loop on written entries -/

theorem readU32Be_bytes {e : Entry} (hfits : e.Fits) (rest : Bytes) :
    readU32Be (e.bytes ++ rest) 0 = e.recordBytes := by
  rw [bytes_eq, List.append_assoc, readU32Be_front, Nat.mod_eq_of_lt hfits.2.1]

/-- One turn of the scan loop over a whole entry. -/
theorem scanLoop_bytes {Z : Zstd} {options : PartitionLogOptions} (segment fuel next position : ℕ)
    {e : Entry} (hfits : e.Fits) (rest : Bytes) :
    PartitionLog.scanLoop Z options segment (fuel + 1) next position (e.bytes ++ rest) =
      match PartitionLog.scanEntry Z options segment position e.recordBytes e.bodyAndCrc with
      | .error _ => PartitionLog.SegmentScan.stopped next position true
      | .ok scanned =>
          (PartitionLog.scanLoop Z options segment fuel (max next scanned.2)
            (position + e.bytes.length) rest).prepend scanned.1 := by
  have hlength : (e.bytes ++ rest).length = 4 + e.recordBytes + rest.length := by
    rw [List.length_append, length_bytes]
  have hbody : ((e.bytes ++ rest).drop 4).take e.recordBytes = e.bodyAndCrc := by
    rw [bytes_eq, List.append_assoc, List.drop_left' (length_writeU32 _), ← length_bodyAndCrc,
      List.take_left]
  have hrest : (e.bytes ++ rest).drop (4 + e.recordBytes) = rest :=
    List.drop_left' (length_bytes e)
  have hmin := kMinimum_le_recordBytes e
  rw [PartitionLog.scanLoop]
  rw [if_neg (by rw [← List.length_eq_zero_iff, hlength]; omega), if_neg (by omega),
    readU32Be_bytes hfits, if_neg (by omega), hbody, hrest]
  cases PartitionLog.scanEntry Z options segment position e.recordBytes e.bodyAndCrc with
  | error message => rfl
  | ok scanned => simp only [length_bytes]

theorem scanLoop_nil (Z : Zstd) (options : PartitionLogOptions) (segment fuel next position : ℕ) :
    PartitionLog.scanLoop Z options segment fuel next position [] =
      PartitionLog.SegmentScan.stopped next position false := by
  cases fuel with
  | zero => rfl
  | succ fuel =>
      rw [PartitionLog.scanLoop, if_pos rfl]

/-- A torn entry, cut anywhere before its end, ends the scan. -/
theorem scanLoop_torn (Z : Zstd) (options : PartitionLogOptions) (segment fuel next position : ℕ)
    {e : Entry} (hfits : e.Fits) {torn : Bytes} (hfrontBytes : torn <+: e.bytes) (hne : torn ≠ [])
    (hlt : torn.length < e.bytes.length) :
    PartitionLog.scanLoop Z options segment (fuel + 1) next position torn =
      PartitionLog.SegmentScan.stopped next position true := by
  rw [PartitionLog.scanLoop, if_neg hne]
  by_cases hshort : torn.length < 4
  · rw [if_pos hshort]
  · have hread : readU32Be torn 0 = e.recordBytes := by
      rw [← readU32Be_bytes hfits [], List.append_nil]
      obtain ⟨rest, hrest⟩ := hfrontBytes
      simp only [readU32Be, readBe, List.drop_zero, ← hrest,
        List.take_append_of_le_length (Nat.le_of_not_lt hshort)]
    rw [length_bytes] at hlt
    rw [if_neg hshort, hread, if_pos (Or.inr (by omega))]

/-- The index entries of consecutive entries of a segment. -/
def indexFrom (segment : ℕ) : ℕ → List Entry → List IndexEntry
  | _, [] => []
  | position, e :: es =>
      e.indexEntries segment position ++ indexFrom segment (position + e.bytes.length) es

/-- The running maximum of end offsets that `recover` keeps. -/
def stopAfter (next : ℕ) (es : List Entry) : ℕ := es.foldl (fun next e ↦ max next e.stop) next

/-- An entry that the open with limit `options` keeps. -/
def Kept (Z : Zstd) (options : PartitionLogOptions) (e : Entry) : Prop :=
  e.Fits ∧ (∃ limit, e.Accepted Z limit) ∧ e.Decodable options.maxUncompressedBatchBytes

/-- The scan loop over whole entries: they are all indexed and the scan goes on
behind them. -/
theorem scanLoop_entries {Z : Zstd} {options : PartitionLogOptions} (segment : ℕ)
    {es : List Entry} (hkept : ∀ e ∈ es, e.Kept Z options) (rest : Bytes) :
    ∀ fuel next position,
      PartitionLog.scanLoop Z options segment (fuel + es.length) next position
          (es.flatMap bytes ++ rest) =
        (PartitionLog.scanLoop Z options segment fuel (stopAfter next es)
          (position + (es.flatMap bytes).length) rest).prepend (indexFrom segment position es) := by
  induction es with
  | nil =>
      intro fuel next position
      simp [indexFrom, stopAfter, PartitionLog.SegmentScan.prepend]
  | cons e es ih =>
      intro fuel next position
      obtain ⟨hfits, ⟨limit, haccepted⟩, hdecodable⟩ := hkept e (by simp)
      have htail := ih fun f hf ↦ hkept f (List.mem_cons_of_mem e hf)
      rw [List.length_cons, ← Nat.add_assoc, List.flatMap_cons, List.append_assoc,
        scanLoop_bytes segment _ next position hfits,
        scanEntry_of_decodable segment position hfits haccepted hdecodable]
      simp only [htail, PartitionLog.SegmentScan.prepend, indexFrom, stopAfter, List.foldl_cons,
        List.length_append, List.append_assoc, Nat.add_assoc]

end Entry

end BoltStream.Storage
