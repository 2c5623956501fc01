import BoltStream.Broker.Deliverable
import BoltStream.Protocol.RecordMessages

/-!
# Validating a batch twice

`handle_produce_batch` decompresses a batch and decodes its record set, and
`append_encoded_batch` then encodes the records again and compares.  A record set
has one encoding, so the second validation finds nothing.
-/

namespace BoltStream.Broker

open BoltStream.Lib BoltStream.Protocol BoltStream.Compression BoltStream.Storage PartitionLog

/-- A record set that decodes is the encoding of its records. -/
theorem encodeRecordSet_of_decode {raw : Bytes} {count : ℕ} {records : List BatchRecord}
    (h : decodeRecordSet raw count = .ok records) :
    records.length = count ∧ encodeRecordSet records = raw := by
  have hdecode : decodeRecordSetPayload count raw = .ok records := by
    rw [decodeRecordSetPayload, h]
    rfl
  obtain ⟨hfits, hencode⟩ := (recordSet_exact count).encode_decode _ _ hdecode
  exact ⟨hfits.1, hencode⟩

section Validation

variable {Z : Zstd} {config : ServerConfig} {version negotiatedCodecs : ℕ} {payload : Bytes}
  {request : ProduceBatchRequest} {records : List AppendRecord}

/-- The records of an accepted batch encode to the bytes it was decompressed to. -/
theorem encodeRecordSet_of_accept
    (h : acceptProduceBatch Z config version negotiatedCodecs payload = .ok (request, records)) :
    records ≠ [] ∧ records.length = request.recordCount ∧ records.length < 2 ^ 32 ∧
      (encodeRecordSet (batchRecords records)).length = request.uncompressedBytes ∧
      decompress Z request.codec request.encodedRecords request.uncompressedBytes
        config.maxUncompressedBatchBytes.toNat = .ok (encodeRecordSet (batchRecords records)) := by
  obtain ⟨hrequest, raw, set, hraw, hset, rfl⟩ := acceptProduceBatch_parts h
  obtain ⟨hlength, hencode⟩ := encodeRecordSet_of_decode hset
  have hbatch : batchRecords (set.map fun record ↦ ⟨record.key, record.message⟩) = set := by
    rw [batchRecords, List.map_map]
    exact List.map_id set
  have hcount : request.recordCount ≠ 0 := by
    rw [decodeProduceBatchRequest] at hrequest
    split at hrequest
    · cases hrequest
    · split_ifs at hrequest with hempty hcodec
      obtain rfl := Except.ok.inj hrequest
      exact fun hzero ↦ hempty (Or.inr (Or.inl hzero))
  have hfield : set.length < 2 ^ 32 := by
    have hdecode : decodeRecordSetPayload request.recordCount raw = .ok set := by
      rw [decodeRecordSetPayload, hset]
      rfl
    exact ((recordSet_exact request.recordCount).encode_decode _ _ hdecode).1.2.1
  rw [hbatch, hencode]
  refine ⟨?_, by rw [List.length_map, hlength], by rwa [List.length_map],
    length_of_decompress hraw, hraw⟩
  intro hnil
  rw [List.map_eq_nil_iff] at hnil
  rw [hnil] at hlength
  exact hcount hlength.symm

/-- The checks of `append_encoded_batch` pass. -/
theorem validateEncodedBatch_of_accept
    (h : acceptProduceBatch Z config version negotiatedCodecs payload = .ok (request, records))
    {options : PartitionLogOptions}
    (hlimit : options.maxUncompressedBatchBytes = config.maxUncompressedBatchBytes.toNat)
    {uncompressedBytes : UInt32} (hbytes : uncompressedBytes.toNat = request.uncompressedBytes) :
    validateEncodedBatch Z options request.codec request.encodedRecords uncompressedBytes
      records = .ok () := by
  obtain ⟨hne, -, hcount, hsize, hraw⟩ := encodeRecordSet_of_accept h
  rw [validateEncodedBatch, if_neg (by rw [not_or]; exact ⟨hne, by omega⟩)]
  change (if (encodeRecordSet (batchRecords records)).length ≠ uncompressedBytes.toNat then _
    else _) = _
  rw [hbytes, if_neg (not_not.mpr hsize), hlimit, hraw, ok_bind]
  exact if_neg (not_not.mpr rfl)

end Validation

/-- A batch that `handle_produce_batch` has accepted re-encodes to the bytes it
decompressed to, and is appended unless a file operation fails. -/
theorem accepted_batch_appends (Z : Zstd) (config : ServerConfig) (version negotiatedCodecs : ℕ)
    (payload : Bytes) (request : ProduceBatchRequest) (records : List AppendRecord)
    (haccept : acceptProduceBatch Z config version negotiatedCodecs payload =
      .ok (request, records)) (log : PartitionLog)
    (hlimit : log.options.maxUncompressedBatchBytes = config.maxUncompressedBatchBytes.toNat)
    (timestamp : UInt64) (fault : Option AppendFault) :
    decompress Z request.codec request.encodedRecords request.uncompressedBytes
        config.maxUncompressedBatchBytes.toNat = .ok (encodeRecordSet (batchRecords records)) ∧
      (encodeRecordSet (batchRecords records)).length = request.uncompressedBytes ∧
      (UInt32.ofNat request.uncompressedBytes).toNat = request.uncompressedBytes ∧
      match fault, (appendEncodedBatch Z log request.codec request.encodedRecords
        (UInt32.ofNat request.uncompressedBytes) records timestamp fault).2 with
      | none, .ok metadata => metadata.recordCount = request.recordCount
      | none, .error _ => False
      | some fault, result => result = .error fault.message := by
  obtain ⟨-, hlength, hcount, hsize, hraw⟩ := encodeRecordSet_of_accept haccept
  have hfield : request.uncompressedBytes < 2 ^ 32 :=
    (decompress_le hraw).trans_lt config.maxUncompressedBatchBytes.toNat_lt
  have hbytes : (UInt32.ofNat request.uncompressedBytes).toNat = request.uncompressedBytes :=
    UInt32.toNat_ofNat_of_lt' hfield
  refine ⟨hraw, hsize, hbytes, ?_⟩
  rw [appendEncodedBatch, validateEncodedBatch_of_accept haccept hlimit hbytes]
  cases fault with
  | none =>
      change records.length % 2 ^ 32 = request.recordCount
      rw [Nat.mod_eq_of_lt hcount, hlength]
  | some fault => rfl

/-- Two records, the second without a key. -/
def keyedAndKeyless : List AppendRecord := [⟨[97], [98]⟩, ⟨[], [99, 100]⟩]

/-- A request for a compressed batch. -/
def zstdBatchRequest : ProduceBatchRequest :=
  ⟨[116], 0, .zstd, 2, 24,
    [40, 181, 47, 253, 32, 24, 193, 0, 0] ++ encodeRecordSet (batchRecords keyedAndKeyless)⟩

/-- With another record count it is not accepted. -/
example : (acceptProduceBatch rawBlockZstd (smallFrames 1048576 (by decide)) 5 3
    (encodeProduceBatchRequest { zstdBatchRequest with recordCount := 3 })).isOk = false := by
  decide +kernel

theorem accepted_batch_appends_compressed :
    ∃ metadata, (appendEncodedBatch rawBlockZstd
      (emptyLog ((smallFrames 1048576 (by decide)).logOptions [116] 0)) .zstd
      zstdBatchRequest.encodedRecords 24 keyedAndKeyless 7 none).2 = .ok metadata ∧
        metadata.recordCount = 2 := by
  have haccept : acceptProduceBatch rawBlockZstd (smallFrames 1048576 (by decide)) 5 3
      (encodeProduceBatchRequest zstdBatchRequest) = .ok (zstdBatchRequest, keyedAndKeyless) := by
    decide +kernel
  have happends := (accepted_batch_appends rawBlockZstd (smallFrames 1048576 (by decide)) 5 3 _ _ _
    haccept (emptyLog ((smallFrames 1048576 (by decide)).logOptions [116] 0)) rfl 7
    none).2.2.2
  change (match none, (appendEncodedBatch rawBlockZstd
      (emptyLog ((smallFrames 1048576 (by decide)).logOptions [116] 0)) .zstd
      zstdBatchRequest.encodedRecords 24 keyedAndKeyless 7 none).2 with
      | none, .ok metadata => metadata.recordCount = 2
      | none, .error _ => False
      | some (fault : AppendFault), result => result = .error fault.message) at happends
  cases hresult : (appendEncodedBatch rawBlockZstd
      (emptyLog ((smallFrames 1048576 (by decide)).logOptions [116] 0)) .zstd
      zstdBatchRequest.encodedRecords 24 keyedAndKeyless 7 none).2 with
  | error message =>
      rw [hresult] at happends
      exact happends.elim
  | ok metadata =>
      rw [hresult] at happends
      exact ⟨metadata, rfl, happends⟩

end BoltStream.Broker
