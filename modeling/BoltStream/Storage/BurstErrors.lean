import BoltStream.Protocol.Frames
import BoltStream.Protocol.StandardCrc
import BoltStream.Storage.PartitionLog
import BoltStream.Storage.Recovery

/-!
# Short bursts

Every byte string that differs from another in at most four consecutive bytes has
another checksum.  A stored entry or a frame header that is damaged in this way, with
its checksum field as it was, is not accepted.
-/

namespace BoltStream.Storage

open BoltStream.Lib BoltStream.Protocol BoltStream.Compression

/-- The bytes are as many and not the same, and differ within four consecutive ones. -/
structure DiffersInBurst (bytes damaged : Bytes) : Prop where
  length : damaged.length = bytes.length
  ne : damaged ≠ bytes
  window : ∃ start, ∀ i, damaged[i]? ≠ bytes[i]? → start ≤ i ∧ i < start + 4

/-- The common front, the window and the common back. -/
theorem DiffersInBurst.split {bytes damaged : Bytes} (h : DiffersInBurst bytes damaged) :
    ∃ front back window window', bytes = front ++ (window ++ back) ∧
      damaged = front ++ (window' ++ back) ∧ window'.length = window.length ∧
        window.length ≤ 4 := by
  obtain ⟨start, hwindow⟩ := h.window
  have hparts : ∀ bytes : Bytes, bytes = bytes.take start ++ ((bytes.drop start).take 4 ++
      bytes.drop (start + 4)) := by
    intro bytes
    rw [← List.drop_drop, List.take_append_drop, List.take_append_drop]
  have hfront : damaged.take start = bytes.take start := by
    apply List.ext_getElem?
    intro i
    simp only [List.getElem?_take]
    split_ifs with hi
    · by_contra hne
      exact Nat.not_le.mpr hi (hwindow i hne).1
    · rfl
  have hback : damaged.drop (start + 4) = bytes.drop (start + 4) := by
    apply List.ext_getElem?
    intro i
    simp only [List.getElem?_drop]
    by_contra hne
    exact Nat.not_lt.mpr (Nat.le_add_right (start + 4) i) (hwindow _ hne).2
  refine ⟨bytes.take start, bytes.drop (start + 4), (bytes.drop start).take 4,
    (damaged.drop start).take 4, hparts bytes, ?_, ?_, List.length_take_le _ _⟩
  · rw [← hfront, ← hback]
    exact hparts damaged
  · rw [List.length_take, List.length_take, List.length_drop, List.length_drop, h.length]

theorem DiffersInBurst.of_split (front back : Bytes) {window window' : Bytes}
    (hlength : window'.length = window.length) (hshort : window.length ≤ 4)
    (hne : window' ≠ window) :
    DiffersInBurst (front ++ (window ++ back)) (front ++ (window' ++ back)) := by
  refine ⟨?_, fun hsame ↦ ?_, front.length, fun i hi ↦ ?_⟩
  · simp only [List.length_append, hlength]
  · exact hne (List.append_cancel_right (List.append_cancel_left hsame))
  · by_contra hout
    apply hi
    rcases Nat.lt_or_ge i front.length with hfront | hfront
    · rw [List.getElem?_append_left hfront, List.getElem?_append_left hfront]
    · have hback : window.length ≤ i - front.length := by omega
      rw [List.getElem?_append_right hfront, List.getElem?_append_right hfront,
        List.getElem?_append_right hback, List.getElem?_append_right (hlength ▸ hback), hlength]

/-- The checksum detects a burst. -/
theorem crc32_ne_of_burst {bytes damaged : Bytes} (h : DiffersInBurst bytes damaged) :
    crc32 damaged ≠ crc32 bytes := by
  intro hcrc
  obtain ⟨front, back, window, window', rfl, rfl, hlength, hshort⟩ := h.split
  have hregister := BitVec.not_inj.mp (BitVec.eq_of_toNat_eq hcrc)
  rw [foldl_crcByte, foldl_crcByte] at hregister
  simp only [List.map_append] at hregister
  have hbits := foldl_burst (by decide) (by decide) (by simpa using hlength)
    (by simp only [List.length_map]; omega) hregister
  have hsame : window' = window := by
    refine List.map_injective_iff.mpr (fun byte byte' hbyte ↦ ?_) hbits
    exact UInt8.toBitVec_inj.mp hbyte
  exact h.ne (by rw [hsame])

/-! ## What is not accepted -/

section Damaged

variable {body damaged : Bytes} (h : DiffersInBurst body damaged)

include h

/-- The checksum field does not belong to the damaged body. -/
theorem damaged_crc (rest : Bytes) :
    readU32Be (damaged ++ (writeU32 (crc32 body) ++ rest)) damaged.length ≠ crc32 damaged := by
  rw [readU32Be_skip _ le_rfl, Nat.sub_self, readU32Be_front, Nat.mod_eq_of_lt (crc32_lt body)]
  exact (crc32_ne_of_burst h).symm

theorem damaged_record (topic : Bytes) (partition recordBytes : ℕ) :
    ∃ message, decodeRecord topic partition recordBytes (damaged ++ writeU32 (crc32 body)) =
      .error message := by
  rw [decodeRecord]
  by_cases hlength : recordBytes ≠ (damaged ++ writeU32 (crc32 body)).length ∨
      recordBytes < kMinimumRecordBytes
  · exact ⟨_, if_pos hlength⟩
  rw [if_neg hlength]
  rw [not_or, not_not, List.length_append, length_writeU32] at hlength
  have hbody : recordBytes - 4 = damaged.length := by omega
  have hfield := damaged_crc h []
  rw [List.append_nil] at hfield
  rw [hbody, List.take_left, if_pos hfield]
  exact ⟨_, rfl⟩

theorem damaged_batch (Z : Zstd) (topic : Bytes) (partition batchBytes maximum : ℕ) :
    ∃ message, decodeBatch Z topic partition batchBytes (damaged ++ writeU32 (crc32 body))
      maximum = .error message := by
  rw [decodeBatch]
  by_cases hlength : batchBytes ≠ (damaged ++ writeU32 (crc32 body)).length ∨
      batchBytes < kFixedBatchBodyBytes + 4
  · exact ⟨_, if_pos hlength⟩
  rw [if_neg hlength]
  rw [not_or, not_not, List.length_append, length_writeU32] at hlength
  have hbody : batchBytes - 4 = damaged.length := by omega
  have hfield := damaged_crc h []
  rw [List.append_nil] at hfield
  rw [hbody, List.take_left, if_pos hfield.symm]
  exact ⟨_, rfl⟩

theorem damaged_header (hfields : body.length = kHeaderCrcOffset) (rest : Bytes)
    (maxFrameBytes : ℕ) :
    (decodeHeader (damaged ++ (writeU32 (crc32 body) ++ rest)) maxFrameBytes).error ≠ none := by
  have hlength : damaged.length = kHeaderCrcOffset := h.length.trans hfields
  have hfield := damaged_crc h rest
  rw [decodeHeader]
  split_ifs with hshort
  · exact Option.some_ne_none _
  dsimp only
  rw [headerError]
  split_ifs with hmagic hversion hheader hpayload hflags hcrc
  all_goals try exact Option.some_ne_none _
  rw [not_not] at hcrc
  rw [← hlength, List.take_left] at hcrc
  rw [hlength] at hfield
  exact (hfield hcrc.symm).elim

end Damaged

/-- A burst of at most four bytes changes the checksum, and no record, batch or frame
header that is damaged by one under its checksum is accepted. -/
theorem burst_detected (Z : Zstd) {body damaged : Bytes} (h : DiffersInBurst body damaged) :
    crc32 damaged ≠ crc32 body ∧
      (∀ topic partition recordBytes, ∃ message,
        decodeRecord topic partition recordBytes (damaged ++ writeU32 (crc32 body)) =
          .error message) ∧
      (∀ topic partition batchBytes maximum, ∃ message,
        decodeBatch Z topic partition batchBytes (damaged ++ writeU32 (crc32 body)) maximum =
          .error message) ∧
      (body.length = kHeaderCrcOffset → ∀ rest maxFrameBytes,
        (decodeHeader (damaged ++ (writeU32 (crc32 body) ++ rest)) maxFrameBytes).error ≠
          none) :=
  ⟨crc32_ne_of_burst h, damaged_record h, damaged_batch h Z, damaged_header h⟩

/-- The value of a stored record is damaged. -/
theorem burst_detected_value :
    crc32 (recordBody 0 7 [97] [99]) ≠ crc32 (recordBody 0 7 [97] [98]) ∧
      ∃ message, decodeRecord [116] 0 38 (recordBody 0 7 [97] [99] ++
        writeU32 (crc32 (recordBody 0 7 [97] [98]))) = .error message := by
  have hburst : DiffersInBurst (recordBody 0 7 [97] [98]) (recordBody 0 7 [97] [99]) := by
    exact @DiffersInBurst.of_split ((recordBody 0 7 [97] [98]).take 33) [] [98] [99] rfl
      (by decide) (by decide)
  have hdetected := burst_detected noZstd hburst
  exact ⟨hdetected.1, hdetected.2.1 [116] 0 38⟩

end BoltStream.Storage
