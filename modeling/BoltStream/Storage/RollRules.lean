import BoltStream.Storage.Oversized

/-!
# Rolling segments

Both append paths decide whether the active segment takes the new entry.  One of
them looks at its size and at its age, the other at its size alone.
-/

namespace BoltStream.Storage

open BoltStream.Lib BoltStream.Protocol BoltStream.Compression

namespace PartitionLog

/-- The size of the active segment log. -/
def activeSize (log : PartitionLog) : ℕ := log.dir.logs.sizeOrZero log.activeSegmentBase

/-- The active segment has an age bound and has reached it. -/
def AgeDue (log : PartitionLog) (age : AgeReading) : Prop :=
  0 < log.options.segmentMaxAgeSeconds ∧
    log.options.segmentMaxAgeSeconds ≤ fileAgeSecondsOrZero age

/-- Segments roll by size and by the age of the active segment. -/
def RollDue (log : PartitionLog) (age : AgeReading) (entryBytes : ℕ) : Prop :=
  0 < log.activeSize ∧
    (log.options.maxSegmentBytes < log.activeSize + entryBytes ∨ log.AgeDue age)

/-- An entry went to a position of a segment. -/
structure Placed (log log' : PartitionLog) (encoded : Bytes) (segment position : ℕ) : Prop where
  logs : log'.dir.logs = log.dir.logs.append segment encoded
  index : ∃ added, log'.index = log.index ++ added ∧ added ≠ [] ∧
    ∀ entry ∈ added, entry.segment = segment ∧ entry.filePosition = position

/-- An entry went to the start of a new segment when a roll was due, and otherwise to the
end of the active one. -/
def PlacedByRule (log log' : PartitionLog) (age : AgeReading) (encoded : Bytes) : Prop :=
  (log.RollDue age encoded.length → Placed log log' encoded log.nextOffset 0) ∧
    (¬ log.RollDue age encoded.length →
      Placed log log' encoded log.activeSegmentBase log.activeSize)

theorem Placed.position_unique {log log' : PartitionLog} {encoded : Bytes}
    {segment segment' position position' : ℕ} (h : Placed log log' encoded segment position)
    (h' : Placed log log' encoded segment' position') : position = position' := by
  obtain ⟨added, hindex, hne, hadded⟩ := h.index
  obtain ⟨added', hindex', -, hadded'⟩ := h'.index
  obtain rfl := List.append_cancel_left (hindex.symm.trans hindex')
  obtain ⟨entry, hentry⟩ := List.exists_mem_of_ne_nil added hne
  exact (hadded entry hentry).2.symm.trans (hadded' entry hentry).2

/-! ## The two paths -/

/-- The only record of a batch goes where the rule says. -/
theorem stageBatch_single {log : PartitionLog} {clock : AppendClock} {record : AppendRecord}
    {encoded : Bytes} (hnext : log.nextOffset < 2 ^ 64)
    (hencode : encodeRecord log.nextOffset (clock.timestamp 0).toNat record.key record.value =
      .ok encoded) :
    ∃ staged : StagedRecord, log.stageBatch clock [record] = ⟨[staged], none⟩ ∧
      staged.encoded = encoded ∧
      (log.RollDue (clock.age 0) encoded.length →
        staged.entry.segment = log.nextOffset ∧ staged.entry.filePosition = 0) ∧
      (¬ log.RollDue (clock.age 0) encoded.length →
        staged.entry.segment = log.activeSegmentBase ∧
          staged.entry.filePosition = log.activeSize) := by
  have hroll : (decide (log.activeSize > 0 ∧
        log.activeSize + encoded.length > log.options.maxSegmentBytes) ||
      decide (log.options.segmentMaxAgeSeconds > 0 ∧ log.activeSize > 0 ∧
        fileAgeSecondsOrZero (clock.age 0) ≥ log.options.segmentMaxAgeSeconds)) = true ↔
      log.RollDue (clock.age 0) encoded.length := by
    rw [Bool.or_eq_true, decide_eq_true_eq, decide_eq_true_eq, RollDue, AgeDue]
    grind
  rw [stageBatch, stageRecords, Nat.add_zero, Nat.mod_eq_of_lt hnext, hencode, ← hroll]
  refine ⟨_, rfl, rfl, fun hdue ↦ ?_, fun hdue ↦ ?_⟩
  · exact ⟨if_pos hdue, if_pos hdue⟩
  · exact ⟨if_neg hdue, if_neg hdue⟩

theorem appendBatch_placed {log log' : PartitionLog} {clock : AppendClock}
    {record : AppendRecord} {metas : List RecordMetadata} (hnext : log.nextOffset < 2 ^ 64)
    (h : log.appendBatch clock none [record] = (log', .ok metas)) :
    ∃ encoded, encodeRecord log.nextOffset (clock.timestamp 0).toNat record.key record.value =
      .ok encoded ∧ PlacedByRule log log' (clock.age 0) encoded := by
  rw [appendBatch, if_neg (List.cons_ne_nil _ _)] at h
  cases hencode : encodeRecord log.nextOffset (clock.timestamp 0).toNat record.key
      record.value with
  | error message =>
      rw [stageBatch, stageRecords, Nat.add_zero, Nat.mod_eq_of_lt hnext, hencode] at h
      cases (Prod.mk.inj h).2
  | ok encoded =>
      obtain ⟨staged, hstaged, rfl, hdue, hkept⟩ := stageBatch_single hnext hencode
      rw [hstaged] at h
      obtain ⟨hlog, -⟩ := Prod.mk.inj h
      have hplaced : ∀ segment position,
          staged.entry.segment = segment ∧ staged.entry.filePosition = position →
          Placed log log' staged.encoded segment position := by
        rintro _ _ ⟨rfl, rfl⟩
        rw [← hlog]
        refine ⟨rfl, _, rfl, List.cons_ne_nil _ _, fun entry hentry ↦ ?_⟩
        obtain rfl := List.mem_singleton.mp hentry
        exact ⟨rfl, rfl⟩
      exact ⟨_, rfl, fun h ↦ hplaced _ _ (hdue h), fun h ↦ hplaced _ _ (hkept h)⟩

section Encoded

variable {Z : Zstd} {log log' : PartitionLog} {codec : Codec} {encodedRecords : Bytes}
  {uncompressedBytes : UInt32} {decodedRecords : List AppendRecord} {timestamp : UInt64}
  {metadata : BatchMetadata}

/-- The entry of an encoded batch. -/
def encodedEntry (log : PartitionLog) (codec : Codec) (encodedRecords : Bytes)
    (uncompressedBytes : UInt32) (decodedRecords : List AppendRecord) (timestamp : UInt64) :
    Bytes :=
  encodeBatch log.nextOffset timestamp.toNat codec (decodedRecords.length % 2 ^ 32)
    uncompressedBytes.toNat encodedRecords

/-- An encoded batch rolls by size only. -/
theorem appendEncodedBatch_placed
    (h : appendEncodedBatch Z log codec encodedRecords uncompressedBytes decodedRecords timestamp
      none = (log', .ok metadata)) :
    let encoded := log.encodedEntry codec encodedRecords uncompressedBytes decodedRecords timestamp
    if 0 < log.activeSize ∧ log.options.maxSegmentBytes < log.activeSize + encoded.length then
      Placed log log' encoded log.nextOffset 0
    else Placed log log' encoded log.activeSegmentBase log.activeSize := by
  intro encoded
  obtain ⟨-, hlogs, hindex, -⟩ := appendEncodedBatch_parts h
  obtain ⟨hne, -⟩ := validateEncodedBatch_ok (LogState.validate_of_appendEncodedBatch h)
  have hplaced : ∀ segment position, log.stageEncodedBatch codec encodedRecords uncompressedBytes
      decodedRecords.length timestamp = ⟨segment, position, encoded⟩ →
      Placed log log' encoded segment position := by
    intro segment position hstaged
    rw [hstaged] at hlogs hindex
    refine ⟨hlogs, _, hindex, ?_, fun entry hentry ↦ ?_⟩
    · rw [StagedEncodedBatch.entries, batchEntries, Ne, List.map_eq_nil_iff, List.range_eq_nil,
        List.length_eq_zero_iff]
      exact hne
    · obtain ⟨i, -, rfl⟩ := List.mem_map.mp hentry
      exact ⟨rfl, rfl⟩
  split_ifs with hdue
  · exact hplaced _ _ (if_pos hdue)
  · exact hplaced _ _ (if_neg hdue)

/-- Both paths place their entry by the same rule exactly when the batch does not stay in
an active segment that is too old. -/
theorem rolls_alike_iff (Z : Zstd) (log single batched : PartitionLog)
    (hnext : log.nextOffset < 2 ^ 64) (clock : AppendClock) (record : AppendRecord)
    (metas : List RecordMetadata)
    (hsingle : log.appendBatch clock none [record] = (single, .ok metas)) (codec : Codec)
    (encodedRecords : Bytes) (uncompressedBytes : UInt32) (decodedRecords : List AppendRecord)
    (timestamp : UInt64) (metadata : BatchMetadata)
    (hbatched : appendEncodedBatch Z log codec encodedRecords uncompressedBytes decodedRecords
      timestamp none = (batched, .ok metadata)) :
    ((∃ encoded, encodeRecord log.nextOffset (clock.timestamp 0).toNat record.key record.value =
        .ok encoded ∧ PlacedByRule log single (clock.age 0) encoded) ∧
      PlacedByRule log batched (clock.age 0)
        (log.encodedEntry codec encodedRecords uncompressedBytes decodedRecords timestamp)) ↔
      ¬ (0 < log.activeSize ∧ log.AgeDue (clock.age 0) ∧
        log.activeSize + (log.encodedEntry codec encodedRecords uncompressedBytes decodedRecords
          timestamp).length ≤ log.options.maxSegmentBytes) := by
  have hplaced := appendEncodedBatch_placed hbatched
  set encoded := log.encodedEntry codec encodedRecords uncompressedBytes decodedRecords timestamp
  dsimp only at hplaced
  rw [and_iff_right (appendBatch_placed hnext hsingle)]
  constructor
  · rintro hrule ⟨hactive, hage, hroom⟩
    rw [if_neg (by omega)] at hplaced
    have hrolled := hrule.1 ⟨hactive, Or.inr hage⟩
    have hposition := hrolled.position_unique hplaced
    omega
  · intro hnot
    constructor
    · rintro ⟨hactive, hdue⟩
      rwa [if_pos ⟨hactive, by grind⟩] at hplaced
    · intro hkept
      rwa [if_neg fun hdue ↦ hkept ⟨hdue.1, Or.inl hdue.2⟩] at hplaced

end Encoded

end PartitionLog

/-! ## An old segment -/

/-- Segments of a thousand bytes that are closed after ten seconds. -/
def agingSegments : PartitionLogOptions :=
  { smallSegments with maxSegmentBytes := 1000, segmentMaxAgeSeconds := 10 }

/-- The active segment was last written so many seconds ago. -/
def clockAfter (seconds : ℕ) : AppendClock :=
  { timestamp := fun _ ↦ 7, age := fun _ ↦ ⟨some 0, seconds * 10 ^ 9⟩ }

/-- A log of one record. -/
def agingLog : PartitionLog :=
  ((PartitionLog.emptyLog agingSegments).appendBatch stillClock none [⟨[], [118]⟩]).1

/-- The log after an encoded batch of one record. -/
def agingLogBatched : PartitionLog × Except String BatchMetadata :=
  PartitionLog.appendEncodedBatch noZstd agingLog .none (encodeRecordSet [⟨[], [118]⟩]) 13
    [⟨[], [118]⟩] 7 none

/-- A segment of five seconds is continued by both. -/
theorem rolls_alike_young :
    ∃ single batched metas metadata,
      agingLog.appendBatch (clockAfter 5) none [⟨[], [118]⟩] = (single, .ok metas) ∧
      agingLogBatched = (batched, .ok metadata) ∧
      agingLog.PlacedByRule batched ((clockAfter 5).age 0) (agingLog.encodedEntry .none
        (encodeRecordSet [⟨[], [118]⟩]) 13 [⟨[], [118]⟩] 7) := by
  have hsingle : (agingLog.appendBatch (clockAfter 5) none [⟨[], [118]⟩]).2.isOk = true := by
    decide
  have hbatched : agingLogBatched.2.isOk = true := by decide
  cases hfirst : agingLog.appendBatch (clockAfter 5) none [⟨[], [118]⟩] with
  | mk single result =>
      cases hsecond : agingLogBatched with
      | mk batched result' =>
          rw [hfirst] at hsingle
          rw [hsecond] at hbatched
          cases result with
          | error message => cases hsingle
          | ok metas =>
              cases result' with
              | error message => cases hbatched
              | ok metadata =>
                  refine ⟨single, batched, metas, metadata, rfl, rfl, ?_⟩
                  exact ((PartitionLog.rolls_alike_iff noZstd agingLog single batched
                    (by decide) (clockAfter 5) _ metas hfirst .none
                    (encodeRecordSet [⟨[], [118]⟩]) 13 [⟨[], [118]⟩] 7 metadata hsecond).mpr
                    (fun h ↦ absurd h.2.1.2 (by decide))).2

/-- A segment of twenty seconds is closed by a record and continued by a batch. -/
theorem batch_keeps_old_segment :
    agingLog.RollDue ((clockAfter 20).age 0) (agingLog.encodedEntry .none
        (encodeRecordSet [⟨[], [118]⟩]) 13 [⟨[], [118]⟩] 7).length ∧
      (agingLog.appendBatch (clockAfter 20) none [⟨[], [118]⟩]).1.dir.logs.map Prod.fst =
        [0, 1] ∧
      agingLogBatched.2.isOk = true ∧ agingLogBatched.1.dir.logs.map Prod.fst = [0] := by
  refine ⟨⟨by decide, Or.inr ⟨by decide, by decide⟩⟩, by decide,
    by decide, by decide⟩

end BoltStream.Storage
