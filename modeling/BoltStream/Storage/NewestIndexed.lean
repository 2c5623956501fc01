import BoltStream.Storage.Recovery
import BoltStream.Storage.Retaining

/-!
# The newest record is indexed

The last index entry stands for the record before the next offset, whatever the
other entries are.  A read from a position that is not behind all records
therefore finds one, or fails.
-/

namespace BoltStream.Storage

open BoltStream.Lib BoltStream.Protocol BoltStream.Compression

namespace PartitionLog

/-- The last index entry reaches the next offset. -/
structure NewestIndexed (log : PartitionLog) : Prop where
  next : log.nextOffset < 2 ^ 64
  newest : ∀ entry, log.index.getLast? = some entry →
    log.nextOffset ≤ entry.offset + 1 ∧ entry.segment < 2 ^ 64

variable {Z : Zstd} {log log' : PartitionLog}

theorem NewestIndexed.active (h : log.NewestIndexed) : log.activeSegmentBase < 2 ^ 64 := by
  cases hlast : log.index.getLast? with
  | none =>
      rw [activeSegmentBase_of_nil (List.getLast?_eq_none_iff.mp hlast)]
      exact Nat.two_pow_pos 64
  | some entry =>
      have hsegment := (h.newest entry hlast).2
      rw [activeSegmentBase_of_last hlast hsegment]
      exact hsegment

/-! ## Reading -/

/-- The loop returns nothing only when all entries are below the offset. -/
theorem offset_lt_of_readLoop {offset maxRecords maxBytes : ℕ} (hmax : 0 < maxRecords)
    {entries : List IndexEntry} {bytes : ℕ}
    (h : readLoop Z log offset maxRecords maxBytes entries 0 bytes = .ok []) :
    ∀ entry ∈ entries, entry.offset < offset := by
  induction entries with
  | nil => exact fun entry hentry ↦ absurd hentry List.not_mem_nil
  | cons first rest ih =>
      rw [readLoop] at h
      split_ifs at h with hbelow hfull hbytes
      · intro entry hentry
        rcases List.mem_cons.mp hentry with rfl | hentry
        · exact hbelow
        · exact ih h entry hentry
      · omega
      · exact absurd rfl hbytes.2.1
      · cases hread : log.readEntry Z first with
        | error message =>
            rw [hread, error_bind] at h
            cases h
        | ok record =>
            rw [hread, ok_bind] at h
            cases hloop : readLoop Z log offset maxRecords maxBytes rest (0 + 1)
                (bytes + (record.2 + 4)) with
            | error message =>
                rw [hloop] at h
                cases h
            | ok records =>
                rw [hloop] at h
                cases h

/-- A position with nothing to read behind it is the next offset. -/
theorem NewestIndexed.le_of_readFrom (h : log.NewestIndexed) {offset maxRecords maxBytes : ℕ}
    (hmax : 0 < maxRecords) (hearliest : log.earliestOffset ≤ offset)
    (hread : log.readFrom Z offset maxRecords maxBytes = .ok []) : log.nextOffset ≤ offset := by
  have hbelow := offset_lt_of_readLoop hmax hread
  cases hlast : log.index.getLast? with
  | none =>
      rw [earliestOffset, List.getLast?_eq_none_iff.mp hlast] at hearliest
      exact hearliest
  | some entry =>
      have hoffset := hbelow entry (List.mem_of_getLast? hlast)
      have hnext := (h.newest entry hlast).1
      omega

/-! ## Appending -/

/-- One turn of the loop, with the offset and the segment of the record it places. -/
theorem stageRecords_turn (options : PartitionLogOptions) (clock : AppendClock) (original : ℕ)
    {i base size : ℕ} (hbase : base < 2 ^ 64) {record : AppendRecord} {rest : List AppendRecord}
    (herror : (stageRecords options clock original i base size (record :: rest)).error = none) :
    ∃ base' size' staged, base' < 2 ^ 64 ∧ staged.entry.segment = base' ∧
      staged.entry.offset = (original + i) % 2 ^ 64 ∧
      staged.metadata.topic = options.topic ∧ staged.metadata.partition = options.partitionId ∧
      stageRecords options clock original i base size (record :: rest) =
        { stageRecords options clock original (i + 1) base' size' rest with
          records := staged ::
            (stageRecords options clock original (i + 1) base' size' rest).records } := by
  rw [stageRecords] at herror ⊢
  cases hencoded : encodeRecord ((original + i) % 2 ^ 64) (clock.timestamp i).toNat record.key
      record.value with
  | error message =>
      simp only [hencoded] at herror
      cases herror
  | ok encoded =>
      refine ⟨_, _, _, ?_, rfl, rfl, rfl, rfl, rfl⟩
      split_ifs
      · exact Nat.mod_lt _ (Nat.two_pow_pos 64)
      · exact hbase

/-- The last of the records placed has the last of the offsets. -/
theorem newest_stageRecords (options : PartitionLogOptions) (clock : AppendClock) (original : ℕ)
    {records : List AppendRecord} (hne : records ≠ []) :
    ∀ {i base size : ℕ}, base < 2 ^ 64 →
      (stageRecords options clock original i base size records).error = none →
      ∃ staged,
        (stageRecords options clock original i base size records).records.getLast? = some staged ∧
        staged.entry.offset = (original + (i + records.length - 1)) % 2 ^ 64 ∧
        staged.entry.segment < 2 ^ 64 := by
  induction records with
  | nil => exact absurd rfl hne
  | cons record rest ih =>
      intro i base size hbase herror
      obtain ⟨base', size', staged, hbase', hsegment, hoffset, -, -, hturn⟩ :=
        stageRecords_turn options clock original hbase herror
      rw [hturn] at herror ⊢
      by_cases hrest : rest = []
      · subst hrest
        exact ⟨staged, rfl, hoffset, hsegment ▸ hbase'⟩
      · obtain ⟨last, hlast, hlastOffset, hlastSegment⟩ := ih hrest hbase' herror
        refine ⟨last, ?_, ?_, hlastSegment⟩
        · rw [List.getLast?_cons, hlast]
          rfl
        · rw [hlastOffset, List.length_cons]
          congr 2
          omega

/-- `append_batch` leaves a log that indexes its newest record, and changes the
next offset only when it succeeds. -/
theorem NewestIndexed.appendBatch (h : log.NewestIndexed) {clock : AppendClock}
    {fault : Option AppendFault} {records : List AppendRecord}
    {result : Except String (List RecordMetadata)}
    (happend : log.appendBatch clock fault records = (log', result)) :
    log'.NewestIndexed ∧ log'.options = log.options ∧
      ((∃ message, result = .error message) → log'.nextOffset = log.nextOffset) := by
  rw [PartitionLog.appendBatch] at happend
  split_ifs at happend with hnil
  · obtain ⟨rfl, rfl⟩ := Prod.mk.inj happend
    exact ⟨h, rfl, fun _ ↦ rfl⟩
  · cases fault with
    | some fault =>
        obtain ⟨rfl, -⟩ := Prod.mk.inj happend
        exact ⟨⟨h.next, h.newest⟩, rfl, fun _ ↦ rfl⟩
    | none =>
        cases herror : (log.stageBatch clock records).error with
        | some message =>
            simp only [herror] at happend
            obtain ⟨rfl, -⟩ := Prod.mk.inj happend
            exact ⟨⟨h.next, h.newest⟩, rfl, fun _ ↦ rfl⟩
        | none =>
            simp only [herror] at happend
            obtain ⟨rfl, rfl⟩ := Prod.mk.inj happend
            refine ⟨⟨Nat.mod_lt _ (Nat.two_pow_pos 64), ?_⟩, rfl, fun herror ↦ ?_⟩
            · obtain ⟨staged, hlast, hoffset, hsegment⟩ :=
                newest_stageRecords log.options clock log.nextOffset hnil h.active herror
              intro entry hentry
              simp only [List.getLast?_append, List.getLast?_map] at hentry
              rw [PartitionLog.stageBatch, hlast] at hentry
              obtain rfl := Option.some.inj hentry
              refine ⟨?_, hsegment⟩
              have hlength := List.length_pos_iff.mpr hnil
              rw [hoffset]
              dsimp only
              omega
            · obtain ⟨message, herror⟩ := herror
              cases herror

/-- The first record acknowledged carries the names of its partition. -/
theorem NewestIndexed.head_appendBatch (h : log.NewestIndexed) {clock : AppendClock}
    {fault : Option AppendFault} {record : AppendRecord} {records : List AppendRecord}
    {metas : List RecordMetadata}
    (happend : log.appendBatch clock fault (record :: records) = (log', .ok metas)) :
    ∃ first rest, metas = first :: rest ∧ first.topic = log.options.topic ∧
      first.partition = log.options.partitionId := by
  rw [PartitionLog.appendBatch, if_neg (List.cons_ne_nil record records)] at happend
  cases fault with
  | some fault => cases (Prod.mk.inj happend).2
  | none =>
      cases herror : (log.stageBatch clock (record :: records)).error with
      | some message =>
          simp only [herror] at happend
          cases (Prod.mk.inj happend).2
      | none =>
          simp only [herror] at happend
          obtain ⟨-, hmetas⟩ := Prod.mk.inj happend
          obtain ⟨base', size', staged, -, -, -, htopic, hpartition, hturn⟩ :=
            stageRecords_turn log.options clock log.nextOffset h.active herror
          rw [PartitionLog.stageBatch, hturn] at hmetas
          exact ⟨_, _, (Except.ok.inj hmetas).symm, htopic, hpartition⟩

theorem NewestIndexed.appendEncodedBatch (h : log.NewestIndexed) {codec : Codec}
    {encodedRecords : Bytes} {uncompressedBytes : UInt32} {decodedRecords : List AppendRecord}
    {timestamp : UInt64} {fault : Option AppendFault} {result : Except String BatchMetadata}
    (happend : PartitionLog.appendEncodedBatch Z log codec encodedRecords uncompressedBytes
      decodedRecords timestamp fault = (log', result)) :
    log'.NewestIndexed ∧ log'.options = log.options ∧
      ((∃ message, result = .error message) → log'.nextOffset = log.nextOffset) := by
  rw [PartitionLog.appendEncodedBatch] at happend
  cases hvalid : validateEncodedBatch Z log.options codec encodedRecords uncompressedBytes
      decodedRecords with
  | error message =>
      simp only [hvalid] at happend
      obtain ⟨rfl, -⟩ := Prod.mk.inj happend
      exact ⟨h, rfl, fun _ ↦ rfl⟩
  | ok =>
      simp only [hvalid] at happend
      cases fault with
      | some fault =>
          obtain ⟨rfl, -⟩ := Prod.mk.inj happend
          exact ⟨⟨h.next, h.newest⟩, rfl, fun _ ↦ rfl⟩
      | none =>
          obtain ⟨rfl, rfl⟩ := Prod.mk.inj happend
          refine ⟨⟨Nat.mod_lt _ (Nat.two_pow_pos 64), ?_⟩, rfl, fun herror ↦ ?_⟩
          · have hcount : 0 < decodedRecords.length := by
              rw [validateEncodedBatch] at hvalid
              split_ifs at hvalid with hinvalid
              rw [not_or] at hinvalid
              exact List.length_pos_iff.mpr hinvalid.1
            have hsegment : (log.stageEncodedBatch codec encodedRecords uncompressedBytes
                decodedRecords.length timestamp).segment < 2 ^ 64 := by
              rw [stageEncodedBatch]
              split_ifs
              · exact h.next
              · exact h.active
            obtain ⟨count, hcount⟩ := Nat.exists_eq_succ_of_ne_zero hcount.ne'
            intro entry hentry
            rw [hcount] at hentry hsegment
            simp only [StagedEncodedBatch.entries, batchEntries, List.range_succ, List.map_append,
              List.map_singleton, ← List.append_assoc, List.getLast?_concat] at hentry
            obtain rfl := Option.some.inj hentry
            refine ⟨?_, hsegment⟩
            dsimp only
            omega
          · obtain ⟨message, herror⟩ := herror
            cases herror

/-! ## Retention -/

/-- Retention keeps the active segment, and so the newest record. -/
theorem NewestIndexed.applyRetention (h : log.NewestIndexed) {env : RetentionEnv}
    {policy : RetentionPolicy} {result : Except String RetentionStats}
    (happly : log.applyRetention env policy = (log', result)) :
    log'.NewestIndexed ∧ log'.options = log.options ∧ log'.nextOffset = log.nextOffset := by
  rw [PartitionLog.applyRetention] at happly
  obtain ⟨gone, hgone, -, hdeleted⟩ := retentionLoop_removes env policy
    log.segmentSummaries (RetentionState.initial log)
  have hactive := active_not_mem_gone hgone
  cases hwalk : retentionLoop env policy log.segmentSummaries (RetentionState.initial log) with
  | mk walk outcome =>
    rw [hwalk] at hdeleted
    cases outcome with
    | error message =>
        simp only [hwalk] at happly
        obtain ⟨rfl, -⟩ := Prod.mk.inj happly
        exact ⟨⟨h.next, h.newest⟩, rfl, rfl⟩
    | ok =>
        simp only [hwalk] at happly
        obtain ⟨rfl, -⟩ := Prod.mk.inj happly
        obtain rfl : walk.deletedLogs = gone := hdeleted rfl
        refine ⟨⟨h.next, fun entry hentry ↦ ?_⟩, rfl, rfl⟩
        rcases List.eq_nil_or_concat log.index with hnil | ⟨front, last, hlast⟩
        · simp only [hnil, List.filter_nil] at hentry
          cases hentry
        · rw [List.concat_eq_append] at hlast
          have hnewest := h.newest last (by rw [hlast, List.getLast?_concat])
          rw [activeSegmentBase_of_last (by rw [hlast, List.getLast?_concat]) hnewest.2]
            at hactive
          simp only [hlast, List.filter_append] at hentry
          rw [List.filter_cons_of_pos (by simpa using hactive), List.filter_nil,
            List.getLast?_concat] at hentry
          obtain rfl := Option.some.inj hentry
          exact hnewest

/-! ## Opening -/

/-- Some entry reaches the next offset, and the segments have proper names. -/
structure Reaches (entries : List IndexEntry) (nextOffset : ℕ) : Prop where
  next : nextOffset < 2 ^ 64
  newest : nextOffset = 0 ∨ ∃ entry ∈ entries, nextOffset ≤ entry.offset + 1
  segments : ∀ entry ∈ entries, entry.segment < 2 ^ 64

theorem Reaches.append {entries more : List IndexEntry} {nextOffset stop : ℕ}
    (h : Reaches entries nextOffset) (hstop : stop < 2 ^ 64)
    (hnewest : ∃ entry ∈ more, stop ≤ entry.offset + 1)
    (hsegments : ∀ entry ∈ more, entry.segment < 2 ^ 64) :
    Reaches (entries ++ more) (max nextOffset stop) := by
  obtain ⟨entry, hentry, hle⟩ := hnewest
  refine ⟨max_lt h.next hstop, ?_, fun other hother ↦ ?_⟩
  · rcases le_total nextOffset stop with hcase | hcase
    · rw [max_eq_right hcase]
      exact Or.inr ⟨entry, List.mem_append_right _ hentry, hle⟩
    · rw [max_eq_left hcase]
      exact h.newest.imp id fun ⟨older, holder, hreach⟩ ↦
        ⟨older, List.mem_append_left _ holder, hreach⟩
  · exact (List.mem_append.mp hother).elim (h.segments other) (hsegments other)

theorem recordCount_of_decodeBatch {topic bodyAndCrc : Bytes} {partition batchBytes limit : ℕ}
    {batch : DecodedBatch}
    (h : decodeBatch Z topic partition batchBytes bodyAndCrc limit = .ok batch) :
    batch.metadata.recordCount ≠ 0 ∧ batch.metadata.nextOffset =
      (batch.metadata.baseOffset + batch.metadata.recordCount) % 2 ^ 64 := by
  rw [decodeBatch] at h
  split_ifs at h with hlength hcrc hheader
  dsimp only at h
  split_ifs at h with hfields
  simp only [not_or] at hfields
  generalize hraw : decompress Z _ _ _ limit = raw at h
  cases raw with
  | error message =>
      rw [error_bind] at h
      cases h
  | ok raw =>
      rw [ok_bind] at h
      generalize hset : decodeRecordSet raw _ = set at h
      cases set with
      | error message =>
          rw [error_bind] at h
          cases h
      | ok set =>
          rw [ok_bind] at h
          obtain rfl := Except.ok.inj h
          exact ⟨hfields.2.1, rfl⟩

theorem scanEntry_newest {options : PartitionLogOptions} {segment position recordBytes : ℕ}
    {bodyAndCrc : Bytes} {scanned : List IndexEntry × ℕ}
    (h : scanEntry Z options segment position recordBytes bodyAndCrc = .ok scanned) :
    scanned.2 < 2 ^ 64 ∧ (∃ entry ∈ scanned.1, scanned.2 ≤ entry.offset + 1) ∧
      ∀ entry ∈ scanned.1, entry.segment = segment := by
  rw [scanEntry] at h
  split_ifs at h with hbatch
  · cases hdecoded : decodeBatch Z options.topic options.partitionId recordBytes bodyAndCrc
        options.maxUncompressedBatchBytes with
    | error message =>
        rw [hdecoded, error_map] at h
        cases h
    | ok batch =>
        rw [hdecoded, ok_map] at h
        obtain rfl := Except.ok.inj h
        obtain ⟨hcount, hnext⟩ := recordCount_of_decodeBatch hdecoded
        refine ⟨hnext ▸ Nat.mod_lt _ (Nat.two_pow_pos 64), ⟨_, List.mem_map.mpr
          ⟨batch.metadata.recordCount - 1, List.mem_range.mpr (by omega), rfl⟩, ?_⟩, ?_⟩
        · dsimp only
          omega
        · intro entry hentry
          obtain ⟨index, -, rfl⟩ := List.mem_map.mp hentry
          rfl
  · cases hdecoded : decodeRecord options.topic options.partitionId recordBytes bodyAndCrc with
    | error message =>
        rw [hdecoded, error_map] at h
        cases h
    | ok decoded =>
        rw [hdecoded, ok_map] at h
        obtain rfl := Except.ok.inj h
        exact ⟨Nat.mod_lt _ (Nat.two_pow_pos 64),
          ⟨_, List.mem_singleton.mpr rfl, Nat.mod_le _ _⟩, by simp⟩

theorem Reaches.scanLoop {options : PartitionLogOptions} {segment : ℕ}
    (hsegment : segment < 2 ^ 64) {fuel : ℕ} :
    ∀ {entries : List IndexEntry} {nextOffset position : ℕ} {rest : Bytes},
      Reaches entries nextOffset →
      Reaches
        (entries ++ (PartitionLog.scanLoop Z options segment fuel nextOffset position rest).entries)
        (PartitionLog.scanLoop Z options segment fuel nextOffset position rest).nextOffset := by
  induction fuel with
  | zero =>
      intro entries nextOffset position rest h
      exact (List.append_nil entries).symm ▸ h
  | succ fuel ih =>
      intro entries nextOffset position rest h
      have hstopped : Reaches (entries ++ []) nextOffset := (List.append_nil entries).symm ▸ h
      rw [PartitionLog.scanLoop]
      dsimp only
      split_ifs with hempty hshort hlength
      · exact hstopped
      · exact hstopped
      · exact hstopped
      · cases hscanned : scanEntry Z options segment position (readU32Be rest 0)
            ((rest.drop 4).take (readU32Be rest 0)) with
        | error message => exact hstopped
        | ok scanned =>
            obtain ⟨hstop, hnewest, hsegments⟩ := scanEntry_newest hscanned
            have hnext := h.append hstop hnewest fun entry hentry ↦
              (hsegments entry hentry).symm ▸ hsegment
            have hloop := @ih _ _ (position + (4 + readU32Be rest 0))
              (rest.drop (4 + readU32Be rest 0)) hnext
            rw [List.append_assoc] at hloop
            exact hloop

/-- Whatever the directory holds, an opened log indexes its newest record. -/
theorem newestIndexed_openLog {options : PartitionLogOptions} {dir : Directory}
    (hnames : ∀ file ∈ dir.logs, file.1 < 2 ^ 64) (hopened : openLog Z options dir = .ok log) :
    log.NewestIndexed ∧ log.options = options := by
  rw [openLog] at hopened
  split_ifs at hopened
  obtain rfl := Except.ok.inj hopened
  refine ⟨?_, rfl⟩
  have hfold : ∀ (files : FileTable) (state : RecoverState), (∀ file ∈ files, file.1 < 2 ^ 64) →
      Reaches state.index state.nextOffset →
      Reaches (files.foldl (recoverSegment Z options) state).index
        (files.foldl (recoverSegment Z options) state).nextOffset := by
    intro files
    induction files with
    | nil => exact fun state _ h ↦ h
    | cons file files ih =>
        intro state hfiles h
        refine ih _ (fun other hother ↦ hfiles other (List.mem_cons_of_mem file hother)) ?_
        rw [recoverSegment]
        split_ifs with hstop
        · exact h
        · exact h.scanLoop (hfiles file List.mem_cons_self)
  have hreaches := hfold dir.logs (RecoverState.initial dir) hnames
    ⟨Nat.two_pow_pos 64, Or.inl rfl, fun entry hentry ↦ absurd hentry List.not_mem_nil⟩
  set state := dir.logs.foldl (recoverSegment Z options) (RecoverState.initial dir)
  refine ⟨hreaches.next, fun last hlast ↦ ?_⟩
  -- The index is sorted, so its last entry is above the one that reaches the end.
  have hsorted := List.pairwise_insertionSort
    (fun left right : IndexEntry ↦ left.offset ≤ right.offset) state.index
  have hmem : last ∈ state.index := (List.mem_insertionSort _).mp (List.mem_of_getLast? hlast)
  refine ⟨?_, hreaches.segments last hmem⟩
  rcases hreaches.newest with hzero | ⟨entry, hentry, hle⟩
  · exact hzero.le.trans (Nat.zero_le _)
  · have hentry := (List.mem_insertionSort
      (fun left right : IndexEntry ↦ left.offset ≤ right.offset)).mpr hentry
    obtain ⟨front, hfront⟩ := List.getLast?_eq_some_iff.mp hlast
    change state.index.insertionSort _ = front ++ [last] at hfront
    rw [hfront] at hsorted hentry
    rcases List.mem_append.mp hentry with hentry | hentry
    · have hoffset := (List.pairwise_append.mp hsorted).2.2 entry hentry last
        (List.mem_singleton.mpr rfl)
      exact hle.trans (Nat.succ_le_succ hoffset)
    · rw [List.mem_singleton.mp hentry] at hle
      exact hle

end PartitionLog

end BoltStream.Storage
