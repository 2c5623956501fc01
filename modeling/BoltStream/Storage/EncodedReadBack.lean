import BoltStream.Storage.IndexInvariant

/-!
# Reading back an encoded batch

`append_encoded_batch` checks a batch by encoding its records, the readers and
recovery by decoding it.  The two agree on batches without empty values: such a
batch is read back, and survives a reopen if all that is stored before it can be
read.
-/

namespace BoltStream.Storage

open BoltStream.Lib BoltStream.Protocol BoltStream.Compression PartitionLog

/-- An append whose batch can be decoded. -/
def LogOp.Readable (op : LogOp) : Prop := op.IsAppend ∧ op.Sized ∧ op.ValuesPresent

namespace LogState

variable {Z : Zstd} {options : PartitionLogOptions} {state state' : LogState}

/-- The log represents a layout, whether or not it decodes. -/
structure Reached (Z : Zstd) (options : PartitionLogOptions) (state : LogState)
    (layout : Layout) : Prop where
  represents : state.log.Represents Z layout
  options : state.log.options = options
  next_le : state.log.nextOffset ≤ state.acked.length

theorem Reached.step {layout : Layout} (h : Reached Z options state layout)
    (hopen : OpenOptions options) {op : LogOp} (hsized : op.Sized)
    (hbound : state'.acked.length < 2 ^ 64) (hstep : state.step Z op = some state') :
    ∃ layout', Reached Z options state' layout' := by
  have hlength := length_acked_step hstep
  have hle := h.next_le
  by_cases hcut : op = .reopen ∧
      ¬ ∀ e ∈ layout.entries, e.Decodable options.maxUncompressedBatchBytes
  · obtain ⟨rfl, hrefused⟩ := hcut
    obtain ⟨hopened, hacked⟩ := step_reopen hstep
    obtain ⟨log', layout', e, rest, hopened', hoptions', hrep', -, hnext, -⟩ :=
      h.represents.openLog_cut hopen hrefused state.log.dir.indexes
    rw [h.options] at hopened
    obtain rfl : state'.log = log' := Except.ok.inj (hopened.symm.trans hopened')
    exact ⟨layout', hrep', hoptions', by omega⟩
  · obtain ⟨layout', hfollows⟩ := follows_step h.represents (h.options ▸ hopen) hsized (by omega)
      (fun hop ↦ h.options ▸ not_not.mp fun hrefused ↦ hcut ⟨hop, hrefused⟩) hstep
    refine ⟨layout', hfollows.represents, hfollows.options.trans h.options, ?_⟩
    rw [hfollows.next]
    omega

/-- Every log reached by calls that return normally represents a layout. -/
theorem run_reached {log : PartitionLog} {ops : List LogOp}
    (hopened : openLog Z options {} = .ok log) (hsized : ∀ op ∈ ops, op.Sized)
    (hrun : run (LogState.step Z) ⟨log, []⟩ ops = some state)
    (hbound : state.acked.length < 2 ^ 64) : ∃ layout, Reached Z options state layout := by
  refine run_invariant (fun _ op ↦ op.Sized) (fun state ↦
    state.acked.length < 2 ^ 64 → ∃ layout, Reached Z options state layout) ?_
    (along_of_forall (fun op hop _ ↦ hsized op hop) _) hrun ?_ hbound
  · intro state op state' hsized hstep hinv hbound
    have hlength := length_acked_step hstep
    obtain ⟨layout, hlayout⟩ := hinv (by omega)
    exact hlayout.step (openOptions_of_openLog hopened) hsized hbound hstep
  · intro _
    obtain ⟨layout, hlayout, -⟩ := tracks_opened hopened
    exact ⟨layout, hlayout.represents, hlayout.options, hlayout.next.le⟩

/-- What a run of appends adds to a log. -/
structure Extends (Z : Zstd) (state : LogState) (layout : Layout) (state' : LogState)
    (layout' : Layout) (added : List Entry) : Prop where
  represents : state'.log.Represents Z layout'
  options : state'.log.options = state.log.options
  entries : layout'.entries = layout.entries ++ added
  acked : state'.acked = state.acked ++ added.flatMap Entry.records
  consecutive : Consecutive state.log.nextOffset added state'.log.nextOffset

theorem Extends.trans {state'' : LogState} {layout layout' layout'' : Layout}
    {added added' : List Entry} (h : Extends Z state layout state' layout' added)
    (h' : Extends Z state' layout' state'' layout'' added') :
    Extends Z state layout state'' layout'' (added ++ added') :=
  ⟨h'.represents, h'.options.trans h.options, by rw [h'.entries, h.entries, List.append_assoc],
    by rw [h'.acked, h.acked, List.flatMap_append, List.append_assoc],
    h.consecutive.append h'.consecutive⟩

/-- A run of appends adds entries.  They decode under a limit exactly when the
batches of the run are within it. -/
theorem run_extends {layout : Layout} (hrep : state.log.Represents Z layout)
    (hopen : OpenOptions state.log.options) {ops : List LogOp}
    (happends : ∀ op ∈ ops, op.IsAppend ∧ op.Sized)
    (hrun : run (LogState.step Z) state ops = some state')
    (hbound : state.log.nextOffset + state'.acked.length < 2 ^ 64 + state.acked.length) :
    ∃ layout' added, Extends Z state layout state' layout' added ∧
      (∀ limit, (∀ e ∈ added, e.Decodable limit) ↔ ∀ op ∈ ops, op.WithinLimit limit) ∧
      ((∀ op ∈ ops, op.ValuesPresent) →
        ∀ e ∈ added, e.Decodable state.log.options.maxUncompressedBatchBytes) := by
  induction ops generalizing state layout with
  | nil =>
      obtain rfl := Option.some.inj hrun
      exact ⟨layout, [], ⟨hrep, rfl, (List.append_nil _).symm, (List.append_nil _).symm, rfl⟩,
        by simp, by simp⟩
  | cons op ops ih =>
      obtain ⟨middle, hstep, hrest⟩ := run_cons hrun
      obtain ⟨happend, hsized⟩ := happends op List.mem_cons_self
      have hlength := length_acked_step hstep
      have hmono := length_acked_run hrest
      obtain ⟨layout₁, hfollows⟩ := follows_step hrep hopen hsized (by omega)
        (fun hop ↦ by rw [hop] at happend; exact happend.elim) hstep
      have hone : Extends Z state layout middle layout₁ (op.entries state.log.nextOffset) :=
        ⟨hfollows.represents, hfollows.options, hfollows.appended happend, hfollows.acked,
          hfollows.next ▸ op.consecutive state.log.nextOffset⟩
      have hnext := hfollows.next
      obtain ⟨layout₂, added, hmore, hlimit, hvalues⟩ := ih hfollows.represents
        (hfollows.options ▸ hopen) (fun op' hop' ↦ happends op' (List.mem_cons_of_mem op hop'))
        hrest (by omega)
      refine ⟨layout₂, _, hone.trans hmore, fun limit ↦ ?_, fun h e he ↦ ?_⟩
      · rw [List.forall_mem_append, hlimit, List.forall_mem_cons,
          decodable_entries_iff hstep happend]
      · rcases List.mem_append.mp he with he | he
        · exact decodable_entries hstep (h op List.mem_cons_self) _ e he
        · exact hfollows.options ▸ hvalues
            (fun op' hop' ↦ h op' (List.mem_cons_of_mem op hop')) e he

end LogState

/-! ## The last entry of a log -/

section Last

variable {Z : Zstd} {log : PartitionLog} {layout : Layout} {es : List Entry} {e : Entry}

theorem PartitionLog.Represents.stop_le_last (hrep : log.Represents Z layout)
    (hentries : layout.entries = es ++ [e]) : ∀ f ∈ es, f.stop ≤ e.first := by
  have hchain := hrep.placed.chain
  rw [hentries, List.pairwise_append] at hchain
  exact fun f hf ↦ hchain.2.2 f hf e (List.mem_singleton.mpr rfl)

/-- The last entry of a layout has the last index entries. -/
theorem PartitionLog.Represents.index_last (hrep : log.Represents Z layout)
    (hentries : layout.entries = es ++ [e]) :
    ∃ front segment position, log.index = front ++ e.indexEntries segment position ∧
      log.Holds segment position e ∧ ∀ entry ∈ front, entry.offset < e.first := by
  obtain ⟨s, hs⟩ := Layout.exists_lastStored hrep.placed.bases (by rw [hentries]; simp)
  obtain ⟨before, hbefore⟩ := hs.entries_eq hrep.placed.bases
  obtain ⟨front, hfront⟩ := hs.index_eq hrep.placed.bases
  obtain ⟨fs, f, hfs⟩ := (List.eq_nil_or_concat s.entries).resolve_left hs.stored
  rw [List.concat_eq_append] at hfs
  rw [hentries, hfs, ← List.append_assoc] at hbefore
  obtain ⟨-, hlast⟩ := List.append_inj' hbefore rfl
  obtain rfl : e = f := List.singleton_injective hlast
  have hindex : log.index = (front ++ Entry.indexFrom s.base 0 fs) ++
      e.indexEntries s.base (fs.flatMap Entry.bytes).length := by
    rw [hrep.index, hfront, Segment.index, hfs, Layout.indexFrom_snoc, Nat.zero_add,
      List.append_assoc]
  refine ⟨_, s.base, _, hindex, hrep.holds hs.mem hfs, ?_⟩
  have hstop : ∀ e ∈ layout.entries, e.stop < 2 ^ 64 := fun e he ↦ (hrep.written e he).stop_lt
  have hrecords : layout.records.map StoredRecord.offset =
      (es.flatMap Entry.records).map StoredRecord.offset ++ List.range' e.first e.count := by
    rw [Layout.records, hentries, List.flatMap_append, List.flatMap_singleton, List.map_append,
      Layout.map_offset_records]
  have hoffsets := Layout.map_offset_index hstop
  rw [← hrep.index, hindex, hrecords, List.map_append, Layout.map_offset_indexEntries
      (hstop e (by rw [hentries]; simp))] at hoffsets
  intro entry hentry
  have hmem := List.mem_map_of_mem (f := IndexEntry.offset) hentry
  rw [(List.append_inj' hoffsets rfl).1, List.mem_map] at hmem
  obtain ⟨r, hr, hoffset⟩ := hmem
  obtain ⟨f, hf, hr⟩ := List.mem_flatMap.mp hr
  have hrange := List.mem_map_of_mem (f := StoredRecord.offset) hr
  rw [Layout.map_offset_records, List.mem_range'_1] at hrange
  have hbehind : f.first + f.count ≤ e.first := hrep.stop_le_last hentries f hf
  omega

/-- The records of new entries are those from their first offset on. -/
theorem filter_records {old new : List Entry} {first stop : ℕ}
    (hold : ∀ e ∈ old, e.stop ≤ first) (hnew : Consecutive first new stop) :
    (((old ++ new).flatMap Entry.records).filter fun r ↦ first ≤ r.offset) =
      new.flatMap Entry.records := by
  have hbelow : ((old.flatMap Entry.records).filter fun r ↦ first ≤ r.offset) = [] := by
    rw [List.filter_eq_nil_iff]
    intro r hr
    obtain ⟨e, he, hr⟩ := List.mem_flatMap.mp hr
    have hmem := List.mem_map_of_mem (f := StoredRecord.offset) hr
    rw [Layout.map_offset_records, List.mem_range'_1] at hmem
    have hstop : e.first + e.count ≤ first := hold e he
    simp only [decide_eq_true_eq]
    omega
  have habove : ((new.flatMap Entry.records).filter fun r ↦ first ≤ r.offset) =
      new.flatMap Entry.records := by
    rw [List.filter_eq_self]
    intro r hr
    have hmem := List.mem_map_of_mem (f := StoredRecord.offset) hr
    rw [hnew.map_offset, List.mem_range'_1] at hmem
    simpa using hmem.1
  rw [List.flatMap_append, List.filter_append, hbelow, habove, List.nil_append]

theorem PartitionLog.Represents.readFrom_new (hrep : log.Represents Z layout)
    (hdecodable : ∀ e ∈ layout.entries, e.Decodable log.options.maxUncompressedBatchBytes)
    {old new : List Entry} {first stop : ℕ} (hentries : layout.entries = old ++ new)
    (hold : ∀ e ∈ old, e.stop ≤ first) (hnew : Consecutive first new stop) (maxRecords : ℕ) :
    (log.readFrom Z first maxRecords 0).map (List.map Record.stored) =
      .ok ((new.flatMap Entry.records).take maxRecords) := by
  rw [readFrom_readsAs (hrep.readsAs hdecodable), Layout.records, hentries,
    filter_records hold hnew]

/-- Nothing is read behind the last entry. -/
theorem PartitionLog.Represents.readFrom_behind (hrep : log.Represents Z layout) {offset : ℕ}
    (hold : ∀ e ∈ layout.entries, e.stop ≤ offset) (maxRecords : ℕ) :
    log.readFrom Z offset maxRecords 0 = .ok [] := by
  have hloop : readLoop Z log offset maxRecords 0 (log.index ++ []) 0 0 = .ok [] :=
    readLoop_below maxRecords 0 (hrep.offset_lt_of_stop_le hold) [] 0 0
  rwa [List.append_nil] at hloop

variable {baseOffset timestamp : ℕ} {codec : Codec} {encoded : Bytes} {records : List BatchRecord}

/-- Finding the first index entry of the last batch. -/
theorem find?_last {index front : List IndexEntry} {segment position : ℕ}
    (hindex : index = front ++
      (Entry.batch baseOffset timestamp codec encoded records).indexEntries segment position)
    (hfront : ∀ entry ∈ front, entry.offset < baseOffset)
    (hstop : baseOffset + records.length < 2 ^ 64) (hne : records ≠ []) :
    (index.find? fun entry ↦ entry.offset = baseOffset) =
      some { offset := baseOffset
             filePosition := position
             recordBytes := (Entry.batch baseOffset timestamp codec encoded records).recordBytes
             segment := segment
             recordIndex := 0
             recordCount := records.length } := by
  have hnone : (front.find? fun entry ↦ entry.offset = baseOffset) = none :=
    List.find?_eq_none.mpr fun entry hentry ↦ by
      have hlt := hfront entry hentry
      simp only [decide_eq_true_eq]
      omega
  obtain ⟨r, rest, rfl⟩ := List.exists_cons_of_ne_nil hne
  rw [hindex, List.find?_append, hnone, Option.none_or, Entry.indexEntries, batchEntries,
    List.length_cons, List.range_succ_eq_map, List.map_cons, List.find?_cons_of_pos]
  · rw [Nat.add_zero, Nat.mod_eq_of_lt (by omega)]
  · simp only [Nat.add_zero, decide_eq_true_eq]
    exact Nat.mod_eq_of_lt (by omega)

/-- The bytes of an entry behind its byte count. -/
theorem Entry.drop_bytes {e : Entry} {before after : Bytes} {position : ℕ}
    (hposition : before.length = position) :
    (before ++ (e.bytes ++ after)).drop (position + 4) = e.bodyAndCrc ++ after := by
  rw [← List.drop_drop, List.drop_left' hposition, Entry.bytes_eq, List.append_assoc,
    List.drop_left' (length_writeU32 _)]

theorem Entry.take_bodyAndCrc (e : Entry) (after : Bytes) :
    (e.bodyAndCrc ++ after).take e.recordBytes = e.bodyAndCrc := by
  rw [← Entry.length_bodyAndCrc, List.take_left]

/-- Reading a batch as it is stored, through its first index entry. -/
theorem PartitionLog.readEncodedBatch_of_find {offset : ℕ} {entry : IndexEntry}
    (hfind : (log.index.find? fun entry ↦ entry.offset = offset) = some entry)
    (hindex : entry.recordIndex = 0)
    (hbytes : entry.recordBytes =
      (Entry.batch baseOffset timestamp codec encoded records).recordBytes)
    (hholds : log.Holds entry.segment entry.filePosition
      (.batch baseOffset timestamp codec encoded records))
    (hwritten : (Entry.batch baseOffset timestamp codec encoded records).Written Z)
    (hdecodable : (Entry.batch baseOffset timestamp codec encoded records).Decodable
      log.options.maxUncompressedBatchBytes) :
    log.readEncodedBatch Z offset =
      .ok (some { metadata := storedBatchMetadata log.options.topic log.options.partitionId
                    baseOffset timestamp codec records.length (encodeRecordSet records).length
                    encoded
                  encodedRecords := encoded }) := by
  obtain ⟨hfits, limit, haccepted⟩ := hwritten
  obtain ⟨before, after, hcontent, hposition⟩ := hholds
  set e := Entry.batch baseOffset timestamp codec encoded records with he
  have hrest := @Entry.drop_bytes e before after entry.filePosition hposition
  have hbody := Entry.take_bodyAndCrc e after
  have hlength : (e.bodyAndCrc ++ after).length = e.recordBytes + after.length := by
    rw [List.length_append, Entry.length_bodyAndCrc]
  have hdecode := Entry.decodeBatch_batch log.options.maxUncompressedBatchBytes
    log.options.topic log.options.partitionId hfits haccepted
  rw [if_pos hdecodable.1, if_pos hdecodable.2] at hdecode
  have hencoded : (e.bodyAndCrc.drop kFixedBatchBodyBytes).take encoded.length = encoded := by
    rw [he, Entry.bodyAndCrc, Entry.body, kFixedBatchBodyBytes, drop_batchBody, List.take_left]
  have hversion : readU16Be e.bodyAndCrc 0 = kBatchVersion := Entry.version_batch _ _ _ _ _
  unfold PartitionLog.readEncodedBatch
  rw [hfind]
  simp only [hindex, ne_eq, not_true_eq_false, if_false]
  rw [hcontent, orError_some, ok_bind]
  simp only [hrest, hbytes, hbody]
  have hminimum := e.kMinimum_le_recordBytes
  rw [kMinimumRecordBytes] at hminimum
  rw [if_neg (by omega), if_neg (by omega), if_neg (not_not.mpr hversion), hdecode, ok_map]
  simp only [storedBatchMetadata, hencoded]

/-- Reading the last batch of a log as it is stored. -/
theorem PartitionLog.Represents.readEncodedBatch_last (hrep : log.Represents Z layout)
    (hentries : layout.entries = es ++ [.batch baseOffset timestamp codec encoded records])
    (hdecodable : (Entry.batch baseOffset timestamp codec encoded records).Decodable
      log.options.maxUncompressedBatchBytes) :
    log.readEncodedBatch Z baseOffset =
      .ok (some { metadata := storedBatchMetadata log.options.topic log.options.partitionId
                    baseOffset timestamp codec records.length (encodeRecordSet records).length
                    encoded
                  encodedRecords := encoded }) := by
  obtain ⟨front, segment, position, hindex, hholds, hbelow⟩ := hrep.index_last hentries
  have hwritten := hrep.written (.batch baseOffset timestamp codec encoded records)
    (by rw [hentries]; simp)
  obtain ⟨hfits, limit, haccepted⟩ := hwritten
  exact readEncodedBatch_of_find (find?_last hindex hbelow hfits.1 haccepted.1) rfl rfl hholds
    ⟨hfits, limit, haccepted⟩ hdecodable

/-- Reading the last entry of a log fails if the decoders refuse it. -/
theorem PartitionLog.Represents.readFrom_last_error (hrep : log.Represents Z layout)
    (hentries : layout.entries = es ++ [e])
    (hrefused : ¬ e.Decodable log.options.maxUncompressedBatchBytes) {maxRecords : ℕ}
    (hmax : 0 < maxRecords) :
    ∃ message, log.readFrom Z e.first maxRecords 0 = .error message := by
  have hwritten := hrep.written e (by rw [hentries]; simp)
  obtain ⟨front, segment, position, hindex, hholds, hbelow⟩ := hrep.index_last hentries
  have hoffsets := Layout.map_offset_indexEntries hwritten.stop_lt segment position
  obtain ⟨count, hcount⟩ := Nat.exists_eq_succ_of_ne_zero hwritten.count_pos.ne'
  rw [hcount, List.range'_succ] at hoffsets
  obtain ⟨entry, rest, hfirst, hoffset, -⟩ := List.map_eq_cons_iff.mp hoffsets
  obtain ⟨message, herror⟩ := readEntry_of_not_decodable hholds hwritten hrefused
    (hfirst ▸ List.mem_cons_self : entry ∈ e.indexEntries segment position)
  refine ⟨message, ?_⟩
  rw [readFrom, hindex, readLoop_below _ _ hbelow, hfirst, readLoop,
    if_neg (by omega), if_neg (by omega), if_neg (by simp), herror, error_bind]

end Last

/-! ## Batches that are read back -/

/-- The batch is read back from the log it was appended to, and from that log
reopened after any further appends, with what they added. -/
structure ReadsBack (Z : Zstd) (log' : PartitionLog) (encodedRecords : Bytes)
    (decodedRecords : List AppendRecord) (metadata : BatchMetadata) : Prop where
  records : (log'.readFrom Z metadata.baseOffset decodedRecords.length 0).map
    (List.map Record.stored) = .ok (LogState.acknowledgedBatch metadata decodedRecords)
  batch : log'.readEncodedBatch Z metadata.baseOffset =
    .ok (some { metadata := metadata, encodedRecords := encodedRecords })
  reopens : ∀ later state, (∀ op ∈ later, op.Readable) →
    run (LogState.step Z) ⟨log', []⟩ later = some state →
    log'.nextOffset + state.acked.length < 2 ^ 64 →
    ∃ reopened, openLog Z log'.options state.log.dir = .ok reopened ∧
      (reopened.readFrom Z metadata.baseOffset (decodedRecords.length + state.acked.length) 0).map
        (List.map Record.stored) =
          .ok (LogState.acknowledgedBatch metadata decodedRecords ++ state.acked)

/-- Every record of the log can be read. -/
def PartitionLog.AllReadable (Z : Zstd) (log : PartitionLog) : Prop :=
  ∀ entry ∈ log.index, ∃ record, log.readEntry Z entry = .ok record

theorem PartitionLog.Represents.allReadable_iff {Z : Zstd} {log : PartitionLog} {layout : Layout}
    (hrep : log.Represents Z layout) :
    log.AllReadable Z ↔
      ∀ e ∈ layout.entries, e.Decodable log.options.maxUncompressedBatchBytes := by
  refine ⟨fun h e he ↦ ?_, fun h entry hentry ↦ ?_⟩
  · by_contra hrefused
    have hwritten := hrep.written e he
    obtain ⟨s, hs, he⟩ := Layout.mem_entries.mp he
    obtain ⟨es, rest, hsplit⟩ := List.append_of_mem he
    have hcount : 0 < (e.indexEntries s.base (es.flatMap Entry.bytes).length).length := by
      have hlength := congrArg List.length
        (Layout.map_offset_indexEntries hwritten.stop_lt s.base (es.flatMap Entry.bytes).length)
      rw [List.length_map, List.length_range'] at hlength
      rw [hlength]
      exact hwritten.count_pos
    obtain ⟨entry, hentry⟩ := List.exists_mem_of_length_pos hcount
    have hindex : entry ∈ log.index := by
      rw [hrep.index, Layout.index, List.mem_flatMap]
      refine ⟨s, hs, ?_⟩
      rw [Segment.index, hsplit, Layout.indexFrom_append, Nat.zero_add, Entry.indexFrom]
      exact List.mem_append_right _ (List.mem_append_left _ hentry)
    obtain ⟨record, hrecord⟩ := h entry hindex
    obtain ⟨message, herror⟩ := readEntry_of_not_decodable (hrep.holds hs hsplit) hwritten
      hrefused hentry
    rw [hrecord] at herror
    cases herror
  · obtain ⟨i, hi, rfl⟩ := List.getElem_of_mem hentry
    obtain ⟨hlength, hreads⟩ := List.forall₂_iff_get.mp (hrep.readsAs h)
    obtain ⟨-, record, hrecord, -⟩ := hreads i hi (hlength ▸ hi)
    exact ⟨_, hrecord⟩

/-- What is read of a batch is not longer than its index entry says. -/
theorem length_readEncodedBatch {Z : Zstd} {log : PartitionLog} {offset : ℕ}
    {batch : EncodedBatch} (h : log.readEncodedBatch Z offset = .ok (some batch)) :
    ∃ entry ∈ log.index, entry.offset = offset ∧
      batch.encodedRecords.length ≤ entry.recordBytes := by
  unfold readEncodedBatch at h
  cases hfind : log.index.find? fun entry ↦ entry.offset = offset with
  | none =>
      rw [hfind] at h
      cases h
  | some entry =>
      rw [hfind] at h
      refine ⟨entry, List.mem_of_find?_eq_some hfind, by simpa using List.find?_some hfind, ?_⟩
      dsimp only at h
      by_cases hfirst : entry.recordIndex ≠ 0
      · rw [if_pos hfirst] at h
        cases h
      rw [if_neg hfirst] at h
      cases hcontent : log.dir.logs.content? entry.segment with
      | none =>
          rw [hcontent, orError_none, error_bind] at h
          cases h
      | some content =>
          rw [hcontent, orError_some, ok_bind] at h
          split_ifs at h with hlength hshort hversion
          · cases h
          · cases h
          cases hdecode : decodeBatch Z log.options.topic log.options.partitionId
              entry.recordBytes ((content.drop (entry.filePosition + 4)).take entry.recordBytes)
              log.options.maxUncompressedBatchBytes with
          | error message =>
              rw [hdecode, error_map] at h
              cases h
          | ok decoded =>
              rw [hdecode, ok_map] at h
              rw [← Option.some.inj (Except.ok.inj h)]
              simp only [List.length_take, List.length_drop]
              omega

section Call

variable {Z : Zstd} {log log' : PartitionLog} {layout : Layout} {codec : Codec}
  {encodedRecords : Bytes} {uncompressedBytes : UInt32} {decodedRecords : List AppendRecord}
  {timestamp : UInt64} {metadata : BatchMetadata}

/-- The metadata of an accepted batch is what its entry decodes to. -/
theorem metadata_of_appendEncodedBatch (hrep : log.Represents Z layout)
    (hfits : encodedRecords.length + 40 < 2 ^ 32)
    (happend : appendEncodedBatch Z log codec encodedRecords uncompressedBytes decodedRecords
      timestamp none = (log', .ok metadata)) :
    metadata = storedBatchMetadata log.options.topic log.options.partitionId log.nextOffset
      timestamp.toNat codec (batchRecords decodedRecords).length
      (encodeRecordSet (batchRecords decodedRecords)).length encodedRecords := by
  have hvalid := LogState.validate_of_appendEncodedBatch happend
  obtain ⟨-, hcount, hsize, -⟩ := validateEncodedBatch_ok hvalid
  obtain ⟨segment, -, hstaged⟩ := hrep.stageEncodedBatch hvalid timestamp
  unfold appendEncodedBatch at happend
  simp only [hvalid, hstaged] at happend
  rw [← Except.ok.inj (Prod.mk.inj happend).2]
  have hstored : (batchEntry log.nextOffset codec encodedRecords decodedRecords
      timestamp).bytes.length = 40 + encodedRecords.length + 4 := by
    rw [Entry.length_bytes, recordBytes_batchEntry]
    omega
  simp only [storedBatchMetadata, length_batchRecords, hsize, hstored, Nat.mod_eq_of_lt hcount,
    Nat.mod_eq_of_lt (show encodedRecords.length < 2 ^ 32 by omega)]

/-- What an accepted batch needs to be read back. -/
theorem readsBack_iff (hrep : log.Represents Z layout) (hopen : OpenOptions log.options)
    (hbound : log.nextOffset + decodedRecords.length < 2 ^ 64)
    (hfits : encodedRecords.length + 40 < 2 ^ 32)
    (happend : appendEncodedBatch Z log codec encodedRecords uncompressedBytes decodedRecords
      timestamp none = (log', .ok metadata)) :
    ReadsBack Z log' encodedRecords decodedRecords metadata ↔
      (∀ record ∈ decodedRecords, record.value ≠ []) ∧ log.AllReadable Z := by
  obtain ⟨hvalid, layout', hrep', hoptions', hnext', hentries', hbase, htimestamp⟩ :=
    hrep.appendEncodedBatch hbound hfits happend
  have hmetadata := metadata_of_appendEncodedBatch hrep hfits happend
  have hdecodes := LogState.decodable_batchEntry_iff hvalid log.nextOffset timestamp
  have hne : decodedRecords ≠ [] := (validateEncodedBatch_ok hvalid).1
  have hacked := LogState.records_batchEntry hbase htimestamp codec encodedRecords decodedRecords
  have hold : ∀ f ∈ layout.entries, f.stop ≤ log.nextOffset := hrep.placed.stop_le
  set e := batchEntry log.nextOffset codec encodedRecords decodedRecords timestamp with he
  have hlength : e.records.length = decodedRecords.length := by
    rw [← hacked, LogState.acknowledgedBatch, List.length_mapIdx]
  have hnew : Consecutive log.nextOffset [e] log'.nextOffset := by
    refine ⟨rfl, ?_⟩
    rw [hnext', Consecutive, Entry.stop, ← Entry.length_records, hlength]
    rfl
  rw [hrep.allReadable_iff, ← hdecodes]
  constructor
  · intro h
    have hlast : e.Decodable log.options.maxUncompressedBatchBytes := by
      by_contra hrefused
      obtain ⟨message, herror⟩ := hrep'.readFrom_last_error hentries' (hoptions' ▸ hrefused)
        (List.length_pos_iff.mpr hne)
      have hrecords := h.records
      rw [hbase] at hrecords
      change (log'.readFrom Z e.first decodedRecords.length 0).map _ = _ at hrecords
      rw [herror] at hrecords
      cases hrecords
    refine ⟨hlast, ?_⟩
    by_contra hrefused
    -- The reopen cuts the log before it comes to the batch.
    obtain ⟨reopened, hreopened, hread⟩ := h.reopens [] ⟨log', []⟩ (by simp) rfl
      (by rw [hnext']; exact hbound)
    obtain ⟨cut, layout'', f, rest, hcut, -, hrep'', hsplit, -, -⟩ :=
      hrep'.openLog_cut (hoptions' ▸ hopen) (fun h ↦ hrefused fun f hf ↦ hoptions' ▸
        h f (by rw [hentries']; exact List.mem_append_left _ hf)) log'.dir.indexes
    obtain rfl : reopened = cut := Except.ok.inj (hreopened.symm.trans hcut)
    have hfrontEntries : layout''.entries <+: layout.entries := by
      have hcut : layout''.entries <+: layout'.entries := ⟨f :: rest, hsplit.symm⟩
      have hfront : layout.entries <+: layout'.entries := ⟨[e], hentries'.symm⟩
      refine List.prefix_of_prefix_length_le hcut hfront ?_
      have hcount := congrArg List.length hsplit
      simp only [hentries', List.length_append, List.length_cons, List.length_nil] at hcount
      omega
    rw [hbase, hrep''.readFrom_behind fun g hg ↦ hold g (hfrontEntries.subset hg)] at hread
    have hempty := Except.ok.inj hread
    rw [hacked, List.append_nil, List.map_nil, eq_comm, ← List.length_eq_zero_iff, hlength,
      List.length_eq_zero_iff] at hempty
    exact hne hempty
  · rintro ⟨hlast, hfront⟩
    have hdecodable : ∀ f ∈ layout'.entries,
        f.Decodable log'.options.maxUncompressedBatchBytes := fun f hf ↦ by
      rw [hentries', List.mem_append, List.mem_singleton] at hf
      rcases hf with hf | rfl
      · exact hoptions' ▸ hfront f hf
      · exact hoptions' ▸ hlast
    refine ⟨?_, ?_, fun later state hlater hrun hbound' ↦ ?_⟩
    · rw [hbase, hrep'.readFrom_new hdecodable hentries' hold hnew, List.flatMap_singleton, hacked,
        ← hlength, List.take_length]
    · rw [hbase, hmetadata, hrep'.readEncodedBatch_last hentries' (hoptions' ▸ hlast), hoptions']
    · obtain ⟨layout'', added, hextends, -, hdecodes'⟩ :=
        LogState.run_extends hrep' (hoptions' ▸ hopen)
          (fun op hop ↦ ⟨(hlater op hop).1, (hlater op hop).2.1⟩) hrun (by simpa using hbound')
      have hall : ∀ f ∈ layout''.entries, f.Decodable log'.options.maxUncompressedBatchBytes :=
        fun f hf ↦ by
          rw [hextends.entries] at hf
          rcases List.mem_append.mp hf with hf | hf
          · exact hdecodable f hf
          · exact hdecodes' (fun op hop ↦ (hlater op hop).2.2) f hf
      obtain ⟨reopened, hreopened, hopts, -, hrep''⟩ :=
        hextends.represents.openLog (hoptions' ▸ hopen) hall state.log.dir.indexes
      refine ⟨reopened, hreopened, ?_⟩
      have hacked' : state.acked = added.flatMap Entry.records :=
        hextends.acked.trans (List.nil_append _)
      have hsplit : layout''.entries = layout.entries ++ ([e] ++ added) := by
        rw [hextends.entries, hentries', List.append_assoc]
      rw [hbase, hrep''.readFrom_new (hopts ▸ hall) hsplit hold
        (hnew.append hextends.consecutive), List.flatMap_append, List.flatMap_singleton,
        ← hacked', hacked, ← hlength, ← List.length_append, List.take_length]

/-- A batch that does not fit its byte count is not read back: what is read is
shorter. -/
theorem not_readsBack_of_oversized (hrep : log.Represents Z layout)
    (hoversized : 2 ^ 32 ≤ encodedRecords.length + 40)
    (happend : appendEncodedBatch Z log codec encodedRecords uncompressedBytes decodedRecords
      timestamp none = (log', .ok metadata)) :
    ¬ ReadsBack Z log' encodedRecords decodedRecords metadata := by
  intro h
  have hvalid := LogState.validate_of_appendEncodedBatch happend
  obtain ⟨segment, -, hstaged⟩ := hrep.stageEncodedBatch hvalid timestamp
  unfold appendEncodedBatch at happend
  simp only [hvalid, hstaged] at happend
  obtain ⟨hlog, hmetadata⟩ := Prod.mk.inj happend
  have hbase : metadata.baseOffset = log.nextOffset := by rw [← Except.ok.inj hmetadata]
  have hbytes : (batchEntry log.nextOffset codec encodedRecords decodedRecords
      timestamp).bytes.length - 4 = encodedRecords.length + 40 := by
    rw [Entry.length_bytes, recordBytes_batchEntry, Nat.add_sub_cancel_left]
  -- Entries with the batch's offset are new, so they carry the wrapped count.
  have hwrapped : ∀ entry ∈ log'.index, entry.offset = log.nextOffset →
      entry.recordBytes = (encodedRecords.length + 40) % 2 ^ 32 := by
    intro entry hentry hoffset
    rw [← hlog, List.mem_append] at hentry
    rcases hentry with hentry | hentry
    · have hlt := hrep.offset_lt entry hentry
      omega
    · obtain ⟨i, -, rfl⟩ := List.mem_map.mp hentry
      rw [← hbytes]
  obtain ⟨entry, hentry, hoffset, hlength⟩ := length_readEncodedBatch h.batch
  have hcount := hwrapped entry hentry (hoffset.trans hbase)
  have hlength : encodedRecords.length ≤ entry.recordBytes := hlength
  omega

end Call

/-- In every log reached by calls whose batches fit their byte count, an accepted
batch is read back exactly when it fits as well, has no empty value, and
everything before it can be read. -/
theorem encodedBatch_readsBack_iff (Z : Zstd) (options : PartitionLogOptions)
    (log₀ : PartitionLog) (hopened : openLog Z options {} = .ok log₀) (ops : List LogOp)
    (hsized : ∀ op ∈ ops, op.Sized) (state : LogState)
    (hrun : run (LogState.step Z) ⟨log₀, []⟩ ops = some state) (codec : Codec)
    (encodedRecords : Bytes) (uncompressedBytes : UInt32) (decodedRecords : List AppendRecord)
    (timestamp : UInt64) (hbound : state.acked.length + decodedRecords.length < 2 ^ 64)
    (log' : PartitionLog) (metadata : BatchMetadata)
    (happend : appendEncodedBatch Z state.log codec encodedRecords uncompressedBytes
      decodedRecords timestamp none = (log', .ok metadata)) :
    ReadsBack Z log' encodedRecords decodedRecords metadata ↔
      encodedRecords.length + 40 < 2 ^ 32 ∧ (∀ record ∈ decodedRecords, record.value ≠ []) ∧
        state.log.AllReadable Z := by
  obtain ⟨layout, hreached⟩ := LogState.run_reached hopened hsized hrun (by omega)
  have hle := hreached.next_le
  have hoptions : OpenOptions state.log.options :=
    hreached.options ▸ LogState.openOptions_of_openLog hopened
  by_cases hfits : encodedRecords.length + 40 < 2 ^ 32
  · rw [readsBack_iff hreached.represents hoptions (by omega) hfits happend]
    exact ⟨fun h ↦ ⟨hfits, h⟩, fun h ↦ h.2⟩
  · exact ⟨fun h ↦ absurd h (not_readsBack_of_oversized hreached.represents (by omega) happend),
      fun h ↦ absurd h.1 hfits⟩

/-- A record, and a compressed batch behind it. -/
theorem encodedBatch_readsBack_small :
    ∃ state log' metadata,
      run (LogState.step rawBlockZstd) ⟨emptyLog smallSegments, []⟩
        [.append stillClock [107] [118]] = some state ∧
      appendEncodedBatch rawBlockZstd state.log .zstd
        ([40, 181, 47, 253, 32, 14, 113, 0, 0] ++ encodeRecordSet [⟨[97], [98]⟩]) 14
        [⟨[97], [98]⟩] 8 none = (log', .ok metadata) ∧
      ReadsBack rawBlockZstd log'
        ([40, 181, 47, 253, 32, 14, 113, 0, 0] ++ encodeRecordSet [⟨[97], [98]⟩])
        [⟨[97], [98]⟩] metadata := by
  have hchecks : (run (LogState.step rawBlockZstd) ⟨emptyLog smallSegments, []⟩
      [.append stillClock [107] [118]]).map (fun state ↦ (state.acked.length,
        state.log.index.all fun entry ↦ (state.log.readEntry rawBlockZstd entry).toBool,
        (appendEncodedBatch rawBlockZstd state.log .zstd
          ([40, 181, 47, 253, 32, 14, 113, 0, 0] ++ encodeRecordSet [⟨[97], [98]⟩]) 14
          [⟨[97], [98]⟩] 8 none).2.toBool)) = some (1, true, true) := by decide +kernel
  obtain ⟨state, hrun, hstate⟩ := Option.map_eq_some_iff.mp hchecks
  obtain ⟨hacked, hstate⟩ := Prod.mk.inj hstate
  obtain ⟨hreadable, happended⟩ := Prod.mk.inj hstate
  cases happend : appendEncodedBatch rawBlockZstd state.log .zstd
      ([40, 181, 47, 253, 32, 14, 113, 0, 0] ++ encodeRecordSet [⟨[97], [98]⟩]) 14
      [⟨[97], [98]⟩] 8 none with
  | mk log' result =>
      rw [happend] at happended
      cases result with
      | error message => cases happended
      | ok metadata =>
          refine ⟨state, log', metadata, hrun, happend, ?_⟩
          rw [encodedBatch_readsBack_iff rawBlockZstd smallSegments _
            (openLog_empty ⟨by decide, by decide⟩ rawBlockZstd) _ (by simp [LogOp.Sized]) state
            hrun _ _ _ _ _ (by rw [hacked]; simp) log' metadata happend]
          refine ⟨by decide, by simp, fun entry hentry ↦ ?_⟩
          have hentry := List.all_eq_true.mp hreadable entry hentry
          cases hread : state.log.readEntry rawBlockZstd entry with
          | error message =>
              rw [hread] at hentry
              cases hentry
          | ok record => exact ⟨record, rfl⟩

/-- A batch with an empty value is accepted and cannot be read. -/
theorem emptyValue_not_readBack :
    ∃ log' metadata,
      openLog noZstd smallSegments {} = .ok (emptyLog smallSegments) ∧
      appendEncodedBatch noZstd (emptyLog smallSegments) .none (encodeRecordSet [⟨[97], []⟩]) 13
        [⟨[97], []⟩] 0 none = (log', .ok metadata) ∧
      ¬ ReadsBack noZstd log' (encodeRecordSet [⟨[97], []⟩]) [⟨[97], []⟩] metadata := by
  have hchecks : (appendEncodedBatch noZstd (emptyLog smallSegments) .none
      (encodeRecordSet [⟨[97], []⟩]) 13 [⟨[97], []⟩] 0 none).2.map BatchMetadata.baseOffset =
        .ok 0 ∧
      ((appendEncodedBatch noZstd (emptyLog smallSegments) .none
        (encodeRecordSet [⟨[97], []⟩]) 13 [⟨[97], []⟩] 0 none).1.readFrom noZstd 0 1 0).toBool =
          false := by decide +kernel
  cases happend : appendEncodedBatch noZstd (emptyLog smallSegments) .none
      (encodeRecordSet [⟨[97], []⟩]) 13 [⟨[97], []⟩] 0 none with
  | mk log' result =>
      rw [happend] at hchecks
      obtain ⟨hbase, hread⟩ := hchecks
      cases result with
      | error message => cases hbase
      | ok metadata =>
          have hbase : metadata.baseOffset = 0 := Except.ok.inj hbase
          refine ⟨log', metadata, openLog_empty ⟨by decide, by decide⟩ noZstd, rfl, fun h ↦ ?_⟩
          have hrecords := h.records
          rw [hbase] at hrecords
          cases hresult : log'.readFrom noZstd 0 1 0 with
          | error message =>
              rw [List.length_singleton, hresult] at hrecords
              cases hrecords
          | ok records =>
              rw [hresult] at hread
              cases hread

end BoltStream.Storage
