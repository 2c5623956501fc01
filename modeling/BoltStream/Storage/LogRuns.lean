import BoltStream.Lib.Runs
import BoltStream.Storage.Reading
import BoltStream.Storage.Retaining

/-!
# Runs of a partition log

A run is a sequence of calls that all succeed, starting with the open of an
empty directory.  Beside the log it keeps what producers were told: every
acknowledged record with its offset and timestamp.
-/

namespace BoltStream.Storage

open BoltStream.Lib BoltStream.Protocol BoltStream.Compression

inductive LogOp where
  | append (clock : AppendClock) (key value : Bytes)
  | appendBatch (clock : AppendClock) (records : List AppendRecord)
  | appendEncodedBatch (codec : Codec) (encodedRecords : Bytes) (uncompressedBytes : UInt32)
      (decodedRecords : List AppendRecord) (timestamp : UInt64)
  | applyRetention (env : RetentionEnv) (policy : RetentionPolicy)
  | reopen

structure LogState where
  log : PartitionLog
  acked : List StoredRecord

namespace LogState

open PartitionLog

/-- The records of an acknowledged encoded batch. -/
def acknowledgedBatch (metadata : BatchMetadata) (records : List AppendRecord) :
    List StoredRecord :=
  records.mapIdx fun i record ↦
    ⟨metadata.baseOffset + i, metadata.timestampUnixNs, record.key, record.value⟩

/-- A call that returns normally. -/
def step (Z : Zstd) (state : LogState) : LogOp → Option LogState
  | .append clock key value =>
      match state.log.append clock none key value with
      | (log, .ok metadata) => some ⟨log, state.acked ++ [acknowledged metadata ⟨key, value⟩]⟩
      | (_, .error _) => none
  | .appendBatch clock records =>
      match state.log.appendBatch clock none records with
      | (log, .ok metadata) => some ⟨log, state.acked ++ metadata.zipWith acknowledged records⟩
      | (_, .error _) => none
  | .appendEncodedBatch codec encodedRecords uncompressedBytes decodedRecords timestamp =>
      match PartitionLog.appendEncodedBatch Z state.log codec encodedRecords uncompressedBytes
          decodedRecords timestamp none with
      | (log, .ok metadata) =>
          some ⟨log, state.acked ++ acknowledgedBatch metadata decodedRecords⟩
      | (_, .error _) => none
  | .applyRetention env policy =>
      match state.log.applyRetention env policy with
      | (log, .ok _) => some { state with log := log }
      | (_, .error _) => none
  | .reopen =>
      match openLog Z state.log.options state.log.dir with
      | .ok log => some { state with log := log }
      | .error _ => none

/-- The acknowledged records that retention has not removed. -/
def retained (state : LogState) : List StoredRecord :=
  state.acked.filter fun r ↦ r.offset ∈ state.log.index.map IndexEntry.offset

end LogState

namespace LogOp

/-- An encoded batch whose entry fits the 32-bit byte count. -/
def Sized : LogOp → Prop
  | appendEncodedBatch _ encodedRecords _ _ _ => encodedRecords.length + 40 < 2 ^ 32
  | _ => True

/-- An encoded batch without empty values. -/
def ValuesPresent : LogOp → Prop
  | appendEncodedBatch _ _ _ decodedRecords _ => ∀ record ∈ decodedRecords, record.value ≠ []
  | _ => True

/-- An encoded batch that the decoders accept under a limit. -/
def WithinLimit (limit : ℕ) : LogOp → Prop
  | appendEncodedBatch _ _ uncompressedBytes decodedRecords _ =>
      uncompressedBytes.toNat ≤ limit ∧ ∀ record ∈ decodedRecords, record.value ≠ []
  | _ => True

def IsAppend : LogOp → Prop
  | append _ _ _ => True
  | appendBatch _ _ => True
  | appendEncodedBatch _ _ _ _ _ => True
  | _ => False

/-- The entries a call adds to a log with the given next offset. -/
def entries (next : ℕ) : LogOp → List Entry
  | append clock key value => PartitionLog.recordEntries clock next 0 [⟨key, value⟩]
  | appendBatch clock records => PartitionLog.recordEntries clock next 0 records
  | appendEncodedBatch codec encodedRecords _ decodedRecords timestamp =>
      [PartitionLog.batchEntry next codec encodedRecords decodedRecords timestamp]
  | applyRetention _ _ => []
  | reopen => []

/-- A retention pass that reads ages in order. -/
def AgesOrdered (log : PartitionLog) : LogOp → Prop
  | applyRetention env _ => log.AgesOrdered env
  | _ => True

end LogOp

/-! ## Consecutive entries -/

/-- Entries that follow each other without a hole, from `first` up to `stop`. -/
def Consecutive : ℕ → List Entry → ℕ → Prop
  | first, [], stop => stop = first
  | first, e :: es, stop => e.first = first ∧ Consecutive e.stop es stop

namespace Consecutive

variable {first middle stop : ℕ} {es fs : List Entry}

theorem le (h : Consecutive first es stop) : first ≤ stop := by
  induction es generalizing first with
  | nil => exact h.ge
  | cons e es ih =>
      have hfirst := h.1
      have hle := ih h.2
      rw [Entry.stop] at hle
      omega

theorem append (h : Consecutive first es middle) (h' : Consecutive middle fs stop) :
    Consecutive first (es ++ fs) stop := by
  induction es generalizing first with
  | nil =>
      obtain rfl : middle = first := h
      exact h'
  | cons e es ih => exact ⟨h.1, ih h.2⟩

theorem of_append (h : Consecutive first (es ++ fs) stop) :
    ∃ middle, Consecutive middle fs stop := by
  induction es generalizing first with
  | nil => exact ⟨first, h⟩
  | cons e es ih => exact ih h.2

theorem of_suffix (h : Consecutive first es stop) (hsuffix : fs <:+ es) :
    ∃ middle, Consecutive middle fs stop := by
  obtain ⟨gs, rfl⟩ := hsuffix
  exact h.of_append

/-- The offsets of consecutive entries. -/
theorem map_offset (h : Consecutive first es stop) :
    (es.flatMap Entry.records).map StoredRecord.offset = List.range' first (stop - first) := by
  induction es generalizing first with
  | nil =>
      obtain rfl : stop = first := h
      simp
  | cons e es ih =>
      have hle := le h.2
      rw [Entry.stop] at hle
      rw [List.flatMap_cons, List.map_append, ih h.2, Layout.map_offset_records, h.1,
        Entry.stop, h.1, List.range'_append_1]
      congr 1
      have hfirst := h.1
      omega

theorem recordEntries (clock : AppendClock) (next : ℕ) (records : List AppendRecord) :
    ∀ i, Consecutive (next + i) (PartitionLog.recordEntries clock next i records)
      (next + i + records.length) := by
  induction records with
  | nil => exact fun _ ↦ rfl
  | cons record records ih =>
      intro i
      refine ⟨rfl, ?_⟩
      have hrest := ih (i + 1)
      rw [show next + i + (record :: records).length = next + (i + 1) + records.length by
        rw [List.length_cons]; omega]
      exact hrest

end Consecutive

/-- The number of records a call appends. -/
def LogOp.count : LogOp → ℕ
  | append _ _ _ => 1
  | appendBatch _ records => records.length
  | appendEncodedBatch _ _ _ decodedRecords _ => decodedRecords.length
  | applyRetention _ _ => 0
  | reopen => 0

theorem LogOp.consecutive (op : LogOp) (next : ℕ) :
    Consecutive next (op.entries next) (next + op.count) := by
  cases op with
  | append clock key value => exact Consecutive.recordEntries clock next [⟨key, value⟩] 0
  | appendBatch clock records => exact Consecutive.recordEntries clock next records 0
  | appendEncodedBatch codec encodedRecords uncompressedBytes decodedRecords timestamp =>
      refine ⟨rfl, ?_⟩
      rw [LogOp.count, ← PartitionLog.length_batchRecords]
      rfl
  | applyRetention => rfl
  | reopen => rfl

/-! ## Steps -/

theorem PartitionLog.length_stageRecords {options : PartitionLogOptions} {clock : AppendClock}
    {original : ℕ} {records : List AppendRecord} :
    ∀ {i base size : ℕ}, (stageRecords options clock original i base size records).error = none →
      (stageRecords options clock original i base size records).records.length =
        records.length := by
  induction records with
  | nil => exact fun _ ↦ rfl
  | cons record rest ih =>
      intro i base size herror
      rw [stageRecords] at herror ⊢
      cases hencoded : encodeRecord ((original + i) % 2 ^ 64) (clock.timestamp i).toNat record.key
          record.value with
      | error message =>
          rw [hencoded] at herror
          cases herror
      | ok encoded =>
          simp only [hencoded] at herror ⊢
          rw [List.length_cons, List.length_cons, ih herror]

theorem PartitionLog.length_appendBatch {log log' : PartitionLog} {clock : AppendClock}
    {records : List AppendRecord} {metas : List RecordMetadata}
    (h : log.appendBatch clock none records = (log', .ok metas)) :
    metas.length = records.length := by
  rw [appendBatch] at h
  by_cases hnil : records = []
  · rw [if_pos hnil] at h
    rw [← Except.ok.inj (Prod.mk.inj h).2, hnil]
    rfl
  · rw [if_neg hnil] at h
    cases herror : (log.stageBatch clock records).error with
    | some message =>
        simp only [herror] at h
        cases (Prod.mk.inj h).2
    | none =>
        simp only [herror] at h
        rw [← Except.ok.inj (Prod.mk.inj h).2, List.length_map]
        exact length_stageRecords herror

namespace LogState

open PartitionLog

variable {Z : Zstd} {state state' : LogState}

/-- `append` is `append_batch` with one record. -/
theorem step_append {clock : AppendClock} {key value : Bytes}
    (h : state.step Z (.append clock key value) = some state') :
    state.step Z (.appendBatch clock [⟨key, value⟩]) = some state' := by
  unfold step at h ⊢
  simp only [append] at h ⊢
  cases happend : state.log.appendBatch clock none [⟨key, value⟩] with
  | mk log result =>
      rw [happend] at h
      cases result with
      | error message => cases h
      | ok metas =>
          cases metas with
          | nil => cases h
          | cons metadata rest =>
              rw [← h]
              simp [orError_some, ok_bind]

theorem step_appendBatch {clock : AppendClock} {records : List AppendRecord}
    (h : state.step Z (.appendBatch clock records) = some state') :
    ∃ metas, state.log.appendBatch clock none records = (state'.log, .ok metas) ∧
      state'.acked = state.acked ++ metas.zipWith acknowledged records := by
  unfold step at h
  cases happend : state.log.appendBatch clock none records with
  | mk log result =>
      cases result with
      | error message => simp [happend] at h
      | ok metas =>
          simp only [happend] at h
          rw [← Option.some.inj h]
          exact ⟨metas, rfl, rfl⟩

theorem step_appendEncodedBatch {codec : Codec} {encodedRecords : Bytes}
    {uncompressedBytes : UInt32} {decodedRecords : List AppendRecord} {timestamp : UInt64}
    (h : state.step Z (.appendEncodedBatch codec encodedRecords uncompressedBytes decodedRecords
      timestamp) = some state') :
    ∃ metadata, PartitionLog.appendEncodedBatch Z state.log codec encodedRecords
        uncompressedBytes decodedRecords timestamp none = (state'.log, .ok metadata) ∧
      state'.acked = state.acked ++ acknowledgedBatch metadata decodedRecords := by
  unfold step at h
  cases happend : PartitionLog.appendEncodedBatch Z state.log codec encodedRecords
      uncompressedBytes decodedRecords timestamp none with
  | mk log result =>
      cases result with
      | error message => simp [happend] at h
      | ok metadata =>
          simp only [happend] at h
          rw [← Option.some.inj h]
          exact ⟨metadata, rfl, rfl⟩

theorem step_applyRetention {env : RetentionEnv} {policy : RetentionPolicy}
    (h : state.step Z (.applyRetention env policy) = some state') :
    (∃ stats, state.log.applyRetention env policy = (state'.log, .ok stats)) ∧
      state'.acked = state.acked := by
  unfold step at h
  cases hretention : state.log.applyRetention env policy with
  | mk log result =>
      cases result with
      | error message => simp [hretention] at h
      | ok stats =>
          simp only [hretention] at h
          rw [← Option.some.inj h]
          exact ⟨⟨stats, rfl⟩, rfl⟩

theorem step_reopen (h : state.step Z .reopen = some state') :
    openLog Z state.log.options state.log.dir = .ok state'.log ∧ state'.acked = state.acked := by
  unfold step at h
  cases hopen : openLog Z state.log.options state.log.dir with
  | error message => simp [hopen] at h
  | ok log =>
      simp only [hopen] at h
      rw [← Option.some.inj h]
      exact ⟨rfl, rfl⟩

theorem length_acked_step {op : LogOp} (h : state.step Z op = some state') :
    state'.acked.length = state.acked.length + op.count := by
  have hbatch : ∀ clock records, state.step Z (.appendBatch clock records) = some state' →
      state'.acked.length = state.acked.length + records.length := by
    intro clock records h
    obtain ⟨metas, happend, hacked⟩ := step_appendBatch h
    rw [hacked, List.length_append, List.length_zipWith, length_appendBatch happend, min_self]
  cases op with
  | append clock key value => exact hbatch clock _ (step_append h)
  | appendBatch clock records => exact hbatch clock records h
  | appendEncodedBatch codec encodedRecords uncompressedBytes decodedRecords timestamp =>
      obtain ⟨metadata, -, hacked⟩ := step_appendEncodedBatch h
      rw [hacked, List.length_append, acknowledgedBatch, List.length_mapIdx]
      rfl
  | applyRetention env policy => rw [(step_applyRetention h).2]; rfl
  | reopen => rw [(step_reopen h).2]; rfl

end LogState

namespace LogState

open PartitionLog

variable {Z : Zstd} {options : PartitionLogOptions} {state state' : LogState} {layout : Layout}

/-- What a call does to the layout: the entries it adds come last, and those it
removes are whole segments. -/
structure Follows (Z : Zstd) (state state' : LogState) (op : LogOp) (layout layout' : Layout) :
    Prop where
  represents : state'.log.Represents Z layout'
  options : state'.log.options = state.log.options
  next : state'.log.nextOffset = state.log.nextOffset + op.count
  acked : state'.acked = state.acked ++ (op.entries state.log.nextOffset).flatMap Entry.records
  entries : layout'.entries.Sublist (layout.entries ++ op.entries state.log.nextOffset)
  ordered : op.AgesOrdered state.log →
    layout'.entries <:+ layout.entries ++ op.entries state.log.nextOffset
  appended : op.IsAppend →
    layout'.entries = layout.entries ++ op.entries state.log.nextOffset

/-- A call that removes nothing. -/
theorem Follows.of_entries_eq {op : LogOp} {layout' : Layout}
    (hrep : state'.log.Represents Z layout') (hoptions : state'.log.options = state.log.options)
    (hnext : state'.log.nextOffset = state.log.nextOffset + op.count)
    (hacked : state'.acked = state.acked ++
      (op.entries state.log.nextOffset).flatMap Entry.records)
    (hentries : layout'.entries = layout.entries ++ op.entries state.log.nextOffset) :
    Follows Z state state' op layout layout' :=
  ⟨hrep, hoptions, hnext, hacked, hentries ▸ List.Sublist.refl _,
    fun _ ↦ hentries ▸ List.suffix_refl _, fun _ ↦ hentries⟩

theorem records_batchEntry {metadata : BatchMetadata} {next : ℕ} {timestamp : UInt64}
    (hbase : metadata.baseOffset = next) (htimestamp : metadata.timestampUnixNs = timestamp.toNat)
    (codec : Codec) (encodedRecords : Bytes) (decodedRecords : List AppendRecord) :
    acknowledgedBatch metadata decodedRecords =
      (batchEntry next codec encodedRecords decodedRecords timestamp).records := by
  refine List.ext_getElem (by simp [acknowledgedBatch, batchEntry, Entry.records, batchRecords])
    fun i hi hi' ↦ ?_
  simp [acknowledgedBatch, batchEntry, Entry.records, batchRecords, hbase, htimestamp]

theorem follows_appendBatch (hrep : state.log.Represents Z layout) {clock : AppendClock}
    {records : List AppendRecord} (hbound : state.log.nextOffset + records.length < 2 ^ 64)
    (hstep : state.step Z (.appendBatch clock records) = some state') :
    ∃ layout', Follows Z state state' (.appendBatch clock records) layout layout' := by
  obtain ⟨metas, happend, hacked⟩ := step_appendBatch hstep
  obtain ⟨layout', hrep', hoptions', hnext', hentries, hmetas⟩ := hrep.appendBatch hbound happend
  exact ⟨layout', .of_entries_eq hrep' hoptions' hnext' (by rw [hacked, hmetas]; rfl) hentries⟩

/-- Every call that returns normally follows the layout.  A reopen needs entries
that decode. -/
theorem follows_step (hrep : state.log.Represents Z layout)
    (hopen : OpenOptions state.log.options) {op : LogOp} (hsized : op.Sized)
    (hbound : state.log.nextOffset + op.count < 2 ^ 64)
    (hreopen : op = .reopen →
      ∀ e ∈ layout.entries, e.Decodable state.log.options.maxUncompressedBatchBytes)
    (hstep : state.step Z op = some state') :
    ∃ layout', Follows Z state state' op layout layout' := by
  cases op with
  | append clock key value =>
      obtain ⟨layout', h⟩ :=
        follows_appendBatch hrep (by exact hbound) (step_append hstep)
      exact ⟨layout', h.represents, h.options, h.next, h.acked, h.entries, h.ordered, h.appended⟩
  | appendBatch clock records => exact follows_appendBatch hrep hbound hstep
  | appendEncodedBatch codec encodedRecords uncompressedBytes decodedRecords timestamp =>
      obtain ⟨metadata, happend, hacked⟩ := step_appendEncodedBatch hstep
      obtain ⟨-, layout', hrep', hoptions', hnext', hentries, hbase, htimestamp⟩ :=
        hrep.appendEncodedBatch hbound hsized happend
      rw [records_batchEntry hbase htimestamp codec encodedRecords] at hacked
      refine ⟨layout', .of_entries_eq hrep' hoptions' hnext' ?_ hentries⟩
      rw [hacked, LogOp.entries, List.flatMap_singleton]
  | applyRetention env policy =>
      obtain ⟨⟨stats, hretention⟩, hacked⟩ := step_applyRetention hstep
      obtain ⟨walk, hwalk, hrep', hoptions', hnext'⟩ := hrep.applyRetention hretention
      refine ⟨_, hrep', hoptions', hnext', by rw [hacked]; simp [LogOp.entries], ?_, ?_,
        fun h ↦ h.elim⟩
      · rw [LogOp.entries, List.append_nil]
        exact List.filter_sublist.flatMap _
      · intro hages
        rw [LogOp.entries, List.append_nil]
        exact hrep.retention_suffix hages hwalk
  | reopen =>
      obtain ⟨hopened, hacked⟩ := step_reopen hstep
      obtain ⟨log', hopened', hoptions', hnext', hrep'⟩ :=
        hrep.openLog hopen (hreopen rfl) state.log.dir.indexes
      obtain rfl : state'.log = log' := Except.ok.inj (hopened.symm.trans hopened')
      refine ⟨layout, .of_entries_eq hrep' hoptions' hnext' ?_ ?_⟩
      · rw [hacked]
        simp [LogOp.entries]
      · rw [LogOp.entries, List.append_nil]

/-- The log follows the layout and the acknowledged records: the i-th of them
has offset i, and the layout holds those that were not removed. -/
structure Tracks (Z : Zstd) (options : PartitionLogOptions) (state : LogState)
    (layout : Layout) : Prop where
  represents : state.log.Represents Z layout
  options : state.log.options = options
  offsets : state.acked.map StoredRecord.offset = List.range state.acked.length
  next : state.log.nextOffset = state.acked.length
  kept : layout.records.Sublist state.acked

theorem Tracks.follow (h : state.Tracks Z options layout) {op : LogOp} {layout' : Layout}
    (hfollows : Follows Z state state' op layout layout') : state'.Tracks Z options layout' := by
  have hoffsets := (op.consecutive state.log.nextOffset).map_offset
  rw [Nat.add_sub_cancel_left] at hoffsets
  have hlength : state'.acked.length = state.acked.length + op.count := by
    have hcount := congrArg List.length hoffsets
    rw [List.length_map, List.length_range'] at hcount
    rw [hfollows.acked, List.length_append, hcount]
  refine ⟨hfollows.represents, hfollows.options.trans h.options, ?_, ?_, ?_⟩
  · rw [hlength, hfollows.acked, List.map_append, h.offsets, hoffsets, h.next,
      List.range_eq_range', List.range_eq_range']
    simpa using List.range'_append_1 (s := 0) (m := state.acked.length) (n := op.count)
  · rw [hfollows.next, hlength, h.next]
  · rw [hfollows.acked]
    refine (hfollows.entries.flatMap Entry.records).trans ?_
    rw [List.flatMap_append]
    exact h.kept.append (List.Sublist.refl _)

theorem Tracks.step (h : state.Tracks Z options layout) (hopen : OpenOptions options)
    {op : LogOp} (hsized : op.Sized) (hbound : state'.acked.length < 2 ^ 64)
    (hreopen : op = .reopen →
      ∀ e ∈ layout.entries, e.Decodable options.maxUncompressedBatchBytes)
    (hstep : state.step Z op = some state') :
    ∃ layout', state'.Tracks Z options layout' ∧ Follows Z state state' op layout layout' := by
  have hlength := length_acked_step hstep
  obtain ⟨layout', hfollows⟩ := follows_step h.represents (h.options ▸ hopen) hsized
    (by rw [h.next]; omega) (fun hop ↦ h.options ▸ hreopen hop) hstep
  exact ⟨layout', h.follow hfollows, hfollows⟩

/-! ## Runs -/

theorem openOptions_of_openLog {dir : Directory} {log : PartitionLog}
    (h : openLog Z options dir = .ok log) : OpenOptions options := by
  rw [openLog] at h
  split_ifs at h with htopic hsegment
  exact ⟨by simpa using htopic, hsegment⟩

/-- The log opened on an empty directory. -/
theorem tracks_opened {log : PartitionLog} (h : openLog Z options {} = .ok log) :
    ∃ layout : Layout, Tracks Z options ⟨log, []⟩ layout ∧ layout.entries = [] := by
  have hplaced : Layout.WellPlaced [] 0 :=
    ⟨List.Pairwise.nil, List.Pairwise.nil, by simp, by simp [Layout.entries],
      by simp [Layout.entries], fun _ ↦ rfl⟩
  obtain ⟨log', hopened, hoptions, hnext, hrep⟩ := openLog_files (Z := Z)
    (openOptions_of_openLog h) hplaced (by norm_num) (by simp [Layout.entries]) []
  obtain rfl : log = log' := Except.ok.inj (h.symm.trans hopened)
  have hentries : (Layout.touch [] log.activeSegmentBase).entries = [] :=
    Layout.entries_touch [] log.activeSegmentBase
  exact ⟨_, ⟨hrep, hoptions, rfl, hnext, by rw [Layout.records, hentries]; exact .slnil⟩, hentries⟩

theorem validate_of_appendEncodedBatch {log log' : PartitionLog} {codec : Codec}
    {encodedRecords : Bytes} {uncompressedBytes : UInt32} {decodedRecords : List AppendRecord}
    {timestamp : UInt64} {metadata : BatchMetadata}
    (h : PartitionLog.appendEncodedBatch Z log codec encodedRecords uncompressedBytes
      decodedRecords timestamp none = (log', .ok metadata)) :
    validateEncodedBatch Z log.options codec encodedRecords uncompressedBytes decodedRecords =
      .ok () := by
  unfold PartitionLog.appendEncodedBatch at h
  cases hvalid : validateEncodedBatch Z log.options codec encodedRecords uncompressedBytes
      decodedRecords with
  | error message =>
      rw [hvalid] at h
      cases (Prod.mk.inj h).2
  | ok => rfl

theorem decodable_recordEntries (limit : ℕ) (clock : AppendClock) (next : ℕ)
    (records : List AppendRecord) :
    ∀ i, ∀ e ∈ recordEntries clock next i records, e.Decodable limit := by
  induction records with
  | nil => intro i e he; cases he
  | cons record records ih =>
      intro i e he
      rcases List.mem_cons.mp he with rfl | he
      · trivial
      · exact ih (i + 1) e he

/-- What the decoders ask of the batch behind an accepted call: its values. -/
theorem decodable_batchEntry_iff {codec : Codec} {encodedRecords : Bytes}
    {uncompressedBytes : UInt32} {decodedRecords : List AppendRecord}
    (hvalid : validateEncodedBatch Z options codec encodedRecords uncompressedBytes
      decodedRecords = .ok ()) (next : ℕ) (timestamp : UInt64) :
    (batchEntry next codec encodedRecords decodedRecords timestamp).Decodable
        options.maxUncompressedBatchBytes ↔ ∀ record ∈ decodedRecords, record.value ≠ [] := by
  obtain ⟨-, -, -, hdecompress⟩ := validateEncodedBatch_ok hvalid
  refine ⟨fun h record hrecord ↦ h.2 _ (List.mem_map_of_mem hrecord), fun h ↦ ?_⟩
  refine ⟨decompress_le hdecompress, fun r hr ↦ ?_⟩
  obtain ⟨record, hrecord, rfl⟩ := List.mem_map.mp hr
  exact h record hrecord

/-- What a limit asks of the entries of an append. -/
theorem decodable_entries_iff {op : LogOp} (hstep : state.step Z op = some state')
    (happend : op.IsAppend) {next limit : ℕ} :
    (∀ e ∈ op.entries next, e.Decodable limit) ↔ op.WithinLimit limit := by
  cases op with
  | append clock key value =>
      exact iff_of_true (decodable_recordEntries _ clock next _ 0) trivial
  | appendBatch clock records =>
      exact iff_of_true (decodable_recordEntries _ clock next records 0) trivial
  | appendEncodedBatch codec encodedRecords uncompressedBytes decodedRecords timestamp =>
      obtain ⟨metadata, happend, -⟩ := step_appendEncodedBatch hstep
      obtain ⟨-, -, hsize, -⟩ := validateEncodedBatch_ok (validate_of_appendEncodedBatch happend)
      rw [LogOp.WithinLimit, LogOp.entries, List.forall_mem_singleton, batchEntry,
        Entry.Decodable, hsize, batchRecords, List.forall_mem_map]
  | applyRetention => exact happend.elim
  | reopen => exact happend.elim

theorem decodable_entries {op : LogOp} (hstep : state.step Z op = some state')
    (hvalues : op.ValuesPresent) (next : ℕ) :
    ∀ e ∈ op.entries next, e.Decodable state.log.options.maxUncompressedBatchBytes := by
  cases op with
  | append clock key value => exact decodable_recordEntries _ clock next _ 0
  | appendBatch clock records => exact decodable_recordEntries _ clock next records 0
  | appendEncodedBatch codec encodedRecords uncompressedBytes decodedRecords timestamp =>
      obtain ⟨metadata, happend, -⟩ := step_appendEncodedBatch hstep
      intro e he
      rw [List.mem_singleton.mp he]
      exact (decodable_batchEntry_iff (validate_of_appendEncodedBatch happend) next
        timestamp).mpr hvalues
  | applyRetention => intro e he; cases he
  | reopen => intro e he; cases he

theorem length_acked_run {ops : List LogOp} (hrun : run (LogState.step Z) state ops = some state') :
    state.acked.length ≤ state'.acked.length := by
  refine run_invariant (fun _ _ ↦ True) (fun other ↦ state.acked.length ≤ other.acked.length) ?_
    (along_of_forall (fun _ _ _ ↦ trivial) _) hrun le_rfl
  intro s op t _ hstep hle
  have hlength := length_acked_step hstep
  omega

/-- The layout of a run, all of whose entries decode. -/
def TracksDecodable (Z : Zstd) (options : PartitionLogOptions) (state : LogState)
    (layout : Layout) : Prop :=
  state.Tracks Z options layout ∧
    ∀ e ∈ layout.entries, e.Decodable options.maxUncompressedBatchBytes

theorem TracksDecodable.step (h : TracksDecodable Z options state layout)
    (hopen : OpenOptions options) {op : LogOp} (hsized : op.Sized) (hvalues : op.ValuesPresent)
    (hbound : state'.acked.length < 2 ^ 64) (hstep : state.step Z op = some state') :
    ∃ layout', TracksDecodable Z options state' layout' ∧
      Follows Z state state' op layout layout' := by
  obtain ⟨htracks, hdecodable⟩ := h
  obtain ⟨layout', htracks', hfollows⟩ :=
    htracks.step hopen hsized hbound (fun _ ↦ hdecodable) hstep
  refine ⟨layout', ⟨htracks', fun e he ↦ ?_⟩, hfollows⟩
  rcases List.mem_append.mp (hfollows.entries.subset he) with he | he
  · exact hdecodable e he
  · exact htracks.options ▸ decodable_entries hstep hvalues _ e he

/-- Along a run whose encoded batches fit the format and have values, the log
tracks a layout that decodes. -/
theorem run_tracksDecodable {log : PartitionLog} {ops : List LogOp}
    (hopened : openLog Z options {} = .ok log) (hsized : ∀ op ∈ ops, op.Sized)
    (hvalues : ∀ op ∈ ops, op.ValuesPresent)
    (hrun : run (step Z) ⟨log, []⟩ ops = some state) (hbound : state.acked.length < 2 ^ 64) :
    ∃ layout, TracksDecodable Z options state layout := by
  refine run_invariant (fun _ op ↦ op.Sized ∧ op.ValuesPresent)
    (fun state ↦ state.acked.length < 2 ^ 64 →
      ∃ layout, TracksDecodable Z options state layout) ?_
    (along_of_forall (fun op hop _ ↦ ⟨hsized op hop, hvalues op hop⟩) _) hrun ?_ hbound
  · intro state op state' ⟨hsized, hvalues⟩ hstep hinv hbound
    have hlength := length_acked_step hstep
    obtain ⟨layout, hlayout⟩ := hinv (by omega)
    obtain ⟨layout', hlayout', -⟩ :=
      hlayout.step (openOptions_of_openLog hopened) hsized hvalues hbound hstep
    exact ⟨layout', hlayout'⟩
  · intro _
    obtain ⟨layout, hlayout, hnil⟩ := tracks_opened hopened
    exact ⟨layout, hlayout, by simp [hnil]⟩

/-- A sublist is found again by its keys. -/
theorem filter_mem_of_sublist {α β : Type*} [DecidableEq β] {f : α → β} {l m : List α}
    (hsub : l.Sublist m) (hnodup : (m.map f).Nodup) :
    (m.filter fun x ↦ f x ∈ l.map f) = l := by
  induction hsub with
  | slnil => rfl
  | @cons l m a hsub ih =>
      rw [List.map_cons, List.nodup_cons] at hnodup
      have ha : f a ∉ l.map f := fun h ↦ hnodup.1 ((hsub.map f).subset h)
      rw [List.filter_cons_of_neg (by simpa using ha), ih hnodup.2]
  | @cons_cons l m a hsub ih =>
      rw [List.map_cons, List.nodup_cons] at hnodup
      rw [List.filter_cons_of_pos (by simp)]
      congr 1
      rw [← ih hnodup.2]
      refine List.filter_congr fun x hx ↦ ?_
      have hne : f x ≠ f a := fun h ↦ hnodup.1 (h ▸ List.mem_map_of_mem hx)
      simp only [List.map_cons, List.mem_cons, hne, false_or, ih hnodup.2]

/-- The retained records are those of the layout. -/
theorem Tracks.retained_eq (h : state.Tracks Z options layout) :
    state.retained = layout.records := by
  have hindex : state.log.index.map IndexEntry.offset =
      layout.records.map StoredRecord.offset := by
    rw [h.represents.index]
    exact Layout.map_offset_index fun e he ↦ (h.represents.written e he).stop_lt
  have hnodup : (state.acked.map StoredRecord.offset).Nodup := by
    rw [h.offsets]
    exact List.nodup_range
  rw [retained, hindex]
  exact filter_mem_of_sublist h.kept hnodup

end LogState

/-! ## Small logs -/

/-- A log with small segments. -/
def smallSegments : PartitionLogOptions :=
  { topic := [116]
    partitionId := 0
    maxSegmentBytes := 60
    segmentMaxAgeSeconds := 0
    maxUncompressedBatchBytes := 1048576 }

def stillClock : AppendClock := { timestamp := fun _ ↦ 7, age := fun _ ↦ ⟨none, 0⟩ }

end BoltStream.Storage
