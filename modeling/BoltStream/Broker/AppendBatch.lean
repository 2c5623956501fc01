import BoltStream.Protocol.Messages
import BoltStream.Storage.Failures

/-!
# Appending a batch of jobs

`run_append_batch` appends the records of its jobs and then runs a retention
pass, both in one `try` block.  A job that is answered with success is stored,
unless that retention pass has already removed its segment.  When the append
fails nothing is stored.
-/

namespace BoltStream.Broker

open BoltStream.Lib BoltStream.Protocol BoltStream.Compression BoltStream.Storage

structure ProduceResult where
  ok : Bool := false
  response : ProduceResponse := {}
  error : ErrorCode := .internalError
  message : String := ""
  deriving DecidableEq, Repr

/-- The calls `run_append_batch` makes on the metrics registry. -/
inductive MetricEvent where
  | recordsProduced (count : ℕ)
  | appendBatch (records : ℕ)
  | retentionRun (segmentsDeleted bytesDeleted : ℕ)
  | retentionFailure
  deriving DecidableEq, Repr

/-- The partition log afterwards, the answers, and what else was done. -/
structure AppendOutcome where
  log : PartitionLog
  results : List ProduceResult
  metrics : List MetricEvent
  /-- The partition whose fetch waiters were notified. -/
  notified : Option (Bytes × ℕ)

def appendRecord (request : ProduceRequest) : AppendRecord := ⟨request.key, request.message⟩

def produced (metadata : RecordMetadata) : ProduceResult :=
  { ok := true
    response :=
      { topic := metadata.topic
        partition := metadata.partition
        offset := metadata.offset
        nextOffset := (metadata.offset + 1) % 2 ^ 64
        encodedByteSize := metadata.encodedByteSize } }

def failed (message : String) (result : ProduceResult) : ProduceResult :=
  { result with ok := false, error := .internalError, message := message }

/-- Waiters are notified when the first job succeeded. -/
def AppendOutcome.answer (log : PartitionLog) (results : List ProduceResult)
    (metrics : List MetricEvent) : AppendOutcome :=
  { log := log
    results := results
    metrics := metrics
    notified :=
      match results.head? with
      | some result =>
          if result.ok then some (result.response.topic, result.response.partition) else none
      | none => none }

def runAppendBatch (log : PartitionLog) (clock : AppendClock) (fault : Option AppendFault)
    (env : RetentionEnv) (policy : RetentionPolicy) (jobs : List ProduceRequest) : AppendOutcome :=
  match log.appendBatch clock fault (jobs.map appendRecord) with
  | (log, .error message) =>
      .answer log ((List.replicate jobs.length {}).map (failed message)) []
  | (log, .ok metadata) =>
      let results := metadata.map produced ++ List.replicate (jobs.length - metadata.length) {}
      let metrics := [.recordsProduced metadata.length, .appendBatch metadata.length]
      match log.applyRetention env policy with
      | (log, .error message) =>
          .answer log (results.map (failed message)) (metrics ++ [.retentionFailure])
      | (log, .ok stats) =>
          .answer log results
            (metrics ++ [.retentionRun stats.segmentsDeleted stats.bytesDeleted])

/-! ## Partition states -/

/-- What the broker does with a partition.  Every call may fail. -/
inductive PartitionEvent where
  | appendJobs (clock : AppendClock) (fault : Option AppendFault) (env : RetentionEnv)
      (policy : RetentionPolicy) (jobs : List ProduceRequest)
  | produceBatch (codec : Codec) (encodedRecords : Bytes) (uncompressedBytes : UInt32)
      (decodedRecords : List AppendRecord) (timestamp : UInt64) (fault : Option AppendFault)
  | runRetention (env : RetentionEnv) (policy : RetentionPolicy)
  | restart

namespace PartitionEvent

def step (Z : Zstd) (log : PartitionLog) : PartitionEvent → Option PartitionLog
  | appendJobs clock fault env policy jobs =>
      some (runAppendBatch log clock fault env policy jobs).log
  | produceBatch codec encodedRecords uncompressedBytes decodedRecords timestamp fault =>
      some (PartitionLog.appendEncodedBatch Z log codec encodedRecords uncompressedBytes
        decodedRecords timestamp fault).1
  | runRetention env policy => some (log.applyRetention env policy).1
  | restart => (PartitionLog.openLog Z log.options log.dir).toOption

/-- A batch as it can come from a client: it fits a frame and has no empty value. -/
def Sent : PartitionEvent → Prop
  | produceBatch _ encodedRecords _ decodedRecords _ _ =>
      encodedRecords.length + 40 < 2 ^ 32 ∧ ∀ record ∈ decodedRecords, record.value ≠ []
  | _ => True

/-- The number of records an event can add. -/
def count : PartitionEvent → ℕ
  | appendJobs _ _ _ _ jobs => jobs.length
  | produceBatch _ _ _ decodedRecords _ _ => decodedRecords.length
  | _ => 0

end PartitionEvent

open PartitionLog

section Stores

variable {Z : Zstd} {log log' : PartitionLog} {layout : Layout}

/-- Some records were appended, so no file operation failed. -/
theorem fault_of_appendBatch {clock : AppendClock} {fault : Option AppendFault}
    {records : List AppendRecord} (hne : records ≠ []) {metas : List RecordMetadata}
    (h : log.appendBatch clock fault records = (log', .ok metas)) : fault = none := by
  cases fault with
  | none => rfl
  | some fault =>
      rw [appendBatch, if_neg hne] at h
      cases (Prod.mk.inj h).2

/-- A log keeps storing a layout when records are appended, or fail to be. -/
theorem stores_appendBatch (h : log.Stores Z layout) {clock : AppendClock}
    {fault : Option AppendFault} {records : List AppendRecord}
    {result : Except String (List RecordMetadata)}
    (hbound : log.nextOffset + records.length < 2 ^ 64)
    (happend : log.appendBatch clock fault records = (log', result)) :
    ∃ layout', log'.Stores Z layout' ∧ log'.options = log.options ∧
      log'.nextOffset ≤ log.nextOffset + records.length := by
  cases result with
  | error message =>
      obtain ⟨hlogs, hindex, hnext, hoptions⟩ := appendBatch_error h.sorted happend
      exact ⟨layout, h.congr hlogs hindex hnext hoptions, hoptions, by omega⟩
  | ok metas =>
      by_cases hnil : records = []
      · rw [appendBatch, if_pos hnil] at happend
        obtain ⟨rfl, -⟩ := Prod.mk.inj happend
        exact ⟨layout, h, rfl, by omega⟩
      · obtain rfl := fault_of_appendBatch hnil happend
        obtain ⟨layout', happended, hnext, -⟩ := h.appendBatch hnil hbound happend
        exact ⟨layout', happended.stores, happended.options, hnext.le⟩

/-- A log keeps storing a layout when a batch of jobs is run on it. -/
theorem stores_runAppendBatch (h : log.Stores Z layout) {jobs : List ProduceRequest}
    (hbound : log.nextOffset + jobs.length < 2 ^ 64) (clock : AppendClock)
    (fault : Option AppendFault) (env : RetentionEnv) (policy : RetentionPolicy) :
    ∃ layout', (runAppendBatch log clock fault env policy jobs).log.Stores Z layout' ∧
      (runAppendBatch log clock fault env policy jobs).log.options = log.options ∧
      (runAppendBatch log clock fault env policy jobs).log.nextOffset ≤
        log.nextOffset + jobs.length := by
  unfold runAppendBatch
  cases happend : log.appendBatch clock fault (jobs.map appendRecord) with
  | mk appended result =>
      obtain ⟨layout', hstores, hoptions, hnext⟩ := stores_appendBatch h
        (by rw [List.length_map]; exact hbound) happend
      rw [List.length_map] at hnext
      cases result with
      | error message => exact ⟨layout', hstores, hoptions, hnext⟩
      | ok metas =>
          dsimp only
          cases hretention : appended.applyRetention env policy with
          | mk kept result =>
              obtain ⟨gone, hkept, hoptions', hnext', -⟩ := hstores.applyRetention hretention
              have hnext' : kept.nextOffset ≤ log.nextOffset + jobs.length := by omega
              cases result <;> exact ⟨_, hkept, hoptions'.trans hoptions, hnext'⟩

/-- One event. -/
theorem stores_step (h : log.Stores Z layout) (hoptions : OpenOptions log.options)
    {event : PartitionEvent} (hsent : event.Sent)
    (hbound : log.nextOffset + event.count < 2 ^ 64) (hstep : event.step Z log = some log') :
    ∃ layout', log'.Stores Z layout' ∧ log'.options = log.options ∧
      log'.nextOffset ≤ log.nextOffset + event.count := by
  cases event with
  | appendJobs clock fault env policy jobs =>
      obtain rfl := Option.some.inj hstep
      exact stores_runAppendBatch h hbound clock fault env policy
  | produceBatch codec encodedRecords uncompressedBytes decodedRecords timestamp fault =>
      obtain rfl := Option.some.inj hstep
      cases happend : appendEncodedBatch Z log codec encodedRecords uncompressedBytes
          decodedRecords timestamp fault with
      | mk log' result =>
          cases result with
          | error message =>
              obtain ⟨layout', hstores, hoptions', hnext⟩ := h.appendEncodedBatch_error happend
              exact ⟨layout', hstores, hoptions', by rw [hnext]; omega⟩
          | ok metadata =>
              cases fault with
              | none =>
                  obtain ⟨layout', staged, happended, hnext⟩ :=
                    h.appendEncodedBatch hbound hsent.1 hsent.2 happend
                  exact ⟨layout', happended.stores, happended.options, hnext.le⟩
              | some fault =>
                  unfold appendEncodedBatch at happend
                  split at happend <;> cases (Prod.mk.inj happend).2
  | runRetention env policy =>
      obtain rfl := Option.some.inj hstep
      cases hretention : log.applyRetention env policy with
      | mk kept result =>
          obtain ⟨gone, hkept, hoptions', hnext, -⟩ := h.applyRetention hretention
          exact ⟨_, hkept, hoptions', hnext.le⟩
  | restart =>
      obtain ⟨log'', layout', hopened, hstores, hoptions', hnext⟩ := h.openLog hoptions
      rw [PartitionEvent.step, hopened] at hstep
      obtain rfl := Option.some.inj hstep
      exact ⟨layout', hstores, hoptions', hnext.le⟩

/-- Every state of a partition stores a layout. -/
theorem stores_run {events : List PartitionEvent} (h : log.Stores Z layout)
    (hoptions : OpenOptions log.options) (hsent : ∀ event ∈ events, event.Sent)
    (hbound : log.nextOffset + (events.map PartitionEvent.count).sum < 2 ^ 64)
    (hrun : run (PartitionEvent.step Z) log events = some log') :
    ∃ layout', log'.Stores Z layout' ∧
      log'.nextOffset ≤ log.nextOffset + (events.map PartitionEvent.count).sum := by
  induction events generalizing log layout with
  | nil =>
      obtain rfl := Option.some.inj hrun
      exact ⟨layout, h, by simp⟩
  | cons event events ih =>
      obtain ⟨middle, hstep, hrest⟩ := run_cons hrun
      rw [List.map_cons, List.sum_cons] at hbound
      obtain ⟨layout', hstores, hoptions', hnext⟩ := stores_step h hoptions
        (hsent event List.mem_cons_self) (by omega) hstep
      obtain ⟨layout'', hstores', hnext'⟩ := ih hstores (hoptions' ▸ hoptions)
        (fun other hother ↦ hsent other (List.mem_cons_of_mem event hother)) (by omega) hrest
      refine ⟨layout'', hstores', ?_⟩
      rw [List.map_cons, List.sum_cons]
      omega

end Stores

/-! ## What the answers say -/

/-- The record of a request is read at an offset. -/
def StoredAt (Z : Zstd) (log : PartitionLog) (offset : ℕ) (request : ProduceRequest) : Prop :=
  ∃ timestamp, (log.readFrom Z offset 1 0).map (List.map Record.stored) =
    .ok [⟨offset, timestamp, request.key, request.message⟩]

/-- Every job answered with an error is not stored, and every job answered with
success is. -/
def AnswersTruly (Z : Zstd) (log : PartitionLog) (jobs : List ProduceRequest)
    (outcome : AppendOutcome) : Prop :=
  ∀ (i : ℕ) (request : ProduceRequest) (result : ProduceResult), jobs[i]? = some request →
    outcome.results[i]? = some result →
    (result.ok = false → ∀ offset, log.nextOffset ≤ offset →
      ¬ StoredAt Z outcome.log offset request) ∧
    (result.ok = true → StoredAt Z outcome.log result.response.offset request)

/-- The segment of a record was due for deletion, and not the active one. -/
def DueForDeletion (log : PartitionLog) (env : RetentionEnv) (policy : RetentionPolicy)
    (offset : ℕ) : Prop :=
  ∃ entry ∈ log.index, entry.offset = offset ∧ entry.segment ≠ log.activeSegmentBase ∧
    ∃ summary ∈ log.segmentSummaries, summary.baseOffset = entry.segment ∧
      ∃ totalBytes ≤ (log.segmentSummaries.map SegmentSummary.logBytes).sum,
        deletionDue env policy totalBytes summary = true

section Answers

variable {Z : Zstd} {log appended kept : PartitionLog} {layout : Layout}

/-- A failed append: no job is answered with success and nothing is stored. -/
theorem runAppendBatch_failed (h : log.Stores Z layout) {clock : AppendClock}
    {fault : Option AppendFault} {jobs : List ProduceRequest} {message : String}
    (happend : log.appendBatch clock fault (jobs.map appendRecord) = (appended, .error message))
    (env : RetentionEnv) (policy : RetentionPolicy) :
    (∀ result ∈ (runAppendBatch log clock fault env policy jobs).results,
        result.ok = false ∧ result.message = message) ∧
      (runAppendBatch log clock fault env policy jobs).log.dir.logs = log.dir.logs ∧
      (runAppendBatch log clock fault env policy jobs).log.index = log.index ∧
      (runAppendBatch log clock fault env policy jobs).log.nextOffset = log.nextOffset ∧
      ∀ offset, log.nextOffset ≤ offset → ∀ maxRecords,
        (runAppendBatch log clock fault env policy jobs).log.readFrom Z offset maxRecords 0 =
          .ok [] := by
  obtain ⟨hlogs, hindex, hnext, -⟩ := appendBatch_error h.sorted happend
  unfold runAppendBatch
  rw [happend]
  refine ⟨fun result hresult ↦ ?_, hlogs, hindex, hnext, fun offset hoffset maxRecords ↦ ?_⟩
  · obtain ⟨blank, -, rfl⟩ := List.mem_map.mp hresult
    exact ⟨rfl, rfl⟩
  · have hbelow : ∀ entry ∈ appended.index, entry.offset < offset := fun entry hentry ↦ by
      have hlt := (h.below entry (hindex ▸ hentry)).1
      omega
    have hloop : readLoop Z appended offset maxRecords 0 (appended.index ++ []) 0 0 = .ok [] :=
      readLoop_below maxRecords 0 hbelow [] 0 0
    rw [List.append_nil] at hloop
    exact hloop

/-- The index entry of one record of an appended batch. -/
theorem appendBatch_entry (h : log.Stores Z layout) {clock : AppendClock}
    {records : List AppendRecord} (hne : records ≠ [])
    (hbound : log.nextOffset + records.length < 2 ^ 64) {metas : List RecordMetadata}
    (happend : log.appendBatch clock none records = (appended, .ok metas)) {i : ℕ}
    {record : AppendRecord} (hrecord : records[i]? = some record) :
    ∃ metadata front entry back, metas[i]? = some metadata ∧
      metadata.offset = log.nextOffset + i ∧ appended.index = front ++ entry :: back ∧
      (∀ older ∈ front, older.offset < log.nextOffset + i) ∧
      appended.ReadsAs Z entry (acknowledged metadata record) := by
  have hmetas := length_appendBatch happend
  obtain ⟨layout', happended, -, hacked⟩ := h.appendBatch hne hbound happend
  have hi : i < records.length := (List.getElem?_eq_some_iff.mp hrecord).1
  obtain ⟨metadata, hmetadata⟩ : ∃ metadata, metas[i]? = some metadata :=
    ⟨metas[i], List.getElem?_eq_getElem (by omega)⟩
  have hoffsets := (Consecutive.recordEntries clock log.nextOffset records 0).map_offset
  rw [Nat.add_zero, Nat.add_sub_cancel_left, ← hacked] at hoffsets
  have hreads := happended.readsAs
  rw [← hacked] at hreads
  set acked := List.zipWith acknowledged metas records with hacked'
  set staged := (log.stageBatch clock records).records.map StagedRecord.entry
  have hget : acked[i]? = some (acknowledged metadata record) := by
    rw [hacked', List.getElem?_zipWith, hmetadata, hrecord]
  have hoffset : metadata.offset = log.nextOffset + i := by
    have hoffset := congrArg (fun offsets ↦ offsets[i]?) hoffsets
    simp only [List.getElem?_map, hget, List.getElem?_range' hi, Option.map_some,
      Option.some.injEq] at hoffset
    simpa [acknowledged] using hoffset
  have hstaged : staged.map IndexEntry.offset = List.range' log.nextOffset records.length := by
    rw [← hoffsets]
    exact List.forall₂_eq_eq_eq ▸ List.forall₂_map_left_iff.mpr
      (List.forall₂_map_right_iff.mpr (hreads.imp fun _ _ hread ↦ hread.1))
  have hj : i < staged.length := by
    have hlength := congrArg List.length hstaged
    rw [List.length_map, List.length_range'] at hlength
    omega
  refine ⟨metadata, log.index ++ staged.take i, staged[i], staged.drop (i + 1), hmetadata, hoffset,
    ?_, fun older holder ↦ ?_, ?_⟩
  · rw [happended.index, List.append_assoc, List.getElem_cons_drop, List.take_append_drop]
  · rcases List.mem_append.mp holder with hold | hold
    · have hlt := (h.below older hold).1
      omega
    · have hmem := List.mem_map_of_mem (f := IndexEntry.offset) hold
      rw [List.map_take, hstaged, List.take_range'_of_length_ge hi.le, List.mem_range'_1] at hmem
      omega
  · obtain ⟨hk, hget⟩ := List.getElem?_eq_some_iff.mp hget
    rw [← hget]
    exact (List.forall₂_iff_get.mp hreads).2 i hj hk

/-- A job of a batch that was appended, and whose retention pass succeeded. -/
theorem runAppendBatch_stored (h : log.Stores Z layout) {clock : AppendClock}
    {fault : Option AppendFault} {jobs : List ProduceRequest} (hjobs : jobs ≠ [])
    (hbound : log.nextOffset + jobs.length < 2 ^ 64) {metas : List RecordMetadata}
    (happend : log.appendBatch clock fault (jobs.map appendRecord) = (appended, .ok metas))
    {env : RetentionEnv} {policy : RetentionPolicy} {stats : RetentionStats}
    (hretention : appended.applyRetention env policy = (kept, .ok stats)) {i : ℕ}
    {request : ProduceRequest} (hrequest : jobs[i]? = some request) :
    ∃ result, (runAppendBatch log clock fault env policy jobs).results[i]? = some result ∧
      result.ok = true ∧ result.response.offset = log.nextOffset + i ∧
      (StoredAt Z (runAppendBatch log clock fault env policy jobs).log (log.nextOffset + i)
          request ∨
        DueForDeletion appended env policy (log.nextOffset + i)) := by
  have hne : jobs.map appendRecord ≠ [] := fun hnil ↦ hjobs (List.map_eq_nil_iff.mp hnil)
  have hbound : log.nextOffset + (jobs.map appendRecord).length < 2 ^ 64 := by
    rw [List.length_map]
    exact hbound
  obtain rfl := fault_of_appendBatch hne happend
  obtain ⟨metadata, front, entry, back, hmetadata, hoffset, hindex, hfront, hread⟩ :=
    appendBatch_entry h hne hbound happend (show (jobs.map appendRecord)[i]? =
      some (appendRecord request) by rw [List.getElem?_map, hrequest]; rfl)
  have houtcome : (runAppendBatch log clock none env policy jobs).log = kept ∧
      (runAppendBatch log clock none env policy jobs).results[i]? = some (produced metadata) := by
    have hi : i < metas.length := (List.getElem?_eq_some_iff.mp hmetadata).1
    unfold runAppendBatch
    rw [happend]
    simp only [hretention]
    refine ⟨rfl, ?_⟩
    change (metas.map produced ++ _)[i]? = _
    rw [List.getElem?_append_left (by rw [List.length_map]; exact hi), List.getElem?_map, hmetadata]
    rfl
  refine ⟨produced metadata, houtcome.2, rfl, hoffset, ?_⟩
  rw [houtcome.1]
  obtain ⟨layout', happended, -⟩ := h.appendBatch hne hbound happend
  obtain ⟨gone, -, hoptions, -, hlogs, hgone, hkept⟩ := happended.stores.applyRetention hretention
  have hkept : kept.index = appended.index.filter fun entry ↦ entry.segment ∉ gone := by
    rcases hkept with hkept | ⟨-, message, herror⟩
    · exact hkept
    · cases herror
  by_cases hsegment : entry.segment ∈ gone
  · refine Or.inr ⟨entry, by rw [hindex]; simp, hread.1.trans hoffset, ?_, hgone _ hsegment⟩
    exact fun hactive ↦ active_not_mem_gone hgone (hactive ▸ hsegment)
  · refine Or.inl ⟨metadata.timestampUnixNs, ?_⟩
    rw [hindex, List.filter_append, List.filter_cons_of_pos (by simpa using hsegment)] at hkept
    rw [← hoffset] at hfront ⊢
    refine readFrom_one (r := acknowledged metadata (appendRecord request)) hkept
      (fun older holder ↦ hfront older (List.mem_filter.mp holder).1) ?_
    obtain ⟨hreadOffset, record, hrecord, hstored⟩ := hread
    refine ⟨hreadOffset, record, ?_, hstored⟩
    rw [← hrecord]
    refine readEntry_congr hoptions ?_
    rw [hlogs, FileTable.content?_filter _ fun name ↦ decide (name ∉ gone),
      if_pos (by simpa using hsegment)]

end Answers

/-- No job is answered with success, and the log is as it was. -/
structure NothingStored (Z : Zstd) (log : PartitionLog) (outcome : AppendOutcome) : Prop where
  answers : ∀ result ∈ outcome.results, result.ok = false
  logs : outcome.log.dir.logs = log.dir.logs
  index : outcome.log.index = log.index
  nextOffset : outcome.log.nextOffset = log.nextOffset
  unread : ∀ offset, log.nextOffset ≤ offset → ∀ maxRecords,
    outcome.log.readFrom Z offset maxRecords 0 = .ok []

/-- A job is answered with success and an offset, where its record is read unless
its segment was due for deletion. -/
def JobAnswered (Z : Zstd) (log appended : PartitionLog) (env : RetentionEnv)
    (policy : RetentionPolicy) (outcome : AppendOutcome) (i : ℕ)
    (request : ProduceRequest) : Prop :=
  ∃ result, outcome.results[i]? = some result ∧ result.ok = true ∧
    result.response.offset = log.nextOffset + i ∧
    (StoredAt Z outcome.log result.response.offset request ∨
      DueForDeletion appended env policy result.response.offset)

/-- In every state of a partition: when the append of a batch of jobs fails,
nothing is stored; when the append and the retention pass succeed, every job is
answered with the offset of its record. -/
theorem runAppendBatch_answers (Z : Zstd) (options : PartitionLogOptions) (log₀ : PartitionLog)
    (hopened : openLog Z options {} = .ok log₀) (events : List PartitionEvent)
    (hsent : ∀ event ∈ events, event.Sent) (log : PartitionLog)
    (hrun : run (PartitionEvent.step Z) log₀ events = some log) (jobs : List ProduceRequest)
    (hjobs : jobs ≠ [])
    (hbound : (events.map PartitionEvent.count).sum + jobs.length < 2 ^ 64) (clock : AppendClock)
    (fault : Option AppendFault) (env : RetentionEnv) (policy : RetentionPolicy) :
    (∀ appended message,
      log.appendBatch clock fault (jobs.map appendRecord) = (appended, .error message) →
      NothingStored Z log (runAppendBatch log clock fault env policy jobs)) ∧
    ∀ appended metas kept stats,
      log.appendBatch clock fault (jobs.map appendRecord) = (appended, .ok metas) →
      appended.applyRetention env policy = (kept, .ok stats) →
      ∀ i request, jobs[i]? = some request →
        JobAnswered Z log appended env policy (runAppendBatch log clock fault env policy jobs) i
          request := by
  obtain ⟨layout₀, htracks, hempty⟩ := LogState.tracks_opened hopened
  have hstart : log₀.nextOffset = 0 := htracks.next
  have hoptions : log₀.options = options := htracks.options
  have hstores₀ : log₀.Stores Z layout₀ := htracks.represents.stores (by simp [hempty])
  obtain ⟨layout, hstores, hnext⟩ := stores_run hstores₀
    (hoptions ▸ LogState.openOptions_of_openLog hopened) hsent (by omega) hrun
  refine ⟨fun appended message happend ↦ ?_, fun appended metas kept stats happend hretention i
    request hrequest ↦ ?_⟩
  · obtain ⟨hanswers, hlogs, hindex, hnext, hunread⟩ :=
      runAppendBatch_failed hstores happend env policy
    exact ⟨fun result hresult ↦ (hanswers result hresult).1, hlogs, hindex, hnext, hunread⟩
  · obtain ⟨result, hresult, hok, hoffset, hstored⟩ :=
      runAppendBatch_stored hstores hjobs (by omega) happend hretention hrequest
    exact ⟨result, hresult, hok, hoffset, by rw [hoffset]; exact hstored⟩

/-- Segments of one record each. -/
def singleRecordSegments : PartitionLogOptions := { smallSegments with maxSegmentBytes := 1 }

def twoJobs : List ProduceRequest := [⟨[116], [97], [98]⟩, ⟨[116], [99], [100]⟩]

/-- Removing a segment log fails, or succeeds. -/
def retentionEnv (fails : Bool) : RetentionEnv :=
  ⟨fun _ ↦ ⟨none, 0⟩, fun _ ↦ fails, fun _ ↦ false⟩

/-- Two jobs whose records are kept, after a batch whose retention pass failed. -/
theorem runAppendBatch_answers_twoJobs :
    ∃ log, run (PartitionEvent.step noZstd) (emptyLog singleRecordSegments)
        [.appendJobs stillClock none (retentionEnv true) ⟨0, 1⟩ twoJobs, .restart] = some log ∧
      log.nextOffset = 2 ∧
      ∀ i request, twoJobs[i]? = some request →
        JobAnswered noZstd log (log.appendBatch stillClock none (twoJobs.map appendRecord)).1
          (retentionEnv false) ⟨0, 0⟩
          (runAppendBatch log stillClock none (retentionEnv false) ⟨0, 0⟩ twoJobs) i request := by
  have hchecks : (run (PartitionEvent.step noZstd) (emptyLog singleRecordSegments)
      [.appendJobs stillClock none (retentionEnv true) ⟨0, 1⟩ twoJobs, .restart]).map (fun log ↦
        (log.nextOffset, (log.appendBatch stillClock none (twoJobs.map appendRecord)).2.toBool,
          ((log.appendBatch stillClock none (twoJobs.map appendRecord)).1.applyRetention
            (retentionEnv false) ⟨0, 0⟩).2.toBool)) = some (2, true, true) := by decide +kernel
  obtain ⟨log, hrun, hlog⟩ := Option.map_eq_some_iff.mp hchecks
  obtain ⟨hnext, hlog⟩ := Prod.mk.inj hlog
  obtain ⟨happended, hretained⟩ := Prod.mk.inj hlog
  refine ⟨log, hrun, hnext, ?_⟩
  have hanswers := (runAppendBatch_answers noZstd singleRecordSegments _
    (openLog_empty ⟨by decide, by decide⟩ noZstd) _ (by simp [PartitionEvent.Sent]) log hrun twoJobs
    (by decide) (by simp [PartitionEvent.count, twoJobs]) stillClock none (retentionEnv false)
    ⟨0, 0⟩).2
  cases happend : log.appendBatch stillClock none (twoJobs.map appendRecord) with
  | mk appended result =>
      rw [happend] at happended hretained
      cases result with
      | error message => cases happended
      | ok metas =>
          cases hretention : appended.applyRetention (retentionEnv false) ⟨0, 0⟩ with
          | mk kept result =>
              rw [hretention] at hretained
              cases result with
              | error message => cases hretained
              | ok stats => exact hanswers appended metas kept stats happend hretention

/-- The retention pass behind an append of two jobs.  When it fails, both jobs are
answered with an error although they are stored; when it succeeds, the first
one is answered with success although it is already removed. -/
theorem runAppendBatch_not_answersTruly :
    openLog noZstd singleRecordSegments {} = .ok (emptyLog singleRecordSegments) ∧
    ∀ fails, ¬ AnswersTruly noZstd (emptyLog singleRecordSegments) twoJobs
      (runAppendBatch (emptyLog singleRecordSegments) stillClock none (retentionEnv fails) ⟨0, 1⟩
        twoJobs) := by
  refine ⟨openLog_empty ⟨by decide, by decide⟩ noZstd, fun fails h ↦ ?_⟩
  cases fails with
  | true =>
      have hanswer : ((runAppendBatch (emptyLog singleRecordSegments) stillClock none
          (retentionEnv true) ⟨0, 1⟩ twoJobs).results[1]?.map ProduceResult.ok) = some false := by
        decide
      obtain ⟨result, hresult, hok⟩ := Option.map_eq_some_iff.mp hanswer
      refine (h 1 _ result rfl hresult).1 hok 1 (by decide) ⟨7, ?_⟩
      decide +kernel
  | false =>
      have hanswer : ((runAppendBatch (emptyLog singleRecordSegments) stillClock none
          (retentionEnv false) ⟨0, 1⟩ twoJobs).results[0]?.map fun result ↦
            (result.ok, result.response.offset)) = some (true, 0) := by
        decide
      obtain ⟨result, hresult, hok⟩ := Option.map_eq_some_iff.mp hanswer
      obtain ⟨timestamp, hstored⟩ := (h 0 _ result rfl hresult).2 (Prod.mk.inj hok).1
      have hread : (((runAppendBatch (emptyLog singleRecordSegments) stillClock none
          (retentionEnv false) ⟨0, 1⟩ twoJobs).log.readFrom noZstd 0 1 0).map
            (List.map Record.stored)).map (List.map StoredRecord.offset) = .ok [1] := by
        decide +kernel
      rw [(Prod.mk.inj hok).2] at hstored
      rw [hstored, ok_map] at hread
      cases hread

end BoltStream.Broker
