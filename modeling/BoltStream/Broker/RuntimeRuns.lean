import BoltStream.Broker.LoadedTopics
import BoltStream.Broker.Operations
import BoltStream.Broker.TopicFailures
import BoltStream.Lib.Runs
import BoltStream.Storage.OffsetReplay

/-!
# Runs of the runtime

The operations that change what a broker stores, the work of its append threads, and its
restarts, one after the other.  Beside the broker stands what producers were told of the
records of each partition.  As long as no file operation fails half way, memory and disk
agree in every state of a run.
-/

namespace BoltStream.Broker

open BoltStream.Lib BoltStream.Protocol BoltStream.Compression BoltStream.Storage
open DataDirectory

/-! ## Starting -/

namespace BrokerRuntime

variable (Z : Zstd) (config : RuntimeConfig)

/-- The constructor and `load_existing_topics`, on the directories of an earlier broker. -/
def start (now : Bytes) (listing : List Bytes) (data : DataDirectory)
    (dirs : SortedMap Bytes GroupDir) : Except Bytes BrokerRuntime :=
  let loaded := loadExistingTopics Z config.topics now listing data
  loaded.2.map fun topics ↦
    { store :=
        { data := runSteps Z config.topics data loaded.1
          topics := loadedTopics topics
          offsets := OffsetStore.openStore dirs
          coordinator := {} }
      waiters := .initial }

/-- The end of `prepare_data_directory`: a load and a retention pass over all topics.  An
exception of either is that of the start. -/
def prepare (env : OperationEnv) (listing : List Bytes) (data : DataDirectory)
    (dirs : SortedMap Bytes GroupDir) : Option BrokerRuntime :=
  match start Z config env.utcNow listing data dirs with
  | .error _ => none
  | .ok started =>
      match runRetention config env ⟨[]⟩ started with
      | (_, .error _) => none
      | (prepared, .ok _) => some prepared

end BrokerRuntime

/-! ## Events -/

/-- The calls that can change what is stored or who waits. -/
inductive RuntimeCall where
  | createTopic (request : CreateTopicRequest)
  | deleteTopic (request : DeleteTopicRequest)
  | produceBatch (request : ProduceBatchRequest) (records : List BatchRecord)
  | appendJobs (topic : Bytes) (partition : ℕ) (clock : AppendClock) (jobs : List ProduceRequest)
  | runRetention (request : RunRetentionRequest)
  | commitOffset (request : OffsetCommit)
  | commitGroupOffset (request : GroupOffsetCommit)
  | resetGroupOffset (request : ResetGroupOffsetRequest)
  | joinGroup (request : JoinGroupRequest)
  | syncGroup (request : GroupMember)
  | heartbeatGroup (request : GroupMember)
  | leaveGroup (request : GroupMember)
  | describeGroup (request : DescribeGroupRequest)
  | registerFetchWaiter (topic : Bytes) (partition : ℕ)
  | cancelFetchWaiter (waiterId : ℕ)
  /-- The broker stops and is started again; the directories are found in this order. -/
  | restart (listing : List Bytes)

structure BrokerEvent where
  env : OperationEnv
  call : RuntimeCall

namespace BrokerRuntime

variable (Z : Zstd) (config : RuntimeConfig)

/-- The state after an event.  There is none when a broker does not start. -/
def step (s : BrokerRuntime) (event : BrokerEvent) : Option BrokerRuntime :=
  match event.call with
  | .createTopic request => some (createTopic Z config event.env request s).1
  | .deleteTopic request => some (deleteTopic Z config event.env request s).1
  | .produceBatch request records => some (produceBatch Z event.env (request, records) s).1
  | .appendJobs topic partition clock jobs =>
      some (appendJobs config event.env topic partition clock jobs s)
  | .runRetention request => some (runRetention config event.env request s).1
  | .commitOffset request => some (commitOffset event.env request s).1
  | .commitGroupOffset request => some (commitGroupOffset event.env request s).1
  | .resetGroupOffset request => some (resetGroupOffset event.env request s).1
  | .joinGroup request => some (joinGroup event.env request s).1
  | .syncGroup request => some (syncGroup event.env request s).1
  | .heartbeatGroup request => some (heartbeatGroup event.env request s).1
  | .leaveGroup request => some (leaveGroup event.env request s).1
  | .describeGroup request => some (describeGroup event.env request s).1
  | .registerFetchWaiter topic partition =>
      some (registerFetchWaiter config topic partition s).1
  | .cancelFetchWaiter waiterId => some (cancelFetchWaiter waiterId s)
  | .restart listing =>
      prepare Z config event.env listing s.store.data s.store.offsets.dirs

end BrokerRuntime

/-! ## What producers are told -/

/-- A record that was acknowledged, with its offset. -/
structure Told where
  offset : ℕ
  key : Bytes
  message : Bytes
  deriving DecidableEq, Repr

def StoredRecord.told (record : StoredRecord) : Told := ⟨record.offset, record.key, record.value⟩

/-- The answers to the jobs of an append thread. -/
def AppendOutcome.told (outcome : AppendOutcome) (jobs : List ProduceRequest) : List Told :=
  (jobs.zip outcome.results).filterMap fun answered ↦
    if answered.2.ok then
      some ⟨answered.2.response.offset, answered.1.key, answered.1.message⟩
    else none

/-- The answer to a batch. -/
def toldBatch (response : ProduceBatchResponse) (records : List BatchRecord) : List Told :=
  records.mapIdx fun i record ↦ ⟨response.baseOffset + i, record.key, record.message⟩

/-- A broker, and what producers were told of the records of each partition since its
topic was created. -/
structure RuntimeRun where
  runtime : BrokerRuntime
  told : Bytes → ℕ → List Told

namespace RuntimeRun

def tell (told : Bytes → ℕ → List Told) (topic : Bytes) (partition : ℕ) (records : List Told) :
    Bytes → ℕ → List Told :=
  Function.update told topic
    (Function.update (told topic) partition (told topic partition ++ records))

variable (Z : Zstd) (config : RuntimeConfig)

/-- What producers have been told after an event. -/
def toldAfter (s : RuntimeRun) (event : BrokerEvent) : Bytes → ℕ → List Told :=
  match event.call with
  | .createTopic request =>
      match (s.runtime.createTopic Z config event.env request).2 with
      | .ok response =>
          if response.status = text "created" then Function.update s.told request.topic fun _ ↦ []
          else s.told
      | .error _ => s.told
  | .produceBatch request records =>
      match (BrokerRuntime.produceBatch Z event.env (request, records) s.runtime).2 with
      | .ok response => tell s.told response.topic response.partition (toldBatch response records)
      | .error _ => s.told
  | .appendJobs topic partition clock jobs =>
      match s.runtime.findPartition topic partition with
      | .ok log =>
          tell s.told topic partition ((runAppendBatch log clock event.env.appendFault
            (event.env.retention topic partition) config.retentionPolicy jobs).told jobs)
      | .error _ => s.told
  | _ => s.told

def step (s : RuntimeRun) (event : BrokerEvent) : Option RuntimeRun :=
  (s.runtime.step Z config event).map fun after ↦ ⟨after, s.toldAfter Z config event⟩

/-- A broker on an empty data directory. -/
def initial : RuntimeRun :=
  { runtime :=
      { store := { data := ∅, topics := ∅, offsets := OffsetStore.openStore ∅, coordinator := {} }
        waiters := .initial }
    told := fun _ _ ↦ [] }

end RuntimeRun

/-! ## Undisturbed runs -/

/-- A file operation that fails has not begun to write.  The append of a batch of records
may fail anywhere, since it is undone. -/
structure OperationEnv.LeavesNoTrace (env : OperationEnv) : Prop where
  topics : ∀ topic fault, env.topicFault topic = some fault → TopicStore.NoManifest fault.stop
  deletions : env.deleteFault = none
  commits : ∀ group fault, env.commitFault group = some fault →
    ∃ reason, fault = .createDirectory reason
  removals : ∀ topic partition base,
    (env.retention topic partition).removeLogFails base = false ∧
      (env.retention topic partition).removeIndexFails base = false

/-- The next offset of the partition does not come to 2^64. -/
def BrokerRuntime.HasRoom (s : BrokerRuntime) (topic : Bytes) (partition count : ℕ) : Prop :=
  ∀ log ∈ (s.findPartition topic partition).toOption, log.nextOffset + count < 2 ^ 64

/-- A batch is as a session hands it over: it comes from a frame and has no empty
messages.  A restart finds the directories that are there. -/
def RuntimeCall.WellFormed (s : BrokerRuntime) (env : OperationEnv) : RuntimeCall → Prop
  | .produceBatch request records =>
      env.appendFault = none ∧ request.encodedRecords.length + 40 < 2 ^ 32 ∧
        (∀ record ∈ records, record.message ≠ []) ∧
        s.HasRoom request.topic request.partition records.length
  | .appendJobs topic partition _ jobs => s.HasRoom topic partition jobs.length
  | .restart listing => listing.Perm s.store.data.keys
  | _ => True

theorem BrokerRuntime.HasRoom.lt {s : BrokerRuntime} {topic : Bytes} {partition count : ℕ}
    (h : s.HasRoom topic partition count) {log : PartitionLog}
    (hfind : s.findPartition topic partition = .ok log) : log.nextOffset + count < 2 ^ 64 :=
  h log (by rw [hfind]; rfl)

instance decidableHasRoom (s : BrokerRuntime) (topic : Bytes) (partition count : ℕ) :
    Decidable (s.HasRoom topic partition count) :=
  inferInstanceAs (Decidable (∀ log ∈ (s.findPartition topic partition).toOption, _))

instance decidableWellFormed (s : BrokerRuntime) (env : OperationEnv) :
    ∀ call : RuntimeCall, Decidable (call.WellFormed s env)
  | .produceBatch _ _ => inferInstanceAs (Decidable (_ ∧ _ ∧ _ ∧ _))
  | .appendJobs topic partition _ jobs =>
      inferInstanceAs (Decidable (s.HasRoom topic partition jobs.length))
  | .restart listing => inferInstanceAs (Decidable (listing.Perm s.store.data.keys))
  | .createTopic _ => .isTrue trivial
  | .deleteTopic _ => .isTrue trivial
  | .runRetention _ => .isTrue trivial
  | .commitOffset _ => .isTrue trivial
  | .commitGroupOffset _ => .isTrue trivial
  | .resetGroupOffset _ => .isTrue trivial
  | .joinGroup _ => .isTrue trivial
  | .syncGroup _ => .isTrue trivial
  | .heartbeatGroup _ => .isTrue trivial
  | .leaveGroup _ => .isTrue trivial
  | .describeGroup _ => .isTrue trivial
  | .registerFetchWaiter _ _ => .isTrue trivial
  | .cancelFetchWaiter _ => .isTrue trivial

def RuntimeRun.Undisturbed (s : RuntimeRun) (event : BrokerEvent) : Prop :=
  event.env.LeavesNoTrace ∧ event.call.WellFormed s.runtime event.env

/-! ## Logs -/

/-- Retention is off. -/
def RetentionOff (policy : RetentionPolicy) : Prop :=
  policy.maxAgeSeconds = 0 ∧ policy.maxBytes = 0

/-- The log has the records that producers were told of, but for those that retention has
removed, and decodes. -/
def LogTold (Z : Zstd) (policy : RetentionPolicy) (options : PartitionLogOptions)
    (told : List Told) (log : PartitionLog) : Prop :=
  ∃ acked layout, LogState.TracksDecodable Z options ⟨log, acked⟩ layout ∧
    acked.map StoredRecord.told = told ∧ (RetentionOff policy → layout.records = acked)

section Logs

variable {Z : Zstd} {policy : RetentionPolicy} {options : PartitionLogOptions}
  {told : List Told} {log log' : PartitionLog}

theorem LogTold.options_eq (h : LogTold Z policy options told log) : log.options = options := by
  obtain ⟨acked, layout, htracks, -⟩ := h
  exact htracks.1.options

/-- The next offset is the number of records that producers were told of. -/
theorem LogTold.next (h : LogTold Z policy options told log) : log.nextOffset = told.length := by
  obtain ⟨acked, layout, htracks, rfl, -⟩ := h
  rw [List.length_map]
  exact htracks.1.next

theorem LogTold.bound (h : LogTold Z policy options told log) : log.nextOffset < 2 ^ 64 := by
  obtain ⟨acked, layout, htracks, -⟩ := h
  exact htracks.1.represents.bound

/-- The records have the offsets from 0. -/
theorem LogTold.offsets (h : LogTold Z policy options told log) :
    told.map Told.offset = List.range told.length := by
  obtain ⟨acked, layout, htracks, rfl, -⟩ := h
  rw [List.map_map, List.length_map]
  exact htracks.1.offsets

/-- What can be read is what producers were told of, but for what was removed. -/
theorem LogTold.readFrom (h : LogTold Z policy options told log) :
    ∃ kept, kept.Sublist told ∧ (RetentionOff policy → kept = told) ∧
      ∀ offset maxRecords,
        (log.readFrom Z offset maxRecords 0).map
            (List.map fun record ↦ StoredRecord.told record.stored) =
          .ok ((kept.filter fun record ↦ offset ≤ record.offset).take maxRecords) := by
  obtain ⟨acked, layout, htracks, rfl, hoff⟩ := h
  refine ⟨layout.records.map StoredRecord.told, htracks.1.kept.map _, fun h ↦ by rw [hoff h],
    fun offset maxRecords ↦ ?_⟩
  have hread := PartitionLog.readFrom_readsAs
    (htracks.1.represents.readsAs (htracks.1.options ▸ htracks.2)) offset maxRecords
  cases hrecords : log.readFrom Z offset maxRecords 0 with
  | error message =>
      rw [hrecords] at hread
      cases hread
  | ok records =>
      rw [hrecords] at hread
      have hstored := congrArg (List.map StoredRecord.told) (Except.ok.inj hread)
      rw [List.map_map, List.map_take] at hstored
      refine congrArg Except.ok (hstored.trans ?_)
      rw [List.filter_map]
      rfl

theorem LogTold.opened (h : PartitionLog.openLog Z options {} = .ok log) :
    LogTold Z policy options [] log := by
  obtain ⟨layout, htracks, hnil⟩ := LogState.tracks_opened h
  exact ⟨[], layout, ⟨htracks, by simp [hnil]⟩, rfl, fun _ ↦ by rw [Layout.records, hnil]; rfl⟩

theorem LogTold.of_append {acked acked' : List StoredRecord} {layout : Layout}
    (h : LogState.TracksDecodable Z options ⟨log, acked⟩ layout)
    (hoff : RetentionOff policy → layout.records = acked)
    (hopen : PartitionLog.OpenOptions options) {op : LogOp} (happend : op.IsAppend)
    (hsized : op.Sized) (hvalues : op.ValuesPresent) (hbound : acked'.length < 2 ^ 64)
    (hstep : LogState.step Z ⟨log, acked⟩ op = some ⟨log', acked'⟩) :
    LogTold Z policy options (acked'.map StoredRecord.told) log' := by
  obtain ⟨layout', htracks', hfollows⟩ := h.step hopen hsized hvalues hbound hstep
  refine ⟨acked', layout', htracks', rfl, fun hpolicy ↦ ?_⟩
  rw [Layout.records, hfollows.appended happend, List.flatMap_append, ← Layout.records,
    hoff hpolicy]
  exact hfollows.acked.symm

/-- A log that is closed and opened again. -/
theorem LogTold.openLog (h : LogTold Z policy options told log)
    (hopen : PartitionLog.OpenOptions options) :
    ∃ log', PartitionLog.openLog Z options log.dir = .ok log' ∧
      LogTold Z policy options told log' ∧ log'.dir.logs = log.dir.logs ∧
      log'.index = log.index ∧ log'.nextOffset = log.nextOffset := by
  obtain ⟨acked, layout, ⟨htracks, hdecodable⟩, htold, hoff⟩ := h
  obtain ⟨log', hopened, hoptions, hnext, hrep⟩ :=
    htracks.represents.openLog hopen hdecodable log.dir.indexes
  refine ⟨log', hopened, ⟨acked, layout, ⟨⟨hrep, hoptions, htracks.offsets,
    hnext.trans htracks.next, htracks.kept⟩, hdecodable⟩, htold, hoff⟩, ?_, ?_, hnext⟩
  · exact hrep.logs.trans htracks.represents.logs.symm
  · exact hrep.index.trans htracks.represents.index.symm

/-- An append that fails leaves the log as it was. -/
theorem LogTold.congr (h : LogTold Z policy options told log) (hlogs : log'.dir.logs = log.dir.logs)
    (hindex : log'.index = log.index) (hnext : log'.nextOffset = log.nextOffset)
    (hoptions : log'.options = log.options) : LogTold Z policy options told log' := by
  obtain ⟨acked, layout, ⟨htracks, hdecodable⟩, htold, hoff⟩ := h
  exact ⟨acked, layout, ⟨⟨htracks.represents.congr hlogs hindex hnext,
    hoptions.trans htracks.options, htracks.offsets, hnext.trans htracks.next, htracks.kept⟩,
    hdecodable⟩, htold, hoff⟩

theorem appendEncodedBatch_error_eq {codec : Codec} {encodedRecords : Bytes}
    {uncompressedBytes : UInt32} {decodedRecords : List AppendRecord} {timestamp : UInt64}
    {message : String} (h : PartitionLog.appendEncodedBatch Z log codec encodedRecords
      uncompressedBytes decodedRecords timestamp none = (log', .error message)) : log' = log := by
  rw [PartitionLog.appendEncodedBatch] at h
  split at h
  · exact (Prod.mk.inj h).1.symm
  · cases (Prod.mk.inj h).2

theorem partition_appendEncodedBatch {codec : Codec} {encodedRecords : Bytes}
    {uncompressedBytes : UInt32} {decodedRecords : List AppendRecord} {timestamp : UInt64}
    {metadata : BatchMetadata} (h : PartitionLog.appendEncodedBatch Z log codec encodedRecords
      uncompressedBytes decodedRecords timestamp none = (log', .ok metadata)) :
    metadata.topic = log.options.topic ∧ metadata.partition = log.options.partitionId := by
  rw [PartitionLog.appendEncodedBatch] at h
  split at h
  · cases (Prod.mk.inj h).2
  · rw [← Except.ok.inj (Prod.mk.inj h).2]
    exact ⟨rfl, rfl⟩

theorem LogTold.appendEncodedBatch (h : LogTold Z policy options told log)
    (hopen : PartitionLog.OpenOptions options) {codec : Codec} {encodedRecords : Bytes}
    {uncompressedBytes : UInt32} {decodedRecords : List AppendRecord} {timestamp : UInt64}
    (hsized : encodedRecords.length + 40 < 2 ^ 32)
    (hvalues : ∀ record ∈ decodedRecords, record.value ≠ [])
    (hbound : log.nextOffset + decodedRecords.length < 2 ^ 64) {metadata : BatchMetadata}
    (happend : PartitionLog.appendEncodedBatch Z log codec encodedRecords uncompressedBytes
      decodedRecords timestamp none = (log', .ok metadata)) :
    LogTold Z policy options (told ++ decodedRecords.mapIdx fun i record ↦
      ⟨metadata.baseOffset + i, record.key, record.value⟩) log' := by
  have hnext := h.next
  obtain ⟨acked, layout, htracks, rfl, hoff⟩ := h
  have hbatch : (LogState.acknowledgedBatch metadata decodedRecords).map StoredRecord.told =
      decodedRecords.mapIdx fun i record ↦
        ⟨metadata.baseOffset + i, record.key, record.value⟩ := by
    refine List.ext_getElem (by simp [LogState.acknowledgedBatch]) fun i hi hi' ↦ ?_
    simp [LogState.acknowledgedBatch, StoredRecord.told]
  rw [← hbatch, ← List.map_append]
  refine .of_append htracks hoff hopen (show (LogOp.appendEncodedBatch codec encodedRecords
    uncompressedBytes decodedRecords timestamp).IsAppend from trivial) hsized hvalues ?_ ?_
  · rw [List.length_map] at hnext
    rw [List.length_append, LogState.acknowledgedBatch, List.length_mapIdx, ← hnext]
    exact hbound
  · simp only [LogState.step, happend]

/-- A retention pass that can remove files comes to its end. -/
theorem retentionLoop_ok {env : RetentionEnv}
    (henv : ∀ base, env.removeLogFails base = false ∧ env.removeIndexFails base = false)
    (policy : RetentionPolicy) (summaries : List SegmentSummary)
    (state : PartitionLog.RetentionState) :
    (PartitionLog.retentionLoop env policy summaries state).2 = .ok () := by
  induction summaries generalizing state with
  | nil => rfl
  | cons summary rest ih =>
      obtain ⟨hlog, hindex⟩ := henv summary.baseOffset
      rw [PartitionLog.retentionLoop]
      rw [hlog, hindex]
      by_cases hdue : PartitionLog.deletionDue env policy state.totalBytes summary = false
      · rw [if_pos hdue]
        exact ih state
      · rw [if_neg hdue]
        exact ih _

theorem retentionLoop_off {env : RetentionEnv} (h : RetentionOff policy)
    (summaries : List SegmentSummary) (state : PartitionLog.RetentionState) :
    PartitionLog.retentionLoop env policy summaries state = (state, .ok ()) := by
  induction summaries with
  | nil => rfl
  | cons summary rest ih =>
      have hdue : PartitionLog.deletionDue env policy state.totalBytes summary = false := by
        simp [PartitionLog.deletionDue, h.1, h.2]
      rw [PartitionLog.retentionLoop, if_pos hdue, ih]

/-- A pass that is off leaves the log as it is. -/
theorem applyRetention_off (h : RetentionOff policy) (log : PartitionLog) (env : RetentionEnv) :
    (log.applyRetention env policy).1 = log := by
  rw [PartitionLog.applyRetention, retentionLoop_off h]
  simp [PartitionLog.RetentionState.initial]

theorem LogTold.applyRetention (h : LogTold Z policy options told log)
    (hopen : PartitionLog.OpenOptions options) {env : RetentionEnv}
    (henv : ∀ base, env.removeLogFails base = false ∧ env.removeIndexFails base = false) :
    ∃ kept stats, log.applyRetention env policy = (kept, .ok stats) ∧
      LogTold Z policy options told kept := by
  have hwalk := retentionLoop_ok henv policy log.segmentSummaries
    (PartitionLog.RetentionState.initial log)
  cases hretention : log.applyRetention env policy with
  | mk kept result =>
      cases result with
      | error message =>
          rw [PartitionLog.applyRetention] at hretention
          dsimp only at hretention
          rw [hwalk] at hretention
          cases (Prod.mk.inj hretention).2
      | ok stats =>
          refine ⟨kept, stats, rfl, ?_⟩
          by_cases hpolicy : RetentionOff policy
          · have hsame := applyRetention_off hpolicy log env
            rw [hretention] at hsame
            rw [show kept = log from hsame]
            exact h
          · have hbound := h.bound
            obtain ⟨acked, layout, htracks, rfl, -⟩ := h
            have hstep : LogState.step Z ⟨log, acked⟩ (.applyRetention env policy) =
                some ⟨kept, acked⟩ := by
              simp only [LogState.step, hretention]
            obtain ⟨layout', htracks', -⟩ := htracks.step hopen
              (show (LogOp.applyRetention env policy).Sized from trivial) trivial
              (by rw [← htracks.1.next]; exact hbound) hstep
            exact ⟨acked, layout', htracks', rfl, fun h ↦ absurd h hpolicy⟩

theorem told_produced (metas : List RecordMetadata) (jobs : List ProduceRequest)
    (hlength : metas.length = jobs.length) :
    ((jobs.zip (metas.map produced)).filterMap fun answered ↦
        if answered.2.ok then
          some (⟨answered.2.response.offset, answered.1.key, answered.1.message⟩ : Told)
        else none) =
      (metas.zipWith PartitionLog.acknowledged (jobs.map appendRecord)).map StoredRecord.told := by
  induction jobs generalizing metas with
  | nil =>
      rw [List.length_eq_zero_iff.mp hlength]
      rfl
  | cons job jobs ih =>
      cases metas with
      | nil => cases hlength
      | cons metadata metas =>
          simp only [List.map_cons, List.zip_cons_cons, List.filterMap_cons, List.zipWith_cons_cons]
          rw [ih metas (Nat.succ.inj hlength)]
          rfl

theorem told_failed (jobs : List ProduceRequest) (results : List ProduceResult)
    (message : String) :
    ((jobs.zip (results.map (failed message))).filterMap fun answered ↦
        if answered.2.ok then
          some (⟨answered.2.response.offset, answered.1.key, answered.1.message⟩ : Told)
        else none) = [] := by
  rw [List.filterMap_eq_nil_iff]
  intro answered hanswered
  obtain ⟨result, -, hresult⟩ := List.mem_map.mp (List.of_mem_zip hanswered).2
  rw [← hresult]
  rfl

/-- A batch of jobs: the producers are told of the records that were appended. -/
theorem LogTold.runAppendBatch (h : LogTold Z policy options told log)
    (hopen : PartitionLog.OpenOptions options) (clock : AppendClock) (fault : Option AppendFault)
    {env : RetentionEnv}
    (henv : ∀ base, env.removeLogFails base = false ∧ env.removeIndexFails base = false)
    {jobs : List ProduceRequest} (hbound : log.nextOffset + jobs.length < 2 ^ 64) :
    LogTold Z policy options
      (told ++ (runAppendBatch log clock fault env policy jobs).told jobs)
      (runAppendBatch log clock fault env policy jobs).log := by
  have hsorted : log.dir.logs.Sorted := by
    obtain ⟨acked, layout, htracks, -⟩ := h
    exact (htracks.1.represents.stores (htracks.1.options ▸ htracks.2)).sorted
  rw [AppendOutcome.told, BoltStream.Broker.runAppendBatch]
  cases happend : log.appendBatch clock fault (jobs.map appendRecord) with
  | mk appended result =>
      cases result with
      | error message =>
          obtain ⟨hlogs, hindex, hnext, hoptions⟩ :=
            PartitionLog.appendBatch_error hsorted happend
          dsimp only [AppendOutcome.answer]
          rw [told_failed, List.append_nil]
          exact h.congr hlogs hindex hnext hoptions
      | ok metas =>
          have hdone : log.appendBatch clock none (jobs.map appendRecord) =
              (appended, .ok metas) := by
            by_cases hnil : jobs.map appendRecord = []
            · rw [PartitionLog.appendBatch, if_pos hnil] at happend ⊢
              exact happend
            · rw [fault_of_appendBatch hnil happend] at happend
              exact happend
          have hlength : metas.length = jobs.length :=
            (PartitionLog.length_appendBatch hdone).trans (List.length_map _)
          have happended : LogTold Z policy options (told ++
              (metas.zipWith PartitionLog.acknowledged (jobs.map appendRecord)).map
                StoredRecord.told) appended := by
            have hnext := h.next
            obtain ⟨acked, layout, htracks, rfl, hoff⟩ := h
            rw [← List.map_append]
            refine .of_append htracks hoff hopen
              (show (LogOp.appendBatch clock (jobs.map appendRecord)).IsAppend from trivial)
              trivial trivial ?_ ?_
            · rw [List.length_map] at hnext
              rw [List.length_append, List.length_zipWith, List.length_map, hlength, min_self,
                ← hnext]
              exact hbound
            · simp only [LogState.step, hdone]
          obtain ⟨kept, stats, hretention, hkept⟩ := happended.applyRetention hopen henv
          dsimp only
          rw [hretention, hlength, Nat.sub_self, List.replicate_zero, List.append_nil]
          dsimp only [AppendOutcome.answer]
          rw [told_produced metas jobs hlength]
          exact hkept

end Logs

end BoltStream.Broker
