import BoltStream.Broker.RuntimeRuns
import BoltStream.Broker.ServedNames

/-!
# Memory and disk in undisturbed runs

In every state of an undisturbed run the directory of a topic that is served has its
manifest and the files of its logs, the logs hold what producers were told, a topic that
is not served has nothing on disk, the offset logs say what is in memory, and no offset
is committed that its partition has not reached.
-/

namespace BoltStream.Broker

open BoltStream.Lib BoltStream.Protocol BoltStream.Compression BoltStream.Storage
open DataDirectory

/-- What is in memory of a topic is on disk, and it is what producers were told. -/
structure ServedTopic.Serves (Z : Zstd) (policy : RetentionPolicy) (config : TopicConfig)
    (dir : TopicDirectory) (told : ℕ → List Told) (topic : Bytes) (served : ServedTopic) :
    Prop where
  name : isValidTopicName topic = true
  manifest : ∃ manifest, readTopicManifest (text (config.manifestPath topic)) (manifestFile dir)
    topic = .ok (some manifest) ∧ manifest.partitionCount = served.partitionCount
  count : served.partitionCount ≤ config.maxTopicPartitions.toNat
  length : served.partitions.length = served.partitionCount
  files : ∀ partition log, served.partitions[partition]? = some log →
    dir.partitions partition = some log.dir
  logs : ∀ partition log, served.partitions[partition]? = some log →
    LogTold Z policy (config.server.logOptions topic partition) (told partition) log

/-- Memory and disk of a broker. -/
structure RuntimeRun.Sound (Z : Zstd) (config : RuntimeConfig) (s : RuntimeRun) : Prop where
  served : ∀ topic served, s.runtime.store.topics.find? topic = some served →
    served.Serves Z config.retentionPolicy config.topics (get s.runtime.store.data topic)
      (s.told topic) topic
  absent : ∀ topic, s.runtime.store.topics.find? topic = none →
    get s.runtime.store.data topic = {}
  offsets : s.runtime.store.offsets.Replayed
  committed : ∀ group topic partition offset,
    s.runtime.store.offsets.committed group topic partition = some offset →
      ∃ log, s.runtime.findPartition topic partition = .ok log ∧ offset ≤ log.nextOffset

theorem openOptions_logOptions (config : ServerConfig) {topic : Bytes}
    (htopic : isValidTopicName topic = true) (partition : ℕ) :
    PartitionLog.OpenOptions (config.logOptions topic partition) :=
  ⟨htopic, fun hzero ↦ config.segmentBytes_ne (UInt64.toNat_inj.mp hzero)⟩

namespace BrokerRuntime

theorem findPartition_ok_iff {s : BrokerRuntime} {topic : Bytes} {partition : ℕ}
    {log : PartitionLog} :
    s.findPartition topic partition = .ok log ↔
      ∃ served, s.store.topics.find? topic = some served ∧ partition < served.partitionCount ∧
        served.partitions[partition]? = some log := by
  rw [findPartition, findTopicOrThrow]
  cases s.store.topics.find? topic with
  | none => simp [Except.bind]
  | some served =>
      simp only [Except.bind, Option.some.injEq, exists_eq_left', partitionOrThrow]
      split_ifs with hcount
      · simp [hcount]
      · cases served.partitions[partition]? with
        | none => simp
        | some found => simp [Nat.not_le.mp hcount]

theorem findPartition_congr {s t : BrokerRuntime} {topic : Bytes}
    (h : t.store.topics.find? topic = s.store.topics.find? topic) (partition : ℕ) :
    t.findPartition topic partition = s.findPartition topic partition := by
  rw [findPartition, findPartition, findTopicOrThrow, findTopicOrThrow, h]

end BrokerRuntime

namespace RuntimeRun

variable {Z : Zstd} {config : RuntimeConfig} {s t : RuntimeRun}

theorem sound_initial (Z : Zstd) (config : RuntimeConfig) : initial.Sound Z config := by
  refine ⟨fun topic served hserved ↦ ?_, fun topic _ ↦ rfl, OffsetStore.replayed_empty,
    fun group topic partition offset hcommitted ↦ ?_⟩
  · cases hserved
  · cases hcommitted

/-- Members and waiters do not matter. -/
theorem Sound.congr (h : s.Sound Z config)
    (hdata : t.runtime.store.data = s.runtime.store.data)
    (htopics : t.runtime.store.topics = s.runtime.store.topics)
    (hoffsets : t.runtime.store.offsets = s.runtime.store.offsets) (htold : t.told = s.told) :
    t.Sound Z config := by
  refine ⟨?_, ?_, ?_, ?_⟩
  · rw [htopics, hdata, htold]
    exact h.served
  · rw [htopics, hdata]
    exact h.absent
  · rw [hoffsets]
    exact h.offsets
  · intro group topic partition offset hcommitted
    rw [hoffsets] at hcommitted
    obtain ⟨log, hfind, hle⟩ := h.committed group topic partition offset hcommitted
    exact ⟨log, (BrokerRuntime.findPartition_congr (by rw [htopics]) partition).trans hfind, hle⟩

theorem Sound.findPartition (h : s.Sound Z config) {topic : Bytes} {partition : ℕ}
    {log : PartitionLog} (hfind : s.runtime.findPartition topic partition = .ok log) :
    isValidTopicName topic = true ∧ partition < 2 ^ 16 ∧
      LogTold Z config.retentionPolicy (config.topics.server.logOptions topic partition)
        (s.told topic partition) log := by
  obtain ⟨served, hserved, hpartition, hlog⟩ := BrokerRuntime.findPartition_ok_iff.mp hfind
  have hserves := h.served topic served hserved
  have hcount := hserves.count
  have hmax := config.topics.maxTopicPartitions.toNat_lt
  exact ⟨hserves.name, by omega, hserves.logs partition log hlog⟩

/-! ## Logs -/

@[simp] theorem tell_nil (told : Bytes → ℕ → List Told) (topic : Bytes) (partition : ℕ) :
    tell told topic partition [] = told := by
  rw [tell, List.append_nil, Function.update_eq_self, Function.update_eq_self]

theorem tell_ne (told : Bytes → ℕ → List Told) {topic other : Bytes} (partition : ℕ)
    (records : List Told) (h : other ≠ topic) :
    tell told topic partition records other = told other :=
  Function.update_of_ne h _ _

theorem tell_same (told : Bytes → ℕ → List Told) (topic : Bytes) (partition : ℕ)
    (records : List Told) (other : ℕ) :
    tell told topic partition records topic other =
      if other = partition then told topic partition ++ records else told topic other := by
  rw [tell, Function.update_self]
  split_ifs with hsame
  · rw [hsame, Function.update_self]
  · exact Function.update_of_ne hsame _ _

/-- A log and its files after an operation, and what was answered. -/
theorem Sound.setLog (h : s.Sound Z config) {topic : Bytes} {partition : ℕ}
    {log log' : PartitionLog} {records : List Told}
    (hfind : s.runtime.findPartition topic partition = .ok log)
    (hlog : LogTold Z config.retentionPolicy (config.topics.server.logOptions topic partition)
      (s.told topic partition ++ records) log') :
    Sound Z config
      ⟨s.runtime.setLog topic partition log', tell s.told topic partition records⟩ := by
  obtain ⟨served, hserved, hpartition, hbefore⟩ := BrokerRuntime.findPartition_ok_iff.mp hfind
  have hserves := h.served topic served hserved
  have hnext : log.nextOffset ≤ log'.nextOffset := by
    rw [(hserves.logs partition log hbefore).next, hlog.next, List.length_append]
    exact Nat.le_add_right _ _
  have hset : s.runtime.setLog topic partition log' =
      { s.runtime with
        store :=
          { s.runtime.store with
            data := setPartition s.runtime.store.data topic partition log'.dir
            topics := s.runtime.store.topics.insert topic
              { served with partitions := served.partitions.set partition log' } } } := by
    rw [BrokerRuntime.setLog, hserved]
  have hlt : partition < served.partitions.length := by
    rw [hserves.length]
    exact hpartition
  have hget : ∀ other, (served.partitions.set partition log')[other]? =
      if other = partition then some log' else served.partitions[other]? := by
    intro other
    rw [List.getElem?_set]
    by_cases hsame : other = partition
    · rw [if_pos hsame, if_pos hsame.symm, if_pos hlt]
    · rw [if_neg hsame, if_neg (Ne.symm hsame)]
  rw [hset]
  refine ⟨fun other found hfound ↦ ?_, fun other hnone ↦ ?_, h.offsets,
    fun group other partition' offset hcommitted ↦ ?_⟩
  · dsimp only at hfound ⊢
    rw [SortedMap.find?_insert] at hfound
    by_cases hother : other = topic
    · rw [if_pos hother] at hfound
      obtain rfl := Option.some.inj hfound
      subst hother
      rw [get_setPartition]
      refine ⟨hserves.name, hserves.manifest, hserves.count, ?_, fun partition' found hfound ↦ ?_,
        fun partition' found hfound ↦ ?_⟩
      · rw [List.length_set]
        exact hserves.length
      · dsimp only at hfound ⊢
        rw [hget] at hfound
        by_cases hsame : partition' = partition
        · rw [if_pos hsame] at hfound
          rw [hsame, Function.update_self, Option.some.inj hfound]
        · rw [if_neg hsame] at hfound
          rw [Function.update_of_ne hsame]
          exact hserves.files partition' found hfound
      · rw [hget] at hfound
        rw [tell_same]
        by_cases hsame : partition' = partition
        · rw [if_pos hsame] at hfound
          rw [if_pos hsame, hsame, ← Option.some.inj hfound]
          exact hlog
        · rw [if_neg hsame] at hfound
          rw [if_neg hsame]
          exact hserves.logs partition' found hfound
    · rw [if_neg hother] at hfound
      rw [get_setPartition_ne hother, tell_ne _ _ _ hother]
      exact h.served other found hfound
  · dsimp only at hnone ⊢
    rw [SortedMap.find?_insert] at hnone
    split_ifs at hnone with hother
    rw [get_setPartition_ne hother]
    exact h.absent other hnone
  · obtain ⟨found, hfound, hle⟩ := h.committed group other partition' offset hcommitted
    obtain ⟨holder, hholder, hcount, hlog'⟩ := BrokerRuntime.findPartition_ok_iff.mp hfound
    by_cases hother : other = topic
    · subst hother
      obtain rfl := Option.some.inj (hserved.symm.trans hholder)
      by_cases hsame : partition' = partition
      · subst hsame
        obtain rfl := Option.some.inj (hbefore.symm.trans hlog')
        refine ⟨log', BrokerRuntime.findPartition_ok_iff.mpr ⟨_, SortedMap.find?_insert_self _ _ _,
          hcount, ?_⟩, hle.trans hnext⟩
        rw [hget, if_pos rfl]
      · refine ⟨found, BrokerRuntime.findPartition_ok_iff.mpr ⟨_,
          SortedMap.find?_insert_self _ _ _, hcount, ?_⟩, hle⟩
        rw [hget, if_neg hsame]
        exact hlog'
    · refine ⟨found, BrokerRuntime.findPartition_ok_iff.mpr ⟨holder, ?_, hcount, hlog'⟩, hle⟩
      dsimp only
      rw [SortedMap.find?_insert, if_neg hother]
      exact hholder

/-! ## Operations on logs -/

section Operations

variable {env : OperationEnv}

theorem Sound.retain (h : s.Sound Z config) (henv : env.LeavesNoTrace)
    (partitions : List (Bytes × ℕ)) :
    Sound Z config ⟨(BrokerRuntime.retain config env s.runtime partitions).1, s.told⟩ := by
  induction partitions generalizing s with
  | nil => exact h
  | cons partition partitions ih =>
      rw [BrokerRuntime.retain]
      cases hfind : s.runtime.findPartition partition.1 partition.2 with
      | error error => exact h
      | ok log =>
          obtain ⟨hname, -, hlog⟩ := h.findPartition hfind
          obtain ⟨kept, stats, hretention, hkept⟩ := hlog.applyRetention
            (openOptions_logOptions _ hname _) (henv.removals partition.1 partition.2)
          have hset := h.setLog hfind (by rw [List.append_nil]; exact hkept)
          rw [tell_nil] at hset
          simp only [hretention]
          exact ih hset

theorem Sound.runRetention (h : s.Sound Z config) (henv : env.LeavesNoTrace)
    (request : RunRetentionRequest) :
    Sound Z config ⟨(BrokerRuntime.runRetention config env request s.runtime).1, s.told⟩ := by
  rw [BrokerRuntime.runRetention]
  split
  · exact h
  dsimp only
  split
  · exact h
  · exact h.retain henv _

theorem Sound.produceBatch (h : s.Sound Z config) {request : ProduceBatchRequest}
    {records : List BatchRecord}
    (hformed : (RuntimeCall.produceBatch request records).WellFormed s.runtime env) :
    Sound Z config ⟨(BrokerRuntime.produceBatch Z env (request, records) s.runtime).1,
      s.toldAfter Z config ⟨env, .produceBatch request records⟩⟩ := by
  obtain ⟨hfault, hsized, hvalues, hroom⟩ := hformed
  rw [toldAfter]
  dsimp only
  rw [BrokerRuntime.produceBatch]
  dsimp only
  cases hfind : s.runtime.findPartition request.topic request.partition with
  | error error => exact h
  | ok log =>
      obtain ⟨hname, -, hlog⟩ := h.findPartition hfind
      dsimp only
      rw [hfault]
      cases happend : PartitionLog.appendEncodedBatch Z log request.codec request.encodedRecords
          (UInt32.ofNat request.uncompressedBytes)
          (records.map fun record ↦ ⟨record.key, record.message⟩) env.timestamp none with
      | mk appended result =>
          cases result with
          | error message =>
              obtain rfl := appendEncodedBatch_error_eq happend
              have hset := h.setLog hfind (by rw [List.append_nil]; exact hlog)
              rw [tell_nil] at hset
              exact hset
          | ok metadata =>
              obtain ⟨htopic, hpartition⟩ := partition_appendEncodedBatch happend
              have happended := hlog.appendEncodedBatch (openOptions_logOptions _ hname _) hsized
                (by simpa using hvalues) (by rw [List.length_map]; exact hroom.lt hfind) happend
              rw [hlog.options_eq] at htopic hpartition
              have htold : toldBatch
                  { topic := metadata.topic
                    partition := metadata.partition
                    baseOffset := metadata.baseOffset
                    nextOffset := metadata.nextOffset
                    recordCount := metadata.recordCount
                    logicalBytes := metadata.logicalBytes
                    encodedBytes := metadata.encodedBytes
                    storedBytes := metadata.storedBytes } records =
                  (records.map fun record ↦ (⟨record.key, record.message⟩ : AppendRecord)).mapIdx
                    fun i record ↦ ⟨metadata.baseOffset + i, record.key, record.value⟩ := by
                refine List.ext_getElem (by simp [toldBatch]) fun i hi hi' ↦ ?_
                simp [toldBatch]
              rw [← htold] at happended
              have hset := h.setLog hfind happended
              dsimp only
              rw [show metadata.topic = request.topic from htopic,
                show metadata.partition = request.partition from hpartition]
              rw [show metadata.topic = request.topic from htopic,
                show metadata.partition = request.partition from hpartition] at hset
              exact hset.congr rfl rfl rfl rfl

theorem Sound.appendJobs (h : s.Sound Z config) (henv : env.LeavesNoTrace) {topic : Bytes}
    {partition : ℕ} {clock : AppendClock} {jobs : List ProduceRequest}
    (hroom : s.runtime.HasRoom topic partition jobs.length) :
    Sound Z config ⟨BrokerRuntime.appendJobs config env topic partition clock jobs s.runtime,
      s.toldAfter Z config ⟨env, .appendJobs topic partition clock jobs⟩⟩ := by
  rw [toldAfter]
  dsimp only
  rw [BrokerRuntime.appendJobs]
  cases hfind : s.runtime.findPartition topic partition with
  | error error => exact h
  | ok log =>
      obtain ⟨hname, -, hlog⟩ := h.findPartition hfind
      have happended := hlog.runAppendBatch (openOptions_logOptions _ hname _) clock
        env.appendFault (henv.removals topic partition) (hroom.lt hfind)
      have hset := h.setLog hfind happended
      dsimp only
      split
      · exact hset
      · exact hset.congr rfl rfl rfl rfl

/-! ## Operations on offsets -/

theorem Sound.storeOffset (h : s.Sound Z config) (henv : env.LeavesNoTrace)
    {topic : Bytes} {partition target : ℕ} {log : PartitionLog}
    (hfind : s.runtime.findPartition topic partition = .ok log) (htarget : target ≤ log.nextOffset)
    (group : Bytes) :
    Sound Z config ⟨(s.runtime.storeOffset env group topic partition target).1, s.told⟩ := by
  obtain ⟨hname, hpartition, hlog⟩ := h.findPartition hfind
  rw [BrokerRuntime.storeOffset]
  dsimp only
  cases hfault : env.commitFault group with
  | some fault =>
      obtain ⟨reason, rfl⟩ := henv.commits group fault hfault
      have hsame : (s.runtime.store.offsets.commit group topic partition target
          (some (.createDirectory reason))).1 = s.runtime.store.offsets := by
        rw [OffsetStore.commit]
        split_ifs
        · rfl
        · rfl
        · rfl
      rw [hsame]
      exact h.congr rfl rfl rfl rfl
  | none =>
      cases hdone : s.runtime.store.offsets.commit group topic partition target none with
      | mk stored result =>
          cases result with
          | error message =>
              have hsame : stored = s.runtime.store.offsets := by
                rw [OffsetStore.commit] at hdone
                split_ifs at hdone
                · exact (Prod.mk.inj hdone).1.symm
                · exact (Prod.mk.inj hdone).1.symm
                · cases (Prod.mk.inj hdone).2
              rw [hsame]
              exact h.congr rfl rfl rfl rfl
          | ok =>
              have hbound := hlog.bound
              have hcommitted := OffsetStore.committed_commit_ok (congrArg Prod.snd hdone)
              rw [hdone] at hcommitted
              refine ⟨h.served, h.absent,
                h.offsets.commit hpartition (by omega) hdone,
                fun group' topic' partition' offset hoffset ↦ ?_⟩
              have hkept : ∀ found, s.runtime.findPartition topic' partition' = .ok found →
                  (s.runtime.withOffsets stored).findPartition topic' partition' = .ok found :=
                fun found hfound ↦ (BrokerRuntime.findPartition_congr rfl _).trans hfound
              dsimp only at hoffset
              rw [BrokerRuntime.withOffsets, hcommitted] at hoffset
              split_ifs at hoffset with hsame
              · obtain ⟨-, rfl, rfl⟩ := hsame
                obtain rfl := Option.some.inj hoffset
                exact ⟨log, hkept log hfind, htarget⟩
              · obtain ⟨found, hfound, hle⟩ := h.committed group' topic' partition' offset hoffset
                exact ⟨found, hkept found hfound, hle⟩

theorem validate_bind_ok {s : BrokerRuntime} {group topic : Bytes} {partition : ℕ}
    {log : PartitionLog}
    (h : ((s.validateGroupAndTopic group topic).bind fun served ↦
      BrokerRuntime.partitionOrThrow served partition) = .ok log) :
    s.findPartition topic partition = .ok log := by
  obtain ⟨served, hserved, hlog⟩ := bind_eq_ok h
  obtain ⟨_, -, htopic⟩ := bind_eq_ok hserved
  rw [BrokerRuntime.findPartition, htopic]
  exact hlog

theorem checkOffsetRange_ok {earliestOffset nextOffset offset target : ℕ} {below beyond : String}
    (h : checkOffsetRange earliestOffset nextOffset offset below beyond = .ok target) :
    target = offset ∧ target ≤ nextOffset := by
  rw [checkOffsetRange] at h
  split_ifs at h with hbelow hbeyond
  obtain rfl := Except.ok.inj h
  exact ⟨rfl, Nat.not_lt.mp hbeyond⟩

/-- A commit that comes behind calls of the coordinator. -/
theorem Sound.storeOffset_withCoordinator (h : s.Sound Z config) (henv : env.LeavesNoTrace)
    (coordinator : GroupCoordinator) {topic : Bytes} {partition target : ℕ} {log : PartitionLog}
    (hfind : s.runtime.findPartition topic partition = .ok log) (htarget : target ≤ log.nextOffset)
    (group : Bytes) :
    Sound Z config ⟨((s.runtime.withCoordinator coordinator).storeOffset env group topic partition
      target).1, s.told⟩ := by
  have hmembers : Sound Z config ⟨s.runtime.withCoordinator coordinator, s.told⟩ :=
    h.congr rfl rfl rfl rfl
  exact hmembers.storeOffset henv ((BrokerRuntime.findPartition_congr rfl _).trans hfind) htarget
    group

theorem Sound.commitOffset (h : s.Sound Z config) (henv : env.LeavesNoTrace)
    (request : OffsetCommit) :
    Sound Z config ⟨(BrokerRuntime.commitOffset env request s.runtime).1, s.told⟩ := by
  rw [BrokerRuntime.commitOffset]
  split
  · exact h
  · next log hfind =>
      dsimp only
      split_ifs
      · exact h.congr rfl rfl rfl rfl
      · split
        · exact h.congr rfl rfl rfl rfl
        · next target htarget =>
            exact h.storeOffset_withCoordinator henv _ (validate_bind_ok hfind)
              (checkOffsetRange_ok htarget).2 _

theorem Sound.commitGroupOffset (h : s.Sound Z config) (henv : env.LeavesNoTrace)
    (request : GroupOffsetCommit) :
    Sound Z config ⟨(BrokerRuntime.commitGroupOffset env request s.runtime).1, s.told⟩ := by
  rw [BrokerRuntime.commitGroupOffset]
  split
  · exact h
  · next target htarget =>
      obtain ⟨log, hfind, htarget⟩ := bind_eq_ok htarget
      dsimp only
      split
      · exact h.congr rfl rfl rfl rfl
      · exact h.storeOffset_withCoordinator henv _ (validate_bind_ok hfind)
          (checkOffsetRange_ok htarget).2 _

theorem Sound.resetGroupOffset (h : s.Sound Z config) (henv : env.LeavesNoTrace)
    (request : ResetGroupOffsetRequest) :
    Sound Z config ⟨(BrokerRuntime.resetGroupOffset env request s.runtime).1, s.told⟩ := by
  rw [BrokerRuntime.resetGroupOffset]
  split
  · exact h
  dsimp only
  split
  · exact h.congr rfl rfl rfl rfl
  split
  · exact h.congr rfl rfl rfl rfl
  next served hserved =>
    split
    · exact h.congr rfl rfl rfl rfl
    split
    · exact h.congr rfl rfl rfl rfl
    · next target htarget =>
        obtain ⟨log, hlog, htarget⟩ := bind_eq_ok htarget
        obtain ⟨_, -, htarget⟩ := bind_eq_ok htarget
        have hfind : s.runtime.findPartition request.topic request.partition = .ok log := by
          rw [BrokerRuntime.findPartition, hserved]
          exact hlog
        exact h.storeOffset_withCoordinator henv _ hfind (checkOffsetRange_ok htarget).2 _

theorem Sound.memberCall {response : Type} (h : s.Sound Z config)
    (call : GroupCoordinator → GroupCoordinator × Except GroupCoordinatorError GroupResult)
    (answer : GroupResult → response) (request : GroupMember) :
    Sound Z config ⟨(BrokerRuntime.memberCall env call answer request s.runtime).1, s.told⟩ := by
  rw [BrokerRuntime.memberCall]
  split
  · exact h
  · exact h.congr rfl rfl rfl rfl

theorem Sound.joinGroup (h : s.Sound Z config) (request : JoinGroupRequest) :
    Sound Z config ⟨(BrokerRuntime.joinGroup env request s.runtime).1, s.told⟩ := by
  rw [BrokerRuntime.joinGroup]
  split
  · exact h
  · exact h.congr rfl rfl rfl rfl

theorem Sound.describeGroup (h : s.Sound Z config) (request : DescribeGroupRequest) :
    Sound Z config ⟨(BrokerRuntime.describeGroup env request s.runtime).1, s.told⟩ := by
  rw [BrokerRuntime.describeGroup]
  split
  · exact h
  · exact h.congr rfl rfl rfl rfl

/-! ## Creating and deleting -/

/-- A creation that fails has made an empty directory at most. -/
theorem get_stopSteps_create {data : DataDirectory} {request : CreateTopicRequest} {now : Bytes}
    {stop : TopicStop} (hstop : TopicStore.NoManifest stop) (topic : Bytes) :
    get (stopSteps Z config.topics stop stop.done (TopicStore.createSteps request now) data) topic =
      get data topic := by
  have hsteps : TopicStore.createSteps request now = .createDirectory request.topic ::
      .writeManifest ⟨request.topic, request.partitionCount, now⟩ ::
        openSteps request.topic request.partitionCount := rfl
  rw [hsteps]
  rcases hstop with hdone | ⟨hdone, hcut⟩
  · rw [hdone]
    rfl
  · rw [hdone]
    simp only [stopSteps, TopicStep.interrupted, hcut, TopicStep.apply]
    by_cases hsame : topic = request.topic
    · rw [hsame, DataDirectory.get, SortedMap.find?_insert_self]
      rfl
    · rw [DataDirectory.get, SortedMap.find?_insert, if_neg hsame, DataDirectory.get]

theorem created_ne_exists : text "exists" ≠ text "created" := by decide +kernel

/-- What a creation does, with the partitions that it opens. -/
inductive Creation (Z : Zstd) (config : TopicConfig) (store : TopicStore)
    (request : CreateTopicRequest) (now : Bytes) (fault : Option TopicFault) :
    TopicStore × Except BrokerError CreateTopicResponse → Prop
  | refused (error : BrokerError) : Creation Z config store request now fault (store, .error error)
  | found : Creation Z config store request now fault
      (store, .ok ⟨request.topic, request.partitionCount, text "exists"⟩)
  | stopped (threw : TopicFault) (hfault : fault = some threw) (error : BrokerError) :
      Creation Z config store request now fault
        ({ store with
            data := stopSteps Z config threw.stop threw.stop.done
              (TopicStore.createSteps request now) store.data }, .error error)
  | created (served : ServedTopic) (hname : isValidTopicName request.topic = true)
      (hcount : request.partitionCount ≠ 0 ∧
        request.partitionCount ≤ config.maxTopicPartitions.toNat)
      (hnone : store.topics.find? request.topic = none)
      (hopen : openTopicState Z config (runSteps Z config store.data
        (manifestSteps ⟨request.topic, request.partitionCount, now⟩)) request.topic
          request.partitionCount = .ok served) :
      Creation Z config store request now fault
        ({ store with
            data := runSteps Z config store.data (TopicStore.createSteps request now)
            topics := store.topics.insert request.topic served },
          .ok ⟨request.topic, request.partitionCount, text "created"⟩)

theorem creation (Z : Zstd) (config : TopicConfig) (store : TopicStore)
    (request : CreateTopicRequest) (now : Bytes) (fault : Option TopicFault) :
    Creation Z config store request now fault
      (store.createTopic Z config request now fault) := by
  rw [TopicStore.createTopic]
  by_cases hname : isValidTopicName request.topic = false
  · rw [if_pos hname]
    exact .refused _
  rw [if_neg hname]
  rw [Bool.not_eq_false] at hname
  by_cases hcount : request.partitionCount = 0 ∨
      request.partitionCount > config.maxTopicPartitions.toNat
  · rw [if_pos hcount]
    exact .refused _
  rw [if_neg hcount]
  rw [not_or, Nat.not_lt] at hcount
  cases hserved : store.topics.find? request.topic with
  | some existing =>
      dsimp only
      split_ifs
      · exact .refused _
      · exact .found
  | none =>
      dsimp only
      split
      · next found step hfault =>
          obtain ⟨threw, hthrew, hstep⟩ := Option.bind_eq_some_iff.mp hfault
          obtain ⟨_, -, hpair⟩ := Option.map_eq_some_iff.mp hstep
          obtain rfl := (Prod.mk.inj hpair).1
          exact .stopped threw hthrew _
      · obtain ⟨served, hopen, -⟩ := openTopicState_ok Z config (runSteps Z config store.data
          (manifestSteps ⟨request.topic, request.partitionCount, now⟩)) hname
          request.partitionCount
        rw [hopen]
        exact .created served hname hcount hserved hopen

/-- The directory of a topic that has just been created. -/
theorem serves_created {data : DataDirectory} {request : CreateTopicRequest} {now : Bytes}
    {served : ServedTopic} (policy : RetentionPolicy) {topics : TopicConfig}
    (hname : isValidTopicName request.topic = true)
    (hcount : request.partitionCount ≠ 0 ∧
      request.partitionCount ≤ topics.maxTopicPartitions.toNat)
    (hempty : get data request.topic = {})
    (hopen : openTopicState Z topics (runSteps Z topics data
      (manifestSteps ⟨request.topic, request.partitionCount, now⟩)) request.topic
        request.partitionCount = .ok served) :
    served.Serves Z policy topics
      (get (runSteps Z topics data (TopicStore.createSteps request now)) request.topic)
      (fun _ ↦ []) request.topic := by
  set manifest : TopicManifest := ⟨request.topic, request.partitionCount, now⟩ with hmanifest
  set written := runSteps Z topics data (manifestSteps manifest) with hwritten
  have hsteps : runSteps Z topics data (TopicStore.createSteps request now) =
      runSteps Z topics written ((List.range request.partitionCount).map
        (TopicStep.openPartition request.topic)) := by
    rw [TopicStore.createSteps, runSteps, List.foldl_append]
    rfl
  have hget : get written request.topic = { manifest := some (writeTopicManifest manifest) } := by
    rw [hwritten]
    change get (setManifest (data.insert request.topic (get data request.topic)) request.topic
      (writeTopicManifest manifest)) request.topic = _
    rw [get_setManifest, DataDirectory.get, SortedMap.find?_insert_self, hempty]
    rfl
  have hmax := topics.maxTopicPartitions.toNat_lt
  obtain ⟨found, hfound, -, hfoundCount⟩ := manifest_reads_back
    (text (topics.manifestPath request.topic)) manifest hname (Nat.one_le_iff_ne_zero.mpr hcount.1)
    (hcount.2.trans (by omega))
  obtain ⟨logs, hlogs, rfl⟩ := map_eq_ok hopen
  have hopens := forall₂_of_mapM hlogs
  have hlength : logs.length = request.partitionCount := by
    rw [← hopens.length_eq, List.length_range]
  have hopened : ∀ partition log, logs[partition]? = some log →
      partition < request.partitionCount ∧
        DataDirectory.openLog Z topics written request.topic partition = .ok log := by
    intro partition log hlog
    obtain ⟨hlt, rfl⟩ := List.getElem?_eq_some_iff.mp hlog
    have hrange : partition < (List.range request.partitionCount).length := by
      rw [List.length_range]
      omega
    have hpartition := hopens.get hrange hlt
    simp only [List.get_eq_getElem, List.getElem_range] at hpartition
    exact ⟨by omega, hpartition⟩
  rw [hsteps]
  refine ⟨hname, ⟨found, ?_, hfoundCount⟩, hcount.2, hlength, fun partition log hlog ↦ ?_,
    fun partition log hlog ↦ ?_⟩
  · have hfile := @manifest_runSteps_open Z topics written request.topic
      (List.range request.partitionCount)
    rw [hget] at hfile
    rw [manifestFile, hfile]
    exact hfound
  · obtain ⟨hlt, hopen⟩ := hopened partition log hlog
    rw [partitions_runSteps_open List.nodup_range, if_pos (List.mem_range.mpr hlt), hopen]
    rfl
  · obtain ⟨-, hopen⟩ := hopened partition log hlog
    rw [DataDirectory.openLog, hget] at hopen
    exact LogTold.opened hopen

theorem topic_of_mem_createSteps {request : CreateTopicRequest} {now : Bytes} {step : TopicStep}
    (h : step ∈ TopicStore.createSteps request now) : step.topic = request.topic := by
  rcases List.mem_append.mp h with h | h
  · exact topic_of_mem_manifestSteps h
  · exact topic_of_mem_openSteps h

theorem Sound.createTopic (h : s.Sound Z config) (henv : env.LeavesNoTrace)
    (request : CreateTopicRequest) :
    Sound Z config ⟨(BrokerRuntime.createTopic Z config env request s.runtime).1,
      s.toldAfter Z config ⟨env, .createTopic request⟩⟩ := by
  rw [toldAfter]
  dsimp only
  rw [BrokerRuntime.createTopic]
  dsimp only
  have hcreation := creation Z config.topics s.runtime.store request env.utcNow
    (env.topicFault request.topic)
  generalize s.runtime.store.createTopic Z config.topics request env.utcNow
    (env.topicFault request.topic) = result at hcreation
  cases hcreation with
  | refused error => exact h.congr rfl rfl rfl rfl
  | found =>
      simp only [Except.mapError, if_neg created_ne_exists]
      exact h.congr rfl rfl rfl rfl
  | stopped found hfault error =>
      have hget := @get_stopSteps_create Z config s.runtime.store.data request env.utcNow found.stop
        (henv.topics _ found hfault)
      refine ⟨fun topic served hserved ↦ ?_, fun topic hnone ↦ ?_, h.offsets, h.committed⟩
      · dsimp only
        rw [hget]
        exact h.served topic served hserved
      · dsimp only
        rw [hget]
        exact h.absent topic hnone
  | created served hname hcount hnone hopen =>
      have hserves := serves_created config.retentionPolicy hname hcount
        (h.absent request.topic hnone) hopen
      have hother : ∀ topic, topic ≠ request.topic →
          get (runSteps Z config.topics s.runtime.store.data
            (TopicStore.createSteps request env.utcNow)) topic =
              get s.runtime.store.data topic := fun topic hne ↦
        get_runSteps_ne fun step hstep ↦ by
          rw [topic_of_mem_createSteps hstep]
          exact hne
      simp only [Except.mapError, if_pos]
      refine ⟨fun topic found hfound ↦ ?_, fun topic hmissing ↦ ?_, h.offsets,
        fun group topic partition offset hcommitted ↦ ?_⟩
      · dsimp only at hfound ⊢
        rw [SortedMap.find?_insert] at hfound
        split_ifs at hfound with hsame
        · obtain rfl := Option.some.inj hfound
          subst hsame
          rw [Function.update_self]
          exact hserves
        · rw [hother topic hsame, Function.update_of_ne hsame]
          exact h.served topic found hfound
      · dsimp only at hmissing ⊢
        rw [SortedMap.find?_insert] at hmissing
        split_ifs at hmissing with hsame
        rw [hother topic hsame]
        exact h.absent topic hmissing
      · obtain ⟨log, hfind, hle⟩ := h.committed group topic partition offset hcommitted
        obtain ⟨holder, hholder, hrest⟩ := BrokerRuntime.findPartition_ok_iff.mp hfind
        refine ⟨log, BrokerRuntime.findPartition_ok_iff.mpr ⟨holder, ?_, hrest⟩, hle⟩
        dsimp only
        rw [SortedMap.find?_insert, if_neg fun hsame ↦ by
          rw [hsame, hnone] at hholder
          cases hholder]
        exact hholder

/-- A deletion that gets to its end, when nothing fails. -/
theorem Sound.deleted (h : s.Sound Z config) (coordinator : GroupCoordinator)
    (waiters : WaiterState Unit) (topic : Bytes) :
    Sound Z config
      ⟨{ store :=
          { data := s.runtime.store.data.erase topic
            topics := s.runtime.store.topics.erase topic
            offsets := (s.runtime.store.offsets.removeTopic topic).1
            coordinator := coordinator }
         waiters := waiters }, s.told⟩ := by
  have hget : ∀ other, get (s.runtime.store.data.erase topic) other =
      if other = topic then {} else get s.runtime.store.data other := by
    intro other
    rw [DataDirectory.get, SortedMap.find?_erase]
    split_ifs
    · rfl
    · rfl
  refine ⟨fun other served hserved ↦ ?_, fun other hnone ↦ ?_, h.offsets.removeTopic topic,
    fun group other partition offset hcommitted ↦ ?_⟩
  · dsimp only at hserved ⊢
    rw [SortedMap.find?_erase] at hserved
    split_ifs at hserved with hsame
    rw [hget, if_neg hsame]
    exact h.served other served hserved
  · dsimp only at hnone ⊢
    rw [hget]
    rw [SortedMap.find?_erase] at hnone
    split_ifs with hsame
    · rfl
    · rw [if_neg hsame] at hnone
      exact h.absent other hnone
  · dsimp only at hcommitted
    rw [OffsetStore.committed_removeTopic] at hcommitted
    split_ifs at hcommitted with hsame
    obtain ⟨log, hfind, hle⟩ := h.committed group other partition offset hcommitted
    refine ⟨log, (BrokerRuntime.findPartition_congr ?_ _).trans hfind, hle⟩
    dsimp only
    rw [SortedMap.find?_erase, if_neg hsame]

theorem Sound.deleteTopic (h : s.Sound Z config) (henv : env.LeavesNoTrace)
    (request : DeleteTopicRequest) :
    Sound Z config ⟨(BrokerRuntime.deleteTopic Z config env request s.runtime).1, s.told⟩ := by
  suffices hstore : ∀ waiters, Sound Z config ⟨⟨(s.runtime.store.deleteTopic Z config.topics
      request env.first env.second env.deleteFault).1, waiters⟩, s.told⟩ from hstore _
  intro waiters
  rw [henv.deletions, TopicStore.deleteTopic]
  by_cases hname : isValidTopicName request.topic = false
  · rw [if_pos hname]
    exact h.congr rfl rfl rfl rfl
  rw [if_neg hname]
  dsimp only
  by_cases hfirst : (s.runtime.store.coordinator.topicHasActiveMembers request.topic
      env.first).2 = true
  · rw [if_pos hfirst]
    exact h.congr rfl rfl rfl rfl
  rw [if_neg hfirst]
  cases hfind : s.runtime.store.topics.find? request.topic with
  | none => exact h.congr rfl rfl rfl rfl
  | some served =>
      dsimp only
      by_cases hsecond : ((s.runtime.store.coordinator.topicHasActiveMembers request.topic
          env.first).1.topicHasActiveMembers request.topic env.second).2 = true
      · rw [if_pos hsecond]
        exact h.congr rfl rfl rfl rfl
      rw [if_neg hsecond]
      exact h.deleted _ _ _

end Operations

end RuntimeRun

end BoltStream.Broker
