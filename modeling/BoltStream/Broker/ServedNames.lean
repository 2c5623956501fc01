import BoltStream.Broker.GroupNames
import BoltStream.Broker.HandledState
import BoltStream.Broker.Operations
import BoltStream.Broker.TopicLoading

/-!
# The names of what is served

Every log that is served has the name of its topic in its options, and that name is one
of a directory.  Together with the names of the groups this survives every operation,
and what the other sessions and the append threads do.
-/

namespace BoltStream.Broker

open BoltStream.Lib BoltStream.Protocol BoltStream.Compression BoltStream.Storage

/-! ## Logs -/

section Logs

variable {log : PartitionLog}

theorem options_applyRetention (log : PartitionLog) (env : RetentionEnv)
    (policy : RetentionPolicy) : (log.applyRetention env policy).1.options = log.options := by
  rw [PartitionLog.applyRetention]
  dsimp only
  split
  · rfl
  · rfl

theorem options_appendBatch (log : PartitionLog) (clock : AppendClock)
    (fault : Option AppendFault) (records : List AppendRecord) :
    (log.appendBatch clock fault records).1.options = log.options := by
  rw [PartitionLog.appendBatch]
  split_ifs
  · rfl
  · dsimp only
    split
    · rfl
    · rfl
    · rfl

theorem options_appendEncodedBatch (Z : Zstd) (log : PartitionLog) (codec : Codec)
    (encodedRecords : Bytes) (uncompressedBytes : UInt32) (decodedRecords : List AppendRecord)
    (timestamp : UInt64) (fault : Option AppendFault) :
    (PartitionLog.appendEncodedBatch Z log codec encodedRecords uncompressedBytes decodedRecords
      timestamp fault).1.options = log.options := by
  rw [PartitionLog.appendEncodedBatch]
  split
  · rfl
  · dsimp only
    split
    · rfl
    · rfl

/-- A batch that was appended names the topic of its log. -/
theorem topic_appendEncodedBatch {Z : Zstd} {codec : Codec} {encodedRecords : Bytes}
    {uncompressedBytes : UInt32} {decodedRecords : List AppendRecord} {timestamp : UInt64}
    {fault : Option AppendFault} {metadata : BatchMetadata}
    (h : (PartitionLog.appendEncodedBatch Z log codec encodedRecords uncompressedBytes
      decodedRecords timestamp fault).2 = .ok metadata) : metadata.topic = log.options.topic := by
  rw [PartitionLog.appendEncodedBatch] at h
  split at h
  · cases h
  · dsimp only at h
    split at h
    · exact congrArg BatchMetadata.topic (Except.ok.inj h).symm
    · cases h

theorem topic_stageRecords (options : PartitionLogOptions) (clock : AppendClock)
    (originalNextOffset : ℕ) (records : List AppendRecord) :
    ∀ recordIndex base currentSize, ∀ staged ∈ (PartitionLog.stageRecords options clock
      originalNextOffset recordIndex base currentSize records).records,
        staged.metadata.topic = options.topic := by
  induction records with
  | nil =>
      intro recordIndex base currentSize staged hstaged
      cases hstaged
  | cons record records ih =>
      intro recordIndex base currentSize staged hstaged
      rw [PartitionLog.stageRecords] at hstaged
      dsimp only at hstaged
      split at hstaged
      · cases hstaged
      · rcases List.mem_cons.mp hstaged with rfl | hstaged
        · rfl
        · exact ih _ _ _ staged hstaged

theorem topic_appendBatch {clock : AppendClock} {fault : Option AppendFault}
    {records : List AppendRecord} {metas : List RecordMetadata}
    (h : (log.appendBatch clock fault records).2 = .ok metas) :
    ∀ metadata ∈ metas, metadata.topic = log.options.topic := by
  intro metadata hmem
  rw [PartitionLog.appendBatch] at h
  split_ifs at h
  · rw [← Except.ok.inj h] at hmem
    cases hmem
  · dsimp only at h
    split at h
    · rw [← Except.ok.inj h] at hmem
      obtain ⟨staged, hstaged, rfl⟩ := List.mem_map.mp hmem
      exact topic_stageRecords log.options clock log.nextOffset records _ _ _ staged hstaged
    · cases h
    · cases h

end Logs

theorem options_runAppendBatch (log : PartitionLog) (clock : AppendClock)
    (fault : Option AppendFault) (env : RetentionEnv) (policy : RetentionPolicy)
    (jobs : List ProduceRequest) :
    (runAppendBatch log clock fault env policy jobs).log.options = log.options := by
  have happended := options_appendBatch log clock fault (jobs.map appendRecord)
  rw [runAppendBatch]
  split
  · next appended message heq =>
      rw [heq] at happended
      exact happended
  · next appended metadata heq =>
      rw [heq] at happended
      have hkept := options_applyRetention appended env policy
      dsimp only
      split
      · next kept message hretained =>
          rw [hretained] at hkept
          exact hkept.trans happended
      · next kept stats hretained =>
          rw [hretained] at hkept
          exact hkept.trans happended

/-- A job that was answered with success was appended to a log of its topic. -/
theorem topic_runAppendBatch {log : PartitionLog} {clock : AppendClock}
    {fault : Option AppendFault} {env : RetentionEnv} {policy : RetentionPolicy}
    {jobs : List ProduceRequest} {result : ProduceResult}
    (h : result ∈ (runAppendBatch log clock fault env policy jobs).results)
    (hok : result.ok = true) : result.response.topic = log.options.topic := by
  rw [runAppendBatch] at h
  split at h
  · obtain ⟨other, -, hfailed⟩ := List.mem_map.mp h
    rw [← hfailed] at hok
    cases hok
  · next appended metadata heq =>
      dsimp only at h
      split at h
      · obtain ⟨other, -, hfailed⟩ := List.mem_map.mp h
        rw [← hfailed] at hok
        cases hok
      · rcases List.mem_append.mp h with h | h
        · obtain ⟨record, hrecord, rfl⟩ := List.mem_map.mp h
          exact topic_appendBatch (congrArg Prod.snd heq) record hrecord
        · rw [List.eq_of_mem_replicate h] at hok
          cases hok

/-! ## Topics -/

/-- The topic can have a directory, and its logs are its own. -/
structure ServedTopic.NamedAs (served : ServedTopic) (topic : Bytes) : Prop where
  directory : topic.length ≤ 255
  logs : ∀ log ∈ served.partitions, log.options.topic = topic

structure TopicStore.Named (store : TopicStore) : Prop where
  topics : ∀ topic served, store.topics.find? topic = some served → served.NamedAs topic
  groups : store.coordinator.Named

section Topics

variable {Z : Zstd} {config : TopicConfig}

theorem options_openLog {options : PartitionLogOptions} {dir : Directory} {log : PartitionLog}
    (h : PartitionLog.openLog Z options dir = .ok log) : log.options = options := by
  rw [PartitionLog.openLog] at h
  split_ifs at h
  rw [← Except.ok.inj h]
  rfl

/-- Each value comes from its own element. -/
theorem forall₂_of_mapM {α β ε : Type} {f : α → Except ε β} {elements : List α}
    {values : List β} (h : elements.mapM f = .ok values) :
    List.Forall₂ (fun element value ↦ f element = .ok value) elements values := by
  induction elements generalizing values with
  | nil =>
      rw [← Except.ok.inj h]
      exact .nil
  | cons element elements ih =>
      rw [List.mapM_cons] at h
      cases hfirst : f element with
      | error error =>
          rw [hfirst] at h
          cases h
      | ok first =>
          cases hrest : elements.mapM f with
          | error error =>
              rw [hfirst, hrest] at h
              cases h
          | ok rest =>
              rw [hfirst, hrest] at h
              rw [← Except.ok.inj h]
              exact .cons hfirst (ih hrest)

theorem openTopicState_opens {data : DataDirectory} {topic : Bytes} {partitionCount : ℕ}
    {served : ServedTopic} (h : openTopicState Z config data topic partitionCount = .ok served) :
    List.Forall₂ (fun partition log ↦ DataDirectory.openLog Z config data topic partition = .ok log)
      (List.range partitionCount) served.partitions := by
  obtain ⟨logs, hlogs, rfl⟩ := map_eq_ok h
  exact forall₂_of_mapM hlogs

theorem openTopicState_named {data : DataDirectory} {topic : Bytes} {partitionCount : ℕ}
    {served : ServedTopic} (h : openTopicState Z config data topic partitionCount = .ok served)
    (hshort : topic.length ≤ 255) : served.NamedAs topic := by
  have hlogs : ∀ partitions logs, List.Forall₂ (fun partition log ↦
      DataDirectory.openLog Z config data topic partition = .ok log) partitions logs →
        ∀ log ∈ logs, log.options.topic = topic := by
    intro partitions logs hopens
    induction hopens with
    | nil =>
        intro log hlog
        cases hlog
    | cons hopen _ ih =>
        refine List.forall_mem_cons.mpr ⟨?_, ih⟩
        rw [options_openLog hopen]
        rfl
  exact ⟨hshort, hlogs _ _ (openTopicState_opens h)⟩

theorem loadTopic_named {data : DataDirectory} {now topic : Bytes} {served : ServedTopic}
    (h : (loadTopic Z config data now topic).2 = .ok (some served))
    (hshort : topic.length ≤ 255) : served.NamedAs topic := by
  rw [loadTopic] at h
  split at h
  · cases h
  split at h
  · cases h
  split at h
  · cases h
  split at h
  · cases h
  next opened hopened =>
    obtain rfl := Option.some.inj (Except.ok.inj h)
    exact openTopicState_named hopened hshort

theorem loadExistingTopics_named {now : Bytes} {listing : List Bytes}
    (hshort : ∀ topic ∈ listing, topic.length ≤ 255) {data : DataDirectory}
    {loaded : List (Bytes × ServedTopic)}
    (h : (loadExistingTopics Z config now listing data).2 = .ok loaded) :
    ∀ entry ∈ loaded, entry.2.NamedAs entry.1 := by
  induction listing generalizing data loaded with
  | nil =>
      intro entry hentry
      rw [← Except.ok.inj h] at hentry
      cases hentry
  | cons topic rest ih =>
      intro entry hentry
      rw [loadExistingTopics] at h
      dsimp only at h
      split at h
      · cases h
      · next served hserved =>
          obtain ⟨topics, htopics, rfl⟩ := map_eq_ok h
          rcases List.mem_append.mp hentry with hentry | hentry
          · obtain ⟨found, hfound, rfl⟩ := List.mem_map.mp hentry
            rw [Option.mem_toList] at hfound
            exact loadTopic_named (hserved.trans (congrArg Except.ok hfound))
              (hshort topic List.mem_cons_self)
          · exact ih (fun other hother ↦ hshort other (List.mem_cons_of_mem _ hother)) htopics
              entry hentry

theorem find?_loadedTopics_named {loaded : List (Bytes × ServedTopic)}
    (h : ∀ entry ∈ loaded, entry.2.NamedAs entry.1) :
    ∀ topic served, (loadedTopics loaded).find? topic = some served → served.NamedAs topic := by
  have hfold : ∀ (start : SortedMap Bytes ServedTopic),
      (∀ topic served, start.find? topic = some served → served.NamedAs topic) →
        ∀ topic served, (loaded.foldl (fun topics entry ↦ topics.insert entry.1 entry.2)
          start).find? topic = some served → served.NamedAs topic := by
    induction loaded with
    | nil => exact fun start hstart ↦ hstart
    | cons entry loaded ih =>
        intro start hstart
        refine ih (fun other hother ↦ h other (List.mem_cons_of_mem _ hother)) _
          fun topic served hfound ↦ ?_
        rw [SortedMap.find?_insert] at hfound
        split_ifs at hfound with hsame
        · rw [hsame, ← Option.some.inj hfound]
          exact h entry List.mem_cons_self
        · exact hstart topic served hfound
  exact hfold ∅ fun topic served hfound ↦ absurd hfound (by simp)

namespace TopicStore

/-- What a broker serves when it has started. -/
theorem named_loaded {now : Bytes} {listing : List Bytes} {data : DataDirectory}
    {loaded : List (Bytes × ServedTopic)}
    (h : (loadExistingTopics Z config now listing data).2 = .ok loaded)
    (hshort : ∀ topic ∈ listing, topic.length ≤ 255) (files : DataDirectory)
    (offsets : OffsetStore) :
    ({ data := files, topics := loadedTopics loaded, offsets := offsets, coordinator := {} } :
      TopicStore).Named :=
  ⟨find?_loadedTopics_named (loadExistingTopics_named hshort h), GroupCoordinator.named_empty⟩

variable {store : TopicStore}

theorem Named.insert (h : store.Named) {topic : Bytes} {served : ServedTopic}
    (hserved : served.NamedAs topic) (data : DataDirectory) :
    ({ store with data := data, topics := store.topics.insert topic served } :
      TopicStore).Named := by
  refine ⟨fun other found hfound ↦ ?_, h.groups⟩
  rw [SortedMap.find?_insert] at hfound
  split_ifs at hfound with hsame
  · rw [hsame, ← Option.some.inj hfound]
    exact hserved
  · exact h.topics other found hfound

theorem Named.erase (h : store.Named) (topic : Bytes) :
    ({ store with topics := store.topics.erase topic } : TopicStore).Named := by
  refine ⟨fun other found hfound ↦ ?_, h.groups⟩
  rw [SortedMap.find?_erase] at hfound
  split_ifs at hfound
  exact h.topics other found hfound

theorem Named.withCoordinator (h : store.Named) {coordinator : GroupCoordinator}
    (hcoordinator : coordinator.Named) :
    ({ store with coordinator := coordinator } : TopicStore).Named :=
  ⟨h.topics, hcoordinator⟩

theorem length_exists : (text "exists").length = 6 := length_text _

theorem length_created : (text "created").length = 7 := length_text _

theorem length_deleted : (text "deleted").length = 7 := length_text _

/-- The directory of a topic with a long name cannot be created, so that a topic that is
created has a short one. -/
theorem Named.createTopic (h : store.Named) (request : CreateTopicRequest) (now : Bytes)
    {fault : Option TopicFault}
    (hfault : 255 < request.topic.length →
      ∃ failing, fault = some failing ∧ failing.stop.done = 0) :
    (store.createTopic Z config request now fault).1.Named ∧
      ∀ response, (store.createTopic Z config request now fault).2 = .ok response →
        response.topic.length ≤ 255 ∧ response.status.length ≤ 7 := by
  rw [TopicStore.createTopic]
  split_ifs
  · exact ⟨h, fun response hresponse ↦ absurd hresponse (by simp)⟩
  · exact ⟨h, fun response hresponse ↦ absurd hresponse (by simp)⟩
  · split
    · next existing hfind =>
        split_ifs
        · exact ⟨h, fun response hresponse ↦ absurd hresponse (by simp)⟩
        · refine ⟨h, fun response hresponse ↦ ?_⟩
          rw [← Except.ok.inj hresponse]
          exact ⟨(h.topics _ _ hfind).directory, length_exists.le.trans (by norm_num)⟩
    · dsimp only
      split
      · exact ⟨⟨h.topics, h.groups⟩, fun response hresponse ↦ absurd hresponse (by simp)⟩
      · next hnone =>
          have hshort : request.topic.length ≤ 255 := by
            by_contra hlong
            obtain ⟨failing, rfl, hdone⟩ := hfault (Nat.not_le.mp hlong)
            rw [Option.bind_some, hdone] at hnone
            cases hnone
          split
          · exact ⟨⟨h.topics, h.groups⟩, fun response hresponse ↦ absurd hresponse (by simp)⟩
          · next served hopened =>
              refine ⟨h.insert (openTopicState_named hopened hshort) _,
                fun response hresponse ↦ ?_⟩
              rw [← Except.ok.inj hresponse]
              exact ⟨hshort, length_created.le⟩

theorem Named.deleteTopic (h : store.Named) (request : DeleteTopicRequest) (now later : ℤ)
    (fault : Option DeleteFault) :
    (store.deleteTopic Z config request now later fault).1.Named ∧
      ∀ response, (store.deleteTopic Z config request now later fault).2 = .ok response →
        response.topic.length ≤ 255 ∧ response.status.length ≤ 7 := by
  have hanswer : ∀ (left : TopicStore) (served : ServedTopic) response,
      (deleteTopic.deleted left request.topic served).2 = .ok response →
        response.topic = request.topic ∧ response.status.length ≤ 7 := by
    intro left served response hresponse
    rw [← Except.ok.inj hresponse]
    exact ⟨rfl, length_deleted.le⟩
  have hfirst := h.withCoordinator (h.groups.topicHasActiveMembers request.topic now)
  have hsecond := hfirst.withCoordinator (hfirst.groups.topicHasActiveMembers request.topic later)
  have hreleased := hsecond.erase request.topic
  rw [TopicStore.deleteTopic]
  dsimp only
  split
  · exact ⟨h, fun response hresponse ↦ absurd hresponse (by simp)⟩
  split
  · exact ⟨hfirst, fun response hresponse ↦ absurd hresponse (by simp)⟩
  split
  · exact ⟨hfirst, fun response hresponse ↦ absurd hresponse (by simp)⟩
  next served hfind =>
    have hshort := (h.topics _ _ hfind).directory
    split
    · exact ⟨hsecond, fun response hresponse ↦ absurd hresponse (by simp)⟩
    split
    · exact ⟨⟨hreleased.topics, hreleased.groups⟩,
        fun response hresponse ↦ absurd hresponse (by simp)⟩
    · split
      · exact ⟨⟨hreleased.topics, hreleased.groups⟩,
          fun response hresponse ↦ absurd hresponse (by simp)⟩
      · refine ⟨⟨hreleased.topics, hreleased.groups.removeTopic request.topic⟩,
          fun response hresponse ↦ ?_⟩
        obtain ⟨htopic, hstatus⟩ := hanswer _ _ _ hresponse
        exact ⟨htopic ▸ hshort, hstatus⟩
    · refine ⟨⟨hreleased.topics, hreleased.groups.removeTopic request.topic⟩,
        fun response hresponse ↦ ?_⟩
      obtain ⟨htopic, hstatus⟩ := hanswer _ _ _ hresponse
      exact ⟨htopic ▸ hshort, hstatus⟩

end TopicStore

end Topics

/-! ## Operations -/

namespace BrokerRuntime

/-- What is served and the groups have their names. -/
def Named (s : BrokerRuntime) : Prop := s.store.Named

section Operations

variable {Z : Zstd} {config : RuntimeConfig} {env : OperationEnv} {s : BrokerRuntime}

theorem Named.withCoordinator (h : s.Named) {coordinator : GroupCoordinator}
    (hcoordinator : coordinator.Named) : (s.withCoordinator coordinator).Named :=
  TopicStore.Named.withCoordinator h hcoordinator

theorem Named.storeOffset (h : s.Named) (group topic : Bytes) (partition target : ℕ) :
    (s.storeOffset env group topic partition target).1.Named :=
  ⟨h.topics, h.groups⟩

theorem Named.setLog (h : s.Named) {topic : Bytes} {log : PartitionLog}
    (hlog : log.options.topic = topic) (partition : ℕ) :
    (s.setLog topic partition log).Named := by
  rw [BrokerRuntime.setLog]
  split
  · exact h
  · next served hfind =>
      have hserved := h.topics topic served hfind
      refine TopicStore.Named.insert h ⟨hserved.directory, fun other hother ↦ ?_⟩ _
      rcases List.mem_or_eq_of_mem_set hother with hother | rfl
      · exact hserved.logs other hother
      · exact hlog

/-- A partition is found in a topic that is served, and its log is the topic's. -/
theorem Named.findPartition (h : s.Named) {topic : Bytes} {partition : ℕ} {log : PartitionLog}
    (hfind : s.findPartition topic partition = .ok log) :
    topic.length ≤ 255 ∧ log.options.topic = topic := by
  rw [BrokerRuntime.findPartition, findTopicOrThrow] at hfind
  cases hserved : s.store.topics.find? topic with
  | none =>
      rw [hserved] at hfind
      cases hfind
  | some served =>
      have hnamed := h.topics topic served hserved
      rw [hserved] at hfind
      change partitionOrThrow served partition = .ok log at hfind
      rw [partitionOrThrow] at hfind
      split_ifs at hfind
      cases hlog : served.partitions[partition]? with
      | none =>
          rw [hlog] at hfind
          cases hfind
      | some found =>
          rw [hlog] at hfind
          rw [← Except.ok.inj hfind]
          exact ⟨hnamed.directory, hnamed.logs found (List.mem_of_getElem? hlog)⟩

theorem Named.retain (h : s.Named) (partitions : List (Bytes × ℕ)) :
    (retain config env s partitions).1.Named := by
  induction partitions generalizing s with
  | nil => exact h
  | cons partition partitions ih =>
      rw [BrokerRuntime.retain]
      split
      · exact h
      · next log hfind =>
          have hkept := (options_applyRetention log (env.retention partition.1 partition.2)
            config.retentionPolicy)
          have hlog := (h.findPartition hfind).2
          split
          · next kept message heq =>
              rw [heq] at hkept
              exact h.setLog (hkept ▸ hlog) _
          · next kept stats heq =>
              rw [heq] at hkept
              exact ih (h.setLog (hkept ▸ hlog) _)

theorem keeps_runRetention : Call.Keeps (runRetention config env) Named := by
  intro request s h
  rw [runRetention]
  split
  · exact h
  dsimp only
  split
  · exact h
  · exact h.retain _

theorem keeps_produceBatch : Call.Keeps (produceBatch Z env) Named := by
  intro request s h
  rw [produceBatch]
  split
  · exact h
  · next log hfind =>
      have hkept := options_appendEncodedBatch Z log request.1.codec request.1.encodedRecords
        (UInt32.ofNat request.1.uncompressedBytes)
        (request.2.map fun record ↦ ⟨record.key, record.message⟩) env.timestamp env.appendFault
      have hafter := h.setLog
        ((congrArg PartitionLogOptions.topic hkept).trans (h.findPartition hfind).2)
        request.1.partition
      dsimp only
      split
      · exact hafter
      · exact hafter

theorem keeps_commitOffset : Call.Keeps (commitOffset env) Named := by
  intro request s h
  have hgroups := (h.groups.expire request.group request.topic env.first).hasActiveMembers
    request.group request.topic env.second
  rw [commitOffset]
  split
  · exact h
  · dsimp only
    split_ifs
    · exact h.withCoordinator hgroups
    · split
      · exact h.withCoordinator hgroups
      · exact (h.withCoordinator hgroups).storeOffset _ _ _ _

theorem keeps_joinGroup : Call.Keeps (joinGroup env) Named := by
  intro request s h
  rw [joinGroup]
  split
  · exact h
  · exact h.withCoordinator (h.groups.join _ _ _ _ _ _)

/-- A call of a member keeps the names if what it calls keeps those of the groups. -/
theorem keeps_memberCall {response : Type} {answer : GroupResult → response}
    {call : GroupMember → GroupCoordinator →
      GroupCoordinator × Except GroupCoordinatorError GroupResult}
    (hcall : ∀ (request : GroupMember) (coordinator : GroupCoordinator), coordinator.Named →
      (call request coordinator).1.Named) :
    Call.Keeps (fun request ↦ memberCall env (call request) answer request) Named := by
  intro request s h
  dsimp only
  rw [memberCall]
  split
  · exact h
  · exact h.withCoordinator (hcall request _ (h.groups.expire _ _ _))

theorem keeps_commitGroupOffset : Call.Keeps (commitGroupOffset env) Named := by
  intro request s h
  have hgroups := (h.groups.expire request.group request.topic env.first).validateCommit
    request.group request.topic request.memberId request.generationId request.partition
    env.second
  rw [commitGroupOffset]
  split
  · exact h
  · dsimp only
    split
    · exact h.withCoordinator hgroups
    · exact (h.withCoordinator hgroups).storeOffset _ _ _ _

theorem keeps_describeGroup : Call.Keeps (describeGroup env) Named := by
  intro request s h
  rw [describeGroup]
  split
  · exact h
  · exact h.withCoordinator (h.groups.activeMemberCount _ _ _)

theorem keeps_resetGroupOffset : Call.Keeps (resetGroupOffset env) Named := by
  intro request s h
  have hfirst := h.groups.hasActiveMembers request.group request.topic env.first
  have hsecond := hfirst.hasActiveMembers request.group request.topic env.second
  rw [resetGroupOffset]
  split
  · exact h
  dsimp only
  split
  · exact h.withCoordinator hfirst
  split
  · exact h.withCoordinator hfirst
  split
  · exact h.withCoordinator hsecond
  split
  · exact h.withCoordinator hsecond
  · exact (h.withCoordinator hsecond).storeOffset _ _ _ _

/-- Every operation keeps the names. -/
theorem operations_keep (Z : Zstd) (config : RuntimeConfig) (env : OperationEnv) :
    (operations Z config env).Keeps Named :=
  { createTopic := fun request s h ↦
      (TopicStore.Named.createTopic h request env.utcNow (env.topicNames request.topic)).1
    asyncProduce := by
      intro request s h
      change Named (asyncProduce env request s).1
      rw [BrokerRuntime.asyncProduce]
      split
      · exact h
      · split_ifs
        · exact h
        · exact h
    produceBatch := keeps_produceBatch
    fetch := fun _ _ h ↦ h
    fetchEncodedBatch := fun _ _ h ↦ h
    registerFetchWaiter := fun _ _ _ h ↦ h
    cancelFetchWaiter := fun _ _ h ↦ h
    commitOffset := keeps_commitOffset
    joinGroup := keeps_joinGroup
    syncGroup := keeps_memberCall fun _ _ h ↦ h.sync _ _ _ _ _
    heartbeatGroup := keeps_memberCall fun _ _ h ↦ h.heartbeat _ _ _ _ _
    leaveGroup := keeps_memberCall fun _ _ h ↦ h.leave _ _ _ _ _
    commitGroupOffset := keeps_commitGroupOffset
    listTopics := fun _ _ h ↦ h
    describeTopic := by
      intro request s h
      change Named (describeTopic request s).1
      rw [BrokerRuntime.describeTopic]
      split_ifs
      · exact h
      · exact h
    deleteTopic := fun request s h ↦
      (TopicStore.Named.deleteTopic h request env.first env.second env.deleteFault).1
    runRetention := keeps_runRetention
    describeGroup := keeps_describeGroup
    resetGroupOffset := keeps_resetGroupOffset }

/-- The append threads keep the names. -/
theorem Named.appendJobs (h : s.Named) (topic : Bytes) (partition : ℕ) (clock : AppendClock)
    (jobs : List ProduceRequest) :
    (s.appendJobs config env topic partition clock jobs).Named := by
  rw [BrokerRuntime.appendJobs]
  split
  · exact h
  · next log hfind =>
      have hoptions := options_runAppendBatch log clock env.appendFault
        (env.retention topic partition) config.retentionPolicy jobs
      have hafter := h.setLog
        ((congrArg PartitionLogOptions.topic hoptions).trans (h.findPartition hfind).2) partition
      dsimp only
      split
      · exact hafter
      · exact hafter

end Operations

end BrokerRuntime

end BoltStream.Broker
