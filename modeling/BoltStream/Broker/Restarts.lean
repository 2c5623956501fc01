import BoltStream.Broker.ResponseSizes
import BoltStream.Broker.SoundRuns

/-!
# Restarts

A broker that is stopped and started again answers every question about topics, records
and committed offsets as it did before, in every state of an undisturbed run.  What was
acknowledged keeps its offset, whatever restarts there are.
-/

namespace BoltStream.Storage

open BoltStream.Lib BoltStream.Compression

/-- What readers see of a log: all but the index files and the statistics of its open. -/
def PartitionLog.visible (log : PartitionLog) : PartitionLog :=
  { log with dir := { logs := log.dir.logs }, recoveryStats := {} }

namespace PartitionLog

variable {Z : Zstd} {log : PartitionLog}

theorem readLoop_visible (offset maxRecords maxBytes : ℕ) (entries : List IndexEntry) :
    ∀ count emittedBytes,
      log.visible.readLoop Z offset maxRecords maxBytes entries count emittedBytes =
        log.readLoop Z offset maxRecords maxBytes entries count emittedBytes := by
  induction entries with
  | nil => exact fun _ _ ↦ rfl
  | cons entry rest ih =>
      intro count emittedBytes
      have hread : log.visible.readEntry Z entry = log.readEntry Z entry := rfl
      rw [readLoop, readLoop, hread]
      simp only [ih]

@[simp] theorem readFrom_visible (log : PartitionLog) (offset maxRecords maxBytes : ℕ) :
    log.visible.readFrom Z offset maxRecords maxBytes = log.readFrom Z offset maxRecords maxBytes :=
  readLoop_visible offset maxRecords maxBytes log.index 0 0

@[simp] theorem readEncodedBatch_visible (log : PartitionLog) (offset : ℕ) :
    log.visible.readEncodedBatch Z offset = log.readEncodedBatch Z offset := rfl

@[simp] theorem options_visible (log : PartitionLog) : log.visible.options = log.options := rfl

@[simp] theorem nextOffset_visible (log : PartitionLog) :
    log.visible.nextOffset = log.nextOffset := rfl

@[simp] theorem earliestOffset_visible (log : PartitionLog) :
    log.visible.earliestOffset = log.earliestOffset := rfl

@[simp] theorem segmentSummaries_visible (log : PartitionLog) :
    log.visible.segmentSummaries = log.segmentSummaries := rfl

end PartitionLog

end BoltStream.Storage

namespace BoltStream.Broker

open BoltStream.Lib BoltStream.Protocol BoltStream.Compression BoltStream.Storage
open DataDirectory

/-! ## Reopening -/

def ServedTopic.visible (served : ServedTopic) : ServedTopic :=
  { served with partitions := served.partitions.map PartitionLog.visible }

/-- What readers see of the topics. -/
def BrokerRuntime.visible (s : BrokerRuntime) : SortedMap Bytes ServedTopic :=
  s.store.topics.mapValues fun _ ↦ ServedTopic.visible

section Serving

variable {Z : Zstd} {policy : RetentionPolicy} {config : TopicConfig} {data : DataDirectory}
  {told : ℕ → List Told} {topic : Bytes} {served : ServedTopic}

theorem visible_eq {log log' : PartitionLog} (hoptions : log'.options = log.options)
    (hlogs : log'.dir.logs = log.dir.logs) (hindex : log'.index = log.index)
    (hnext : log'.nextOffset = log.nextOffset) : log'.visible = log.visible := by
  rw [PartitionLog.visible, PartitionLog.visible, hoptions, hlogs, hindex, hnext]

/-- A topic is opened again from its directory. -/
theorem ServedTopic.Serves.reload (h : served.Serves Z policy config (get data topic) told topic) :
    ∃ reloaded, openTopicState Z config data topic served.partitionCount = .ok reloaded ∧
      reloaded.Serves Z policy config
        (get (runSteps Z config data (openSteps topic served.partitionCount)) topic) told topic ∧
      reloaded.visible = served.visible := by
  obtain ⟨reloaded, hopen, hcount⟩ := openTopicState_ok Z config data h.name served.partitionCount
  have hopens := openTopicState_opens hopen
  have hlength : reloaded.partitions.length = served.partitionCount := by
    rw [← hopens.length_eq, List.length_range]
  have hpartition : ∀ partition log, reloaded.partitions[partition]? = some log →
      ∃ before, served.partitions[partition]? = some before ∧
        partition < served.partitionCount ∧
        DataDirectory.openLog Z config data topic partition = .ok log ∧
        LogTold Z policy (config.server.logOptions topic partition) (told partition) log ∧
        log.visible = before.visible := by
    intro partition log hlog
    obtain ⟨hlt, rfl⟩ := List.getElem?_eq_some_iff.mp hlog
    have hrange : partition < (List.range served.partitionCount).length := by
      rw [List.length_range]
      omega
    have hopened := hopens.get hrange hlt
    simp only [List.get_eq_getElem, List.getElem_range] at hopened
    have hserved : partition < served.partitions.length := by
      rw [h.length]
      omega
    have hbefore : served.partitions[partition]? = some (served.partitions.get ⟨_, hserved⟩) :=
      List.getElem?_eq_getElem hserved
    refine ⟨_, hbefore, by omega, hopened, ?_⟩
    have hlog := h.logs partition _ hbefore
    obtain ⟨log', hlog', htold, hlogs, hindex, hnext⟩ := hlog.openLog
      (openOptions_logOptions config.server h.name partition)
    rw [DataDirectory.openLog, h.files partition _ hbefore, Option.getD_some, hlog'] at hopened
    rw [← Except.ok.inj hopened]
    exact ⟨htold, visible_eq (htold.options_eq.trans hlog.options_eq.symm) hlogs hindex hnext⟩
  refine ⟨reloaded, hopen, ?_, ?_⟩
  · obtain ⟨manifest, hread, hmanifest⟩ := h.manifest
    refine ⟨h.name, ⟨manifest, ?_, hmanifest.trans hcount.symm⟩, hcount ▸ h.count,
      hlength.trans hcount.symm, fun partition log hlog ↦ ?_, fun partition log hlog ↦ ?_⟩
    · rw [manifestFile, openSteps, manifest_runSteps_open]
      exact hread
    · obtain ⟨before, -, hlt, hopened, -⟩ := hpartition partition log hlog
      rw [openSteps, partitions_runSteps_open List.nodup_range, if_pos (List.mem_range.mpr hlt),
        hopened]
      rfl
    · obtain ⟨before, -, -, -, htold, -⟩ := hpartition partition log hlog
      exact htold
  · have hsame : reloaded.partitions.map PartitionLog.visible =
        served.partitions.map PartitionLog.visible := by
      refine List.ext_getElem (by rw [List.length_map, List.length_map, hlength, h.length])
        fun i hi hi' ↦ ?_
      rw [List.length_map] at hi
      obtain ⟨before, hbefore, -, -, -, hvisible⟩ := hpartition i _ (List.getElem?_eq_getElem hi)
      obtain ⟨_, rfl⟩ := List.getElem?_eq_some_iff.mp hbefore
      rw [List.getElem_map, List.getElem_map, hvisible]
    rw [ServedTopic.visible, ServedTopic.visible, hsame, hcount]

end Serving

/-! ## Answers -/

namespace BrokerRuntime

section Answers

variable {Z : Zstd} {config : RuntimeConfig} {s t : BrokerRuntime}

end Answers

end BrokerRuntime

/-! ## Starting again -/

namespace RuntimeRun

variable {Z : Zstd} {config : RuntimeConfig} {s t : RuntimeRun}

/-- The count of every topic can be read, and it is that of memory. -/
theorem Sound.loadedCount (h : s.Sound Z config) (topic : Bytes) :
    BoltStream.Broker.loadedCount config.topics topic (s.runtime.store.data.find? topic) =
      .ok (s.runtime.store.count topic) := by
  cases hserved : s.runtime.store.topics.find? topic with
  | none =>
      have hempty : (s.runtime.store.data.find? topic).getD {} = {} := h.absent topic hserved
      rw [loadedCount_eq_ok_none (by rw [hempty]) (by rw [hempty]), TopicStore.count, hserved]
      rfl
  | some served =>
      have hserves := h.served topic served hserved
      obtain ⟨manifest, hread, hcount⟩ := hserves.manifest
      rw [DataDirectory.get] at hread
      rw [BoltStream.Broker.loadedCount, if_neg (by simp [hserves.name]), hread, TopicStore.count,
        hserved]
      exact congrArg (fun count ↦ Except.ok (some count)) hcount

/-- The load of a topic that is served. -/
theorem Sound.loadTopic (h : s.Sound Z config) (now topic : Bytes) :
    match s.runtime.store.topics.find? topic with
    | none => BoltStream.Broker.loadTopic Z config.topics s.runtime.store.data now topic =
        ([], .ok none)
    | some served => ∃ reloaded,
        BoltStream.Broker.loadTopic Z config.topics s.runtime.store.data now topic =
          (openSteps topic served.partitionCount, .ok (some reloaded)) ∧
        reloaded.Serves Z config.retentionPolicy config.topics
          (get (runSteps Z config.topics s.runtime.store.data
            (openSteps topic served.partitionCount)) topic) (s.told topic) topic ∧
        reloaded.visible = served.visible := by
  have hcount := h.loadedCount topic
  cases hserved : s.runtime.store.topics.find? topic with
  | none =>
      rw [TopicStore.count, hserved] at hcount
      exact loadTopic_of_loadedCount_none hcount
  | some served =>
      have hserves := h.served topic served hserved
      obtain ⟨manifest, hread, hmanifest⟩ := hserves.manifest
      obtain ⟨reloaded, hopen, hreloaded, hvisible⟩ := hserves.reload
      rw [← hmanifest] at hopen
      refine ⟨reloaded, ?_, hreloaded, hvisible⟩
      rw [loadTopic_of_manifest hserves.name hread hopen, hmanifest]

theorem replayed_openStore {store : OffsetStore} (h : store.Replayed) :
    (OffsetStore.openStore store.dirs).Replayed := by
  intro group
  rw [h.settled.dirs_openStore, h.settled.offsets_openStore]
  exact h group

/-- A broker starts on what an earlier one has left, and shows the same. -/
theorem Sound.start (h : s.Sound Z config) (now : Bytes) {listing : List Bytes}
    (hperm : listing.Perm s.runtime.store.data.keys) :
    ∃ started, BrokerRuntime.start Z config now listing s.runtime.store.data
        s.runtime.store.offsets.dirs = .ok started ∧
      Sound Z config ⟨started, s.told⟩ ∧ started.visible = s.runtime.visible ∧
      started.store.offsets.offsets = s.runtime.store.offsets.offsets := by
  obtain ⟨loaded, hloaded⟩ := (@loads_iff Z config.topics s.runtime.store.data now listing
    hperm).mpr fun topic ↦ ⟨_, h.loadedCount topic⟩
  have htopic := loadExistingTopics_topic hperm hloaded
  set data := runSteps Z config.topics s.runtime.store.data
    (loadExistingTopics Z config.topics now listing s.runtime.store.data).1 with hdata
  -- What the load makes of a topic, with the files it leaves.
  have hfind : ∀ topic,
      (s.runtime.store.topics.find? topic = none ∧ (loadedTopics loaded).find? topic = none ∧
        get data topic = {}) ∨
      ∃ served reloaded, s.runtime.store.topics.find? topic = some served ∧
        (loadedTopics loaded).find? topic = some reloaded ∧
        reloaded.Serves Z config.retentionPolicy config.topics (get data topic)
          (s.told topic) topic ∧
        reloaded.visible = served.visible := by
    intro topic
    obtain ⟨hresult, hfiles⟩ := htopic topic
    have hload := h.loadTopic now topic
    cases hserved : s.runtime.store.topics.find? topic with
    | none =>
        rw [hserved] at hload
        rw [hload] at hresult hfiles
        exact Or.inl ⟨rfl, (Except.ok.inj hresult).symm, hfiles.trans (h.absent topic hserved)⟩
    | some served =>
        rw [hserved] at hload
        obtain ⟨reloaded, hloaded, hserves, hvisible⟩ := hload
        rw [hloaded] at hresult hfiles
        rw [← hfiles] at hserves
        exact Or.inr ⟨served, reloaded, rfl, (Except.ok.inj hresult).symm, hserves, hvisible⟩
  have hsettled := h.offsets.settled
  refine ⟨_, by rw [BrokerRuntime.start, hloaded]; rfl, ⟨fun topic served hserved ↦ ?_,
    fun topic hnone ↦ ?_, replayed_openStore h.offsets,
    fun group topic partition offset hcommitted ↦ ?_⟩, ?_, hsettled.offsets_openStore⟩
  · rcases hfind topic with ⟨-, hnone, -⟩ | ⟨_, reloaded, -, hreloaded, hserves, -⟩
    · dsimp only at hserved
      rw [hnone] at hserved
      cases hserved
    · obtain rfl := Option.some.inj (hreloaded.symm.trans hserved)
      exact hserves
  · rcases hfind topic with ⟨-, -, hempty⟩ | ⟨_, reloaded, -, hreloaded, -⟩
    · exact hempty
    · dsimp only at hnone
      rw [hreloaded] at hnone
      cases hnone
  · rw [OffsetStore.committed] at hcommitted
    dsimp only at hcommitted
    rw [hsettled.offsets_openStore] at hcommitted
    obtain ⟨log, hlog, hle⟩ := h.committed group topic partition offset hcommitted
    obtain ⟨served, hserved, hlt, hlog⟩ := BrokerRuntime.findPartition_ok_iff.mp hlog
    rcases hfind topic with ⟨hnone, -⟩ | ⟨_, reloaded, hsame, hreloaded, -, hvisible⟩
    · rw [hnone] at hserved
      cases hserved
    obtain rfl := Option.some.inj (hsame.symm.trans hserved)
    have hpartitions := congrArg ServedTopic.partitions hvisible
    have hentry := congrArg (fun logs : List PartitionLog ↦ logs[partition]?) hpartitions
    simp only [ServedTopic.visible, List.getElem?_map, hlog, Option.map_some,
      Option.map_eq_some_iff] at hentry
    obtain ⟨found, hfound, hsee⟩ := hentry
    refine ⟨found, BrokerRuntime.findPartition_ok_iff.mpr ⟨reloaded, hreloaded, ?_, hfound⟩, ?_⟩
    · have hcount := congrArg ServedTopic.partitionCount hvisible
      exact hlt.trans_eq hcount.symm
    · have hnext := congrArg PartitionLog.nextOffset hsee
      exact hle.trans_eq hnext.symm
  · apply SortedMap.ext
    intro topic
    rw [BrokerRuntime.visible, BrokerRuntime.visible, SortedMap.find?_mapValues,
      SortedMap.find?_mapValues]
    rcases hfind topic with ⟨hnone, hmissing, -⟩ | ⟨served, reloaded, hserved, hreloaded, -, hsee⟩
    · dsimp only
      rw [hnone, hmissing]
    · dsimp only
      rw [hserved, hreloaded, Option.map_some, Option.map_some, hsee]

/-! ## Every event -/

theorem Sound.step (h : s.Sound Z config) {event : BrokerEvent} (hok : s.Undisturbed event)
    (hstep : s.step Z config event = some t) : t.Sound Z config := by
  obtain ⟨env, call⟩ := event
  obtain ⟨henv, hformed⟩ := hok
  obtain ⟨after, hafter, rfl⟩ := Option.map_eq_some_iff.mp hstep
  cases call with
  | restart listing =>
      rw [BrokerRuntime.step] at hafter
      dsimp only at hafter
      rw [BrokerRuntime.prepare] at hafter
      obtain ⟨started, hstarted, hsound, -⟩ := h.start env.utcNow hformed
      rw [hstarted] at hafter
      have hretained := hsound.runRetention henv ⟨[]⟩
      dsimp only at hafter
      split at hafter
      · cases hafter
      · next prepared response heq =>
          obtain rfl := Option.some.inj hafter
          rw [heq] at hretained
          exact hretained
  | createTopic request =>
      obtain rfl := Option.some.inj hafter
      exact h.createTopic henv request
  | deleteTopic request =>
      obtain rfl := Option.some.inj hafter
      exact h.deleteTopic henv request
  | produceBatch request records =>
      obtain rfl := Option.some.inj hafter
      exact h.produceBatch hformed
  | appendJobs topic partition clock jobs =>
      obtain rfl := Option.some.inj hafter
      exact h.appendJobs henv hformed
  | runRetention request =>
      obtain rfl := Option.some.inj hafter
      exact h.runRetention henv request
  | commitOffset request =>
      obtain rfl := Option.some.inj hafter
      exact h.commitOffset henv request
  | commitGroupOffset request =>
      obtain rfl := Option.some.inj hafter
      exact h.commitGroupOffset henv request
  | resetGroupOffset request =>
      obtain rfl := Option.some.inj hafter
      exact h.resetGroupOffset henv request
  | joinGroup request =>
      obtain rfl := Option.some.inj hafter
      exact h.joinGroup request
  | syncGroup request =>
      obtain rfl := Option.some.inj hafter
      exact h.memberCall _ _ request
  | heartbeatGroup request =>
      obtain rfl := Option.some.inj hafter
      exact h.memberCall _ _ request
  | leaveGroup request =>
      obtain rfl := Option.some.inj hafter
      exact h.memberCall _ _ request
  | describeGroup request =>
      obtain rfl := Option.some.inj hafter
      exact h.describeGroup request
  | registerFetchWaiter topic partition =>
      obtain rfl := Option.some.inj hafter
      exact h.congr rfl rfl rfl rfl
  | cancelFetchWaiter waiterId =>
      obtain rfl := Option.some.inj hafter
      exact h.congr rfl rfl rfl rfl

theorem earliestOffset_le_nextOffset {policy : RetentionPolicy} {options : PartitionLogOptions}
    {told : List Told} {log : PartitionLog} (h : LogTold Z policy options told log) :
    log.earliestOffset ≤ log.nextOffset := by
  obtain ⟨acked, layout, htracks, -⟩ := h
  rw [PartitionLog.earliestOffset]
  split
  · exact le_rfl
  · next entry hentry =>
      exact (htracks.1.represents.offset_lt entry (List.mem_of_head? hentry)).le

end RuntimeRun

end BoltStream.Broker
