import BoltStream.Broker.TopicFiles

/-!
# Loading topics

What `load_existing_topics` makes of a directory depends on the directory of each
topic alone, and on its manifest and its first partition only.
-/

namespace BoltStream.Broker

open BoltStream.Lib BoltStream.Protocol BoltStream.Compression BoltStream.Storage
open DataDirectory

variable {Z : Zstd} {config : TopicConfig} {data : DataDirectory}

/-! ## Other topics -/

theorem find?_setManifest (data : DataDirectory) (topic json other : Bytes) :
    (setManifest data topic json).find? other =
      if other = topic then some { get data topic with manifest := some json }
      else data.find? other := by
  rw [setManifest, SortedMap.find?_insert]
  split_ifs
  · rfl
  · rfl

theorem find?_setPartition (data : DataDirectory) (topic : Bytes) (partition : ℕ)
    (files : Directory) (other : Bytes) :
    (setPartition data topic partition files).find? other =
      if other = topic then
        some { get data topic with
          partitions := Function.update (get data topic).partitions partition (some files) }
      else data.find? other := by
  rw [setPartition, SortedMap.find?_insert]
  split_ifs
  · rfl
  · rfl

/-- An operation leaves the other topics alone. -/
theorem TopicStep.find?_apply_ne {step : TopicStep} {other : Bytes} (h : other ≠ step.topic) :
    (step.apply Z config data).find? other = data.find? other := by
  cases step with
  | createDirectory topic => exact (SortedMap.find?_insert _ _ _ _).trans (if_neg h)
  | writeManifest manifest => exact (find?_setManifest _ _ _ _).trans (if_neg h)
  | openPartition topic partition =>
      rw [TopicStep.apply]
      cases DataDirectory.openLog Z config data topic partition with
      | error message => rfl
      | ok log => exact (find?_setPartition _ _ _ _ _).trans (if_neg h)
  | removeAll topic => exact (SortedMap.find?_erase _ _ _).trans (if_neg h)

theorem TopicStep.find?_interrupted_ne {step : TopicStep} {stop : TopicStop} {other : Bytes}
    (h : other ≠ step.topic) : (step.interrupted stop data).find? other = data.find? other := by
  cases step with
  | createDirectory topic => rfl
  | writeManifest manifest =>
      rw [TopicStep.interrupted]
      cases stop.cut with
      | none => rfl
      | some cut => exact (find?_setManifest _ _ _ _).trans (if_neg h)
  | openPartition topic partition =>
      rw [TopicStep.interrupted]
      cases stop.opened with
      | none => rfl
      | some files => exact (find?_setPartition _ _ _ _ _).trans (if_neg h)
  | removeAll topic =>
      rw [TopicStep.interrupted]
      cases data.find? topic with
      | none => rfl
      | some dir => exact (SortedMap.find?_insert _ _ _ _).trans (if_neg h)

theorem find?_runSteps_ne {steps : List TopicStep} {other : Bytes}
    (h : ∀ step ∈ steps, other ≠ step.topic) :
    (runSteps Z config data steps).find? other = data.find? other := by
  induction steps generalizing data with
  | nil => rfl
  | cons step steps ih =>
      obtain ⟨hstep, hsteps⟩ := List.forall_mem_cons.mp h
      exact (ih hsteps).trans (TopicStep.find?_apply_ne hstep)

theorem find?_stopSteps_ne {stop : TopicStop} {steps : List TopicStep} {other : Bytes}
    (h : ∀ step ∈ steps, other ≠ step.topic) :
    ∀ {done : ℕ} {data : DataDirectory},
      (stopSteps Z config stop done steps data).find? other = data.find? other := by
  induction steps with
  | nil =>
      intro done data
      cases done <;> rfl
  | cons step steps ih =>
      obtain ⟨hstep, hsteps⟩ := List.forall_mem_cons.mp h
      intro done data
      cases done with
      | zero => exact TopicStep.find?_interrupted_ne hstep
      | succ done => exact (ih hsteps).trans (TopicStep.find?_apply_ne hstep)

theorem topic_of_mem_openSteps {topic : Bytes} {partitionCount : ℕ} {step : TopicStep}
    (h : step ∈ openSteps topic partitionCount) : step.topic = topic := by
  obtain ⟨partition, -, rfl⟩ := List.mem_map.mp h
  rfl

theorem topic_of_mem_manifestSteps {manifest : TopicManifest} {step : TopicStep}
    (h : step ∈ manifestSteps manifest) : step.topic = manifest.topic := by
  rcases List.mem_pair.mp h with rfl | rfl
  · rfl
  · rfl

/-! ## One topic -/

/-- The partition count a topic is served with after a load, if it is served. -/
def loadedCount (config : TopicConfig) (topic : Bytes) (dir : Option TopicDirectory) :
    Except Bytes (Option ℕ) :=
  if isValidTopicName topic = false then .ok none
  else
    match readTopicManifest (text (config.manifestPath topic)) (manifestFile (dir.getD {})) topic
        with
    | .error message => .error message
    | .ok (some manifest) => .ok (some manifest.partitionCount)
    | .ok none => .ok (if ((dir.getD {}).partitions 0).isNone then none else some 1)

theorem loadedCount_none (config : TopicConfig) (topic : Bytes) :
    loadedCount config topic none = .ok none := by
  rw [loadedCount]
  by_cases hname : isValidTopicName topic = false
  · rw [if_pos hname]
  · rw [if_neg hname]
    rfl

theorem readTopicManifest_pos {path : Bytes} {file : ManifestFile} {topic : Bytes}
    {manifest : TopicManifest} (h : readTopicManifest path file topic = .ok (some manifest)) :
    manifest.partitionCount ≠ 0 := by
  unfold readTopicManifest at h
  cases file with
  | missing => cases h
  | unreadable => cases h
  | content json =>
      simp only at h
      split at h
      · next manifestTopic partitionCount _ _ =>
          split_ifs at h with hzero hname
          rw [← Option.some.inj (Except.ok.inj h)]
          exact hzero
      · cases h

/-- Every partition of a topic can be opened. -/
theorem openTopicState_ok (Z : Zstd) (config : TopicConfig) (data : DataDirectory) {topic : Bytes}
    (htopic : isValidTopicName topic = true) (partitionCount : ℕ) :
    ∃ served, openTopicState Z config data topic partitionCount = .ok served ∧
      served.partitionCount = partitionCount := by
  have hopen : PartitionLog.OpenOptions (config.server.logOptions topic 0) := by
    refine ⟨htopic, fun hzero ↦ config.server.segmentBytes_ne ?_⟩
    exact UInt64.toNat_inj.mp hzero
  have hlogs : ∀ partitions : List ℕ, ∃ logs,
      partitions.mapM (DataDirectory.openLog Z config data topic) = .ok logs := by
    intro partitions
    induction partitions with
    | nil => exact ⟨[], rfl⟩
    | cons partition partitions ih =>
        obtain ⟨logs, hlogs⟩ := ih
        have hfirst := @PartitionLog.openLog_eq (config.server.logOptions topic partition)
          ⟨hopen.1, hopen.2⟩ Z (((get data topic).partitions partition).getD {})
        exact ⟨_ :: logs, by rw [List.mapM_cons, DataDirectory.openLog, hfirst, hlogs]; rfl⟩
  obtain ⟨logs, hlogs⟩ := hlogs (List.range partitionCount)
  refine ⟨⟨partitionCount, logs⟩, ?_, rfl⟩
  rw [openTopicState, hlogs]
  rfl

theorem loadTopic_count (Z : Zstd) (config : TopicConfig) (data : DataDirectory)
    (now topic : Bytes) :
    (loadTopic Z config data now topic).2.map (Option.map ServedTopic.partitionCount) =
      loadedCount config topic (data.find? topic) := by
  rw [loadTopic, loadedCount]
  by_cases hname : isValidTopicName topic = false
  · rw [if_pos hname, if_pos hname]
    rfl
  rw [if_neg hname, if_neg hname, parsePartitionCountOrMigrate, DataDirectory.get]
  rw [Bool.not_eq_false] at hname
  cases hread : readTopicManifest (text (config.manifestPath topic))
      (manifestFile ((data.find? topic).getD {})) topic with
  | error message => rfl
  | ok found =>
      cases found with
      | some manifest =>
          dsimp only
          rw [if_neg (readTopicManifest_pos hread)]
          obtain ⟨served, hserved, hcount⟩ := openTopicState_ok Z config
            (runSteps Z config data []) hname manifest.partitionCount
          rw [hserved, ← hcount]
          rfl
      | none =>
          dsimp only
          split_ifs with hlegacy
          · rfl
          · obtain ⟨served, hserved, hcount⟩ := openTopicState_ok Z config
              (runSteps Z config data (manifestSteps ⟨topic, 1, now⟩)) hname 1
            dsimp only
            rw [if_neg one_ne_zero, hserved, ← hcount]
            rfl

theorem topic_of_mem_parse {now topic : Bytes} {count : ℕ} {steps : List TopicStep}
    (h : parsePartitionCountOrMigrate config data topic now = .ok (count, steps)) :
    ∀ step ∈ steps, step.topic = topic := by
  intro step hstep
  rw [parsePartitionCountOrMigrate] at h
  split at h
  · cases h
  · rw [← (Prod.mk.inj (Except.ok.inj h)).2] at hstep
    cases hstep
  · split_ifs at h
    · rw [← (Prod.mk.inj (Except.ok.inj h)).2] at hstep
      cases hstep
    · rw [← (Prod.mk.inj (Except.ok.inj h)).2] at hstep
      exact topic_of_mem_manifestSteps hstep

theorem topic_of_mem_loadTopic {now topic : Bytes} {step : TopicStep}
    (h : step ∈ (loadTopic Z config data now topic).1) : step.topic = topic := by
  rw [loadTopic] at h
  by_cases hname : isValidTopicName topic = false
  · rw [if_pos hname] at h
    cases h
  rw [if_neg hname] at h
  cases hparse : parsePartitionCountOrMigrate config data topic now with
  | error message =>
      rw [hparse] at h
      cases h
  | ok found =>
      have hsteps := topic_of_mem_parse hparse
      rw [hparse] at h
      dsimp only at h
      split_ifs at h
      · exact hsteps step h
      · split at h
        · exact hsteps step h
        · rcases List.mem_append.mp h with hfirst | hopen
          · exact hsteps step hfirst
          · exact topic_of_mem_openSteps hopen

theorem readTopicManifest_content_ne (path json topic : Bytes) :
    readTopicManifest path (.content json) topic ≠ .ok none := by
  intro h
  simp only [readTopicManifest] at h
  split at h
  · split_ifs at h
    cases h
  · cases h

theorem loadedCount_eq_ok_none_iff {topic : Bytes} (htopic : isValidTopicName topic = true)
    (dir : TopicDirectory) :
    loadedCount config topic (some dir) = .ok none ↔
      dir.manifest = none ∧ dir.partitions 0 = none := by
  rw [loadedCount, if_neg (by simp [htopic]), Option.getD_some]
  cases hmanifest : dir.manifest with
  | none =>
      rw [manifestFile, hmanifest]
      simp [readTopicManifest]
  | some json =>
      rw [manifestFile, hmanifest]
      simp only [reduceCtorEq, false_and, iff_false]
      split
      · simp
      · simp
      · next hread => exact (readTopicManifest_content_ne _ _ _ hread).elim

theorem loadedCount_eq_ok_none {topic : Bytes} {dir : Option TopicDirectory}
    (hmanifest : (dir.getD {}).manifest = none) (hfirst : (dir.getD {}).partitions 0 = none) :
    loadedCount config topic dir = .ok none := by
  rw [loadedCount, manifestFile, hmanifest, hfirst]
  split_ifs with hname hpresent
  · rfl
  · rfl
  · exact (hpresent rfl).elim

theorem manifest_get_setManifest (data : DataDirectory) (topic json : Bytes) :
    ((setManifest data topic json).get topic).manifest = some json := by
  rw [DataDirectory.get, find?_setManifest, if_pos rfl]
  rfl

theorem manifest_get_setPartition (data : DataDirectory) (topic : Bytes) (partition : ℕ)
    (files : Directory) :
    ((setPartition data topic partition files).get topic).manifest = (data.get topic).manifest := by
  rw [DataDirectory.get, find?_setPartition, if_pos rfl]
  rfl

/-- Opening partitions leaves the manifest alone. -/
theorem manifest_stopSteps_open {stop : TopicStop} {topic : Bytes} (partitions : List ℕ) :
    ∀ (done : ℕ) (data : DataDirectory),
      ((stopSteps Z config stop done (partitions.map (TopicStep.openPartition topic)) data).get
        topic).manifest = (data.get topic).manifest := by
  induction partitions with
  | nil =>
      intro done data
      cases done <;> rfl
  | cons partition partitions ih =>
      intro done data
      cases done with
      | zero =>
          simp only [List.map_cons, stopSteps, TopicStep.interrupted]
          cases stop.opened with
          | none => rfl
          | some files => exact manifest_get_setPartition data topic partition files
      | succ done =>
          simp only [List.map_cons, stopSteps]
          rw [ih, TopicStep.apply]
          cases DataDirectory.openLog Z config data topic partition with
          | error message => rfl
          | ok log => exact manifest_get_setPartition data topic partition log.dir

/-- With a manifest, the partitions do not matter. -/
theorem loadedCount_congr_manifest {topic json : Bytes} {dir dir' : Option TopicDirectory}
    (hdir : (dir.getD {}).manifest = some json) (hdir' : (dir'.getD {}).manifest = some json) :
    loadedCount config topic dir = loadedCount config topic dir' := by
  rw [loadedCount, loadedCount, manifestFile, manifestFile, hdir, hdir']
  dsimp only
  by_cases hname : isValidTopicName topic = false
  · rw [if_pos hname, if_pos hname]
  rw [if_neg hname, if_neg hname]
  cases hread : readTopicManifest (text (config.manifestPath topic)) (.content json) topic with
  | error message => rfl
  | ok found =>
      cases found with
      | some manifest => rfl
      | none => exact (readTopicManifest_content_ne _ _ _ hread).elim

/-! ## The whole directory -/

/-- What a load finds in a listing of names: the topics it serves are those whose count
can be read and is there. -/
structure Loads (config : TopicConfig) (data : DataDirectory) (listing : List Bytes)
    (loaded : List (Bytes × ServedTopic)) : Prop where
  nodup : (loaded.map Prod.fst).Nodup
  listed : ∀ entry ∈ loaded, entry.1 ∈ listing
  served : ∀ entry ∈ loaded,
    loadedCount config entry.1 (data.find? entry.1) = .ok (some entry.2.partitionCount)
  found : ∀ topic ∈ listing, ∀ count,
    loadedCount config topic (data.find? topic) = .ok (some count) → topic ∈ loaded.map Prod.fst

theorem loadExistingTopics_ok {now : Bytes} {listing : List Bytes} (hnodup : listing.Nodup)
    (hcounts : ∀ topic ∈ listing, ∃ count,
      loadedCount config topic (data.find? topic) = .ok count) :
    ∃ loaded, (loadExistingTopics Z config now listing data).2 = .ok loaded ∧
      Loads config data listing loaded := by
  induction listing generalizing data with
  | nil => exact ⟨[], rfl, List.nodup_nil, by simp, by simp, by simp⟩
  | cons topic rest ih =>
      obtain ⟨htopic, hrest⟩ := List.nodup_cons.mp hnodup
      obtain ⟨⟨count, hcount⟩, hothers⟩ := List.forall_mem_cons.mp hcounts
      set steps := (loadTopic Z config data now topic).1 with hsteps
      have hframe : ∀ other ∈ rest, (runSteps Z config data steps).find? other =
          data.find? other := by
        intro other hother
        apply find?_runSteps_ne
        intro step hstep hsame
        rw [topic_of_mem_loadTopic hstep] at hsame
        exact htopic (hsame ▸ hother)
      obtain ⟨loaded, hloaded, hloads⟩ :=
        @ih (runSteps Z config data steps) hrest fun other hother ↦ by
          rw [hframe other hother]
          exact hothers other hother
      have hfirst := loadTopic_count Z config data now topic
      rw [hcount] at hfirst
      obtain ⟨served, hserved, hsame⟩ := map_eq_ok hfirst
      refine ⟨served.toList.map (topic, ·) ++ loaded, ?_, ?_⟩
      · rw [loadExistingTopics]
        simp only [hserved, ← hsteps, hloaded]
        rfl
      have hmissing : topic ∉ loaded.map Prod.fst := by
        intro hmem
        obtain ⟨entry, hentry, rfl⟩ := List.mem_map.mp hmem
        exact htopic (hloads.listed entry hentry)
      cases served with
      | none =>
          refine ⟨hloads.nodup, fun entry hentry ↦ ?_, fun entry hentry ↦ ?_, ?_⟩
          · exact List.mem_cons_of_mem topic (hloads.listed entry hentry)
          · rw [← hframe _ (hloads.listed entry hentry)]
            exact hloads.served entry hentry
          · intro other hother found hfound
            rcases List.mem_cons.mp hother with rfl | hother
            · rw [hcount, ← hsame] at hfound
              cases hfound
            · rw [← hframe other hother] at hfound
              exact hloads.found other hother found hfound
      | some served =>
          refine ⟨?_, fun entry hentry ↦ ?_, fun entry hentry ↦ ?_, ?_⟩
          · exact List.nodup_cons.mpr ⟨hmissing, hloads.nodup⟩
          · rcases List.mem_cons.mp hentry with rfl | hentry
            · exact List.mem_cons_self
            · exact List.mem_cons_of_mem topic (hloads.listed entry hentry)
          · rcases List.mem_cons.mp hentry with rfl | hentry
            · rw [hcount, ← hsame]
              rfl
            · rw [← hframe _ (hloads.listed entry hentry)]
              exact hloads.served entry hentry
          · intro other hother found hfound
            rcases List.mem_cons.mp hother with rfl | hother
            · exact List.mem_cons_self
            · rw [← hframe other hother] at hfound
              exact List.mem_cons_of_mem topic (hloads.found other hother found hfound)

/-- A topic whose count cannot be read keeps the broker from starting. -/
theorem loadExistingTopics_error {now : Bytes} {listing : List Bytes} (hnodup : listing.Nodup)
    {topic : Bytes} (hlisted : topic ∈ listing) {message : Bytes}
    (herror : loadedCount config topic (data.find? topic) = .error message) :
    ∃ message, (loadExistingTopics Z config now listing data).2 = .error message := by
  induction listing generalizing data with
  | nil => cases hlisted
  | cons first rest ih =>
      obtain ⟨hfirst, hrest⟩ := List.nodup_cons.mp hnodup
      have hcount := loadTopic_count Z config data now first
      rw [loadExistingTopics]
      cases hloaded : (loadTopic Z config data now first).2 with
      | error other => exact ⟨other, rfl⟩
      | ok served =>
          rcases List.mem_cons.mp hlisted with rfl | hlisted
          · rw [hloaded, herror] at hcount
            cases hcount
          · have hne : topic ≠ first := fun hsame ↦ hfirst (hsame ▸ hlisted)
            obtain ⟨other, hother⟩ :=
              @ih (runSteps Z config data (loadTopic Z config data now first).1) hrest hlisted (by
                rw [find?_runSteps_ne fun step hstep ↦ by rwa [topic_of_mem_loadTopic hstep]]
                exact herror)
            refine ⟨other, ?_⟩
            simp only [hother]
            rfl

theorem find?_loadedTopics {loaded : List (Bytes × ServedTopic)}
    (hnodup : (loaded.map Prod.fst).Nodup) (topic : Bytes) :
    (loadedTopics loaded).find? topic = loaded.lookup topic := by
  have hfold : ∀ (loaded : List (Bytes × ServedTopic)) (topics : SortedMap Bytes ServedTopic),
      (loaded.map Prod.fst).Nodup →
      (loaded.foldl (fun topics entry ↦ topics.insert entry.1 entry.2) topics).find? topic =
        (loaded.lookup topic).or (topics.find? topic) := by
    intro loaded
    induction loaded with
    | nil => exact fun _ _ ↦ rfl
    | cons entry loaded ih =>
        intro topics hnodup
        obtain ⟨hentry, hrest⟩ := List.nodup_cons.mp hnodup
        rw [List.foldl_cons, ih _ hrest, SortedMap.find?_insert, List.lookup_cons]
        by_cases hsame : topic = entry.1
        · have hnone : loaded.lookup topic = none := by
            rw [List.lookup_eq_none_iff]
            intro other hother
            rw [hsame]
            apply bne_iff_ne.mpr
            intro hname
            rw [hname] at hentry
            exact hentry (List.mem_map_of_mem hother)
          rw [if_pos hsame, hnone, hsame]
          simp
        · rw [if_neg hsame, beq_false_of_ne hsame]
  rw [loadedTopics, hfold loaded ∅ hnodup]
  simp

/-- The count a load serves a topic with is the one it reads. -/
theorem Loads.count {listing : List Bytes} {loaded : List (Bytes × ServedTopic)}
    (h : Loads config data listing loaded) {topic : Bytes} {count : Option ℕ}
    (hcount : loadedCount config topic (data.find? topic) = .ok count)
    (hlisted : count ≠ none → topic ∈ listing) :
    ((loadedTopics loaded).find? topic).map ServedTopic.partitionCount = count := by
  rw [find?_loadedTopics h.nodup]
  cases hserved : loaded.lookup topic with
  | none =>
      cases count with
      | none => rfl
      | some found =>
          obtain ⟨entry, hentry, rfl⟩ :=
            List.mem_map.mp (h.found topic (hlisted (Option.some_ne_none _)) found hcount)
          have hne := List.lookup_eq_none_iff.mp hserved entry hentry
          simp at hne
  | some served =>
      obtain ⟨before, after, hsplit, -⟩ := List.lookup_eq_some_iff.mp hserved
      have hmem : (topic, served) ∈ loaded := by
        rw [hsplit]
        exact List.mem_append_right _ List.mem_cons_self
      have hread := h.served _ hmem
      rw [hcount] at hread
      exact (Except.ok.inj hread).symm

/-- A load succeeds exactly when the count of every topic can be read. -/
theorem loads_iff {now : Bytes} {listing : List Bytes} (hperm : listing.Perm data.keys) :
    (∃ loaded, (loadExistingTopics Z config now listing data).2 = .ok loaded) ↔
      ∀ topic, ∃ count, loadedCount config topic (data.find? topic) = .ok count := by
  have hnodup : listing.Nodup :=
    hperm.nodup_iff.mpr (data.keys_sorted.imp fun hlt ↦ hlt.ne)
  constructor
  · rintro ⟨loaded, hloaded⟩ topic
    cases hread : loadedCount config topic (data.find? topic) with
    | ok count => exact ⟨count, rfl⟩
    | error message =>
        have hlisted : topic ∈ listing := by
          by_contra hmem
          rw [hperm.mem_iff] at hmem
          rw [SortedMap.find?_eq_none_iff.mpr hmem, loadedCount_none] at hread
          cases hread
        obtain ⟨other, herror⟩ :=
          @loadExistingTopics_error Z config data now listing hnodup topic hlisted message hread
        rw [hloaded] at herror
        cases herror
  · intro h
    obtain ⟨loaded, hloaded, -⟩ :=
      @loadExistingTopics_ok Z config data now listing hnodup fun topic _ ↦ h topic
    exact ⟨loaded, hloaded⟩

/-- The topics a load serves have the counts that can be read. -/
theorem counts_of_loads {now : Bytes} {listing : List Bytes} (hperm : listing.Perm data.keys)
    {loaded : List (Bytes × ServedTopic)}
    (h : (loadExistingTopics Z config now listing data).2 = .ok loaded) (topic : Bytes) :
    loadedCount config topic (data.find? topic) =
      .ok (((loadedTopics loaded).find? topic).map ServedTopic.partitionCount) := by
  have hnodup : listing.Nodup :=
    hperm.nodup_iff.mpr (data.keys_sorted.imp fun hlt ↦ hlt.ne)
  have hcounts := (loads_iff hperm).mp ⟨loaded, h⟩
  obtain ⟨found, hfound, hloads⟩ :=
    @loadExistingTopics_ok Z config data now listing hnodup fun topic _ ↦ hcounts topic
  obtain rfl : loaded = found := Except.ok.inj (h.symm.trans hfound)
  obtain ⟨count, hcount⟩ := hcounts topic
  rw [hloads.count hcount, hcount]
  intro hserved
  by_contra hmem
  rw [hperm.mem_iff] at hmem
  rw [SortedMap.find?_eq_none_iff.mpr hmem, loadedCount_none] at hcount
  exact hserved (Except.ok.inj hcount).symm

/-! ## Memory and disk -/

namespace TopicStore

/-- The partition count a topic is served with. -/
def count (store : TopicStore) (topic : Bytes) : Option ℕ :=
  (store.topics.find? topic).map ServedTopic.partitionCount

/-- Whatever the order of the directories, a restart loads the topics that are
served, with the same partition counts. -/
def Agrees (Z : Zstd) (config : TopicConfig) (store : TopicStore) : Prop :=
  ∀ (listing : List Bytes) (now : Bytes), listing.Perm store.data.keys →
    ∃ loaded, (loadExistingTopics Z config now listing store.data).2 = .ok loaded ∧
      ∀ topic, ((loadedTopics loaded).find? topic).map ServedTopic.partitionCount =
        store.count topic

theorem agrees_iff {store : TopicStore} :
    store.Agrees Z config ↔ ∀ topic,
      loadedCount config topic (store.data.find? topic) = .ok (store.count topic) := by
  constructor
  · intro h topic
    obtain ⟨loaded, hloaded, hcounts⟩ := h _ [] (List.Perm.refl _)
    rw [counts_of_loads (List.Perm.refl _) hloaded, hcounts]
  · intro h listing now hperm
    obtain ⟨loaded, hloaded⟩ := (@loads_iff Z config _ now _ hperm).mpr fun topic ↦ ⟨_, h topic⟩
    refine ⟨loaded, hloaded, fun topic ↦ ?_⟩
    exact Except.ok.inj ((counts_of_loads hperm hloaded topic).symm.trans (h topic))

end TopicStore

end BoltStream.Broker
