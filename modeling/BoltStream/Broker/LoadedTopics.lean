import BoltStream.Broker.TopicLoading

/-!
# What a load opens

`load_existing_topics` treats every directory as if it were alone: the topics it serves
and the files it leaves are those of `loadTopic` on the data as they were found.
-/

namespace BoltStream.Broker

open BoltStream.Lib BoltStream.Protocol BoltStream.Compression BoltStream.Storage
open DataDirectory

variable {Z : Zstd} {config : TopicConfig} {data data' : DataDirectory} {now topic : Bytes}

/-! ## One topic alone -/

theorem get_setManifest (data : DataDirectory) (topic json : Bytes) :
    get (setManifest data topic json) topic =
      { get data topic with manifest := some json } := by
  rw [DataDirectory.get, find?_setManifest, if_pos rfl]
  rfl

theorem get_setPartition (data : DataDirectory) (topic : Bytes) (partition : ℕ)
    (files : Directory) :
    get (setPartition data topic partition files) topic =
      { get data topic with
        partitions := Function.update (get data topic).partitions partition (some files) } := by
  rw [DataDirectory.get, find?_setPartition, if_pos rfl]
  rfl

theorem get_setPartition_ne {partition : ℕ} {files : Directory} {other : Bytes}
    (h : other ≠ topic) : get (setPartition data topic partition files) other = get data other := by
  rw [DataDirectory.get, find?_setPartition, if_neg h, DataDirectory.get]

/-- A partition is opened from its own directory. -/
theorem openLog_congr {partition : ℕ}
    (h : (get data topic).partitions partition = (get data' topic).partitions partition) :
    DataDirectory.openLog Z config data topic partition =
      DataDirectory.openLog Z config data' topic partition := by
  rw [DataDirectory.openLog, DataDirectory.openLog, h]

theorem openTopicState_congr (h : get data topic = get data' topic) (partitionCount : ℕ) :
    openTopicState Z config data topic partitionCount =
      openTopicState Z config data' topic partitionCount := by
  have hopen : DataDirectory.openLog Z config data topic =
      DataDirectory.openLog Z config data' topic :=
    funext fun partition ↦ openLog_congr (by rw [h])
  rw [openTopicState, openTopicState, hopen]

theorem TopicStep.get_apply_congr {step : TopicStep}
    (h : get data step.topic = get data' step.topic) :
    get (step.apply Z config data) step.topic = get (step.apply Z config data') step.topic := by
  cases step with
  | createDirectory topic =>
      simp only [TopicStep.apply, TopicStep.topic] at h ⊢
      rw [h]
      simp only [DataDirectory.get, SortedMap.find?_insert_self]
  | writeManifest manifest =>
      simp only [TopicStep.apply, TopicStep.topic] at h ⊢
      rw [get_setManifest, get_setManifest, h]
  | openPartition topic partition =>
      simp only [TopicStep.apply, TopicStep.topic] at h ⊢
      rw [@openLog_congr Z config data data' topic partition (by rw [h])]
      split
      · rw [get_setPartition, get_setPartition, h]
      · exact h
  | removeAll topic =>
      simp only [TopicStep.apply, TopicStep.topic, DataDirectory.get, SortedMap.find?_erase,
        if_pos]

theorem get_runSteps_congr {steps : List TopicStep} (hsteps : ∀ step ∈ steps, step.topic = topic)
    (h : get data topic = get data' topic) :
    get (runSteps Z config data steps) topic = get (runSteps Z config data' steps) topic := by
  induction steps generalizing data data' with
  | nil => exact h
  | cons step steps ih =>
      obtain ⟨rfl, hrest⟩ := List.forall_mem_cons.mp hsteps
      exact ih hrest (TopicStep.get_apply_congr h)

/-- The load of a topic looks at its own directory. -/
theorem loadTopic_congr (h : get data topic = get data' topic) :
    loadTopic Z config data now topic = loadTopic Z config data' now topic := by
  have hparse : parsePartitionCountOrMigrate config data topic now =
      parsePartitionCountOrMigrate config data' topic now := by
    rw [parsePartitionCountOrMigrate, parsePartitionCountOrMigrate, h]
  rw [loadTopic, loadTopic, hparse]
  by_cases hname : isValidTopicName topic = false
  · rw [if_pos hname, if_pos hname]
  rw [if_neg hname, if_neg hname]
  cases hfound : parsePartitionCountOrMigrate config data' topic now with
  | error message => rfl
  | ok found =>
      dsimp only
      rw [openTopicState_congr (get_runSteps_congr (topic_of_mem_parse hfound) h)]

/-- A topic without a directory is not served. -/
theorem loadTopic_of_loadedCount_none
    (h : loadedCount config topic (data.find? topic) = .ok none) :
    loadTopic Z config data now topic = ([], .ok none) := by
  rw [loadTopic]
  rw [loadedCount] at h
  by_cases hname : isValidTopicName topic = false
  · rw [if_pos hname]
  rw [if_neg hname] at h ⊢
  rw [parsePartitionCountOrMigrate, DataDirectory.get]
  cases hread : readTopicManifest (text (config.manifestPath topic))
      (manifestFile ((data.find? topic).getD {})) topic with
  | error message =>
      rw [hread] at h
      cases h
  | ok found =>
      rw [hread] at h
      cases found with
      | some manifest => cases Except.ok.inj h
      | none =>
          dsimp only at h ⊢
          split_ifs at h with hfirst
          · rw [if_pos hfirst]
            rfl
          · cases Except.ok.inj h

/-- A topic with a manifest is served with the partitions that the manifest says. -/
theorem loadTopic_of_manifest {manifest : TopicManifest} {served : ServedTopic}
    (hname : isValidTopicName topic = true)
    (hread : readTopicManifest (text (config.manifestPath topic))
      (manifestFile (get data topic)) topic = .ok (some manifest))
    (hopen : openTopicState Z config data topic manifest.partitionCount = .ok served) :
    loadTopic Z config data now topic =
      (openSteps topic manifest.partitionCount, .ok (some served)) := by
  rw [loadTopic, if_neg (by simp [hname]), parsePartitionCountOrMigrate, hread]
  dsimp only
  rw [if_neg (readTopicManifest_pos hread)]
  have hnothing : runSteps Z config data [] = data := rfl
  rw [hnothing, hopen]
  rfl

/-- What the opens of a topic leave of its partitions. -/
theorem partitions_runSteps_open {partitions : List ℕ} (hnodup : partitions.Nodup)
    (partition : ℕ) :
    (get (runSteps Z config data (partitions.map (TopicStep.openPartition topic)))
        topic).partitions partition =
      if partition ∈ partitions then
        (DataDirectory.openLog Z config data topic partition).toOption.elim
          ((get data topic).partitions partition) (some ·.dir)
      else (get data topic).partitions partition := by
  induction partitions generalizing data with
  | nil => rfl
  | cons first partitions ih =>
      obtain ⟨hfirst, hrest⟩ := List.nodup_cons.mp hnodup
      set after := TopicStep.apply Z config data (.openPartition topic first) with hafter
      have hopened : ∀ other, (get after topic).partitions other =
          if other = first then
            (DataDirectory.openLog Z config data topic other).toOption.elim
              ((get data topic).partitions other) (some ·.dir)
          else (get data topic).partitions other := by
        intro other
        rw [hafter, TopicStep.apply]
        cases hopen : DataDirectory.openLog Z config data topic first with
        | ok log =>
            dsimp only
            rw [get_setPartition]
            split_ifs with hsame
            · rw [hsame, hopen]
              exact Function.update_self _ _ _
            · exact Function.update_of_ne hsame _ _
        | error message =>
            dsimp only
            split_ifs with hsame
            · rw [hsame, hopen]
              rfl
            · rfl
      change (get (runSteps Z config after (partitions.map (TopicStep.openPartition topic)))
        topic).partitions partition = _
      rw [ih hrest]
      by_cases hsame : partition = first
      · rw [if_neg (hsame ▸ hfirst), hopened, if_pos hsame,
          if_pos (hsame ▸ List.mem_cons_self)]
      · have hmem : partition ∈ first :: partitions ↔ partition ∈ partitions := by
          rw [List.mem_cons, or_iff_right hsame]
        have hkept := hopened partition
        rw [if_neg hsame] at hkept
        rw [@openLog_congr Z config after data topic partition hkept, hkept]
        simp only [hmem]

theorem manifest_runSteps_open (partitions : List ℕ) :
    (get (runSteps Z config data (partitions.map (TopicStep.openPartition topic)))
        topic).manifest = (get data topic).manifest := by
  induction partitions generalizing data with
  | nil => rfl
  | cons first partitions ih =>
      refine ih.trans ?_
      rw [TopicStep.apply]
      split
      · exact manifest_get_setPartition data topic first _
      · rfl

/-! ## The whole directory -/

theorem get_runSteps_ne {steps : List TopicStep} {other : Bytes}
    (h : ∀ step ∈ steps, other ≠ step.topic) :
    get (runSteps Z config data steps) other = get data other := by
  rw [DataDirectory.get, find?_runSteps_ne h, DataDirectory.get]

/-- A load that succeeds: the topics it serves and the files it leaves. -/
structure LoadsAlone (Z : Zstd) (config : TopicConfig) (data : DataDirectory) (now : Bytes)
    (listing : List Bytes) (loaded : List (Bytes × ServedTopic)) : Prop where
  listed : ∀ entry ∈ loaded, entry.1 ∈ listing
  served : ∀ topic ∈ listing,
    (loadTopic Z config data now topic).2 = .ok (loaded.lookup topic)
  files : ∀ topic ∈ listing,
    get (runSteps Z config data (loadExistingTopics Z config now listing data).1) topic =
      get (runSteps Z config data (loadTopic Z config data now topic).1) topic
  others : ∀ topic, topic ∉ listing →
    get (runSteps Z config data (loadExistingTopics Z config now listing data).1) topic =
      get data topic

theorem lookup_eq_none_of_not_mem {loaded : List (Bytes × ServedTopic)}
    (h : ∀ entry ∈ loaded, entry.1 ≠ topic) : loaded.lookup topic = none := by
  rw [List.lookup_eq_none_iff]
  intro entry hentry
  exact bne_iff_ne.mpr (h entry hentry).symm

/-- Every topic is loaded as if it were alone. -/
theorem loadExistingTopics_alone {listing : List Bytes} (hnodup : listing.Nodup)
    {loaded : List (Bytes × ServedTopic)}
    (h : (loadExistingTopics Z config now listing data).2 = .ok loaded) :
    LoadsAlone Z config data now listing loaded := by
  induction listing generalizing data loaded with
  | nil =>
      rw [← Except.ok.inj h]
      exact ⟨by simp, by simp, by simp, fun _ _ ↦ rfl⟩
  | cons first rest ih =>
      obtain ⟨hfirst, hrest⟩ := List.nodup_cons.mp hnodup
      rw [loadExistingTopics] at h
      set steps := (loadTopic Z config data now first).1 with hsteps
      set after := runSteps Z config data steps with hafter
      cases hserved : (loadTopic Z config data now first).2 with
      | error message =>
          simp only [hserved] at h
          cases h
      | ok served =>
          simp only [hserved] at h
          obtain ⟨others, hothers, rfl⟩ := map_eq_ok h
          have halone := ih hrest hothers
          have hframe : ∀ topic, topic ≠ first → get after topic = get data topic :=
            fun topic hne ↦ get_runSteps_ne fun step hstep ↦ by
              rw [topic_of_mem_loadTopic hstep]
              exact hne
          have hdata : runSteps Z config data
              (loadExistingTopics Z config now (first :: rest) data).1 =
                runSteps Z config after (loadExistingTopics Z config now rest after).1 := by
            rw [loadExistingTopics]
            simp only [hserved]
            rw [runSteps, List.foldl_append]
            rfl
          refine ⟨fun entry hentry ↦ ?_, fun topic htopic ↦ ?_, fun topic htopic ↦ ?_,
            fun topic htopic ↦ ?_⟩
          · rcases List.mem_append.mp hentry with hentry | hentry
            · obtain ⟨found, -, rfl⟩ := List.mem_map.mp hentry
              exact List.mem_cons_self
            · exact List.mem_cons_of_mem _ (halone.listed entry hentry)
          · rw [List.lookup_append]
            rcases List.mem_cons.mp htopic with rfl | htopic
            · have hnone : others.lookup topic = none :=
                lookup_eq_none_of_not_mem fun entry hentry hsame ↦
                  hfirst (hsame ▸ halone.listed entry hentry)
              rw [hserved, hnone, Option.or_none]
              cases served with
              | none => rfl
              | some served => simp
            · have hne : topic ≠ first := fun hsame ↦ hfirst (hsame ▸ htopic)
              have hnone : (served.toList.map ((first, ·))).lookup topic = none :=
                lookup_eq_none_of_not_mem fun entry hentry hsame ↦ by
                  obtain ⟨found, -, rfl⟩ := List.mem_map.mp hentry
                  exact hne hsame.symm
              rw [hnone, Option.none_or, ← halone.served topic htopic,
                loadTopic_congr (hframe topic hne)]
          · rw [hdata]
            rcases List.mem_cons.mp htopic with rfl | htopic
            · exact halone.others topic hfirst
            · have hne : topic ≠ first := fun hsame ↦ hfirst (hsame ▸ htopic)
              rw [halone.files topic htopic, loadTopic_congr (hframe topic hne)]
              exact get_runSteps_congr (fun step hstep ↦ topic_of_mem_loadTopic hstep)
                (hframe topic hne)
          · obtain ⟨hne, htopic⟩ := not_or.mp (List.mem_cons.not.mp htopic)
            rw [hdata, halone.others topic htopic, hframe topic hne]

/-- What a load of the whole directory makes of a topic. -/
theorem loadExistingTopics_topic {listing : List Bytes} (hperm : listing.Perm data.keys)
    {loaded : List (Bytes × ServedTopic)}
    (h : (loadExistingTopics Z config now listing data).2 = .ok loaded) (topic : Bytes) :
    (loadTopic Z config data now topic).2 = .ok ((loadedTopics loaded).find? topic) ∧
      get (runSteps Z config data (loadExistingTopics Z config now listing data).1) topic =
        get (runSteps Z config data (loadTopic Z config data now topic).1) topic := by
  have hnodup : listing.Nodup :=
    hperm.nodup_iff.mpr (data.keys_sorted.imp fun hlt ↦ hlt.ne)
  have halone := loadExistingTopics_alone hnodup h
  obtain ⟨found, hfound, hloads⟩ := @loadExistingTopics_ok Z config data now listing hnodup
    fun topic _ ↦ (loads_iff hperm).mp ⟨loaded, h⟩ topic
  obtain rfl : loaded = found := Except.ok.inj (h.symm.trans hfound)
  rw [find?_loadedTopics hloads.nodup]
  by_cases hlisted : topic ∈ listing
  · exact ⟨halone.served topic hlisted, halone.files topic hlisted⟩
  · have hmissing : data.find? topic = none := by
      rw [hperm.mem_iff] at hlisted
      exact SortedMap.find?_eq_none_iff.mpr hlisted
    have hnone : loadTopic Z config data now topic = ([], .ok none) :=
      loadTopic_of_loadedCount_none (by rw [hmissing, loadedCount_none])
    rw [hnone, halone.others topic hlisted]
    refine ⟨congrArg Except.ok (lookup_eq_none_of_not_mem fun entry hentry hsame ↦ ?_).symm, rfl⟩
    exact hlisted (hsame ▸ halone.listed entry hentry)

end BoltStream.Broker
