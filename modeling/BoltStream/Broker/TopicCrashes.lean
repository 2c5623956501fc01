import BoltStream.Broker.TopicFailures
import BoltStream.Lib.Runs

/-!
# Stops in the life of a topic

The process stops in the middle of creations, deletions and starts.  As long as no stop
tears a manifest in front of the end of its partition count, and none leaves the first
partition of a larger topic without its manifest, every restart succeeds and serves
the topics with the partition counts they were created with.
-/

namespace BoltStream.Broker

open BoltStream.Lib BoltStream.Protocol BoltStream.Compression BoltStream.Storage
open DataDirectory

variable {Z : Zstd} {config : TopicConfig} {data : DataDirectory}

/-- The sequence ends in the writing of a manifest, before the end of its partition
count. -/
def TornManifest (stop : TopicStop) (done : ℕ) (steps : List TopicStep) : Prop :=
  ∃ manifest cut, steps[done]? = some (.writeManifest manifest) ∧ stop.cut = some cut ∧
    cut < (manifestFront manifest).length

/-! ## Sequences that end early -/

theorem stopSteps_of_length_le {stop : TopicStop} {steps : List TopicStep} :
    ∀ {done : ℕ} {data : DataDirectory}, steps.length ≤ done →
      stopSteps Z config stop done steps data = runSteps Z config data steps := by
  induction steps with
  | nil =>
      intro done data _
      cases done <;> rfl
  | cons step steps ih =>
      intro done data hdone
      cases done with
      | zero => cases hdone
      | succ done => exact ih (Nat.le_of_succ_le_succ hdone)

theorem stopSteps_append_left {stop : TopicStop} {first rest : List TopicStep} :
    ∀ {done : ℕ} {data : DataDirectory}, done < first.length →
      stopSteps Z config stop done (first ++ rest) data =
        stopSteps Z config stop done first data := by
  induction first with
  | nil =>
      intro done data hdone
      cases hdone
  | cons step first ih =>
      intro done data hdone
      cases done with
      | zero => rfl
      | succ done => exact ih (Nat.lt_of_succ_lt_succ hdone)

theorem stopSteps_append_right {stop : TopicStop} {first rest : List TopicStep} :
    ∀ {done : ℕ} {data : DataDirectory}, first.length ≤ done →
      stopSteps Z config stop done (first ++ rest) data =
        stopSteps Z config stop (done - first.length) rest (runSteps Z config data first) := by
  induction first with
  | nil => exact fun _ ↦ rfl
  | cons step first ih =>
      intro done data hdone
      cases done with
      | zero => cases hdone
      | succ done =>
          rw [List.length_cons, Nat.add_sub_add_right]
          exact ih (Nat.le_of_succ_le_succ hdone)

/-! ## What a load sees of a topic -/

/-- A manifest that is whole up to the end of its count is loaded with its count. -/
theorem loadedCount_of_manifest {manifest : TopicManifest} {cut : ℕ} {dir : TopicDirectory}
    (htopic : isValidTopicName manifest.topic = true) (hpositive : 1 ≤ manifest.partitionCount)
    (hcount : manifest.partitionCount ≤ 65535) (hcut : (manifestFront manifest).length ≤ cut)
    (hdir : dir.manifest = some ((writeTopicManifest manifest).take cut)) :
    loadedCount config manifest.topic (some dir) = .ok (some manifest.partitionCount) := by
  obtain ⟨rest, hjson⟩ := writeTopicManifest_eq manifest
  obtain ⟨kept, rfl⟩ := Nat.exists_eq_add_of_le hcut
  rw [hjson, List.take_length_add_append] at hdir
  have hcomma : ∀ ch ∈ ((44 :: rest).take kept).head?, isDigit ch = false := by
    intro ch hch
    cases kept with
    | zero => cases hch
    | succ kept =>
        obtain rfl := Option.some.inj hch
        decide
  obtain ⟨found, hread, -, hfound⟩ :=
    front_reads_back (text (config.manifestPath manifest.topic)) htopic hpositive hcount hcomma
  rw [loadedCount, if_neg (by simp [htopic]), Option.getD_some, manifestFile, hdir]
  dsimp only
  rw [hread, ← hfound]

theorem loadedCount_get (topic : Bytes) :
    loadedCount config topic (some (data.get topic)) =
      loadedCount config topic (data.find? topic) := rfl

/-- Wherever a creation ends, a load finds what was there or the new topic. -/
theorem loadedCount_stop_manifestSteps {manifest : TopicManifest} {stop : TopicStop}
    {partitionCount done : ℕ} (htopic : isValidTopicName manifest.topic = true)
    (hpositive : 1 ≤ manifest.partitionCount) (hcount : manifest.partitionCount ≤ 65535)
    (htorn : ¬ TornManifest stop done
      (manifestSteps manifest ++ openSteps manifest.topic partitionCount)) :
    let after := stopSteps Z config stop done
      (manifestSteps manifest ++ openSteps manifest.topic partitionCount) data
    done < 2 ∧ loadedCount config manifest.topic (after.find? manifest.topic) =
        loadedCount config manifest.topic (data.find? manifest.topic) ∨
      loadedCount config manifest.topic (after.find? manifest.topic) =
        .ok (some manifest.partitionCount) := by
  intro after
  rcases hdone : done with _ | _ | done
  · refine Or.inl ⟨by decide, ?_⟩
    simp only [after, hdone, manifestSteps, List.cons_append, stopSteps, TopicStep.interrupted]
  · simp only [after, hdone, manifestSteps, List.cons_append, Nat.zero_add, stopSteps,
      TopicStep.apply, TopicStep.interrupted]
    cases hcut : stop.cut with
    | none =>
        refine Or.inl ⟨by decide, ?_⟩
        dsimp only
        rw [SortedMap.find?_insert_self, loadedCount_get]
    | some cut =>
        refine Or.inr ?_
        have hwhole : (manifestFront manifest).length ≤ cut := by
          by_contra hlt
          refine htorn ⟨manifest, cut, ?_, hcut, Nat.lt_of_not_le hlt⟩
          rw [hdone]
          rfl
        rw [← loadedCount_get]
        exact loadedCount_of_manifest htopic hpositive hcount hwhole
          (manifest_get_setManifest _ _ _)
  · refine Or.inr ?_
    have hkept : (after.get manifest.topic).manifest = some (writeTopicManifest manifest) := by
      simp only [after, hdone, manifestSteps, List.cons_append, List.nil_append, stopSteps,
        openSteps, manifest_stopSteps_open]
      exact manifest_get_setManifest _ _ _
    rw [← loadedCount_get]
    obtain ⟨rest, hjson⟩ := writeTopicManifest_eq manifest
    have hwhole : (manifestFront manifest).length ≤ (writeTopicManifest manifest).length := by
      rw [hjson, List.length_append]
      exact Nat.le_add_right _ _
    exact loadedCount_of_manifest htopic hpositive hcount hwhole (by rw [hkept, List.take_length])

/-- The file operations of one turn of a load. -/
theorem loadTopic_steps (Z : Zstd) (config : TopicConfig) (data : DataDirectory)
    (now topic : Bytes) :
    (loadTopic Z config data now topic).1 = [] ∨
      (∃ json count, (data.get topic).manifest = some json ∧
        (loadTopic Z config data now topic).1 = openSteps topic count) ∨
      isValidTopicName topic = true ∧
        loadedCount config topic (data.find? topic) = .ok (some 1) ∧
        (loadTopic Z config data now topic).1 =
          manifestSteps ⟨topic, 1, now⟩ ++ openSteps topic 1 := by
  rw [loadTopic, ← loadedCount_get, loadedCount]
  by_cases hname : isValidTopicName topic = false
  · rw [if_pos hname]
    exact Or.inl rfl
  rw [if_neg hname, if_neg hname, parsePartitionCountOrMigrate, Option.getD_some]
  rw [Bool.not_eq_false] at hname
  cases hread : readTopicManifest (text (config.manifestPath topic))
      (manifestFile (data.get topic)) topic with
  | error message => exact Or.inl rfl
  | ok found =>
      cases found with
      | some manifest =>
          dsimp only
          obtain ⟨served, hserved, -⟩ :=
            openTopicState_ok Z config (runSteps Z config data []) hname manifest.partitionCount
          rw [if_neg (readTopicManifest_pos hread), hserved]
          refine Or.inr (Or.inl ?_)
          cases hmanifest : (data.get topic).manifest with
          | none =>
              rw [manifestFile, hmanifest] at hread
              cases hread
          | some json => exact ⟨json, manifest.partitionCount, rfl, rfl⟩
      | none =>
          dsimp only
          split_ifs with hlegacy
          · exact Or.inl rfl
          · obtain ⟨served, hserved, -⟩ := openTopicState_ok Z config
              (runSteps Z config data (manifestSteps ⟨topic, 1, now⟩)) hname 1
            dsimp only
            rw [if_neg one_ne_zero, hserved]
            exact Or.inr (Or.inr ⟨hname, rfl, rfl⟩)

/-- Loading a topic changes nothing that a later load sees, wherever it ends. -/
theorem loadedCount_stop_loadTopic {now topic : Bytes} {stop : TopicStop} {done : ℕ}
    (htorn : ¬ TornManifest stop done (loadTopic Z config data now topic).1) (other : Bytes) :
    loadedCount config other
        ((stopSteps Z config stop done (loadTopic Z config data now topic).1 data).find? other) =
      loadedCount config other (data.find? other) := by
  by_cases hother : other = topic
  · rw [hother]
    rcases loadTopic_steps Z config data now topic with hnil | ⟨json, count, hmanifest, hopen⟩ |
        ⟨hname, hone, himport⟩
    · rw [hnil]
      cases done <;> rfl
    · rw [hopen, ← loadedCount_get, ← loadedCount_get]
      apply loadedCount_congr_manifest _ hmanifest
      exact (manifest_stopSteps_open (List.range count) done data).trans hmanifest
    · rw [himport] at htorn ⊢
      rcases @loadedCount_stop_manifestSteps Z config data ⟨topic, 1, now⟩ stop 1 done hname
        le_rfl (show 1 ≤ 65535 by decide) htorn with ⟨-, hsame⟩ | hloaded
      · exact hsame
      · exact hloaded.trans hone.symm
  · apply congrArg
    apply find?_stopSteps_ne
    intro step hstep
    rwa [topic_of_mem_loadTopic hstep]

theorem tornManifest_append_left {stop : TopicStop} {done : ℕ} {first rest : List TopicStep}
    (hdone : done < first.length) :
    TornManifest stop done (first ++ rest) ↔ TornManifest stop done first := by
  simp only [TornManifest, List.getElem?_append_left hdone]

theorem tornManifest_append_right {stop : TopicStop} {done : ℕ} {first rest : List TopicStep}
    (hdone : first.length ≤ done) :
    TornManifest stop done (first ++ rest) ↔ TornManifest stop (done - first.length) rest := by
  simp only [TornManifest, List.getElem?_append_right hdone]

theorem not_tornManifest_of_length_le {stop : TopicStop} {done : ℕ} {steps : List TopicStep}
    (hdone : steps.length ≤ done) : ¬ TornManifest stop done steps := by
  rintro ⟨manifest, cut, hstep, -⟩
  rw [List.getElem?_eq_none hdone] at hstep
  cases hstep

theorem loadedCount_stop_load {now : Bytes} {stop : TopicStop} {listing : List Bytes} :
    ∀ {done : ℕ} {data : DataDirectory},
      ¬ TornManifest stop done (loadExistingTopics Z config now listing data).1 → ∀ other,
      loadedCount config other ((stopSteps Z config stop done
          (loadExistingTopics Z config now listing data).1 data).find? other) =
        loadedCount config other (data.find? other) := by
  induction listing with
  | nil =>
      intro done data _ other
      cases done <;> rfl
  | cons topic rest ih =>
      intro done data htorn other
      rw [loadExistingTopics] at htorn ⊢
      set first := (loadTopic Z config data now topic).1 with hfirst
      cases hloaded : (loadTopic Z config data now topic).2 with
      | error message =>
          simp only [hloaded] at htorn ⊢
          exact loadedCount_stop_loadTopic htorn other
      | ok served =>
          simp only [hloaded] at htorn ⊢
          rcases Nat.lt_or_ge done first.length with hdone | hdone
          · rw [tornManifest_append_left hdone] at htorn
            rw [stopSteps_append_left hdone]
            exact loadedCount_stop_loadTopic htorn other
          · rw [tornManifest_append_right hdone] at htorn
            rw [stopSteps_append_right hdone, ih htorn]
            have hrun : runSteps Z config data first =
                stopSteps Z config stop first.length first data :=
              (stopSteps_of_length_le le_rfl).symm
            rw [hrun]
            exact loadedCount_stop_loadTopic (not_tornManifest_of_length_le le_rfl) other

/-! ## The broker and its stops -/

/-- A broker and its data directory. -/
structure TopicBroker where
  store : TopicStore
  running : Bool
  /-- The partition count of the last creation of a topic. -/
  created : Bytes → Option ℕ

/-- A request, or the end or the start of the process.  A stop inside of one leaves on
disk what a failure there leaves. -/
inductive TopicEvent where
  | create (request : CreateTopicRequest) (now : Bytes) (stop : Option TopicStop)
  | delete (request : DeleteTopicRequest) (now later : ℤ) (stop : Option TopicStore.DeleteFault)
  | stop
  | start (listing : List Bytes) (now : Bytes) (stop : Option TopicStop)

namespace TopicBroker

variable {broker broker' : TopicBroker}

instance (config : TopicConfig) (store : TopicStore) (request : CreateTopicRequest) :
    Decidable (store.Creates config request) := by
  unfold TopicStore.Creates
  infer_instance

/-- A start: it opens the offsets, and then loads the topics. -/
def startBroker (Z : Zstd) (config : TopicConfig) (broker : TopicBroker) (listing : List Bytes)
    (now : Bytes) (stop : Option TopicStop) : TopicBroker :=
  let store : TopicStore :=
    { broker.store with
      topics := ∅
      offsets := OffsetStore.openStore broker.store.offsets.dirs
      coordinator := {} }
  let loaded := loadExistingTopics Z config now listing store.data
  match stop, loaded.2 with
  | some stop, _ =>
      { broker with
        store :=
          { store with data := stopSteps Z config stop stop.done loaded.1 store.data } }
  | none, .error _ =>
      { broker with store := { store with data := runSteps Z config store.data loaded.1 } }
  | none, .ok topics =>
      { broker with
        store :=
          { store with
            data := runSteps Z config store.data loaded.1
            topics := loadedTopics topics }
        running := true }

def step (Z : Zstd) (config : TopicConfig) (broker : TopicBroker) : TopicEvent → Option TopicBroker
  | .create request now stop =>
      if broker.running then
        some
          { store := (broker.store.createTopic Z config request now
              (stop.map fun stop ↦ ⟨stop, ""⟩)).1
            running := stop.isNone
            created :=
              if broker.store.Creates config request then
                Function.update broker.created request.topic (some request.partitionCount)
              else broker.created }
      else none
  | .delete request now later stop =>
      if broker.running then
        some
          { broker with
            store := (broker.store.deleteTopic Z config request now later stop).1
            running := stop.isNone }
      else none
  | .stop => some { broker with running := false }
  | .start listing now stop =>
      if !broker.running ∧ listing.Perm broker.store.data.keys then
        some (broker.startBroker Z config listing now stop)
      else none

/-- The next start succeeds, and serves every topic it finds with the partition count the
topic was created with. -/
def Recovers (Z : Zstd) (config : TopicConfig) (broker : TopicBroker) : Prop :=
  ∀ (listing : List Bytes) (now : Bytes), listing.Perm broker.store.data.keys →
    ∃ loaded, (loadExistingTopics Z config now listing broker.store.data).2 = .ok loaded ∧
      ∀ topic served, (loadedTopics loaded).find? topic = some served →
        broker.created topic = some served.partitionCount

/-- What an interrupted deletion may leave of a topic: its manifest, or no first
partition, or the first partition of a topic that has no other. -/
def KeepsCount (dir : TopicDirectory) (removal : Removal) (partitionCount : Option ℕ) : Prop :=
  removal.manifest = false ∨ (removal.apply dir).partitions 0 = none ∨ partitionCount = some 1

/-- A stop that tears no manifest and leaves no part of a topic that a start would take
for another one. -/
def StopsCleanly (Z : Zstd) (config : TopicConfig) (broker : TopicBroker) : TopicEvent → Prop
  | .create request now (some stop) =>
      broker.store.Creates config request →
        ¬ TornManifest stop stop.done (TopicStore.createSteps request now)
  | .delete request now later (some (.removeFiles removal _)) =>
      broker.store.Deletes request now later →
        KeepsCount (broker.store.data.get request.topic) removal (broker.store.count request.topic)
  | .start listing now (some stop) =>
      ¬ TornManifest stop stop.done
        (loadExistingTopics Z config now listing broker.store.data).1
  | _ => True

/-! ## Every run -/

/-- What holds between two events: every topic is read with the count it was created with,
if it is there, and a running broker serves what would be read. -/
structure Sound (config : TopicConfig) (broker : TopicBroker) : Prop where
  counts : ∀ topic, ∃ count,
    loadedCount config topic (broker.store.data.find? topic) = .ok count ∧
      ∀ partitionCount, count = some partitionCount → broker.created topic = some partitionCount
  agrees : broker.running = true → ∀ topic,
    loadedCount config topic (broker.store.data.find? topic) = .ok (broker.store.count topic)

theorem recovers_iff :
    broker.Recovers Z config ↔ ∀ topic, ∃ count,
      loadedCount config topic (broker.store.data.find? topic) = .ok count ∧
        ∀ partitionCount, count = some partitionCount →
          broker.created topic = some partitionCount := by
  constructor
  · intro h topic
    obtain ⟨loaded, hloaded, hserved⟩ := h _ [] (List.Perm.refl _)
    refine ⟨_, counts_of_loads (List.Perm.refl _) hloaded topic, fun partitionCount hcount ↦ ?_⟩
    obtain ⟨served, hfound, rfl⟩ := Option.map_eq_some_iff.mp hcount
    exact hserved topic served hfound
  · intro h listing now hperm
    obtain ⟨loaded, hloaded⟩ := (@loads_iff Z config _ now _ hperm).mpr fun topic ↦
      (h topic).imp fun _ hcount ↦ hcount.1
    refine ⟨loaded, hloaded, fun topic served hfound ↦ ?_⟩
    obtain ⟨count, hcount, hcreated⟩ := h topic
    have hsame := (counts_of_loads hperm hloaded topic).symm.trans hcount
    rw [hfound] at hsame
    exact hcreated _ (Except.ok.inj hsame).symm

/-- An event at one topic leaves the others as they are. -/
theorem Sound.of_topic (topic : Bytes) (h : broker.Sound config)
    (hdata : ∀ other, other ≠ topic →
      broker'.store.data.find? other = broker.store.data.find? other)
    (hcreated : ∀ other, other ≠ topic → broker'.created other = broker.created other)
    (hcount : ∀ other, other ≠ topic → broker'.store.count other = broker.store.count other)
    (hrunning : broker'.running = true → broker.running = true)
    (htopic : ∃ count,
      loadedCount config topic (broker'.store.data.find? topic) = .ok count ∧
        (∀ partitionCount, count = some partitionCount →
          broker'.created topic = some partitionCount) ∧
        (broker'.running = true → count = broker'.store.count topic)) :
    broker'.Sound config := by
  obtain ⟨count, hloaded, hkept, hserved⟩ := htopic
  constructor
  · intro other
    by_cases hother : other = topic
    · rw [hother]
      exact ⟨count, hloaded, hkept⟩
    · rw [hdata other hother, hcreated other hother]
      exact h.counts other
  · intro hrun other
    by_cases hother : other = topic
    · rw [hother, hloaded, hserved hrun]
    · rw [hdata other hother, hcount other hother]
      exact h.agrees (hrunning hrun) other

/-- The count of a running broker is the count of the last creation. -/
theorem Sound.created_of_count (h : broker.Sound config) (hrunning : broker.running = true)
    {topic : Bytes} {partitionCount : ℕ}
    (hserved : broker.store.count topic = some partitionCount) :
    broker.created topic = some partitionCount := by
  obtain ⟨count, hcount, hcreated⟩ := h.counts topic
  apply hcreated
  rw [h.agrees hrunning topic, hserved] at hcount
  exact (Except.ok.inj hcount).symm

theorem find?_stopSteps_create_ne {request : CreateTopicRequest} {now other : Bytes}
    {stop : TopicStop} {done : ℕ} (hother : other ≠ request.topic) :
    (stopSteps Z config stop done (TopicStore.createSteps request now) data).find? other =
      data.find? other := by
  apply find?_stopSteps_ne
  intro step hstep
  rcases List.mem_append.mp hstep with hstep | hstep
  · rwa [topic_of_mem_manifestSteps hstep]
  · rwa [topic_of_mem_openSteps hstep]

theorem Sound.create {request : CreateTopicRequest} {now : Bytes} {stop : Option TopicStop}
    (h : broker.Sound config) (hclean : broker.StopsCleanly Z config (.create request now stop))
    (hstep : broker.step Z config (.create request now stop) = some broker') :
    broker'.Sound config := by
  rw [step] at hstep
  by_cases hrunning : broker.running = true
  swap
  · rw [if_neg hrunning] at hstep
    cases hstep
  rw [if_pos hrunning] at hstep
  obtain rfl := Option.some.inj hstep
  rcases TopicStore.createTopic_cases Z config broker.store request now
      (stop.map fun stop ↦ ⟨stop, ""⟩) with ⟨hrefused, hsame⟩ | ⟨hcreates, hdone⟩
  · rw [hsame]
    simp only [if_neg hrefused]
    exact ⟨h.counts, fun _ ↦ h.agrees hrunning⟩
  have hnone := h.agrees hrunning request.topic
  rw [hcreates.2.2.2] at hnone
  have hmany : request.partitionCount ≤ 65535 :=
    hcreates.2.2.1.trans (Nat.le_of_lt_succ config.maxTopicPartitions.toNat_lt)
  have hcreated : ∀ other, other ≠ request.topic → Function.update broker.created request.topic
      (some request.partitionCount) other = broker.created other :=
    fun other hother ↦ Function.update_of_ne hother _ _
  simp only [if_pos hcreates]
  rcases hdone with ⟨found, hfound, error, hstopped⟩ | ⟨-, served, response, hcount, hserved⟩
  · obtain ⟨stop, rfl, rfl⟩ := Option.map_eq_some_iff.mp hfound
    rw [hstopped]
    refine h.of_topic request.topic (fun other hother ↦ find?_stopSteps_create_ne hother) hcreated
      (fun _ _ ↦ rfl) (fun hrun ↦ (Bool.false_ne_true hrun).elim) ?_
    rcases @loadedCount_stop_manifestSteps Z config broker.store.data
        ⟨request.topic, request.partitionCount, now⟩ stop request.partitionCount stop.done
        hcreates.1 (Nat.one_le_iff_ne_zero.mpr hcreates.2.1) hmany (hclean hcreates) with
      ⟨-, hkept⟩ | hnew
    · exact ⟨none, hkept.trans hnone, fun _ hcount ↦ (Option.some_ne_none _ hcount.symm).elim,
        fun hrun ↦ (Bool.false_ne_true hrun).elim⟩
    · refine ⟨_, hnew, fun partitionCount hcount ↦ ?_,
        fun hrun ↦ (Bool.false_ne_true hrun).elim⟩
      rw [← Option.some.inj hcount]
      exact Function.update_self _ _ _
  · rw [hserved]
    have hrun : runSteps Z config broker.store.data (TopicStore.createSteps request now) =
        stopSteps Z config { done := 0 } (TopicStore.createSteps request now).length
          (TopicStore.createSteps request now) broker.store.data :=
      (stopSteps_of_length_le le_rfl).symm
    rw [hrun]
    refine h.of_topic request.topic (fun other hother ↦ find?_stopSteps_create_ne hother) hcreated
      (fun other hother ↦ ?_) (fun _ ↦ hrunning) ?_
    · rw [TopicStore.count, SortedMap.find?_insert, if_neg hother, TopicStore.count]
    rcases @loadedCount_stop_manifestSteps Z config broker.store.data
        ⟨request.topic, request.partitionCount, now⟩ { done := 0 } request.partitionCount
        (TopicStore.createSteps request now).length hcreates.1
        (Nat.one_le_iff_ne_zero.mpr hcreates.2.1) hmany
        (not_tornManifest_of_length_le le_rfl) with ⟨hshort, -⟩ | hnew
    · simp [TopicStore.createSteps, manifestSteps] at hshort
    · refine ⟨_, hnew, fun partitionCount hcount ↦ ?_, fun _ ↦ ?_⟩
      · rw [← Option.some.inj hcount]
        exact Function.update_self _ _ _
      · rw [TopicStore.count, SortedMap.find?_insert_self, Option.map_some, hcount]

/-- What an interrupted removal leaves of a served topic is not there for a load, or has
the count of the topic. -/
theorem loadedCount_removal {topic : Bytes} {dir : TopicDirectory} {removal : Removal}
    {partitionCount : ℕ} (htopic : isValidTopicName topic = true)
    (hserved : loadedCount config topic (some dir) = .ok (some partitionCount))
    (hkeeps : KeepsCount dir removal (some partitionCount)) :
    loadedCount config topic (some (removal.apply dir)) = .ok none ∨
      loadedCount config topic (some (removal.apply dir)) = .ok (some partitionCount) := by
  have himported : ∀ dir : TopicDirectory, dir.manifest = none →
      loadedCount config topic (some dir) =
        .ok (if (dir.partitions 0).isNone then none else some 1) := by
    intro dir hmanifest
    rw [loadedCount, if_neg (by simp [htopic]), Option.getD_some, manifestFile, hmanifest]
    rfl
  cases hmanifest : (removal.apply dir).manifest with
  | some json =>
      refine Or.inr (Eq.trans (@loadedCount_congr_manifest config topic json
        (some (removal.apply dir)) (some dir) hmanifest ?_) hserved)
      rw [Removal.apply] at hmanifest
      dsimp only at hmanifest
      split_ifs at hmanifest
      exact hmanifest
  | none =>
      rw [himported _ hmanifest]
      cases hfirst : (removal.apply dir).partitions 0 with
      | none => exact Or.inl rfl
      | some files =>
          refine Or.inr ?_
          rcases hkeeps with hmanifest' | hgone | hone
          · -- The topic had no manifest before, so it was loaded with one partition.
            rw [Removal.apply, hmanifest'] at hmanifest
            have hpresent : dir.partitions 0 ≠ none := by
              intro habsent
              rw [Removal.apply] at hfirst
              dsimp only at hfirst
              rw [habsent] at hfirst
              split_ifs at hfirst
              cases hfirst
            rw [himported dir hmanifest, if_neg (by simpa using hpresent)] at hserved
            exact hserved
          · rw [hgone] at hfirst
            cases hfirst
          · rw [hone]
            rfl

theorem Sound.delete {request : DeleteTopicRequest} {now later : ℤ}
    {stop : Option TopicStore.DeleteFault} (h : broker.Sound config)
    (hclean : broker.StopsCleanly Z config (.delete request now later stop))
    (hstep : broker.step Z config (.delete request now later stop) = some broker') :
    broker'.Sound config := by
  rw [step] at hstep
  split_ifs at hstep with hrunning
  obtain rfl := Option.some.inj hstep
  have hcases := TopicStore.deleteTopic_cases Z config broker.store request now later stop
  set result := broker.store.deleteTopic Z config request now later stop
  rcases hcases with ⟨-, hdata, htopics⟩ | ⟨hdeletes, htopics, hdone⟩
  · have hcount : ∀ topic, result.1.count topic = broker.store.count topic := by
      intro topic
      rw [TopicStore.count, htopics, TopicStore.count]
    constructor
    · intro topic
      dsimp only
      rw [hdata]
      exact h.counts topic
    · intro _ topic
      dsimp only
      rw [hdata, hcount]
      exact h.agrees hrunning topic
  have hcount : ∀ topic, result.1.count topic =
      if topic = request.topic then none else broker.store.count topic := by
    intro topic
    rw [TopicStore.count, htopics, SortedMap.find?_erase]
    split_ifs
    · rfl
    · rfl
  obtain ⟨partitionCount, hserved⟩ := Option.ne_none_iff_exists'.mp hdeletes.2.2.1
  have hloaded := h.agrees hrunning request.topic
  rw [hserved] at hloaded
  -- Once the directory is gone, so is the topic.
  have herased : result.1.data = broker.store.data.erase request.topic →
      ({ broker with store := result.1, running := stop.isNone } : TopicBroker).Sound config := by
    intro hdata
    refine h.of_topic request.topic (fun other hother ↦ ?_) (fun _ _ ↦ rfl)
      (fun other hother ↦ ?_) (fun _ ↦ hrunning)
      ⟨none, ?_, fun _ hcount ↦ (Option.some_ne_none _ hcount.symm).elim, fun _ ↦ ?_⟩
    · dsimp only
      rw [hdata, SortedMap.find?_erase, if_neg hother]
    · exact (hcount other).trans (if_neg hother)
    · dsimp only
      rw [hdata, SortedMap.find?_erase, if_pos rfl, loadedCount_none]
    · exact ((hcount request.topic).trans (if_pos rfl)).symm
  rcases hdone with ⟨found, rfl, hleft, -⟩ | ⟨hdata, -⟩
  · obtain ⟨hdata, -⟩ := Prod.mk.inj hleft
    cases found with
    | removeOffsets stop reason => exact herased hdata
    | removeFiles removal reason =>
        obtain ⟨dir, hdir⟩ : ∃ dir, broker.store.data.find? request.topic = some dir := by
          rw [← Option.ne_none_iff_exists']
          intro hnone
          rw [hnone, loadedCount_none] at hloaded
          cases hloaded
        have hafter : result.1.data.find? request.topic = some (removal.apply dir) := by
          rw [hdata]
          simp only [stopSteps, TopicStep.interrupted, hdir, SortedMap.find?_insert_self]
        have hothers : ∀ other, other ≠ request.topic →
            result.1.data.find? other = broker.store.data.find? other := by
          intro other hother
          rw [hdata]
          apply find?_stopSteps_ne
          intro step hstep
          obtain rfl := List.mem_singleton.mp hstep
          exact hother
        have hkeeps := hclean hdeletes
        rw [DataDirectory.get, hdir, hserved] at hkeeps
        rw [hdir] at hloaded
        refine h.of_topic request.topic hothers (fun _ _ ↦ rfl)
          (fun other hother ↦ (hcount other).trans (if_neg hother)) (fun _ ↦ hrunning) ?_
        dsimp only
        rw [hafter]
        rcases loadedCount_removal hdeletes.1 hloaded hkeeps with hgone | hkept
        · exact ⟨none, hgone, fun _ hcount ↦ (Option.some_ne_none _ hcount.symm).elim,
            fun hrun ↦ (Bool.false_ne_true hrun).elim⟩
        · refine ⟨_, hkept, fun found hfound ↦ ?_, fun hrun ↦ (Bool.false_ne_true hrun).elim⟩
          rw [← Option.some.inj hfound]
          exact h.created_of_count hrunning hserved
  · exact herased hdata

theorem Sound.start {listing : List Bytes} {now : Bytes} {stop : Option TopicStop}
    (h : broker.Sound config) (hclean : broker.StopsCleanly Z config (.start listing now stop))
    (hstep : broker.step Z config (.start listing now stop) = some broker') :
    broker'.Sound config := by
  rw [step] at hstep
  split_ifs at hstep with hstart
  obtain rfl := Option.some.inj hstep
  obtain ⟨hstopped, hperm⟩ := hstart
  have hrunning : broker.running ≠ true := by simpa using hstopped
  unfold startBroker
  cases stop with
  | some stop =>
      dsimp only
      constructor
      · intro topic
        dsimp only
        rw [loadedCount_stop_load hclean topic]
        exact h.counts topic
      · exact fun hrun ↦ (hrunning hrun).elim
  | none =>
      have hcounts : ∀ topic, loadedCount config topic ((runSteps Z config broker.store.data
          (loadExistingTopics Z config now listing broker.store.data).1).find? topic) =
          loadedCount config topic (broker.store.data.find? topic) := by
        intro topic
        rw [← @stopSteps_of_length_le Z config { done := 0 } _ _ _ le_rfl]
        exact loadedCount_stop_load (not_tornManifest_of_length_le le_rfl) topic
      obtain ⟨loaded, hloaded⟩ := (@loads_iff Z config _ now _ hperm).mpr fun topic ↦
        (h.counts topic).imp fun _ hcount ↦ hcount.1
      simp only [hloaded]
      constructor
      · intro topic
        dsimp only
        rw [hcounts]
        exact h.counts topic
      · intro _ topic
        dsimp only
        rw [hcounts]
        exact counts_of_loads hperm hloaded topic

theorem Sound.step (h : broker.Sound config) {event : TopicEvent}
    (hclean : broker.StopsCleanly Z config event)
    (hstep : broker.step Z config event = some broker') : broker'.Sound config := by
  cases event with
  | create request now stop => exact h.create hclean hstep
  | delete request now later stop => exact h.delete hclean hstep
  | stop =>
      obtain rfl := Option.some.inj hstep
      exact ⟨h.counts, fun hrun ↦ (Bool.false_ne_true hrun).elim⟩
  | start listing now stop => exact h.start hclean hstep

/-- Over every run whose stops tear no manifest and leave no part of a topic that reads as
another one, the next start succeeds and every topic is unknown or served with the
partition count it was created with. -/
theorem recovers_run {events : List TopicEvent} (hinit : broker.Recovers Z config)
    (hstopped : broker.running = false)
    (hclean : Along (step Z config) (StopsCleanly Z config) broker events)
    (hrun : run (step Z config) broker events = some broker') :
    broker'.Recovers Z config := by
  have hsound : broker.Sound config := by
    refine ⟨recovers_iff.mp hinit, fun hrunning ↦ ?_⟩
    rw [hstopped] at hrunning
    cases hrunning
  have hfinal : broker'.Sound config := by
    refine run_invariant _ (Sound config) ?_ hclean hrun hsound
    intro broker event broker' hclean hstep h
    exact h.step hclean hstep
  exact recovers_iff.mpr hfinal.counts

/-- No process on an empty data directory. -/
def stoppedBroker : TopicBroker := ⟨TopicStore.emptyBroker, false, fun _ ↦ none⟩

theorem recovers_stoppedBroker : stoppedBroker.Recovers noZstd TopicStore.smallTopics :=
  recovers_iff.mpr fun topic ↦
    ⟨none, loadedCount_none TopicStore.smallTopics topic, fun _ hcount ↦ by cases hcount⟩

/-- A start, and a creation of the topic `t` with two partitions that stops when `cut`
bytes of the manifest are written. -/
def createStops (cut : ℕ) : List TopicEvent :=
  [.start [] [] none,
    .create ⟨[116], 2⟩ (text "2024-01-01T00:00:00Z") (some { done := 1, cut := some cut })]

theorem createStops_seventy_recovers :
    ∃ broker, run (step noZstd TopicStore.smallTopics) stoppedBroker (createStops 70) =
        some broker ∧ broker.Recovers noZstd TopicStore.smallTopics := by
  refine ⟨_, rfl, @recovers_run _ _ _ _ (createStops 70) recovers_stoppedBroker rfl ?_ rfl⟩
  refine ⟨trivial, fun broker _ ↦ ⟨fun _ htorn ↦ ?_, fun _ _ ↦ trivial⟩⟩
  obtain ⟨manifest, cut, hstep, hcut, hshort⟩ := htorn
  obtain rfl := TopicStep.writeManifest.inj (Option.some.inj hstep)
  obtain rfl := Option.some.inj hcut
  revert hshort
  decide +kernel

/-- A manifest that was opened and not written keeps the broker from starting. -/
theorem createStops_zero_not_recovers :
    stoppedBroker.Recovers noZstd TopicStore.smallTopics ∧
      ∃ broker, run (step noZstd TopicStore.smallTopics) stoppedBroker (createStops 0) =
        some broker ∧ ¬ broker.Recovers noZstd TopicStore.smallTopics := by
  refine ⟨recovers_stoppedBroker, _, rfl, fun hrecovers ↦ ?_⟩
  obtain ⟨count, hcount, -⟩ := recovers_iff.mp hrecovers [116]
  cases hcount

end TopicBroker

end BoltStream.Broker
