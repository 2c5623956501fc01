import BoltStream.Broker.Deliverable
import BoltStream.Broker.TopicLoading

/-!
# Requests on topics that fail

After a `create_topic` or `delete_topic` that answers with an error the topics in memory
are those of the next start, unless the failing operation left a manifest that
was not there before, or files of a topic that is no longer served.
-/

namespace BoltStream.Broker

open BoltStream.Lib BoltStream.Protocol BoltStream.Compression BoltStream.Storage
open DataDirectory

inductive TopicRequest where
  | create (request : CreateTopicRequest) (now : Bytes) (fault : Option TopicFault)
  | delete (request : DeleteTopicRequest) (now later : ℤ) (fault : Option TopicStore.DeleteFault)

namespace TopicStore

variable {Z : Zstd} {config : TopicConfig} {store after : TopicStore}

def answer (Z : Zstd) (config : TopicConfig) (store : TopicStore) :
    TopicRequest → TopicStore × Except BrokerError Unit
  | .create request now fault =>
      let created := store.createTopic Z config request now fault
      (created.1, created.2.map fun _ ↦ ())
  | .delete request now later fault =>
      let deleted := store.deleteTopic Z config request now later fault
      (deleted.1, deleted.2.map fun _ ↦ ())

/-- Memory and disk agree, and the offsets of a topic that is no longer served are gone. -/
structure LeavesAgreement (Z : Zstd) (config : TopicConfig) (before after : TopicStore) : Prop where
  agrees : after.Agrees Z config
  offsets : ∀ topic, before.count topic ≠ none → after.count topic = none →
    after.offsets.Gone topic

/-- A creation that gets to its file operations. -/
def Creates (config : TopicConfig) (store : TopicStore) (request : CreateTopicRequest) : Prop :=
  isValidTopicName request.topic = true ∧ request.partitionCount ≠ 0 ∧
    request.partitionCount ≤ config.maxTopicPartitions.toNat ∧ store.count request.topic = none

/-- A deletion that releases the topic. -/
def Deletes (store : TopicStore) (request : DeleteTopicRequest) (now later : ℤ) : Prop :=
  isValidTopicName request.topic = true ∧
    (store.coordinator.topicHasActiveMembers request.topic now).2 = false ∧
    store.count request.topic ≠ none ∧
    ((store.coordinator.topicHasActiveMembers request.topic now).1.topicHasActiveMembers
      request.topic later).2 = false

/-- A failing creation has not opened the manifest. -/
def NoManifest (stop : TopicStop) : Prop := stop.done = 0 ∨ stop.done = 1 ∧ stop.cut = none

/-- A failing deletion has removed the manifest and the first partition and there were
no offsets, or it has got to the log of every group with offsets. -/
def ClearsTopic (store : TopicStore) (topic : Bytes) : DeleteFault → Prop
  | .removeFiles removal _ =>
      (removal.apply (get store.data topic)).manifest = none ∧
        (removal.apply (get store.data topic)).partitions 0 = none ∧ store.offsets.Gone topic
  | .removeOffsets stop _ =>
      ∀ group partition,
        (OffsetStore.openStore store.offsets.dirs).committed group topic partition ≠ none →
          OffsetStore.Dropped stop stop.done (store.offsets.removeTopicSteps topic) group

/-- Where a request fails without leaving a difference. -/
def FailsCleanly (config : TopicConfig) (store : TopicStore) : TopicRequest → Prop
  | .create request _ fault =>
      store.Creates config request → ∀ found, fault = some found → NoManifest found.stop
  | .delete request now later fault =>
      store.Deletes request now later → ∀ found, fault = some found →
        store.ClearsTopic request.topic found

/-! ## Creating -/

/-- A creation that fails leaves the topic without a manifest when its file was not
opened yet. -/
theorem loadedCount_stopSteps_create {request : CreateTopicRequest} {now : Bytes}
    {stop : TopicStop} (htopic : isValidTopicName request.topic = true) {data : DataDirectory}
    (hnone : loadedCount config request.topic (data.find? request.topic) = .ok none) :
    loadedCount config request.topic ((stopSteps Z config stop stop.done
        (createSteps request now) data).find? request.topic) = .ok none ↔ NoManifest stop := by
  set manifest : TopicManifest := ⟨request.topic, request.partitionCount, now⟩ with hmanifest
  have hsteps : createSteps request now = .createDirectory request.topic ::
      .writeManifest manifest :: openSteps request.topic request.partitionCount := rfl
  have hkept : loadedCount config request.topic (some (data.get request.topic)) = .ok none := by
    cases hdir : data.find? request.topic with
    | none =>
        rw [DataDirectory.get, hdir]
        exact loadedCount_eq_ok_none rfl rfl
    | some dir =>
        rw [hdir] at hnone
        rw [DataDirectory.get, hdir]
        exact hnone
  -- A directory with a manifest is never loaded as one without.
  have hwritten : ∀ after : DataDirectory, (after.get request.topic).manifest ≠ none →
      loadedCount config request.topic (after.find? request.topic) ≠ .ok none := by
    intro after hafter hloaded
    cases hdir : after.find? request.topic with
    | none =>
        rw [DataDirectory.get, hdir] at hafter
        exact hafter rfl
    | some dir =>
        rw [hdir, loadedCount_eq_ok_none_iff htopic] at hloaded
        rw [DataDirectory.get, hdir] at hafter
        exact hafter hloaded.1
  rw [hsteps, NoManifest]
  rcases hdone : stop.done with _ | _ | done
  · simpa [stopSteps, TopicStep.interrupted] using hnone
  · simp only [stopSteps, TopicStep.apply, TopicStep.interrupted]
    cases hcut : stop.cut with
    | none => simpa using hkept
    | some cut =>
        simp only [reduceCtorEq, and_false, or_false, Nat.zero_add, one_ne_zero, iff_false]
        refine hwritten _ ?_
        rw [manifest_get_setManifest]
        exact Option.some_ne_none _
  · simp only [stopSteps, Nat.add_eq_zero_iff, one_ne_zero, and_false, false_or,
      Nat.add_eq_right, false_and, iff_false]
    refine hwritten _ ?_
    rw [openSteps, manifest_stopSteps_open]
    have hset := manifest_get_setManifest
      (TopicStep.apply Z config data (.createDirectory request.topic)) request.topic
      (writeTopicManifest manifest)
    exact fun habsent ↦ Option.some_ne_none _ (hset.symm.trans habsent)

theorem count_eq_none_iff {topic : Bytes} :
    store.count topic = none ↔ store.topics.find? topic = none := Option.map_eq_none_iff

/-- What a creation does: it is refused, it stops in a file operation, or it serves
the topic. -/
theorem createTopic_cases (Z : Zstd) (config : TopicConfig) (store : TopicStore)
    (request : CreateTopicRequest) (now : Bytes) (fault : Option TopicFault) :
    ¬ store.Creates config request ∧ (store.createTopic Z config request now fault).1 = store ∨
      store.Creates config request ∧
        ((∃ found, fault = some found ∧
            ∃ error, store.createTopic Z config request now fault =
              ({ store with
                  data := stopSteps Z config found.stop found.stop.done
                    (createSteps request now) store.data }, .error error)) ∨
          (∀ found, fault = some found →
              (createSteps request now).length ≤ found.stop.done) ∧
            ∃ served response, served.partitionCount = request.partitionCount ∧
              store.createTopic Z config request now fault =
                ({ store with
                    data := runSteps Z config store.data (createSteps request now)
                    topics := store.topics.insert request.topic served }, .ok response)) := by
  rw [createTopic]
  by_cases hname : isValidTopicName request.topic = false
  · rw [if_pos hname]
    refine Or.inl ⟨fun hcreates ↦ ?_, rfl⟩
    exact Bool.false_ne_true (hname.symm.trans hcreates.1)
  rw [if_neg hname]
  by_cases hcount : request.partitionCount = 0 ∨
      request.partitionCount > config.maxTopicPartitions.toNat
  · rw [if_pos hcount]
    refine Or.inl ⟨fun hcreates ↦ ?_, rfl⟩
    rcases hcount with hzero | hmany
    · exact hcreates.2.1 hzero
    · exact Nat.not_lt.mpr hcreates.2.2.1 hmany
  rw [if_neg hcount]
  rw [not_or, Nat.not_lt] at hcount
  cases hserved : store.topics.find? request.topic with
  | some existing =>
      refine Or.inl ⟨fun hcreates ↦ ?_, ?_⟩
      · rw [count_eq_none_iff.mp hcreates.2.2.2] at hserved
        cases hserved
      · dsimp only
        split_ifs
        · rfl
        · rfl
  | none =>
      rw [Bool.not_eq_false] at hname
      refine Or.inr ⟨⟨hname, hcount.1, hcount.2, count_eq_none_iff.mpr hserved⟩, ?_⟩
      dsimp only
      split
      · next found step hfault =>
          obtain ⟨threw, hthrew, hstep⟩ := Option.bind_eq_some_iff.mp hfault
          obtain ⟨_, -, hpair⟩ := Option.map_eq_some_iff.mp hstep
          obtain rfl := (Prod.mk.inj hpair).1
          exact Or.inl ⟨threw, hthrew, _, rfl⟩
      · next hfault =>
          obtain ⟨served, hopen, hsame⟩ := openTopicState_ok Z config (runSteps Z config store.data
            (manifestSteps ⟨request.topic, request.partitionCount, now⟩)) hname
            request.partitionCount
          refine Or.inr ⟨fun found hfound ↦ ?_, served, _, hsame, by rw [hopen]⟩
          have hstep := Option.bind_eq_none_iff.mp hfault found hfound
          exact List.getElem?_eq_none_iff.mp (Option.map_eq_none_iff.mp hstep)

/-- A creation that fails was refused, or one of its file operations threw. -/
theorem createTopic_error {request : CreateTopicRequest} {now : Bytes}
    {fault : Option TopicFault} {error : BrokerError}
    (h : store.createTopic Z config request now fault = (after, .error error)) :
    ¬ store.Creates config request ∧ after = store ∨
      store.Creates config request ∧ ∃ found, fault = some found ∧ after =
        { store with
          data := stopSteps Z config found.stop found.stop.done (createSteps request now)
            store.data } := by
  rcases createTopic_cases Z config store request now fault with ⟨hrefused, hsame⟩ |
      ⟨hcreates, ⟨found, hfound, other, hstopped⟩ | ⟨-, served, response, -, hserved⟩⟩
  · exact Or.inl ⟨hrefused, by rw [← hsame, h]⟩
  · refine Or.inr ⟨hcreates, found, hfound, ?_⟩
    exact (Prod.mk.inj (h.symm.trans hstopped)).1
  · cases (Prod.mk.inj (h.symm.trans hserved)).2

/-- What a deletion that fails has done. -/
def deleteFailed (Z : Zstd) (config : TopicConfig) (store : TopicStore) (topic : Bytes) :
    DeleteFault → DataDirectory × OffsetStore
  | .removeFiles removal _ =>
      (stopSteps Z config { done := 0, removal := removal } 0 [.removeAll topic] store.data,
        store.offsets)
  | .removeOffsets stop _ => (store.data.erase topic, store.offsets.failRemoval topic stop)

/-- What a deletion does: it is refused, it fails once the topic is released, or it
removes the topic. -/
theorem deleteTopic_cases (Z : Zstd) (config : TopicConfig) (store : TopicStore)
    (request : DeleteTopicRequest) (now later : ℤ) (fault : Option DeleteFault) :
    let result := store.deleteTopic Z config request now later fault
    ¬ store.Deletes request now later ∧ result.1.data = store.data ∧
        result.1.topics = store.topics ∨
      store.Deletes request now later ∧ result.1.topics = store.topics.erase request.topic ∧
        ((∃ found, fault = some found ∧
            (result.1.data, result.1.offsets) =
              deleteFailed Z config store request.topic found ∧
            ∃ error, result.2 = .error error) ∨
          result.1.data = store.data.erase request.topic ∧
            ∃ response, result.2 = .ok response) := by
  intro result
  rw [show result = store.deleteTopic Z config request now later fault from rfl, deleteTopic]
  by_cases hname : isValidTopicName request.topic = false
  · rw [if_pos hname]
    refine Or.inl ⟨fun hdeletes ↦ ?_, rfl, rfl⟩
    exact Bool.false_ne_true (hname.symm.trans hdeletes.1)
  rw [if_neg hname]
  rw [Bool.not_eq_false] at hname
  dsimp only
  by_cases hfirst : (store.coordinator.topicHasActiveMembers request.topic now).2 = true
  · rw [if_pos hfirst]
    refine Or.inl ⟨fun hdeletes ↦ ?_, rfl, rfl⟩
    exact Bool.false_ne_true (hdeletes.2.1.symm.trans hfirst)
  rw [if_neg hfirst]
  rw [Bool.not_eq_true] at hfirst
  cases hserved : store.topics.find? request.topic with
  | none =>
      refine Or.inl ⟨fun hdeletes ↦ ?_, rfl, rfl⟩
      exact hdeletes.2.2.1 (count_eq_none_iff.mpr hserved)
  | some served =>
      dsimp only
      by_cases hsecond : ((store.coordinator.topicHasActiveMembers request.topic
          now).1.topicHasActiveMembers request.topic later).2 = true
      · rw [if_pos hsecond]
        refine Or.inl ⟨fun hdeletes ↦ ?_, rfl, rfl⟩
        exact Bool.false_ne_true (hdeletes.2.2.2.symm.trans hsecond)
      rw [if_neg hsecond]
      rw [Bool.not_eq_true] at hsecond
      have hdeletes : store.Deletes request now later := by
        refine ⟨hname, hfirst, fun hnone ↦ ?_, hsecond⟩
        rw [count_eq_none_iff.mp hnone] at hserved
        cases hserved
      cases fault with
      | none => exact Or.inr ⟨hdeletes, rfl, Or.inr ⟨rfl, _, rfl⟩⟩
      | some found =>
          cases found with
          | removeFiles removal reason =>
              exact Or.inr ⟨hdeletes, rfl, Or.inl ⟨_, rfl, rfl, _, rfl⟩⟩
          | removeOffsets stop reason =>
              dsimp only
              split_ifs
              · exact Or.inr ⟨hdeletes, rfl, Or.inl ⟨_, rfl, rfl, _, rfl⟩⟩
              · exact Or.inr ⟨hdeletes, rfl, Or.inr ⟨rfl, _, rfl⟩⟩

/-- A deletion that fails was refused, or released the topic before it threw. -/
theorem deleteTopic_error {request : DeleteTopicRequest} {now later : ℤ}
    {fault : Option DeleteFault} {error : BrokerError}
    (h : store.deleteTopic Z config request now later fault = (after, .error error)) :
    ¬ store.Deletes request now later ∧ after.data = store.data ∧ after.topics = store.topics ∨
      store.Deletes request now later ∧ after.topics = store.topics.erase request.topic ∧
        ∃ found, fault = some found ∧
          (after.data, after.offsets) = deleteFailed Z config store request.topic found := by
  have hcases := deleteTopic_cases Z config store request now later fault
  rw [h] at hcases
  rcases hcases with hrefused | ⟨hdeletes, htopics, ⟨found, hfound, hleft, -⟩ |
      ⟨-, response, hanswer⟩⟩
  · exact Or.inl hrefused
  · exact Or.inr ⟨hdeletes, htopics, found, hfound, hleft⟩
  · cases hanswer

/-! ## Agreement -/

/-- When a request touches one topic only, agreement is decided by that topic. -/
theorem agrees_iff_of_others {topic : Bytes} (hagrees : store.Agrees Z config)
    (hdata : ∀ other, other ≠ topic → after.data.find? other = store.data.find? other)
    (hcount : ∀ other, other ≠ topic → after.count other = store.count other) :
    after.Agrees Z config ↔
      loadedCount config topic (after.data.find? topic) = .ok (after.count topic) := by
  rw [agrees_iff]
  constructor
  · exact fun h ↦ h topic
  · intro h other
    by_cases hother : other = topic
    · rw [hother]
      exact h
    · rw [hdata other hother, hcount other hother]
      exact agrees_iff.mp hagrees other

theorem LeavesAgreement.of_unchanged (hagrees : store.Agrees Z config)
    (hdata : after.data = store.data) (htopics : after.topics = store.topics) :
    LeavesAgreement Z config store after := by
  have hcount : ∀ topic, after.count topic = store.count topic := by
    intro topic
    rw [count, htopics, count]
  refine ⟨agrees_iff.mpr fun topic ↦ ?_, fun topic hserved hgone ↦ ?_⟩
  · rw [hdata, hcount]
    exact agrees_iff.mp hagrees topic
  · rw [hcount] at hgone
    exact (hserved hgone).elim

theorem create_leavesAgreement_iff {request : CreateTopicRequest} {now : Bytes}
    {stop : TopicStop} (hagrees : store.Agrees Z config)
    (hcreates : store.Creates config request) :
    LeavesAgreement Z config store
        { store with
          data := stopSteps Z config stop stop.done (createSteps request now) store.data } ↔
      NoManifest stop := by
  set after : TopicStore :=
    { store with
      data := stopSteps Z config stop stop.done (createSteps request now) store.data } with hafter
  have hothers : ∀ other, other ≠ request.topic →
      after.data.find? other = store.data.find? other := by
    intro other hother
    apply find?_stopSteps_ne
    intro step hstep
    rcases List.mem_append.mp hstep with hstep | hstep
    · rwa [topic_of_mem_manifestSteps hstep]
    · rwa [topic_of_mem_openSteps hstep]
  have hnone := agrees_iff.mp hagrees request.topic
  rw [hcreates.2.2.2] at hnone
  have hiff := agrees_iff_of_others hagrees hothers fun other _ ↦ (rfl : after.count other = _)
  have hsame : after.count request.topic = none := hcreates.2.2.2
  rw [hsame, hafter, @loadedCount_stopSteps_create Z config _ now stop hcreates.1 _ hnone,
    ← hafter] at hiff
  constructor
  · exact fun h ↦ hiff.mp h.agrees
  · exact fun h ↦ ⟨hiff.mpr h, fun topic hserved hgone ↦ (hserved hgone).elim⟩

/-- A deletion that fails leaves agreement when nothing is left that a load could take
for the topic, and no offset. -/
theorem delete_leavesAgreement_iff {topic : Bytes} (hagrees : store.Agrees Z config)
    (hserved : store.count topic ≠ none)
    (htopics : after.topics = store.topics.erase topic)
    (hdata : ∀ other, other ≠ topic → after.data.find? other = store.data.find? other) :
    LeavesAgreement Z config store after ↔
      loadedCount config topic (after.data.find? topic) = .ok none ∧ after.offsets.Gone topic := by
  have hcount : ∀ other, after.count other = if other = topic then none else store.count other := by
    intro other
    rw [count, htopics, SortedMap.find?_erase]
    split_ifs
    · rfl
    · rfl
  have hiff := agrees_iff_of_others hagrees hdata fun other hother ↦ by
    rw [hcount, if_neg hother]
  have hreleased : after.count topic = none := by rw [hcount, if_pos rfl]
  rw [hreleased] at hiff
  constructor
  · exact fun h ↦ ⟨hiff.mp h.agrees, h.offsets topic hserved hreleased⟩
  · rintro ⟨hloaded, hgone⟩
    refine ⟨hiff.mpr hloaded, fun other hother hnone ↦ ?_⟩
    by_cases hsame : other = topic
    · rw [hsame]
      exact hgone
    · rw [hcount, if_neg hsame] at hnone
      exact (hother hnone).elim

theorem eq_of_map_error {α : Type} {result : TopicStore × Except BrokerError α}
    {error : BrokerError}
    (h : (result.1, result.2.map fun _ ↦ ()) = (after, .error error)) :
    result = (after, .error error) := by
  obtain ⟨store, answer⟩ := result
  cases answer with
  | ok response => cases (Prod.mk.inj h).2
  | error other =>
      obtain ⟨rfl, hanswer⟩ := Prod.mk.inj h
      rw [Except.error.inj hanswer]

/-- After a request that fails, the topics in memory are those a restart loads and the
offsets of a released topic are gone, exactly when the request fails cleanly. -/
theorem failed_request_agrees_iff {request : TopicRequest} {error : BrokerError}
    (hagrees : store.Agrees Z config) (hhandled : store.offsets.Handled)
    (hfails : store.answer Z config request = (after, .error error)) :
    LeavesAgreement Z config store after ↔ store.FailsCleanly config request := by
  cases request with
  | create request now fault =>
      have hcreate := eq_of_map_error hfails
      rcases createTopic_error hcreate with ⟨hrefused, hsame⟩ | ⟨hcreates, found, rfl, hsame⟩
      · rw [hsame]
        refine ⟨fun _ hcreates ↦ (hrefused hcreates).elim, fun _ ↦ ?_⟩
        exact LeavesAgreement.of_unchanged hagrees rfl rfl
      · rw [hsame, create_leavesAgreement_iff hagrees hcreates]
        refine ⟨fun h _ other hother ↦ ?_, fun h ↦ h hcreates found rfl⟩
        rw [← Option.some.inj hother]
        exact h
  | delete request now later fault =>
      have hdelete := eq_of_map_error hfails
      rcases deleteTopic_error hdelete with ⟨hrefused, hdata, htopics⟩ |
          ⟨hdeletes, htopics, found, rfl, hleft⟩
      · refine ⟨fun _ hdeletes ↦ (hrefused hdeletes).elim, fun _ ↦ ?_⟩
        exact LeavesAgreement.of_unchanged hagrees hdata htopics
      obtain ⟨hdata, hoffsets⟩ := Prod.mk.inj hleft
      have hserved := hdeletes.2.2.1
      have hdir : ∃ dir, store.data.find? request.topic = some dir := by
        rw [← Option.ne_none_iff_exists']
        intro hnone
        have hloaded := agrees_iff.mp hagrees request.topic
        rw [hnone, loadedCount_none] at hloaded
        exact hserved (Except.ok.inj hloaded).symm
      obtain ⟨dir, hdir⟩ := hdir
      have hclean : store.FailsCleanly config (.delete request now later (some found)) ↔
          store.ClearsTopic request.topic found := by
        refine ⟨fun h ↦ h hdeletes found rfl, fun h _ other hother ↦ ?_⟩
        rw [← Option.some.inj hother]
        exact h
      rw [hclean]
      cases found with
      | removeFiles removal reason =>
          have hothers : ∀ other, other ≠ request.topic →
              after.data.find? other = store.data.find? other := by
            intro other hother
            rw [hdata]
            apply find?_stopSteps_ne
            intro step hstep
            obtain rfl := List.mem_singleton.mp hstep
            exact hother
          have hafter : after.data.find? request.topic = some (removal.apply dir) := by
            rw [hdata]
            simp only [stopSteps, TopicStep.interrupted, hdir, SortedMap.find?_insert_self]
          rw [delete_leavesAgreement_iff hagrees hserved htopics hothers, hafter,
            loadedCount_eq_ok_none_iff hdeletes.1, hoffsets, ClearsTopic, DataDirectory.get, hdir,
            and_assoc]
          rfl
      | removeOffsets stop reason =>
          have herased : ∀ other, after.data.find? other =
              if other = request.topic then none else store.data.find? other := by
            intro other
            rw [hdata]
            refine (SortedMap.find?_erase store.data request.topic other).trans ?_
            split_ifs
            · rfl
            · rfl
          rw [delete_leavesAgreement_iff hagrees hserved htopics
            (fun other hother ↦ (herased other).trans (if_neg hother)), herased, if_pos rfl,
            loadedCount_none, hoffsets, OffsetStore.gone_failRemoval_iff hhandled.storableOffsets,
            ClearsTopic]
          exact and_iff_right rfl

/-- The options of a broker that takes topics of up to sixteen partitions. -/
def smallTopics : TopicConfig where
  server := smallFrames 1048576 ServerConfig.defaultFrameBytes_ne
  maxTopicPartitions := 16
  manifestPath := fun _ ↦ "manifest.json"

/-- A broker on an empty data directory. -/
def emptyBroker : TopicStore where
  data := ∅
  topics := ∅
  offsets := OffsetStore.openStore ∅
  coordinator := {}

theorem agrees_emptyBroker : emptyBroker.Agrees noZstd smallTopics :=
  agrees_iff.mpr fun topic ↦ loadedCount_none smallTopics topic

/-- The creation of a topic `t` with two partitions, of which the first cannot be opened. -/
def openFails : TopicRequest :=
  .create ⟨[116], 2⟩ (text "2024-01-01T00:00:00Z") (some ⟨{ done := 2 }, "disk full"⟩)

theorem openFails_agrees_iff :
    LeavesAgreement noZstd smallTopics emptyBroker
        (emptyBroker.answer noZstd smallTopics openFails).1 ↔
      emptyBroker.FailsCleanly smallTopics openFails :=
  failed_request_agrees_iff agrees_emptyBroker (.opened ∅)
    (rfl : emptyBroker.answer noZstd smallTopics openFails =
      (_, .error (.exception "disk full")))

/-- The creation answers with an error and leaves a manifest that the next start reads. -/
theorem openFails_disagrees :
    emptyBroker.Agrees noZstd smallTopics ∧
      (emptyBroker.answer noZstd smallTopics openFails).2 = .error (.exception "disk full") ∧
      ¬ (emptyBroker.answer noZstd smallTopics openFails).1.Agrees noZstd smallTopics := by
  refine ⟨agrees_emptyBroker, rfl, fun hagrees ↦ ?_⟩
  have hcreates : emptyBroker.Creates smallTopics ⟨[116], 2⟩ := by
    refine ⟨by decide, by decide, by decide, rfl⟩
  have hclean := (create_leavesAgreement_iff agrees_emptyBroker hcreates).mp
    ⟨hagrees, fun topic hserved _ ↦ (hserved rfl).elim⟩
  revert hclean
  simp [NoManifest]

end TopicStore

end BoltStream.Broker
