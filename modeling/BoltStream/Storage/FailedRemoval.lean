import BoltStream.Storage.OffsetRemoval

/-!
# Failing removals

When `remove_topic` fails, the offsets of the topic are gone from memory, and from the
logs that were removed or replaced before.  A log that was not reached still shows
them at the next start.
-/

namespace BoltStream.Storage

open BoltStream.Lib BoltStream.Protocol

namespace OffsetStore

/-- The offsets in memory when the rewriting of the logs fails. -/
def offsetsUntil (store : OffsetStore) (topic : Bytes) (stop : RemovalStop) :
    SortedMap Bytes GroupOffsets :=
  store.offsets.filterMapValues fun group offsets ↦
    let left := withoutTopic topic offsets
    if left.entries.length < offsets.entries.length ∧ left.entries = [] ∧
        .removeDir group ∈ (store.removeTopicSteps topic).take stop.done then none
    else some left

/-- A `remove_topic` that fails in one of its file operations. -/
def failRemoval (store : OffsetStore) (topic : Bytes) (stop : RemovalStop) : OffsetStore :=
  { store with
    dirs := store.stoppedDirs topic stop
    offsets := store.offsetsUntil topic stop }

/-- The stores of a broker whose calls may fail. -/
inductive Handled : OffsetStore → Prop
  | opened (dirs : SortedMap Bytes GroupDir) : Handled (openStore dirs)
  | committed {store : OffsetStore} (h : Handled store) (group topic : Bytes)
      (partition : UInt16) (nextOffset : UInt64) (fault : Option CommitFault) :
      Handled (store.commit group topic partition.toNat nextOffset.toNat fault).1
  | removed {store : OffsetStore} (h : Handled store) (topic : Bytes) :
      Handled (store.removeTopic topic).1
  | removalFailed {store : OffsetStore} (h : Handled store) (topic : Bytes)
      (stop : RemovalStop) : Handled (store.failRemoval topic stop)

/-- Every offset in memory can be written as a line. -/
def StorableOffsets (store : OffsetStore) : Prop :=
  ∀ group offsets, store.offsets.find? group = some offsets →
    ∀ key value, offsets.find? key = some value →
      OffsetRecord.Storable ⟨(ofLex key).1, (ofLex key).2, value⟩

theorem StorableOffsets.commit {store : OffsetStore} (h : store.StorableOffsets)
    {group topic : Bytes} {partition nextOffset : ℕ} (hpartition : partition < 2 ^ 16)
    (hnext : nextOffset < 2 ^ 64) (fault : Option CommitFault) :
    (store.commit group topic partition nextOffset fault).1.StorableOffsets := by
  rw [OffsetStore.commit]
  split_ifs with hgroup htopic
  · exact h
  · exact h
  rw [Bool.not_eq_false] at htopic
  cases fault with
  | some fault => cases fault <;> exact h
  | none =>
      intro other offsets hoffsets key value hvalue
      simp only [SortedMap.find?_insert] at hoffsets
      split_ifs at hoffsets with hsame
      · rw [← Option.some.inj hoffsets, enterRecord, SortedMap.find?_insert] at hvalue
        split_ifs at hvalue with hkey
        · rw [hkey, ← Option.some.inj hvalue]
          exact ⟨htopic, hpartition, hnext⟩
        · cases hold : store.offsets.find? group with
          | none =>
              rw [hold] at hvalue
              cases hvalue
          | some old =>
              rw [hold] at hvalue
              exact h group old hold key value hvalue
      · exact h other offsets hoffsets key value hvalue

/-- Offsets that lose a topic, or are dropped, stay storable. -/
theorem StorableOffsets.of_left {store store' : OffsetStore} (h : store.StorableOffsets)
    {topic : Bytes} (hleft : ∀ group offsets, store'.offsets.find? group = some offsets →
      ∃ old, store.offsets.find? group = some old ∧ offsets = withoutTopic topic old) :
    store'.StorableOffsets := by
  intro group offsets hoffsets key value hvalue
  obtain ⟨old, hold, rfl⟩ := hleft group offsets hoffsets
  exact storable_withoutTopic (h group old hold) hvalue

theorem exists_of_offsetsUntil {store : OffsetStore} {topic group : Bytes} {stop : RemovalStop}
    {offsets : GroupOffsets}
    (h : (store.offsetsUntil topic stop).find? group = some offsets) :
    ∃ old, store.offsets.find? group = some old ∧ offsets = withoutTopic topic old := by
  rw [offsetsUntil, SortedMap.find?_filterMapValues] at h
  obtain ⟨old, hold, h⟩ := Option.bind_eq_some_iff.mp h
  dsimp only at h
  split_ifs at h
  exact ⟨old, hold, (Option.some.inj h).symm⟩

theorem Handled.storableOffsets {store : OffsetStore} (h : store.Handled) :
    store.StorableOffsets := by
  induction h with
  | opened dirs => exact (durable_openStore dirs).storable
  | committed _ group topic partition nextOffset fault ih =>
      exact ih.commit partition.toNat_lt nextOffset.toNat_lt fault
  | removed _ topic ih =>
      apply ih.of_left
      intro group offsets hoffsets
      simp only [OffsetStore.removeTopic, offsetsWithoutTopic,
        SortedMap.find?_filterMapValues] at hoffsets
      obtain ⟨old, hold, hoffsets⟩ := Option.bind_eq_some_iff.mp hoffsets
      split_ifs at hoffsets
      exact ⟨old, hold, (Option.some.inj hoffsets).symm⟩
  | removalFailed _ topic stop ih =>
      apply ih.of_left
      intro group offsets hoffsets
      exact exists_of_offsetsUntil hoffsets

/-! ## What is left on disk -/

/-- The old log of the group is gone when the operations end there. -/
def Dropped (stop : RemovalStop) (done : ℕ) (steps : List FileStep) (group : Bytes) : Prop :=
  .removeLog group ∈ steps.take done ∨ .removeDir group ∈ steps.take done ∨
    steps[done]? = some (.removeDir group) ∧ stop.logGone = true

theorem not_dropped_nil (stop : RemovalStop) (done : ℕ) (group : Bytes) :
    ¬ Dropped stop done [] group := by
  simp [Dropped]

theorem dropped_cons_zero (stop : RemovalStop) (step : FileStep) (rest : List FileStep)
    (group : Bytes) :
    Dropped stop 0 (step :: rest) group ↔ step = .removeDir group ∧ stop.logGone = true := by
  simp [Dropped]

theorem dropped_cons_succ (stop : RemovalStop) (done : ℕ) (step : FileStep)
    (rest : List FileStep) (group : Bytes) :
    Dropped stop (done + 1) (step :: rest) group ↔
      step = .removeLog group ∨ step = .removeDir group ∨ Dropped stop done rest group := by
  simp only [Dropped, List.take_succ_cons, List.mem_cons, List.getElem?_cons_succ,
    @eq_comm _ (FileStep.removeLog group), @eq_comm _ (FileStep.removeDir group) step]
  tauto

variable {topic : Bytes}

/-- The log of a group is as it was before, and a dropped one is gone or rewritten without
the topic. -/
def LogLeft (topic : Bytes) (groups : List (Bytes × GroupOffsets)) (group : Bytes)
    (dropped : Prop) (before log : Bytes) : Prop :=
  (¬ dropped → log = before) ∧
    (dropped → log = [] ∨
      ∃ entry ∈ groups, entry.1 = group ∧ log = offsetLines (withoutTopic topic entry.2))

/-- The groups behind one that is rewritten. -/
theorem LogLeft.behind {groups : List (Bytes × GroupOffsets)} {group : Bytes} {dropped : Prop}
    {before between log : Bytes} {entry : Bytes × GroupOffsets}
    (h : LogLeft topic groups group dropped between log)
    (hbetween : between =
      if group = entry.1 then offsetLines (withoutTopic topic entry.2) else before) :
    LogLeft topic (entry :: groups) group (entry.1 = group ∨ dropped) before log := by
  obtain ⟨hkept, hdropped⟩ := h
  constructor
  · intro hnot
    rw [not_or] at hnot
    exact (hkept hnot.2).trans (hbetween.trans (if_neg (Ne.symm hnot.1)))
  · intro hgroup
    by_cases hlater : dropped
    · refine (hdropped hlater).imp_right ?_
      rintro ⟨other, hother, hsame⟩
      exact ⟨other, List.mem_cons_of_mem entry hother, hsame⟩
    · have hentry := hgroup.resolve_right hlater
      refine Or.inr ⟨entry, List.mem_cons_self, hentry, ?_⟩
      exact (hkept hlater).trans (hbetween.trans (if_pos hentry.symm))

section Groups

variable {stop : RemovalStop} {groups : List (Bytes × GroupOffsets)} {rest : List FileStep}
  {group : Bytes} {entry : Bytes × GroupOffsets}

/-- A group of which nothing is left. -/
theorem logLeft_removeDir
    (hrest : ∀ done dirs, LogLeft topic groups group (Dropped stop done rest group)
      (dirLog dirs group) (dirLog (runUntil stop done rest dirs) group))
    (hleft : (withoutTopic topic entry.2).entries = []) (done : ℕ)
    (dirs : SortedMap Bytes GroupDir) :
    LogLeft topic (entry :: groups) group (Dropped stop done (.removeDir entry.1 :: rest) group)
      (dirLog dirs group)
      (dirLog (runUntil stop done (.removeDir entry.1 :: rest) dirs) group) := by
  have hlines : offsetLines (withoutTopic topic entry.2) = [] := by
    rw [offsetLines, hleft]
    rfl
  cases done with
  | zero =>
      simp only [LogLeft, dropped_cons_zero, FileStep.removeDir.injEq, runUntil,
        FileStep.interrupted]
      cases hdir : dirs.find? entry.1 with
      | none =>
          refine ⟨fun _ ↦ rfl, fun hgone ↦ Or.inl ?_⟩
          rw [← hgone.1, dirLog, hdir]
          rfl
      | some dir =>
          simp only [dirLog_insert]
          by_cases hgroup : group = entry.1
          · rw [if_pos hgroup, hgroup, dirLog, hdir]
            cases hgone : stop.logGone with
            | false => simp
            | true => simp
          · rw [if_neg hgroup]
            exact ⟨fun _ ↦ rfl, fun hgone ↦ (hgroup hgone.1.symm).elim⟩
  | succ done =>
      have herased : dirLog (dirs.erase entry.1) group =
          if group = entry.1 then offsetLines (withoutTopic topic entry.2)
          else dirLog dirs group := by
        rw [dirLog, SortedMap.find?_erase, hlines]
        split_ifs <;> rfl
      simpa only [dropped_cons_succ, reduceCtorEq, FileStep.removeDir.injEq, false_or,
        runUntil, FileStep.apply] using (hrest done (dirs.erase entry.1)).behind herased

/-- A group whose log is written anew, removed and replaced. -/
theorem logLeft_rewrite
    (hrest : ∀ done dirs, LogLeft topic groups group (Dropped stop done rest group)
      (dirLog dirs group) (dirLog (runUntil stop done rest dirs) group))
    (done : ℕ) (dirs : SortedMap Bytes GroupDir) :
    let steps := .writeTmp entry.1 (offsetLines (withoutTopic topic entry.2)) ::
      .removeLog entry.1 :: .renameTmp entry.1 :: rest
    LogLeft topic (entry :: groups) group (Dropped stop done steps group) (dirLog dirs group)
      (dirLog (runUntil stop done steps dirs) group) := by
  intro steps
  set content := offsetLines (withoutTopic topic entry.2) with hcontent
  rcases done with _ | _ | _ | done
  · simp only [steps, LogLeft, dropped_cons_zero, reduceCtorEq, false_and, not_false_iff,
      true_implies, false_implies, and_true, runUntil, FileStep.interrupted]
    cases stop.cut with
    | none => rfl
    | some cut => exact dirLog_insert_tmp dirs entry.1 _ group
  · simp only [steps, LogLeft, dropped_cons_succ, dropped_cons_zero, reduceCtorEq, false_and,
      false_or, not_false_iff, true_implies, false_implies, and_true, runUntil,
      FileStep.interrupted]
    exact dirLog_insert_tmp dirs entry.1 _ group
  · simp only [steps, LogLeft, dropped_cons_succ, dropped_cons_zero, reduceCtorEq, false_and,
      false_or, or_false, FileStep.removeLog.injEq, runUntil, FileStep.interrupted,
      FileStep.apply, dirLog_insert, SortedMap.find?_insert_self, Option.getD_some]
    by_cases hgroup : group = entry.1
    · simp [hgroup]
    · simp [hgroup, Ne.symm hgroup]
  · have hwritten : dirLog ([FileStep.writeTmp entry.1 content, .removeLog entry.1,
        .renameTmp entry.1].foldl FileStep.apply dirs) group =
          if group = entry.1 then content else dirLog dirs group := by
      simp only [List.foldl_cons, List.foldl_nil, FileStep.apply, dirLog_insert,
        SortedMap.find?_insert_self, Option.getD_some]
      split_ifs <;> rfl
    simpa only [steps, dropped_cons_succ, reduceCtorEq, FileStep.removeLog.injEq, false_or,
      runUntil, List.foldl_cons, List.foldl_nil] using (hrest done _).behind hwritten

end Groups

/-- The log of every group after a removal that ends early. -/
theorem dirLog_runUntil (stop : RemovalStop) (groups : List (Bytes × GroupOffsets))
    (group : Bytes) :
    ∀ done dirs,
      let steps := groups.flatMap fun entry ↦ rewriteGroup entry.1 (withoutTopic topic entry.2)
      LogLeft topic groups group (Dropped stop done steps group) (dirLog dirs group)
        (dirLog (runUntil stop done steps dirs) group) := by
  induction groups with
  | nil =>
      intro done dirs
      simp only [List.flatMap_nil, runUntil_nil]
      exact ⟨fun _ ↦ rfl, fun h ↦ (not_dropped_nil stop done group h).elim⟩
  | cons entry groups ih =>
      intro done dirs
      simp only [List.flatMap_cons]
      by_cases hleft : (withoutTopic topic entry.2).entries = []
      · rw [rewriteGroup, if_pos hleft, List.singleton_append]
        exact logLeft_removeDir ih hleft done dirs
      · rw [rewriteGroup, if_neg hleft]
        exact logLeft_rewrite ih done dirs

/-- No offset of the topic is left, in memory or for the next start. -/
def Gone (store : OffsetStore) (topic : Bytes) : Prop :=
  ∀ group partition, store.committed group topic partition = none ∧
    (openStore store.dirs).committed group topic partition = none

theorem shownBy_nil (topic : Bytes) (partition : ℕ) : shownBy [] topic partition = none := rfl

/-- A failed removal leaves no offset of the topic exactly when every group whose log
shows one has lost that log. -/
theorem gone_failRemoval_iff {store : OffsetStore} (h : store.StorableOffsets) (topic : Bytes)
    (stop : RemovalStop) :
    (store.failRemoval topic stop).Gone topic ↔
      ∀ group partition, (openStore store.dirs).committed group topic partition ≠ none →
        Dropped stop stop.done (store.removeTopicSteps topic) group := by
  have hmemory : ∀ group partition,
      (store.failRemoval topic stop).committed group topic partition = none := by
    intro group partition
    rw [committed, failRemoval]
    cases hoffsets : (store.offsetsUntil topic stop).find? group with
    | none => rfl
    | some offsets =>
        obtain ⟨old, -, rfl⟩ := exists_of_offsetsUntil hoffsets
        rw [Option.bind_some, find?_withoutTopic_eq, if_pos rfl]
  have hlog := fun group ↦
    @dirLog_runUntil topic stop (store.touchedGroups topic) group stop.done store.dirs
  have hdisk : ∀ group partition, isValidGroupName group = true →
      (openStore (store.failRemoval topic stop).dirs).committed group topic partition =
        shownBy (dirLog (store.stoppedDirs topic stop) group) topic partition := fun group partition
      hgroup ↦ committed_openStore (store.failRemoval topic stop) hgroup topic partition
  constructor
  · intro hgone group partition hshown
    have hgroup : isValidGroupName group = true := by
      by_contra hgroup
      rw [Bool.not_eq_true] at hgroup
      exact hshown (committed_openStore_invalid store hgroup topic partition)
    by_contra hkept
    have hnone := (hgone group partition).2
    rw [hdisk group partition hgroup, stoppedDirs, removeTopicSteps,
      (hlog group).1 hkept] at hnone
    exact hshown ((committed_openStore store hgroup topic partition).trans hnone)
  · intro hdropped group partition
    refine ⟨hmemory group partition, ?_⟩
    by_cases hgroup : isValidGroupName group = true
    · rw [hdisk group partition hgroup]
      by_cases hgone : Dropped stop stop.done (store.removeTopicSteps topic) group
      · rcases (hlog group).2 hgone with hnil | ⟨entry, hentry, -, hlines⟩
        · rw [stoppedDirs, removeTopicSteps, hnil, shownBy_nil]
        · rw [stoppedDirs, removeTopicSteps, hlines, shownBy_offsetLines fun key value ↦
            storable_withoutTopic (h entry.1 entry.2 (touchedGroups_find hentry)),
            find?_withoutTopic_eq, if_pos rfl]
      · rw [stoppedDirs, removeTopicSteps, (hlog group).1 hgone]
        by_contra hshown
        refine hgone (hdropped group partition ?_)
        rw [committed_openStore store hgroup topic partition]
        exact hshown
    · rw [Bool.not_eq_true] at hgroup
      exact committed_openStore_invalid (store.failRemoval topic stop) hgroup topic partition

end OffsetStore

end BoltStream.Storage
