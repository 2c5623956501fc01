import BoltStream.Lib.Runs
import BoltStream.Storage.OffsetRecovery

/-!
# Replaying the offset logs

A store that starts on an empty directory and never fails keeps a log for the
groups with offsets and no directory for the others.  Each log is made of lines
whose records, entered in order, give the group's offsets; so a restart finds
the offsets that are in memory and has nothing to cut off.
-/

namespace BoltStream.Storage

open BoltStream.Lib BoltStream.Protocol

namespace OffsetStore

inductive StoreOp where
  | commit (group topic : Bytes) (partition : UInt16) (nextOffset : UInt64)
  | removeTopic (topic : Bytes)
  /-- The store is closed and opened again. -/
  | reopen
  deriving DecidableEq

/-- A call that returns. -/
def storeStep (store : OffsetStore) : StoreOp → Option OffsetStore
  | .commit group topic partition nextOffset =>
      let done := store.commit group topic partition.toNat nextOffset.toNat none
      if done.2.isOk then some done.1 else none
  | .removeTopic topic => some (store.removeTopic topic).1
  | .reopen => some (openStore store.dirs)

/-- The last value committed for a partition after the last removal of its topic,
given the one before the calls. -/
def lastCommitted (group topic : Bytes) (partition : ℕ) : Option ℕ → List StoreOp → Option ℕ
  | last, [] => last
  | last, .commit group' topic' partition' nextOffset :: ops =>
      lastCommitted group topic partition
        (if group = group' ∧ topic = topic' ∧ partition = partition'.toNat then
          some nextOffset.toNat
        else last) ops
  | last, .removeTopic topic' :: ops =>
      lastCommitted group topic partition (if topic = topic' then none else last) ops
  | last, .reopen :: ops => lastCommitted group topic partition last ops

/-! ## The invariant -/

/-- What a group has in memory is what its log says; a group without offsets has no
directory. -/
inductive Replays (group : Bytes) : Option GroupDir → Option GroupOffsets → Prop
  | absent : Replays group none none
  | logged {content : Bytes} {records : List OffsetRecord}
      (hgroup : isValidGroupName group = true) (hlines : Lines content records)
      (hsome : records ≠ []) :
      Replays group (some { log := some content }) (some (enterRecords records))

def Replayed (store : OffsetStore) : Prop :=
  ∀ group, Replays group (store.dirs.find? group) (store.offsets.find? group)

theorem replayed_empty : (openStore ∅).Replayed := fun _ ↦ .absent

/-- The log of a replayed group is read and ends with a line. -/
theorem Replays.settled {group : Bytes} {dir : Option GroupDir} {offsets : Option GroupOffsets}
    (h : Replays group dir offsets) :
    (∀ content, dir.bind (recoveredLog group) = some content →
        ∃ records, Lines content records) ∧
      offsets = (dir.bind (recoveredLog group)).bind recoverGroup := by
  cases h with
  | absent =>
      refine ⟨fun content hnone ↦ ?_, rfl⟩
      cases hnone
  | @logged content records hgroup hlines hsome =>
      have hlog : recoveredLog group { log := some content } = some content := if_pos hgroup
      rw [Option.bind_some, hlog, Option.bind_some, recoverGroup, hlines.recoverContent_self]
      refine ⟨fun other hother ↦ ?_, (if_neg hsome).symm⟩
      obtain rfl := Option.some.inj hother
      exact ⟨records, hlines⟩

theorem Replayed.settled {store : OffsetStore} (h : store.Replayed) : store.Settled :=
  ⟨fun group ↦ (h group).settled.1, fun group ↦ (h group).settled.2⟩

/-! ## The calls -/

theorem Replays.commit {group : Bytes} {dir : Option GroupDir} {offsets : Option GroupOffsets}
    (h : Replays group dir offsets) (hgroup : isValidGroupName group = true)
    {record : OffsetRecord} (hrecord : record.Storable) :
    Replays group
      (some { dir.getD {} with log := some ((dir.getD {}).log.getD [] ++ record.line) })
      (some (enterRecord (offsets.getD ∅) record)) := by
  cases h with
  | absent =>
      exact Replays.logged hgroup (Lines.line hrecord) (List.cons_ne_nil _ _)
  | @logged content records _ hlines hsome =>
      have hlogged := Replays.logged hgroup (hlines.append (Lines.line hrecord)) (by simp)
      rw [enterRecords_append] at hlogged
      exact hlogged

theorem Replayed.commit {store store' : OffsetStore} (h : store.Replayed) {group topic : Bytes}
    {partition nextOffset : ℕ} (hpartition : partition < 2 ^ 16) (hnext : nextOffset < 2 ^ 64)
    (hcommit : store.commit group topic partition nextOffset none = (store', .ok ())) :
    store'.Replayed := by
  rw [OffsetStore.commit] at hcommit
  split_ifs at hcommit with hgroup htopic
  · cases (Prod.mk.inj hcommit).2
  · cases (Prod.mk.inj hcommit).2
  rw [Bool.not_eq_false] at hgroup htopic
  obtain ⟨rfl, -⟩ := Prod.mk.inj hcommit
  have hrecord : OffsetRecord.Storable ⟨topic, partition, nextOffset⟩ :=
    ⟨htopic, hpartition, hnext⟩
  intro other
  simp only [setDir, SortedMap.find?_insert]
  by_cases hother : other = group
  · rw [if_pos hother, if_pos hother, hother]
    exact (h group).commit hgroup hrecord
  · rw [if_neg hother, if_neg hother]
    exact h other

/-! ## Rewriting -/

theorem Replays.storable {group : Bytes} {dir : Option GroupDir} {offsets : GroupOffsets}
    (h : Replays group dir (some offsets)) :
    isValidGroupName group = true ∧ ∀ key value, offsets.find? key = some value →
      OffsetRecord.Storable ⟨(ofLex key).1, (ofLex key).2, value⟩ := by
  cases h with
  | logged hgroup hlines _ =>
      exact ⟨hgroup, fun key value hvalue ↦ storable_enterRecords (Lines.storable hlines) hvalue⟩

theorem find?_rewriteGroup (group : Bytes) (offsets : GroupOffsets)
    (dirs : SortedMap Bytes GroupDir) (other : Bytes) :
    ((rewriteGroup group offsets).foldl FileStep.apply dirs).find? other =
      if other = group then
        if offsets.entries = [] then none else some { log := some (offsetLines offsets) }
      else dirs.find? other := by
  rw [rewriteGroup]
  by_cases hleft : offsets.entries = []
  · rw [if_pos hleft, if_pos hleft]
    by_cases hother : other = group
    · simp [FileStep.apply, SortedMap.find?_erase, hother]
    · simp [FileStep.apply, SortedMap.find?_erase, hother]
  · rw [if_neg hleft, if_neg hleft]
    by_cases hother : other = group
    · simp [FileStep.apply, hother]
    · simp [FileStep.apply, SortedMap.find?_insert, hother]

/-- The directories after some groups are rewritten. -/
theorem find?_rewrites (left : GroupOffsets → GroupOffsets)
    (groups : List (Bytes × GroupOffsets)) (hnodup : (groups.map Prod.fst).Nodup)
    (dirs : SortedMap Bytes GroupDir) (group : Bytes) :
    let dirs' := (groups.flatMap fun entry ↦
      rewriteGroup entry.1 (left entry.2)).foldl FileStep.apply dirs
    (∀ offsets, (group, offsets) ∈ groups → dirs'.find? group =
      if (left offsets).entries = [] then none
      else some { log := some (offsetLines (left offsets)) }) ∧
    (group ∉ groups.map Prod.fst → dirs'.find? group = dirs.find? group) := by
  induction groups generalizing dirs with
  | nil => exact ⟨fun _ h ↦ absurd h List.not_mem_nil, fun _ ↦ rfl⟩
  | cons entry groups ih =>
      obtain ⟨hentry, hrest⟩ := List.nodup_cons.mp hnodup
      obtain ⟨hrewritten, hkept⟩ := ih hrest ((rewriteGroup entry.1 (left entry.2)).foldl
        FileStep.apply dirs)
      simp only [List.flatMap_cons, List.foldl_append]
      constructor
      · intro offsets hmem
        rcases List.mem_cons.mp hmem with rfl | hmem
        · rw [hkept hentry, find?_rewriteGroup, if_pos rfl]
        · exact hrewritten offsets hmem
      · intro hnone
        rw [List.map_cons, List.mem_cons, not_or] at hnone
        rw [hkept hnone.2, find?_rewriteGroup, if_neg hnone.1]

/-- The records that `rewrite_group` writes. -/
theorem replays_rewritten {group : Bytes} {offsets : GroupOffsets}
    (hgroup : isValidGroupName group = true)
    (hstorable : ∀ key value, offsets.find? key = some value →
      OffsetRecord.Storable ⟨(ofLex key).1, (ofLex key).2, value⟩)
    (hleft : offsets.entries ≠ []) :
    Replays group (some { log := some (offsetLines offsets) }) (some offsets) := by
  set records := offsets.entries.map fun entry ↦
    (⟨(ofLex entry.1).1, (ofLex entry.1).2, entry.2⟩ : OffsetRecord) with hrecords
  have hlines : Lines (offsetLines offsets) records := by
    rw [offsetLines_eq]
    apply Lines.flatMap_line
    intro record hrecord
    obtain ⟨entry, hentry, rfl⟩ := List.mem_map.mp hrecord
    exact hstorable entry.1 entry.2 (SortedMap.find?_of_mem hentry)
  have hentered : enterRecords records = offsets := by
    rw [enterRecords, hrecords, List.foldl_map]
    exact offsets.foldl_insert_entries
  have hlogged := Replays.logged hgroup hlines (by simpa [hrecords] using hleft)
  rw [hentered] at hlogged
  exact hlogged

theorem Replayed.removeTopic {store : OffsetStore} (h : store.Replayed) (topic : Bytes) :
    (store.removeTopic topic).1.Replayed := by
  have hnodup : ((store.touchedGroups topic).map Prod.fst).Nodup := by
    have hsorted : ((store.touchedGroups topic).map Prod.fst).Pairwise (· < ·) :=
      List.pairwise_map.mpr (store.offsets.sorted.filter _)
    exact hsorted.imp fun hlt ↦ hlt.ne
  intro group
  obtain ⟨hrewritten, hkept⟩ := find?_rewrites (withoutTopic topic) (store.touchedGroups topic)
    hnodup store.dirs group
  have hdirs : (store.removeTopic topic).1.dirs.find? group =
      ((store.removeTopicSteps topic).foldl FileStep.apply store.dirs).find? group := rfl
  have hoffsets : (store.removeTopic topic).1.offsets.find? group =
      (store.offsetsWithoutTopic topic).find? group := rfl
  rw [hdirs, hoffsets, offsetsWithoutTopic, SortedMap.find?_filterMapValues, removeTopicSteps]
  have hold := h group
  cases hfound : store.offsets.find? group with
  | none =>
      have huntouched : group ∉ (store.touchedGroups topic).map Prod.fst := by
        intro htouched
        obtain ⟨entry, hentry, rfl⟩ := List.mem_map.mp htouched
        rw [touchedGroups_find hentry] at hfound
        cases hfound
      rw [hkept huntouched, Option.bind_none, ← hfound]
      exact hold
  | some offsets =>
      rw [hfound] at hold
      obtain ⟨hgroup, hstorable⟩ := hold.storable
      rw [Option.bind_some]
      by_cases hless : (withoutTopic topic offsets).entries.length < offsets.entries.length
      · have hmem : (group, offsets) ∈ store.touchedGroups topic :=
          List.mem_filter.mpr ⟨SortedMap.mem_of_find? hfound, by simpa using hless⟩
        rw [hrewritten offsets hmem]
        by_cases hleft : (withoutTopic topic offsets).entries = []
        · rw [if_pos hleft, if_pos ⟨hless, hleft⟩]
          exact .absent
        · rw [if_neg hleft, if_neg fun hempty ↦ hleft hempty.2]
          exact replays_rewritten hgroup (fun _ _ ↦ storable_withoutTopic hstorable) hleft
      · have huntouched : group ∉ (store.touchedGroups topic).map Prod.fst := by
          intro htouched
          obtain ⟨entry, hentry, rfl⟩ := List.mem_map.mp htouched
          obtain rfl := Option.some.inj (hfound.symm.trans (touchedGroups_find hentry))
          exact hless (by simpa using (List.mem_filter.mp hentry).2)
        rw [hkept huntouched, if_neg fun hempty ↦ hless hempty.1, withoutTopic_eq_self hless]
        exact hold

/-- A directory is there for the groups with offsets. -/
theorem Replays.dir_eq_none {group : Bytes} {dir : Option GroupDir}
    {offsets : Option GroupOffsets} (h : Replays group dir offsets) :
    dir = none ↔ ∀ topic partition,
      (offsets.bind fun offsets ↦ offsets.find? (offsetKey topic partition)) = none := by
  cases h with
  | absent => exact ⟨fun _ _ _ ↦ rfl, fun _ ↦ rfl⟩
  | @logged content records hgroup hlines hsome =>
      refine ⟨fun hnone ↦ (Option.some_ne_none _ hnone).elim, fun hempty ↦ ?_⟩
      -- The last record of the log is entered.
      obtain ⟨before, last, rfl⟩ := (List.eq_nil_or_concat records).resolve_left hsome
      have hlast := hempty last.topic last.partition
      rw [Option.bind_some, List.concat_eq_append, enterRecords_append, enterRecord,
        SortedMap.find?_insert_self] at hlast
      cases hlast

/-! ## Runs -/

theorem storeStep_commit {store store' : OffsetStore} {group topic : Bytes} {partition : UInt16}
    {nextOffset : UInt64} (h : storeStep store (.commit group topic partition nextOffset) =
      some store') :
    store.commit group topic partition.toNat nextOffset.toNat none = (store', .ok ()) := by
  simp only [storeStep] at h
  split_ifs at h with hok
  obtain rfl := Option.some.inj h
  cases hdone : store.commit group topic partition.toNat nextOffset.toNat none with
  | mk done result =>
      rw [hdone] at hok
      cases result with
      | error message => cases hok
      | ok _ => rfl

theorem Replayed.storeStep {store store' : OffsetStore} (h : store.Replayed) {op : StoreOp}
    (hstep : storeStep store op = some store') : store'.Replayed := by
  cases op with
  | commit group topic partition nextOffset =>
      exact h.commit partition.toNat_lt nextOffset.toNat_lt (storeStep_commit hstep)
  | removeTopic topic =>
      obtain rfl := Option.some.inj hstep
      exact h.removeTopic topic
  | reopen =>
      obtain rfl := Option.some.inj hstep
      intro group
      rw [h.settled.dirs_openStore, h.settled.offsets_openStore]
      exact h group

theorem Replayed.run {store store' : OffsetStore} (h : store.Replayed) {ops : List StoreOp}
    (hrun : run OffsetStore.storeStep store ops = some store') : store'.Replayed :=
  run_invariant (fun _ _ ↦ True) Replayed (fun _ _ _ _ hstep hreplayed ↦ hreplayed.storeStep hstep)
    (along_of_forall (fun _ _ _ ↦ trivial) store) hrun h

/-- The live object holds the last commits. -/
theorem committed_run {store store' : OffsetStore} (h : store.Replayed) {ops : List StoreOp}
    (hrun : run storeStep store ops = some store') (group topic : Bytes) (partition : ℕ) :
    store'.committed group topic partition =
      lastCommitted group topic partition (store.committed group topic partition) ops := by
  induction ops generalizing store with
  | nil =>
      obtain rfl := Option.some.inj hrun
      rfl
  | cons op ops ih =>
      obtain ⟨next, hstep, hrest⟩ := run_cons hrun
      rw [ih (h.storeStep hstep) hrest]
      cases op with
      | commit group' topic' partition' nextOffset =>
          have hcommit := storeStep_commit hstep
          have hnext := committed_commit_ok (congrArg Prod.snd hcommit) group topic partition
          rw [hcommit] at hnext
          rw [lastCommitted, hnext]
      | removeTopic topic' =>
          obtain rfl := Option.some.inj hstep
          rw [lastCommitted, committed_removeTopic]
      | reopen =>
          obtain rfl := Option.some.inj hstep
          rw [lastCommitted, committed, h.settled.offsets_openStore]
          rfl

/-- After any calls that return, on a directory that was empty: opening the store gives
the offsets in memory, which are the last commits; it finds nothing to cut off; and
just the groups with offsets have a directory. -/
theorem offset_log_replays {ops : List StoreOp} {store : OffsetStore}
    (hrun : run storeStep (openStore ∅) ops = some store) :
    (openStore store.dirs).offsets = store.offsets ∧
      (∀ group topic partition, store.committed group topic partition =
        lastCommitted group topic partition none ops) ∧
      (openStore store.dirs).stats.bytesTruncated = 0 ∧
      (openStore store.dirs).dirs = store.dirs ∧
      ∀ group, store.dirs.find? group = none ↔
        ∀ topic partition, store.committed group topic partition = none := by
  have hreplayed := replayed_empty.run hrun
  refine ⟨hreplayed.settled.offsets_openStore, fun group topic partition ↦ ?_,
    hreplayed.settled.bytesTruncated_openStore, hreplayed.settled.dirs_openStore, fun group ↦ ?_⟩
  · exact committed_run replayed_empty hrun group topic partition
  · exact (hreplayed group).dir_eq_none

/-- Commits to two groups, a restart, and the removal of a topic that empties one of
them. -/
theorem offset_log_replays_twoGroups :
    ∃ store, run storeStep (openStore ∅)
        [.commit [103] [116] 0 5, .commit [104] [116] 1 7, .reopen, .commit [104] [117] 0 9,
          .removeTopic [116]] = some store ∧
      store.committed [104] [117] 0 = some 9 ∧ store.committed [103] [116] 0 = none ∧
      (openStore store.dirs).offsets = store.offsets ∧ store.dirs.find? [103] = none := by
  have hrun : (run storeStep (openStore ∅)
      [.commit [103] [116] 0 5, .commit [104] [116] 1 7, .reopen, .commit [104] [117] 0 9,
        .removeTopic [116]]).isSome = true := by decide
  obtain ⟨store, hstore⟩ := Option.isSome_iff_exists.mp hrun
  obtain ⟨hoffsets, hlast, -, -, hdirs⟩ := offset_log_replays hstore
  refine ⟨store, hstore, ?_, ?_, hoffsets, ?_⟩
  · rw [hlast]
    decide
  · rw [hlast]
    decide
  · rw [hdirs]
    intro topic partition
    rw [hlast]
    simp only [lastCommitted]
    split_ifs <;> simp_all

end OffsetStore

end BoltStream.Storage
