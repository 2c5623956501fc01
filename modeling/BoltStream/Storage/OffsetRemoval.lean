import BoltStream.Storage.OffsetCommits

/-!
# Removing a topic from the offset logs

`remove_topic` rewrites one group after another: it writes a temporary file,
removes the log and renames the temporary file.  A restart looks at the log
only, so the one moment at which a stop loses offsets of other topics lies
between the removal and the renaming.
-/

namespace BoltStream.Storage

open BoltStream.Lib BoltStream.Protocol

namespace OffsetStore

/-! ## Stores whose logs tell what is in memory -/

/-- The log of a group, as far as it is there. -/
def dirLog (dirs : SortedMap Bytes GroupDir) (group : Bytes) : Bytes :=
  ((dirs.find? group).bind GroupDir.log).getD []

/-- The offset a log gives a partition. -/
def shownBy (log topic : Bytes) (partition : ℕ) : Option ℕ :=
  (enterRecords (recoverContent log).1).find? (offsetKey topic partition)

structure Durable (store : OffsetStore) : Prop where
  lines : ∀ group, isValidGroupName group = true →
    ∃ records, Lines (store.logOf group) records
  shown : ∀ group topic partition, isValidGroupName group = true →
    shownBy (store.logOf group) topic partition = store.committed group topic partition
  group : ∀ group offsets, store.offsets.find? group = some offsets →
    isValidGroupName group = true
  storable : ∀ group offsets, store.offsets.find? group = some offsets →
    ∀ key value, offsets.find? key = some value →
      OffsetRecord.Storable ⟨(ofLex key).1, (ofLex key).2, value⟩

theorem storable_of_parseOffsetLine {line : Bytes} {record : OffsetRecord}
    (h : parseOffsetLine line = some record) : record.Storable := by
  rw [parseOffsetLine] at h
  split at h
  · next topic partitionText nextOffsetText crcText hsplit =>
      split_ifs at h with htopic
      obtain ⟨partition, hpartition, h⟩ := Option.bind_eq_some_iff.mp h
      split_ifs at h with hrange
      obtain ⟨nextOffset, hnext, h⟩ := Option.bind_eq_some_iff.mp h
      obtain ⟨crc, -, h⟩ := Option.bind_eq_some_iff.mp h
      split_ifs at h
      obtain rfl := Option.some.inj h
      refine ⟨by simpa using htopic, by simp only; omega, ?_⟩
      rw [parseDecimal] at hnext
      split_ifs at hnext with hvalue
      rw [← Option.some.inj hnext]
      exact hvalue.2.2
  · cases h

theorem Lines.storable {content : Bytes} {records : List OffsetRecord} (h : Lines content records) :
    ∀ record ∈ records, record.Storable := by
  induction h with
  | nil => simp
  | cons _ hparse _ ih =>
      intro record hrecord
      rcases List.mem_cons.mp hrecord with rfl | hrecord
      · exact storable_of_parseOffsetLine hparse
      · exact ih record hrecord

/-- Offsets come from records. -/
theorem exists_record_of_enterRecords {records : List OffsetRecord} {key : OffsetKey} {value : ℕ}
    (h : (enterRecords records).find? key = some value) :
    ∃ record ∈ records, offsetKey record.topic record.partition = key ∧
      record.nextOffset = value := by
  induction records using List.reverseRecOn with
  | nil => cases h
  | append_singleton records record ih =>
      rw [enterRecords_append, enterRecord, SortedMap.find?_insert] at h
      split_ifs at h with hkey
      · exact ⟨record, by simp, hkey.symm, Option.some.inj h⟩
      · obtain ⟨other, hother, hfound⟩ := ih h
        exact ⟨other, by simp [hother], hfound⟩

theorem storable_enterRecords {records : List OffsetRecord}
    (hstorable : ∀ record ∈ records, record.Storable) {key : OffsetKey} {value : ℕ}
    (h : (enterRecords records).find? key = some value) :
    OffsetRecord.Storable ⟨(ofLex key).1, (ofLex key).2, value⟩ := by
  obtain ⟨record, hrecord, rfl, rfl⟩ := exists_record_of_enterRecords h
  exact hstorable record hrecord

theorem shownBy_lines {content : Bytes} {records : List OffsetRecord} (h : Lines content records)
    (topic : Bytes) (partition : ℕ) :
    shownBy content topic partition =
      (enterRecords records).find? (offsetKey topic partition) := by
  rw [shownBy, h.recoverContent_self]

theorem durable_openStore (dirs : SortedMap Bytes GroupDir) : (openStore dirs).Durable := by
  have hfind : ∀ group offsets, (openStore dirs).offsets.find? group = some offsets →
      isValidGroupName group = true ∧
        ∃ content, offsets = enterRecords (recoverContent content).1 := by
    intro group offsets hoffsets
    rw [openStore, recover, SortedMap.find?_filterMapValues,
      SortedMap.find?_filterMapValues] at hoffsets
    obtain ⟨content, hcontent, hgroup⟩ := Option.bind_eq_some_iff.mp hoffsets
    obtain ⟨dir, -, hdir⟩ := Option.bind_eq_some_iff.mp hcontent
    rw [recoveredLog] at hdir
    split_ifs at hdir with hname
    rw [recoverGroup] at hgroup
    split_ifs at hgroup
    exact ⟨hname, content, (Option.some.inj hgroup).symm⟩
  refine ⟨fun group hgroup ↦ ⟨_, lines_logOf_openStore dirs hgroup⟩,
    fun group topic partition hgroup ↦ ?_,
    fun group offsets hoffsets ↦ (hfind group offsets hoffsets).1, ?_⟩
  · rw [shownBy_lines (lines_logOf_openStore dirs hgroup)]
    exact (committed_openStore { dirs := dirs } hgroup topic partition).symm
  · intro group offsets hoffsets key value hvalue
    obtain ⟨-, content, rfl⟩ := hfind group offsets hoffsets
    exact storable_enterRecords (Lines.storable (lines_recoverContent content)) hvalue

/-- What a restart of a durable store shows. -/
theorem Durable.committed_openStore {store : OffsetStore} (h : store.Durable)
    (group topic : Bytes) (partition : ℕ) :
    (openStore store.dirs).committed group topic partition =
      store.committed group topic partition := by
  by_cases hgroup : isValidGroupName group = true
  · rw [OffsetStore.committed_openStore _ hgroup]
    exact h.shown group topic partition hgroup
  · rw [committed_openStore_invalid _ (by simpa using hgroup), committed]
    cases hoffsets : store.offsets.find? group with
    | none => rfl
    | some offsets => exact (hgroup (h.group group offsets hoffsets)).elim

theorem Durable.commit {store : OffsetStore} (h : store.Durable) {group topic : Bytes}
    {partition nextOffset : ℕ} (hpartition : partition < 2 ^ 16) (hnext : nextOffset < 2 ^ 64)
    {store' : OffsetStore}
    (hcommit : store.commit group topic partition nextOffset none = (store', .ok ())) :
    store'.Durable := by
  rw [OffsetStore.commit] at hcommit
  split_ifs at hcommit with hgroup htopic
  · cases (Prod.mk.inj hcommit).2
  · cases (Prod.mk.inj hcommit).2
  rw [Bool.not_eq_false] at hgroup htopic
  obtain ⟨rfl, -⟩ := Prod.mk.inj hcommit
  set record : OffsetRecord := ⟨topic, partition, nextOffset⟩ with hrecord
  have hstorable : record.Storable := ⟨htopic, hpartition, hnext⟩
  have hlog : ∀ other, (logOf { store.setDir group
      { (store.dirs.find? group).getD {} with
        log := some ((((store.dirs.find? group).getD {}).log).getD [] ++
          writeOffsetRecord topic partition nextOffset) } with
      offsets := store.offsets.insert group
        (enterRecord ((store.offsets.find? group).getD ∅) record) } other) =
      if other = group then store.logOf group ++ record.line else store.logOf other := by
    intro other
    simp only [logOf, setDir, SortedMap.find?_insert]
    split_ifs with hother
    · cases store.dirs.find? group <;> rfl
    · rfl
  obtain ⟨records, hlines⟩ := h.lines group hgroup
  have hgrown := hlines.append (Lines.line hstorable)
  refine ⟨fun other hother ↦ ?_, fun other topic' partition' hother ↦ ?_,
    fun other offsets hoffsets ↦ ?_,
    fun other offsets hoffsets ↦ ?_⟩
  · rw [hlog]
    split_ifs
    · exact ⟨_, hgrown⟩
    · exact h.lines other hother
  · rw [hlog]
    simp only [committed, SortedMap.find?_insert]
    split_ifs with hsame
    · subst hsame
      rw [shownBy_lines hgrown, enterRecords_append, Option.bind_some, find?_enterRecord,
        find?_enterRecord, ← shownBy_lines hlines, h.shown _ _ _ hother, committed]
      cases store.offsets.find? other <;> rfl
    · exact h.shown other topic' partition' hother
  · simp only [SortedMap.find?_insert] at hoffsets
    split_ifs at hoffsets with hsame
    · rw [hsame, hgroup]
    · exact h.group other offsets hoffsets
  · simp only [SortedMap.find?_insert] at hoffsets
    split_ifs at hoffsets with hsame
    · obtain rfl := Option.some.inj hoffsets
      intro key value hvalue
      rw [enterRecord, SortedMap.find?_insert] at hvalue
      split_ifs at hvalue with hkey
      · rw [hkey, ← Option.some.inj hvalue]
        exact hstorable
      · cases hold : store.offsets.find? group with
        | none =>
            rw [hold] at hvalue
            cases hvalue
        | some old =>
            rw [hold] at hvalue
            exact h.storable group old hold key value hvalue
    · exact h.storable other offsets hoffsets

/-! ## Stopping inside `remove_topic` -/

/-- Where the process stops: after `done` file operations, in the next one.  If
that writes the temporary file, `cut` bytes are there (or not even the file); if
it removes a directory, some of its files are gone. -/
structure RemovalStop where
  done : ℕ
  cut : Option ℕ
  logGone : Bool
  tmpGone : Bool
  deriving DecidableEq, Repr

/-- An operation that does not come to its end. -/
def FileStep.interrupted (stop : RemovalStop) (dirs : SortedMap Bytes GroupDir) :
    FileStep → SortedMap Bytes GroupDir
  | .writeTmp group content =>
      match stop.cut with
      | none => dirs
      | some cut =>
          dirs.insert group { (dirs.find? group).getD {} with tmp := some (content.take cut) }
  | .removeLog _ => dirs
  | .renameTmp _ => dirs
  | .removeDir group =>
      match dirs.find? group with
      | none => dirs
      | some dir =>
          dirs.insert group
            { log := if stop.logGone then none else dir.log
              tmp := if stop.tmpGone then none else dir.tmp }

def runUntil (stop : RemovalStop) : ℕ → List FileStep → SortedMap Bytes GroupDir →
    SortedMap Bytes GroupDir
  | _, [], dirs => dirs
  | 0, step :: _, dirs => step.interrupted stop dirs
  | done + 1, step :: rest, dirs => runUntil stop done rest (step.apply dirs)

/-- The directories a stopped `remove_topic` leaves. -/
def stoppedDirs (store : OffsetStore) (topic : Bytes) (stop : RemovalStop) :
    SortedMap Bytes GroupDir :=
  runUntil stop stop.done (store.removeTopicSteps topic) store.dirs

/-- The last completed operation is the removal of a log. -/
def StopsBetween (done : ℕ) (steps : List FileStep) : Prop :=
  ∃ group, (steps.take done).getLast? = some (.removeLog group)

theorem runUntil_nil (stop : RemovalStop) (done : ℕ) (dirs : SortedMap Bytes GroupDir) :
    runUntil stop done [] dirs = dirs := by
  cases done <;> rfl

theorem not_stopsBetween_zero (steps : List FileStep) : ¬ StopsBetween 0 steps := by
  rintro ⟨group, hlast⟩
  simp at hlast

theorem stopsBetween_cons {step : FileStep} (hstep : ∀ group, step ≠ .removeLog group) (done : ℕ)
    (rest : List FileStep) : StopsBetween (done + 1) (step :: rest) ↔ StopsBetween done rest := by
  simp only [StopsBetween, List.take_succ_cons, List.getLast?_cons]
  cases (rest.take done).getLast? with
  | none => simp [hstep]
  | some last => simp

theorem stopsBetween_cons_cons (step step' : FileStep) (done : ℕ) (rest : List FileStep) :
    StopsBetween (done + 2) (step :: step' :: rest) ↔
      StopsBetween (done + 1) (step' :: rest) := by
  simp only [StopsBetween, List.take_succ_cons, List.getLast?_cons, Option.getD_some]

theorem dirLog_insert (dirs : SortedMap Bytes GroupDir) (group : Bytes) (dir : GroupDir)
    (other : Bytes) :
    dirLog (dirs.insert group dir) other =
      if other = group then dir.log.getD [] else dirLog dirs other := by
  rw [dirLog, SortedMap.find?_insert]
  split_ifs <;> rfl

theorem dirLog_insert_tmp (dirs : SortedMap Bytes GroupDir) (group : Bytes) (tmp : Option Bytes)
    (other : Bytes) :
    dirLog (dirs.insert group { (dirs.find? group).getD {} with tmp := tmp }) other =
      dirLog dirs other := by
  rw [dirLog_insert]
  split_ifs with hother
  · rw [hother, dirLog]
    cases dirs.find? group <;> rfl
  · rfl

theorem offsetLines_eq (offsets : GroupOffsets) :
    offsetLines offsets = (offsets.entries.map fun entry ↦
      (⟨(ofLex entry.1).1, (ofLex entry.1).2, entry.2⟩ : OffsetRecord)).flatMap
        OffsetRecord.line := by
  rw [offsetLines, List.flatMap_map]
  rfl

/-- The lines of a group's offsets show these offsets. -/
theorem shownBy_offsetLines {offsets : GroupOffsets}
    (hstorable : ∀ key value, offsets.find? key = some value →
      OffsetRecord.Storable ⟨(ofLex key).1, (ofLex key).2, value⟩) (topic : Bytes)
    (partition : ℕ) :
    shownBy (offsetLines offsets) topic partition =
      offsets.find? (offsetKey topic partition) := by
  have hlines : Lines (offsetLines offsets) (offsets.entries.map fun entry ↦
      (⟨(ofLex entry.1).1, (ofLex entry.1).2, entry.2⟩ : OffsetRecord)) := by
    rw [offsetLines_eq]
    refine Lines.flatMap_line fun record hrecord ↦ ?_
    obtain ⟨entry, hentry, rfl⟩ := List.mem_map.mp hrecord
    exact hstorable entry.1 entry.2 (SortedMap.find?_of_mem hentry)
  rw [shownBy_lines hlines, enterRecords, List.foldl_map]
  congr 1
  exact offsets.foldl_insert_entries

theorem find?_withoutTopic {topic topic' : Bytes} (h : topic' ≠ topic) (offsets : GroupOffsets)
    (partition : ℕ) :
    (withoutTopic topic offsets).find? (offsetKey topic' partition) =
      offsets.find? (offsetKey topic' partition) := by
  rw [withoutTopic, SortedMap.find?_filter]
  cases offsets.find? (offsetKey topic' partition) with
  | none => rfl
  | some value => simp [offsetKey, h]

theorem storable_withoutTopic {topic : Bytes} {offsets : GroupOffsets}
    (hstorable : ∀ key value, offsets.find? key = some value →
      OffsetRecord.Storable ⟨(ofLex key).1, (ofLex key).2, value⟩) {key : OffsetKey} {value : ℕ}
    (h : (withoutTopic topic offsets).find? key = some value) :
    OffsetRecord.Storable ⟨(ofLex key).1, (ofLex key).2, value⟩ := by
  rw [withoutTopic, SortedMap.find?_filter] at h
  exact hstorable key value (Option.eq_some_of_filter_eq_some h)

variable {store : OffsetStore} {topic : Bytes}

/-- Every log is the old one, or the one rewritten without the topic. -/
def KeepsOthers (store : OffsetStore) (topic : Bytes) (dirs : SortedMap Bytes GroupDir) : Prop :=
  ∀ group, dirLog dirs group = store.logOf group ∨
    ∃ offsets, store.offsets.find? group = some offsets ∧
      dirLog dirs group = offsetLines (withoutTopic topic offsets)

theorem KeepsOthers.of_dirLog {dirs dirs' : SortedMap Bytes GroupDir}
    (h : store.KeepsOthers topic dirs) (hlog : ∀ group, dirLog dirs' group = dirLog dirs group) :
    store.KeepsOthers topic dirs' := by
  intro group
  rw [hlog]
  exact h group

/-- Rewriting one group. -/
theorem KeepsOthers.rewritten {dirs dirs' : SortedMap Bytes GroupDir} {group : Bytes}
    {offsets : GroupOffsets} (h : store.KeepsOthers topic dirs)
    (hoffsets : store.offsets.find? group = some offsets)
    (hlog : ∀ other, dirLog dirs' other =
      if other = group then offsetLines (withoutTopic topic offsets) else dirLog dirs other) :
    store.KeepsOthers topic dirs' := by
  intro other
  rw [hlog]
  split_ifs with hother
  · exact Or.inr ⟨offsets, hother ▸ hoffsets, rfl⟩
  · exact h other

/-- A restart then shows the offsets of other topics as they were. -/
theorem KeepsOthers.committed_openStore (hdurable : store.Durable)
    {dirs : SortedMap Bytes GroupDir} (h : store.KeepsOthers topic dirs) (group : Bytes)
    {topic' : Bytes} (htopic : topic' ≠ topic) (partition : ℕ) :
    (openStore dirs).committed group topic' partition =
      store.committed group topic' partition := by
  rw [← hdurable.committed_openStore]
  by_cases hgroup : isValidGroupName group = true
  · have hshown := OffsetStore.committed_openStore { dirs := dirs } hgroup topic' partition
    change _ = shownBy (dirLog dirs group) topic' partition at hshown
    rw [hshown, hdurable.committed_openStore]
    rcases h group with hlog | ⟨offsets, hoffsets, hlog⟩
    · rw [hlog, hdurable.shown group topic' partition hgroup]
    · rw [hlog, shownBy_offsetLines fun key value ↦
        storable_withoutTopic (hdurable.storable group offsets hoffsets), find?_withoutTopic htopic,
        committed, hoffsets, Option.bind_some]
  · rw [Bool.not_eq_true] at hgroup
    rw [committed_openStore_invalid store hgroup]
    exact committed_openStore_invalid { dirs := dirs } hgroup topic' partition

/-- A stopped rewriting of some groups: unless it stops between removing a log
and renaming the new one, every log is whole; if it does stop there, the log of
a group with other offsets is missing. -/
theorem runUntil_rewrites (stop : RemovalStop) (groups : List (Bytes × GroupOffsets))
    (hgroups : ∀ entry ∈ groups, store.offsets.find? entry.1 = some entry.2) :
    ∀ done dirs, store.KeepsOthers topic dirs →
      let steps := groups.flatMap fun entry ↦ rewriteGroup entry.1 (withoutTopic topic entry.2)
      (¬ StopsBetween done steps → store.KeepsOthers topic (runUntil stop done steps dirs)) ∧
        (StopsBetween done steps → ∃ entry ∈ groups, (withoutTopic topic entry.2).entries ≠ [] ∧
          dirLog (runUntil stop done steps dirs) entry.1 = []) := by
  induction groups with
  | nil =>
      intro done dirs hdirs
      simp only [List.flatMap_nil, runUntil_nil]
      refine ⟨fun _ ↦ hdirs, ?_⟩
      rintro ⟨group, hlast⟩
      simp at hlast
  | cons entry groups ih =>
      intro done dirs hdirs
      have hentry := hgroups entry List.mem_cons_self
      have hrest := ih fun other hother ↦ hgroups other (List.mem_cons_of_mem entry hother)
      simp only [List.flatMap_cons]
      set rest := groups.flatMap fun entry ↦ rewriteGroup entry.1 (withoutTopic topic entry.2)
      -- The groups behind this one, once it is rewritten.
      have hnext : ∀ done dirs', store.KeepsOthers topic dirs' →
          (¬ StopsBetween done rest → store.KeepsOthers topic (runUntil stop done rest dirs')) ∧
            (StopsBetween done rest → ∃ other ∈ entry :: groups,
              (withoutTopic topic other.2).entries ≠ [] ∧
                dirLog (runUntil stop done rest dirs') other.1 = []) := by
        intro done dirs' hdirs'
        refine ⟨(hrest done dirs' hdirs').1, fun hstops ↦ ?_⟩
        obtain ⟨other, hother, hlost⟩ := (hrest done dirs' hdirs').2 hstops
        exact ⟨other, List.mem_cons_of_mem entry hother, hlost⟩
      by_cases hleft : (withoutTopic topic entry.2).entries = []
      · have hlines : offsetLines (withoutTopic topic entry.2) = [] := by
          rw [offsetLines, hleft]
          rfl
        rw [rewriteGroup, if_pos hleft, List.singleton_append]
        cases done with
        | zero =>
            refine ⟨fun _ ↦ ?_, fun hstops ↦ (not_stopsBetween_zero _ hstops).elim⟩
            rw [runUntil, FileStep.interrupted]
            cases hdir : dirs.find? entry.1 with
            | none => exact hdirs
            | some dir =>
                cases hgone : stop.logGone with
                | false =>
                    refine hdirs.of_dirLog fun other ↦ ?_
                    rw [dirLog_insert]
                    by_cases hother : other = entry.1
                    · rw [if_pos hother, hother, dirLog, hdir]
                      rfl
                    · rw [if_neg hother]
                | true =>
                    refine hdirs.rewritten hentry fun other ↦ ?_
                    rw [dirLog_insert, hlines]
                    rfl
        | succ done =>
            rw [stopsBetween_cons (by simp), runUntil]
            refine hnext done _ (hdirs.rewritten hentry fun other ↦ ?_)
            rw [FileStep.apply, dirLog, SortedMap.find?_erase, hlines]
            split_ifs <;> rfl
      · rw [rewriteGroup, if_neg hleft]
        simp only [List.cons_append, List.nil_append]
        set content := offsetLines (withoutTopic topic entry.2) with hcontent
        rcases done with _ | _ | _ | done
        · refine ⟨fun _ ↦ ?_, fun hstops ↦ (not_stopsBetween_zero _ hstops).elim⟩
          rw [runUntil, FileStep.interrupted]
          cases stop.cut with
          | none => exact hdirs
          | some cut => exact hdirs.of_dirLog (dirLog_insert_tmp dirs entry.1 _)
        · rw [stopsBetween_cons (by simp)]
          refine ⟨fun _ ↦ ?_, fun hstops ↦ (not_stopsBetween_zero _ hstops).elim⟩
          exact hdirs.of_dirLog (dirLog_insert_tmp dirs entry.1 _)
        · refine ⟨fun hstops ↦ (hstops ⟨entry.1, rfl⟩).elim, fun _ ↦
            ⟨entry, List.mem_cons_self, hleft, ?_⟩⟩
          simp only [runUntil, FileStep.interrupted, FileStep.apply, dirLog_insert, if_true]
          rfl
        · rw [stopsBetween_cons_cons, stopsBetween_cons_cons, stopsBetween_cons (by simp), runUntil,
            runUntil, runUntil]
          refine hnext done _ (hdirs.rewritten hentry fun other ↦ ?_)
          simp only [FileStep.apply, dirLog_insert, SortedMap.find?_insert_self, Option.getD_some]
          split_ifs <;> rfl

theorem touchedGroups_find {entry : Bytes × GroupOffsets} (h : entry ∈ store.touchedGroups topic) :
    store.offsets.find? entry.1 = some entry.2 :=
  SortedMap.find?_of_mem (List.mem_filter.mp h).1

theorem keepsOthers_start (store : OffsetStore) (topic : Bytes) :
    store.KeepsOthers topic store.dirs := fun _ ↦ Or.inl rfl

/-! ## The stores of a broker -/

/-- Stores a broker gets by opening, committing and removing topics, when no
call fails. -/
inductive Reached : OffsetStore → Prop
  | opened (dirs : SortedMap Bytes GroupDir) : Reached (openStore dirs)
  | committed {store store' : OffsetStore} {group topic : Bytes} {partition : UInt16}
      {nextOffset : UInt64} (h : Reached store)
      (hcommit : store.commit group topic partition.toNat nextOffset.toNat none =
        (store', .ok ())) : Reached store'
  | removed {store : OffsetStore} (h : Reached store) (topic : Bytes) :
      Reached (store.removeTopic topic).1

/-- The log of every group after some groups are rewritten. -/
theorem dirLog_rewrites (groups : List (Bytes × GroupOffsets))
    (hnodup : (groups.map Prod.fst).Nodup) :
    ∀ dirs group,
      let dirs' := (groups.flatMap fun entry ↦
        rewriteGroup entry.1 (withoutTopic topic entry.2)).foldl FileStep.apply dirs
      (∀ offsets, (group, offsets) ∈ groups →
        dirLog dirs' group = offsetLines (withoutTopic topic offsets)) ∧
      (group ∉ groups.map Prod.fst → dirLog dirs' group = dirLog dirs group) := by
  induction groups with
  | nil => exact fun _ _ ↦ ⟨fun _ h ↦ absurd h List.not_mem_nil, fun _ ↦ rfl⟩
  | cons entry groups ih =>
      intro dirs group
      obtain ⟨hentry, hrest⟩ := List.nodup_cons.mp hnodup
      have hblock : dirLog ((rewriteGroup entry.1 (withoutTopic topic entry.2)).foldl
          FileStep.apply dirs) group =
          if group = entry.1 then offsetLines (withoutTopic topic entry.2)
          else dirLog dirs group := by
        rw [rewriteGroup]
        split_ifs with hleft hgroup hgroup
        · simp only [List.foldl_cons, List.foldl_nil, FileStep.apply, dirLog,
            SortedMap.find?_erase, if_pos hgroup, offsetLines, hleft]
          rfl
        · simp only [List.foldl_cons, List.foldl_nil, FileStep.apply, dirLog,
            SortedMap.find?_erase, if_neg hgroup]
        · simp only [List.foldl_cons, List.foldl_nil, FileStep.apply, dirLog_insert,
            SortedMap.find?_insert_self, Option.getD_some, if_pos hgroup]
        · simp only [List.foldl_cons, List.foldl_nil, FileStep.apply, dirLog_insert,
            if_neg hgroup]
      obtain ⟨hrewritten, hkept⟩ := ih hrest ((rewriteGroup entry.1
        (withoutTopic topic entry.2)).foldl FileStep.apply dirs) group
      simp only [List.flatMap_cons, List.foldl_append]
      constructor
      · intro offsets hmem
        rcases List.mem_cons.mp hmem with rfl | hmem
        · rw [hkept hentry, hblock, if_pos rfl]
        · exact hrewritten offsets hmem
      · intro hnone
        rw [List.map_cons, List.mem_cons, not_or] at hnone
        rw [hkept hnone.2, hblock, if_neg hnone.1]

/-- A group without offsets for the topic keeps all it has. -/
theorem withoutTopic_eq_self {offsets : GroupOffsets}
    (h : ¬ (withoutTopic topic offsets).entries.length < offsets.entries.length) :
    withoutTopic topic offsets = offsets := by
  refine SortedMap.ext_entries (List.filter_sublist.eq_of_length_le ?_)
  exact not_lt.mp h

theorem find?_withoutTopic_eq (topic topic' : Bytes) (offsets : GroupOffsets) (partition : ℕ) :
    (withoutTopic topic offsets).find? (offsetKey topic' partition) =
      if topic' = topic then none else offsets.find? (offsetKey topic' partition) := by
  split_ifs with htopic
  · rw [withoutTopic, SortedMap.find?_filter]
    cases offsets.find? (offsetKey topic' partition) <;> simp [offsetKey, htopic]
  · exact find?_withoutTopic htopic offsets partition

/-- What is committed after a whole `remove_topic`. -/
theorem committed_removeTopic (store : OffsetStore) (topic group topic' : Bytes)
    (partition : ℕ) :
    (store.removeTopic topic).1.committed group topic' partition =
      if topic' = topic then none else store.committed group topic' partition := by
  simp only [committed, removeTopic, offsetsWithoutTopic, SortedMap.find?_filterMapValues]
  cases store.offsets.find? group with
  | none => simp
  | some offsets =>
      rw [Option.bind_some, Option.bind_some, ← find?_withoutTopic_eq]
      split_ifs with hempty
      · rw [Option.bind_none, SortedMap.find?, hempty.2]
        rfl
      · rw [Option.bind_some]

/-- The log of a group after a whole `remove_topic`. -/
theorem logOf_removeTopic (store : OffsetStore) (topic group : Bytes) :
    (store.removeTopic topic).1.logOf group = store.logOf group ∧
        (∀ offsets, store.offsets.find? group = some offsets →
          withoutTopic topic offsets = offsets) ∨
      ∃ offsets, store.offsets.find? group = some offsets ∧
        (store.removeTopic topic).1.logOf group = offsetLines (withoutTopic topic offsets) := by
  have hnodup : ((store.touchedGroups topic).map Prod.fst).Nodup := by
    have hsorted : ((store.touchedGroups topic).map Prod.fst).Pairwise (· < ·) :=
      List.pairwise_map.mpr (store.offsets.sorted.filter _)
    exact hsorted.imp fun hlt ↦ hlt.ne
  obtain ⟨hrewritten, hkept⟩ := dirLog_rewrites (store.touchedGroups topic) hnodup store.dirs group
  by_cases htouched : group ∈ (store.touchedGroups topic).map Prod.fst
  · obtain ⟨entry, hentry, rfl⟩ := List.mem_map.mp htouched
    exact Or.inr ⟨entry.2, touchedGroups_find hentry, hrewritten entry.2 hentry⟩
  · refine Or.inl ⟨hkept htouched, fun offsets hoffsets ↦ withoutTopic_eq_self fun hless ↦ ?_⟩
    refine htouched (List.mem_map.mpr ⟨(group, offsets), List.mem_filter.mpr ⟨?_, ?_⟩, rfl⟩)
    · exact SortedMap.mem_of_find? hoffsets
    · simpa using hless

theorem Durable.removeTopic (h : store.Durable) (topic : Bytes) :
    (store.removeTopic topic).1.Durable := by
  have hleft : ∀ group offsets, (store.removeTopic topic).1.offsets.find? group = some offsets →
      ∃ old, store.offsets.find? group = some old ∧ offsets = withoutTopic topic old := by
    intro group offsets hoffsets
    simp only [OffsetStore.removeTopic, offsetsWithoutTopic,
      SortedMap.find?_filterMapValues] at hoffsets
    obtain ⟨old, hold, hoffsets⟩ := Option.bind_eq_some_iff.mp hoffsets
    split_ifs at hoffsets
    exact ⟨old, hold, (Option.some.inj hoffsets).symm⟩
  refine ⟨fun group hgroup ↦ ?_, fun group topic' partition hgroup ↦ ?_,
    fun group offsets hoffsets ↦ ?_, fun group offsets hoffsets key value hvalue ↦ ?_⟩
  · rcases logOf_removeTopic store topic group with ⟨hlog, -⟩ | ⟨offsets, hoffsets, hlog⟩
    · rw [hlog]
      exact h.lines group hgroup
    · rw [hlog, offsetLines_eq]
      refine ⟨_, Lines.flatMap_line fun record hrecord ↦ ?_⟩
      obtain ⟨entry, hentry, rfl⟩ := List.mem_map.mp hrecord
      exact storable_withoutTopic (h.storable group offsets hoffsets)
        (SortedMap.find?_of_mem hentry)
  · rw [committed_removeTopic]
    rcases logOf_removeTopic store topic group with ⟨hlog, hsame⟩ | ⟨offsets, hoffsets, hlog⟩
    · rw [hlog, h.shown group topic' partition hgroup, committed]
      cases hoffsets : store.offsets.find? group with
      | none => simp
      | some offsets =>
          have hleft := find?_withoutTopic_eq topic topic' offsets partition
          rw [hsame offsets hoffsets] at hleft
          exact hleft
    · rw [hlog, shownBy_offsetLines fun _ _ ↦
        storable_withoutTopic (h.storable group offsets hoffsets), find?_withoutTopic_eq, committed,
        hoffsets, Option.bind_some]
  · obtain ⟨old, hold, -⟩ := hleft group offsets hoffsets
    exact h.group group old hold
  · obtain ⟨old, hold, rfl⟩ := hleft group offsets hoffsets
    exact storable_withoutTopic (h.storable group old hold) hvalue

theorem Reached.durable (h : store.Reached) : store.Durable := by
  induction h with
  | opened dirs => exact durable_openStore dirs
  | @committed _ _ _ _ partition nextOffset _ hcommit ih =>
      exact ih.commit partition.toNat_lt nextOffset.toNat_lt hcommit
  | removed _ topic ih => exact ih.removeTopic topic

/-- A restart after a stop inside `remove_topic` shows the offsets of the other
topics as they were, unless the stop lies between the removal of a log and the
renaming of the new one. -/
theorem removeTopic_keepsOthers_iff (h : store.Reached) (topic : Bytes) (stop : RemovalStop) :
    (∀ group topic' partition, topic' ≠ topic →
      (openStore (store.stoppedDirs topic stop)).committed group topic' partition =
        store.committed group topic' partition) ↔
      ¬ StopsBetween stop.done (store.removeTopicSteps topic) := by
  have hdurable := h.durable
  obtain ⟨hkeeps, hloses⟩ := runUntil_rewrites stop (store.touchedGroups topic)
    (fun _ ↦ touchedGroups_find) stop.done store.dirs (keepsOthers_start store topic)
  constructor
  · intro hsame hstops
    obtain ⟨entry, hentry, hleft, hlog⟩ := hloses hstops
    have hoffsets := touchedGroups_find hentry
    have hgroup := hdurable.group entry.1 entry.2 hoffsets
    -- Some offset of another topic is left in memory, and nothing on disk.
    obtain ⟨offset, hoffset⟩ := List.exists_mem_of_ne_nil _ hleft
    obtain ⟨hmem, hother⟩ := List.mem_filter.mp hoffset
    have hshown := hsame entry.1 (ofLex offset.1).1 (ofLex offset.1).2 (by simpa using hother)
    have hnone : (openStore (store.stoppedDirs topic stop)).committed entry.1 (ofLex offset.1).1
        (ofLex offset.1).2 = none := by
      have hlost := committed_openStore { dirs := store.stoppedDirs topic stop } hgroup
        (ofLex offset.1).1 (ofLex offset.1).2
      refine hlost.trans ?_
      change shownBy (dirLog (store.stoppedDirs topic stop) entry.1) _ _ = none
      rw [stoppedDirs, removeTopicSteps, hlog]
      rfl
    rw [hnone, committed, hoffsets, Option.bind_some] at hshown
    have hfound : entry.2.find? (offsetKey (ofLex offset.1).1 (ofLex offset.1).2) =
        some offset.2 := SortedMap.find?_of_mem hmem
    rw [hfound] at hshown
    cases hshown
  · intro hstops group topic' partition htopic
    exact (hkeeps hstops).committed_openStore hdurable group htopic partition

theorem Reached.commit (h : store.Reached) {group topic : Bytes}
    (hgroup : isValidGroupName group = true) (htopic : isValidTopicName topic = true)
    (partition : UInt16) (nextOffset : UInt64) :
    Reached (store.commit group topic partition.toNat nextOffset.toNat none).1 := by
  refine Reached.committed h (Prod.ext rfl ?_)
  rw [OffsetStore.commit, if_neg (by simp [hgroup]), if_neg (by simp [htopic])]

/-- A small store: two groups of one topic, and a second topic in one of them. -/
def smallOffsetStore : OffsetStore :=
  ((((openStore ∅).commit [103] [116] 0 5 none).1.commit [103] [117] 1 7 none).1.commit
    [104] [116] 0 9 none).1

theorem reached_smallOffsetStore : smallOffsetStore.Reached := by
  have hfirst := (Reached.opened ∅).commit (by decide : isValidGroupName [103] = true)
    (by decide : isValidTopicName [116] = true) 0 5
  have hsecond := hfirst.commit (by decide : isValidGroupName [103] = true)
    (by decide : isValidTopicName [117] = true) 1 7
  exact hsecond.commit (by decide : isValidGroupName [104] = true)
    (by decide : isValidTopicName [116] = true) 0 9

/-- A stop while the temporary file is being written. -/
theorem removeTopic_keepsOthers_torn :
    (openStore (smallOffsetStore.stoppedDirs [116] ⟨0, some 3, false, false⟩)).committed [103] [117]
        1 = smallOffsetStore.committed [103] [117] 1 :=
  (removeTopic_keepsOthers_iff reached_smallOffsetStore [116] ⟨0, some 3, false, false⟩).mpr
    (not_stopsBetween_zero _) [103] [117] 1 (by decide)

/-- A stop between the removal of the log and the renaming loses the offset of
another topic. -/
theorem removeTopic_loses_otherTopic :
    ¬ ∀ (store : OffsetStore) (topic : Bytes) (stop : RemovalStop), store.Reached →
      ∀ group topic' partition, topic' ≠ topic →
        (openStore (store.stoppedDirs topic stop)).committed group topic' partition =
          store.committed group topic' partition := by
  intro h
  exact absurd (h smallOffsetStore [116] ⟨2, none, false, false⟩ reached_smallOffsetStore
    [103] [117] 1
    (by decide)) (by decide +kernel)

end OffsetStore

end BoltStream.Storage
