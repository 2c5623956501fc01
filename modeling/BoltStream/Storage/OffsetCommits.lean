import BoltStream.Lib.Runs
import BoltStream.Storage.OffsetLog

/-!
# Commits that fail

A commit that throws may leave the beginning of its line in the log.  The next
line is then written behind it, and a restart stops reading there.  As long as
every commit finds the log at a line end, a restart gives every commit that
returned its due.
-/

namespace BoltStream.Storage

open BoltStream.Lib BoltStream.Protocol

namespace OffsetStore

/-- What a restart finds for a partition. -/
theorem committed_recover (dirs : SortedMap Bytes GroupDir) (group topic : Bytes)
    (partition : ℕ) :
    (recover dirs).committed group topic partition =
      ((dirs.find? group).bind (recoveredLog group)).bind fun content ↦
        (enterRecords (recoverContent content).1).find? (offsetKey topic partition) := by
  rw [committed, recover]
  simp only [SortedMap.find?_filterMapValues]
  cases (dirs.find? group).bind (recoveredLog group) with
  | none => rfl
  | some content =>
      simp only [Option.bind_some, recoverGroup]
      split_ifs with hnone
      · rw [hnone]
        rfl
      · rfl

theorem enterRecords_append (records : List OffsetRecord) (record : OffsetRecord) :
    enterRecords (records ++ [record]) = enterRecord (enterRecords records) record := by
  rw [enterRecords, List.foldl_append]
  rfl

theorem find?_enterRecord (offsets : GroupOffsets) (record : OffsetRecord) (topic : Bytes)
    (partition : ℕ) :
    (enterRecord offsets record).find? (offsetKey topic partition) =
      if topic = record.topic ∧ partition = record.partition then some record.nextOffset
      else offsets.find? (offsetKey topic partition) := by
  rw [enterRecord, SortedMap.find?_insert]
  simp only [offsetKey, toLex_inj, Prod.mk.injEq]

/-- A commit that returns has set its own offset and nothing else. -/
theorem committed_commit_ok {store : OffsetStore} {group topic : Bytes}
    {partition nextOffset : ℕ} {fault : Option CommitFault}
    (h : (store.commit group topic partition nextOffset fault).2 = .ok ()) (group' topic' : Bytes)
    (partition' : ℕ) :
    (store.commit group topic partition nextOffset fault).1.committed group' topic' partition' =
      if group' = group ∧ topic' = topic ∧ partition' = partition then some nextOffset
      else store.committed group' topic' partition' := by
  unfold commit at h ⊢
  split_ifs at h ⊢ with hgroup htopic hkey
  all_goals
    cases fault with
    | some fault => cases fault <;> cases h
    | none => ?_
  all_goals simp only [committed, SortedMap.find?_insert]
  · obtain ⟨rfl, rfl, rfl⟩ := hkey
    rw [if_pos rfl, Option.bind_some, find?_enterRecord, if_pos ⟨rfl, rfl⟩]
  · split_ifs with hgroup'
    · subst hgroup'
      have hother : ¬ (topic' = topic ∧ partition' = partition) := fun hsame ↦ hkey ⟨rfl, hsame⟩
      rw [Option.bind_some, find?_enterRecord, if_neg hother]
      cases store.offsets.find? group' with
      | none => rfl
      | some offsets => rfl
    · rfl

/-- A commit that fails leaves the offsets in memory as they are. -/
theorem committed_commit_error {store : OffsetStore} {group topic : Bytes}
    {partition nextOffset : ℕ} {fault : Option CommitFault} {message : String}
    (h : (store.commit group topic partition nextOffset fault).2 = .error message) :
    (store.commit group topic partition nextOffset fault).1.offsets = store.offsets := by
  unfold commit at h ⊢
  split_ifs at h ⊢
  · rfl
  · rfl
  · cases fault with
    | none => cases h
    | some fault => cases fault <;> rfl

/-! ## Calls and what they promise -/

structure CommitCall where
  group : Bytes
  topic : Bytes
  partition : UInt16
  nextOffset : UInt64
  fault : Option CommitFault
  deriving DecidableEq, Repr

def commitCall (store : OffsetStore) (call : CommitCall) : OffsetStore × Except String Unit :=
  store.commit call.group call.topic call.partition.toNat call.nextOffset.toNat call.fault

def commitCalls (store : OffsetStore) (calls : List CommitCall) : OffsetStore :=
  calls.foldl (fun store call ↦ (store.commitCall call).1) store

/-- The call commits for this partition. -/
def CommitCall.For (call : CommitCall) (group topic : Bytes) (partition : ℕ) : Prop :=
  call.group = group ∧ call.topic = topic ∧ call.partition.toNat = partition

instance (call : CommitCall) (group topic : Bytes) (partition : ℕ) :
    Decidable (call.For group topic partition) :=
  inferInstanceAs (Decidable (_ ∧ _ ∧ _))

/-- The values a restart may show after one more call: a commit that returned
leaves only its own, one that threw adds its own. -/
def allowedStep (store : OffsetStore) (group topic : Bytes) (partition : ℕ)
    (values : List (Option ℕ)) (call : CommitCall) : List (Option ℕ) :=
  if call.For group topic partition then
    match (store.commitCall call).2 with
    | .ok () => [some call.nextOffset.toNat]
    | .error _ => some call.nextOffset.toNat :: values
  else values

/-- The value of the last commit that returned, or the value at the start when
none did, and those of the throwing commits behind it. -/
def allowedValues (group topic : Bytes) (partition : ℕ) :
    OffsetStore → List (Option ℕ) → List CommitCall → List (Option ℕ)
  | _, values, [] => values
  | store, values, call :: calls =>
      allowedValues group topic partition (store.commitCall call).1
        (store.allowedStep group topic partition values call) calls

/-- The log a commit appends to. -/
def logOf (store : OffsetStore) (group : Bytes) : Bytes :=
  ((store.dirs.find? group).bind GroupDir.log).getD []

/-- The log is empty or ends with a line end. -/
def AtLineEnd (store : OffsetStore) (group : Bytes) : Prop :=
  store.logOf group = [] ∨ (store.logOf group).getLast? = some 10

instance (store : OffsetStore) (group : Bytes) : Decidable (store.AtLineEnd group) :=
  inferInstanceAs (Decidable (_ ∨ _))

/-- Every commit of the run finds the log of its group at a line end. -/
def CommitsAtLineEnd (store : OffsetStore) (calls : List CommitCall) : Prop :=
  Along (fun store call ↦ some (store.commitCall call).1)
    (fun store call ↦ store.AtLineEnd call.group) store calls

/-! ## One call -/

/-- The log of a group is made of lines and the beginning of another, and the
lines give the partition one of the allowed values. -/
structure LogShows (store : OffsetStore) (group topic : Bytes) (partition : ℕ)
    (values : List (Option ℕ)) (content torn : Bytes) (records : List OffsetRecord) : Prop where
  log : store.logOf group = content ++ torn
  lines : Lines content records
  torn : 10 ∉ torn
  value : (enterRecords records).find? (offsetKey topic partition) ∈ values

theorem LogShows.torn_eq_nil {store : OffsetStore} {group topic : Bytes} {partition : ℕ}
    {values : List (Option ℕ)} {content torn : Bytes} {records : List OffsetRecord}
    (h : store.LogShows group topic partition values content torn records)
    (hend : store.AtLineEnd group) : torn = [] := by
  by_contra hne
  obtain ⟨front, last, rfl⟩ := List.eq_nil_or_concat torn |>.resolve_left hne
  rcases hend with hempty | hlast
  · rw [h.log] at hempty
    simp at hempty
  · rw [h.log] at hlast
    have hten : last = 10 := by simpa using hlast
    exact h.torn (by simp [hten])

/-- A group's log after a call. -/
theorem logOf_commitCall (store : OffsetStore) (call : CommitCall) (group : Bytes) :
    (∃ cut, ((store.commitCall call).1.logOf group =
        store.logOf group ++ (writeOffsetRecord call.topic call.partition.toNat
          call.nextOffset.toNat).take cut) ∧ call.group = group ∧
        isValidTopicName call.topic = true ∧
        ((store.commitCall call).2 = .ok () →
          (writeOffsetRecord call.topic call.partition.toNat call.nextOffset.toNat).length ≤ cut)) ∨
      ((store.commitCall call).1.logOf group = store.logOf group ∧
        (call.group = group → (store.commitCall call).2 ≠ .ok ())) := by
  obtain ⟨group', topic', partition', nextOffset', fault⟩ := call
  simp only [commitCall, commit]
  by_cases hgroup : isValidGroupName group' = false
  · right
    simp [hgroup]
  by_cases htopic : isValidTopicName topic' = false
  · right
    simp [hgroup, htopic]
  simp only [if_neg hgroup, if_neg htopic]
  by_cases hsame : group' = group
  · subst hsame
    cases fault with
    | none =>
        refine Or.inl ⟨(writeOffsetRecord topic' partition'.toNat nextOffset'.toNat).length, ?_,
          rfl, by simpa using htopic, fun _ ↦ le_rfl⟩
        rw [List.take_length]
        simp only [logOf, setDir, SortedMap.find?_insert_self]
        cases store.dirs.find? group' <;> rfl
    | some fault =>
        cases fault with
        | createDirectory reason => exact Or.inr ⟨rfl, by simp⟩
        | openLog =>
            refine Or.inr ⟨?_, by simp⟩
            simp only [logOf, setDir, SortedMap.find?_insert_self]
            cases store.dirs.find? group' <;> rfl
        | write cut =>
            refine Or.inl ⟨cut, ?_, rfl, by simpa using htopic, by simp⟩
            simp only [logOf, setDir, SortedMap.find?_insert_self]
            cases store.dirs.find? group' <;> rfl
  · right
    refine ⟨?_, fun h ↦ (hsame h).elim⟩
    have hother : ∀ dir, (store.setDir group' dir).logOf group = store.logOf group := by
      intro dir
      rw [logOf, setDir, SortedMap.find?_insert, if_neg (Ne.symm hsame)]
      rfl
    cases fault with
    | none => exact hother _
    | some fault =>
        cases fault with
        | createDirectory reason => rfl
        | openLog => exact hother _
        | write cut => exact hother _

/-- One call keeps the log in shape. -/
theorem LogShows.commitCall {store : OffsetStore} {group topic : Bytes} {partition : ℕ}
    {values : List (Option ℕ)} {content torn : Bytes} {records : List OffsetRecord}
    (h : store.LogShows group topic partition values content torn records) (call : CommitCall)
    (hend : store.AtLineEnd call.group) :
    ∃ content' torn' records', (store.commitCall call).1.LogShows group topic partition
      (store.allowedStep group topic partition values call) content' torn' records' := by
  -- A call that leaves no whole line keeps the values, or adds its own.
  have hkept : (call.group = group → (store.commitCall call).2 ≠ .ok ()) →
      ∀ value ∈ values, value ∈ store.allowedStep group topic partition values call := by
    intro hfails value hvalue
    rw [allowedStep]
    split_ifs with hfor
    · cases hresult : (store.commitCall call).2 with
      | ok _ => exact (hfails hfor.1 hresult).elim
      | error message => exact List.mem_cons_of_mem _ hvalue
    · exact hvalue
  rcases logOf_commitCall store call group with ⟨cut, hlog, rfl, htopic, hwhole⟩ | ⟨hlog, hfails⟩
  · obtain rfl := h.torn_eq_nil hend
    have hcontent : store.logOf call.group = content := by rw [h.log, List.append_nil]
    let record : OffsetRecord := ⟨call.topic, call.partition.toNat, call.nextOffset.toNat⟩
    have hstorable : record.Storable := ⟨htopic, call.partition.toNat_lt, call.nextOffset.toNat_lt⟩
    have hline : writeOffsetRecord call.topic call.partition.toNat call.nextOffset.toNat =
        record.text ++ [10] := record.line_eq
    by_cases hcut : (writeOffsetRecord call.topic call.partition.toNat
        call.nextOffset.toNat).length ≤ cut
    · refine ⟨content ++ record.line, [], records ++ [record], ?_,
        h.lines.append (Lines.line hstorable), by simp, ?_⟩
      · rw [hlog, hcontent, List.take_of_length_le hcut, List.append_nil]
        rfl
      · rw [enterRecords_append, find?_enterRecord, allowedStep]
        by_cases hfor : call.For call.group topic partition
        · have hkey : topic = record.topic ∧ partition = record.partition :=
            ⟨hfor.2.1.symm, hfor.2.2.symm⟩
          rw [if_pos hfor, if_pos hkey]
          cases (store.commitCall call).2 <;> simp [record]
        · have hkey : ¬(topic = record.topic ∧ partition = record.partition) := fun hkey ↦
            hfor ⟨rfl, hkey.1.symm, hkey.2.symm⟩
          rw [if_neg hfor, if_neg hkey]
          exact h.value
    · refine ⟨content, record.text.take cut, records, ?_, h.lines, ?_, ?_⟩
      · rw [hlog, hcontent, hline, List.take_append_of_le_length]
        rw [hline, List.length_append, List.length_singleton] at hcut
        omega
      · exact fun hmem ↦ OffsetRecord.not_mem_text hstorable (by decide) (by decide)
          (List.mem_of_mem_take hmem)
      · exact hkept (fun _ hok ↦ hcut (hwhole hok)) _ h.value
  · exact ⟨content, torn, records, hlog.trans h.log, h.lines, h.torn, hkept hfails _ h.value⟩

/-- What one call keeps, a run keeps. -/
theorem LogShows.commitCalls {group topic : Bytes} {partition : ℕ} {calls : List CommitCall} :
    ∀ {store : OffsetStore} {values : List (Option ℕ)} {content torn : Bytes}
      {records : List OffsetRecord},
      store.LogShows group topic partition values content torn records →
      store.CommitsAtLineEnd calls →
      ∃ content' torn' records', (store.commitCalls calls).LogShows group topic partition
        (allowedValues group topic partition store values calls) content' torn' records' := by
  induction calls with
  | nil => exact fun h _ ↦ ⟨_, _, _, h⟩
  | cons call calls ih =>
      intro store values content torn records h hends
      obtain ⟨content', torn', records', hcall⟩ := h.commitCall call hends.1
      exact ih hcall (hends.2 _ rfl)

/-- What a restart reads from a group's log. -/
theorem committed_openStore (store : OffsetStore) {group : Bytes}
    (hgroup : isValidGroupName group = true) (topic : Bytes) (partition : ℕ) :
    (openStore store.dirs).committed group topic partition =
      (enterRecords (recoverContent (store.logOf group)).1).find? (offsetKey topic partition) := by
  rw [openStore, committed_recover, logOf]
  cases store.dirs.find? group with
  | none => rfl
  | some dir =>
      rw [Option.bind_some, Option.bind_some, recoveredLog, if_pos hgroup]
      cases dir.log with
      | none => rfl
      | some log => rfl

/-- Groups with other names are never read. -/
theorem committed_openStore_invalid (store : OffsetStore) {group : Bytes}
    (hgroup : isValidGroupName group = false) (topic : Bytes) (partition : ℕ) :
    (openStore store.dirs).committed group topic partition = none := by
  rw [openStore, committed_recover]
  cases store.dirs.find? group with
  | none => rfl
  | some dir =>
      rw [Option.bind_some, recoveredLog, if_neg (by simp [hgroup])]
      rfl

/-- An opened store has no torn lines. -/
theorem lines_logOf_openStore (dirs : SortedMap Bytes GroupDir) {group : Bytes}
    (hgroup : isValidGroupName group = true) :
    Lines ((openStore dirs).logOf group)
      (recoverContent (((dirs.find? group).bind GroupDir.log).getD [])).1 := by
  rw [logOf, openStore, recover]
  simp only [SortedMap.find?_mapValues]
  cases dirs.find? group with
  | none => exact Lines.nil
  | some dir =>
      rw [Option.map_some, Option.bind_some, Option.bind_some, recoveredLog, if_pos hgroup]
      cases hlog : dir.log with
      | none =>
          simp only [hlog]
          exact Lines.nil
      | some log => exact lines_recoverContent log

/-- If every commit finds its log at a line end, a restart shows for every
partition the value of the last commit that returned, or that of a throwing
commit behind it. -/
theorem committed_after_failures (dirs : SortedMap Bytes GroupDir) (calls : List CommitCall)
    (hends : (openStore dirs).CommitsAtLineEnd calls) (group topic : Bytes) (partition : ℕ) :
    (openStore ((openStore dirs).commitCalls calls).dirs).committed group topic partition ∈
      allowedValues group topic partition (openStore dirs)
        [(openStore dirs).committed group topic partition] calls := by
  by_cases hgroup : isValidGroupName group = true
  · have hlines := lines_logOf_openStore dirs hgroup
    have hstart : (openStore dirs).LogShows group topic partition
        [(openStore dirs).committed group topic partition] ((openStore dirs).logOf group) []
        (recoverContent (logOf { dirs := dirs } group)).1 := by
      refine ⟨(List.append_nil _).symm, hlines, by simp, ?_⟩
      rw [List.mem_singleton, ← committed_openStore { dirs := dirs } hgroup]
    obtain ⟨content, torn, records, hend⟩ := hstart.commitCalls hends
    rw [committed_openStore _ hgroup, hend.log, hend.lines.recoverContent hend.torn]
    exact hend.value
  · rw [Bool.not_eq_true] at hgroup
    -- No call commits for a group with such a name.
    have hvalues : ∀ (calls : List CommitCall) (store : OffsetStore) (values : List (Option ℕ)),
        none ∈ values → none ∈ allowedValues group topic partition store values calls := by
      intro calls
      induction calls with
      | nil => exact fun _ _ h ↦ h
      | cons call calls ih =>
          intro store values h
          refine ih _ _ ?_
          rw [allowedStep]
          split_ifs with hfor
          · have herror : (store.commitCall call).2 = .error "invalid consumer group name" := by
              rw [OffsetStore.commitCall, commit, if_pos (by rw [hfor.1, hgroup])]
            rw [herror]
            exact List.mem_cons_of_mem _ h
          · exact h
    rw [committed_openStore_invalid _ hgroup]
    refine hvalues calls _ _ ?_
    rw [List.mem_singleton]
    exact (committed_openStore_invalid { dirs := dirs } hgroup topic partition).symm

/-- A commit that fails before it writes, between two that return. -/
def harmlessFailure : List CommitCall :=
  [⟨[103], [116], 0, 5, none⟩, ⟨[103], [116], 0, 6, some (.write 0)⟩, ⟨[103], [116], 0, 7, none⟩]

theorem committed_after_harmlessFailure :
    (openStore ((openStore ∅).commitCalls harmlessFailure).dirs).committed [103] [116] 0 ∈
      [some 7] :=
  committed_after_failures ∅ harmlessFailure (by
    refine ⟨by decide, fun s hs ↦ ?_⟩
    obtain rfl := Option.some.inj hs
    refine ⟨by decide, fun s hs ↦ ?_⟩
    obtain rfl := Option.some.inj hs
    exact ⟨by decide, fun _ _ ↦ trivial⟩) [103] [116] 0

/-- A commit that fails after three bytes, between two that return. -/
def tornFailure : List CommitCall :=
  [⟨[103], [116], 0, 5, none⟩, ⟨[103], [116], 0, 6, some (.write 3)⟩, ⟨[103], [116], 0, 7, none⟩]

/-- The commit behind the torn line returned, and a restart has lost it. -/
theorem commit_lost_after_tornFailure :
    ¬ ∀ (dirs : SortedMap Bytes GroupDir) (calls : List CommitCall) (group topic : Bytes)
        (partition : ℕ),
      (openStore ((openStore dirs).commitCalls calls).dirs).committed group topic partition ∈
        allowedValues group topic partition (openStore dirs)
          [(openStore dirs).committed group topic partition] calls := by
  intro h
  exact absurd (h ∅ tornFailure [103] [116] 0) (by decide +kernel)

end OffsetStore

end BoltStream.Storage
