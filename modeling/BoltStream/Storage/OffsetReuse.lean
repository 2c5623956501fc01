import BoltStream.Storage.IntactRecovery

/-!
# Offsets after recovery

`next_offset` is found from the entries that still decode.  The names of the
segments are not looked at, so where retention has removed the first segments
and the first entry behind them is damaged, offsets are given out again.
-/

namespace BoltStream.Storage

open BoltStream.Lib BoltStream.Protocol BoltStream.Compression PartitionLog

/-- No segment is named by an offset behind the next one. -/
def ReachesNames (dir : Directory) (log : PartitionLog) : Prop :=
  ∀ file ∈ dir.logs, file.1 ≤ log.nextOffset

/-- In front of the first bytes that do not decode there is an entry that ends at
the name of the segment or behind it. -/
def HasEntryUpTo (Z : Zstd) (options : PartitionLogOptions) (dir : Directory) (name : ℕ) : Prop :=
  ∃ es e, ParsesOver (IsEntry Z options) dir.logs es ∧ e ∈ es ∧ name ≤ endOffset Z options e.2

theorem le_foldl_max {name start : ℕ} (offsets : List ℕ) :
    name ≤ offsets.foldl max start ↔ name ≤ start ∨ ∃ offset ∈ offsets, name ≤ offset := by
  induction offsets generalizing start with
  | nil => simp
  | cons offset offsets ih =>
      rw [List.foldl_cons, ih, le_max_iff, List.exists_mem_cons_iff, or_assoc]

theorem PartitionLog.Rebuilds.le_nextOffset {Z : Zstd} {options : PartitionLogOptions}
    {dir : Directory} {kept : List (ℕ × List Bytes)} {log : PartitionLog}
    (h : Rebuilds Z options dir kept log) (name : ℕ) :
    name ≤ log.nextOffset ↔ name = 0 ∨ HasEntryUpTo Z options dir name := by
  have hlongest := h.intact.longest (selfDelimiting_isEntry Z options)
  rw [h.nextOffset, le_foldl_max, Nat.le_zero]
  refine or_congr_right ⟨?_, ?_⟩
  · rintro ⟨offset, hoffset, hle⟩
    obtain ⟨e, he, rfl⟩ := List.mem_map.mp hoffset
    exact ⟨_, e, hlongest.1, he, hle⟩
  · rintro ⟨es, e, hes, he, hle⟩
    exact ⟨_, List.mem_map_of_mem ((hlongest.2 es hes).subset he), hle⟩

/-- After an open the next offset is not below the name of a segment exactly when
an entry in front of the first damage ends there. -/
theorem reachesNames_iff (Z : Zstd) (options : PartitionLogOptions) (dir : Directory)
    (hlogs : dir.logs.Sorted) (hindexes : dir.indexes.Sorted) (log : PartitionLog)
    (hopen : openLog Z options dir = .ok log) :
    ReachesNames dir log ↔
      ∀ file ∈ dir.logs, file.1 = 0 ∨ HasEntryUpTo Z options dir file.1 := by
  obtain ⟨kept, h⟩ := recover_rebuilds Z options hlogs hindexes
  rw [openLog_eq (LogState.openOptions_of_openLog hopen)] at hopen
  rw [← Except.ok.inj hopen]
  exact forall₂_congr fun file _ ↦ h.le_nextOffset file.1

/-- A segment behind removed ones, with bytes torn off its second record. -/
theorem reachesNames_tornSecond :
    ∃ log, openLog noZstd smallSegments
        { logs := [(5, frameBody (recordBody 5 7 [107] [118]) ++ [0, 0])] } = .ok log ∧
      ReachesNames { logs := [(5, frameBody (recordBody 5 7 [107] [118]) ++ [0, 0])] } log := by
  have hoptions : OpenOptions smallSegments := ⟨by decide, by decide⟩
  have hopen := openLog_eq hoptions noZstd
    { logs := [(5, frameBody (recordBody 5 7 [107] [118]) ++ [0, 0])] }
  refine ⟨_, hopen, (reachesNames_iff noZstd smallSegments _ (by simp [FileTable.Sorted])
    (by simp [FileTable.Sorted]) _ hopen).mpr fun file hfile ↦ Or.inr ?_⟩
  obtain rfl := List.mem_singleton.mp hfile
  refine ⟨_, _, .entry (c := frameBody (recordBody 5 7 [107] [118])) ?_ (.stop _),
    List.mem_singleton.mpr rfl, by decide +kernel⟩
  have hscan : (scanEntry noZstd smallSegments 0 0
      (readU32Be (frameBody (recordBody 5 7 [107] [118])) 0)
      ((frameBody (recordBody 5 7 [107] [118])).drop 4)).toOption.isSome = true := by
    decide +kernel
  refine ⟨by decide, by decide, ?_⟩
  cases hentry : scanEntry noZstd smallSegments 0 0
      (readU32Be (frameBody (recordBody 5 7 [107] [118])) 0)
      ((frameBody (recordBody 5 7 [107] [118])).drop 4) with
  | error message =>
      rw [hentry] at hscan
      cases hscan
  | ok scanned => exact ⟨scanned, rfl⟩

/-- The first byte of every segment is overwritten. -/
def damageFirst (dir : Directory) : Directory :=
  { dir with logs := dir.logs.map fun file ↦ (file.1, 255 :: file.2.tail) }

/-- Two records in a segment each, and a retention pass that removes the first. -/
def removeFirst : List LogOp :=
  [.append stillClock [107] [118], .append stillClock [107] [119],
    .applyRetention ⟨fun _ ↦ ⟨none, 0⟩, fun _ ↦ false, fun _ ↦ false⟩ ⟨0, 60⟩]

/-- With the remaining segment damaged at its start, the next record gets the
offset of the first one again. -/
theorem not_reachesNames_damaged :
    ∃ state log, run (LogState.step noZstd) ⟨emptyLog smallSegments, []⟩ removeFirst = some state ∧
      openLog noZstd smallSegments (damageFirst state.log.dir) = .ok log ∧
      ¬ ReachesNames (damageFirst state.log.dir) log ∧
      (log.append stillClock none [107] [120]).2.map RecordMetadata.offset = .ok 0 ∧
      0 ∈ state.acked.map StoredRecord.offset := by
  have hends : (run (LogState.step noZstd) ⟨emptyLog smallSegments, []⟩ removeFirst).map
      (fun state ↦ (openLog noZstd smallSegments (damageFirst state.log.dir)).toOption.map
        fun log ↦ decide ((damageFirst state.log.dir).logs.any (fun file ↦
            decide (log.nextOffset < file.1)) = true ∧
          ((log.append stillClock none [107] [120]).2.map RecordMetadata.offset).toOption =
            some 0 ∧ 0 ∈ state.acked.map StoredRecord.offset)) = some (some true) := by
    decide
  obtain ⟨state, hrun, hends⟩ := Option.map_eq_some_iff.mp hends
  obtain ⟨log, hopen, hends⟩ := Option.map_eq_some_iff.mp hends
  obtain ⟨hbelow, happend, hacked⟩ := of_decide_eq_true hends
  refine ⟨state, log, hrun, ?_, fun h ↦ ?_, ?_, hacked⟩
  · cases hresult : openLog noZstd smallSegments (damageFirst state.log.dir) with
    | error message =>
        rw [hresult] at hopen
        cases hopen
    | ok opened =>
        rw [hresult] at hopen
        rw [Option.some.inj hopen]
  · obtain ⟨file, hfile, hlt⟩ := List.any_eq_true.mp hbelow
    exact absurd (of_decide_eq_true hlt) (Nat.not_lt.mpr (h file hfile))
  · cases hresult : (log.append stillClock none [107] [120]).2.map RecordMetadata.offset with
    | error message =>
        rw [hresult] at happend
        cases happend
    | ok offset =>
        rw [hresult] at happend
        rw [Option.some.inj happend]

end BoltStream.Storage
