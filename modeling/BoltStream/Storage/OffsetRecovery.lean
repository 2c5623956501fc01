import BoltStream.Storage.OffsetRemoval

/-!
# Opening an arbitrary offset log

Whatever bytes a group's log holds, opening the store keeps the longest front of
it that is made of commit lines.  The offsets in memory are the last ones in that
front, and from there on the log and the memory agree: opening again changes
nothing, and a commit is found behind the lines that were kept.
-/

namespace BoltStream.Storage

open BoltStream.Lib BoltStream.Protocol

/-! ## Commit lines -/

/-- Digits, leading zeros included, for a number below a bound. -/
structure IsNumeral (bound : ℕ) (text : Bytes) (number : ℕ) : Prop where
  ne_nil : text ≠ []
  digits : ∀ ch ∈ text, isDigit ch = true
  value : decimalValue text = number
  lt : number < bound

/-- Topic, partition, offset and checksum, with tabs between them.  The checksum is
that of the text the store would write, not of the text that is there. -/
def IsCommitText (text : Bytes) (record : OffsetRecord) : Prop :=
  ∃ partitionText nextOffsetText crcText,
    text = record.topic ++ 9 :: (partitionText ++ 9 :: (nextOffsetText ++ 9 :: crcText)) ∧
      isValidTopicName record.topic = true ∧
      IsNumeral (2 ^ 16) partitionText record.partition ∧
      IsNumeral (2 ^ 64) nextOffsetText record.nextOffset ∧
      IsNumeral (2 ^ 32) crcText (crc32 record.input)

/-- Lines with commits, each ended by a line feed or by a carriage return and a line
feed. -/
inductive CommitLines : Bytes → List OffsetRecord → Prop
  | nil : CommitLines [] []
  | cons {text ending rest : Bytes} {record : OffsetRecord} {records : List OffsetRecord}
      (htext : IsCommitText text record) (hending : ending = [10] ∨ ending = [13, 10])
      (hrest : CommitLines rest records) :
      CommitLines (text ++ ending ++ rest) (record :: records)

theorem parseDecimal_eq_some_iff {bound : ℕ} {text : Bytes} {number : ℕ} :
    parseDecimal bound text = some number ↔ IsNumeral bound text number := by
  rw [parseDecimal]
  constructor
  · intro h
    split_ifs at h with hnumeral
    obtain rfl := Option.some.inj h
    exact ⟨hnumeral.1, List.all_eq_true.mp hnumeral.2.1, rfl, hnumeral.2.2⟩
  · rintro ⟨hne, hdigits, rfl, hlt⟩
    exact if_pos ⟨hne, List.all_eq_true.mpr hdigits, hlt⟩

theorem IsNumeral.not_mem {bound : ℕ} {text : Bytes} {number : ℕ}
    (h : IsNumeral bound text number) {other : UInt8} (hother : isNameByte other = false) :
    other ∉ text :=
  not_mem_of_isNameByte (fun ch hch ↦ isNameByte_of_isDigit (h.digits ch hch)) hother

/-- Neither line ends nor carriage returns stand in a commit. -/
theorem IsCommitText.not_mem {text : Bytes} {record : OffsetRecord} (h : IsCommitText text record)
    {other : UInt8} (hother : isNameByte other = false) (htab : other ≠ 9) : other ∉ text := by
  obtain ⟨partitionText, nextOffsetText, crcText, rfl, htopic, hpartition, hnext, hcrc⟩ := h
  simp only [List.mem_append, List.mem_cons, not_or]
  exact ⟨not_mem_topic htopic hother, htab, hpartition.not_mem hother, htab,
    hnext.not_mem hother, htab, hcrc.not_mem hother⟩

theorem splitOn_eq_four {text first second third fourth : Bytes} (hfirst : 9 ∉ first)
    (hsecond : 9 ∉ second) (hthird : 9 ∉ third) (hfourth : 9 ∉ fourth) :
    text.splitOn 9 = [first, second, third, fourth] ↔
      text = first ++ 9 :: (second ++ 9 :: (third ++ 9 :: fourth)) := by
  have hjoin : List.intercalate [9] [first, second, third, fourth] =
      first ++ 9 :: (second ++ 9 :: (third ++ 9 :: fourth)) := by
    simp [List.intercalate]
  constructor
  · intro h
    rw [← hjoin, ← h, List.intercalate_splitOn]
  · rintro rfl
    rw [← hjoin]
    apply List.splitOn_intercalate
    · simp only [List.mem_cons, List.not_mem_nil, or_false]
      rintro field (rfl | rfl | rfl | rfl)
      · exact hfirst
      · exact hsecond
      · exact hthird
      · exact hfourth
    · exact List.cons_ne_nil _ _

/-- What `parse_offset_line` accepts. -/
theorem parseOffsetLine_eq_some_iff {line : Bytes} {record : OffsetRecord} :
    parseOffsetLine line = some record ↔ IsCommitText line record := by
  have htab : isNameByte 9 = false := by decide
  constructor
  · intro h
    rw [parseOffsetLine] at h
    split at h
    · next topic partitionText nextOffsetText crcText hsplit =>
        split_ifs at h with htopic
        obtain ⟨partition, hpartition, h⟩ := Option.bind_eq_some_iff.mp h
        split_ifs at h with hrange
        obtain ⟨nextOffset, hnext, h⟩ := Option.bind_eq_some_iff.mp h
        obtain ⟨crc, hcrc, h⟩ := Option.bind_eq_some_iff.mp h
        split_ifs at h with hmatch
        obtain rfl := Option.some.inj h
        rw [Bool.not_eq_false] at htopic
        rw [parseDecimal_eq_some_iff] at hpartition hnext hcrc
        rw [← hmatch] at hcrc
        refine ⟨partitionText, nextOffsetText, crcText, ?_, htopic, ?_, hnext, hcrc⟩
        · exact (splitOn_eq_four (not_mem_topic htopic htab) (hpartition.not_mem htab)
            (hnext.not_mem htab) (hcrc.not_mem htab)).mp hsplit
        · exact ⟨hpartition.ne_nil, hpartition.digits, hpartition.value, by simp only; omega⟩
    · cases h
  · rintro ⟨partitionText, nextOffsetText, crcText, hline, htopic, hpartition, hnext, hcrc⟩
    have hsplit := (splitOn_eq_four (not_mem_topic htopic htab) (hpartition.not_mem htab)
      (hnext.not_mem htab) (hcrc.not_mem htab)).mpr hline
    have hlt := hpartition.lt
    have hwide : IsNumeral (2 ^ 32) partitionText record.partition :=
      ⟨hpartition.ne_nil, hpartition.digits, hpartition.value, by omega⟩
    rw [parseOffsetLine, hsplit]
    simp only [htopic, Bool.true_eq_false, if_false]
    rw [parseDecimal_eq_some_iff.mpr hwide, Option.bind_some, if_neg (by omega),
      parseDecimal_eq_some_iff.mpr hnext, Option.bind_some, parseDecimal_eq_some_iff.mpr hcrc,
      Option.bind_some, OffsetRecord.input, if_pos rfl]

/-- A line without its end, as far as `recover_group` parses it. -/
theorem dropCarriageReturn_iff {line : Bytes} {record : OffsetRecord} :
    IsCommitText (dropCarriageReturn line) record ↔
      ∃ text, IsCommitText text record ∧ (line = text ∨ line = text ++ [13]) := by
  constructor
  · intro h
    refine ⟨_, h, ?_⟩
    rw [dropCarriageReturn]
    split_ifs with hlast
    · exact Or.inr (List.dropLast_append_getLast? 13 hlast).symm
    · exact Or.inl rfl
  · rintro ⟨text, htext, rfl | rfl⟩
    · rwa [dropCarriageReturn, if_neg]
      intro hlast
      exact htext.not_mem (by decide) (by decide) (List.mem_of_getLast? hlast)
    · rwa [dropCarriageReturn, if_pos List.getLast?_concat, List.dropLast_concat]

theorem lines_iff_commitLines {content : Bytes} {records : List OffsetRecord} :
    Lines content records ↔ CommitLines content records := by
  constructor
  · intro h
    induction h with
    | nil => exact .nil
    | @cons line rest record records _ hparse _ ih =>
        rw [parseOffsetLine_eq_some_iff, dropCarriageReturn_iff] at hparse
        obtain ⟨text, htext, rfl | rfl⟩ := hparse
        · have hcons := CommitLines.cons htext (Or.inl rfl) ih
          rwa [List.append_assoc] at hcons
        · have hcons := CommitLines.cons htext (Or.inr rfl) ih
          rw [List.append_assoc] at hcons ⊢
          exact hcons
  · intro h
    induction h with
    | nil => exact .nil
    | @cons text ending rest record records htext hending _ ih =>
        have hno := htext.not_mem (show isNameByte 10 = false by decide) (by decide)
        rcases hending with rfl | rfl
        · rw [List.append_assoc]
          refine Lines.cons hno ?_ ih
          exact parseOffsetLine_eq_some_iff.mpr (dropCarriageReturn_iff.mpr
            ⟨text, htext, Or.inl rfl⟩)
        · have hline : text ++ [13, 10] ++ rest = (text ++ [13]) ++ 10 :: rest := by simp
          rw [hline]
          refine Lines.cons ?_ ?_ ih
          · simpa using hno
          · exact parseOffsetLine_eq_some_iff.mpr (dropCarriageReturn_iff.mpr
              ⟨text, htext, Or.inr rfl⟩)

/-- No front of a log that is made of lines goes further than the one that is kept. -/
theorem prefix_recoverContent {content front : Bytes} {records : List OffsetRecord}
    (h : Lines front records) (hfront : front <+: content) :
    front <+: content.take (recoverContent content).2 ∧
      records <+: (recoverContent content).1 := by
  obtain ⟨rest, rfl⟩ := hfront
  have hfuel : front.length + rest.length < (front ++ rest).length + 1 := by
    rw [List.length_append]
    omega
  obtain ⟨fuel, -, hread⟩ := h.recoverLines_append _ hfuel
  rw [recoverContent, hread]
  refine ⟨?_, List.prefix_append _ _⟩
  rw [List.take_length_add_append]
  exact List.prefix_append _ _

/-- The offset in the last record of a partition. -/
def lastRecorded (records : List OffsetRecord) (topic : Bytes) (partition : ℕ) : Option ℕ :=
  (records.reverse.find? fun record ↦ record.topic = topic ∧ record.partition = partition).map
    OffsetRecord.nextOffset

theorem find?_enterRecords (records : List OffsetRecord) (topic : Bytes) (partition : ℕ) :
    (enterRecords records).find? (offsetKey topic partition) =
      lastRecorded records topic partition := by
  induction records using List.reverseRecOn with
  | nil => rfl
  | append_singleton records record ih =>
      rw [OffsetStore.enterRecords_append, OffsetStore.find?_enterRecord, ih, lastRecorded,
        lastRecorded, List.reverse_append, List.reverse_singleton, List.singleton_append,
        List.find?_cons]
      by_cases hkey : record.topic = topic ∧ record.partition = partition
      · rw [if_pos ⟨hkey.1.symm, hkey.2.symm⟩, decide_eq_true hkey]
        rfl
      · rw [if_neg fun h ↦ hkey ⟨h.1.symm, h.2.symm⟩, decide_eq_false hkey]

namespace OffsetStore

/-! ## Log and memory agree -/

/-- The log of a group, if opening the store reads it. -/
def readLog (dirs : SortedMap Bytes GroupDir) (group : Bytes) : Option Bytes :=
  (dirs.find? group).bind (recoveredLog group)

/-- Every log that is read ends with a line, and what is in memory for its group is
what its lines say. -/
structure Settled (store : OffsetStore) : Prop where
  lines : ∀ group content, readLog store.dirs group = some content →
    ∃ records, Lines content records
  offsets : ∀ group, store.offsets.find? group = (readLog store.dirs group).bind recoverGroup

theorem find?_dirs_openStore (dirs : SortedMap Bytes GroupDir) (group : Bytes) :
    (openStore dirs).dirs.find? group = (dirs.find? group).map fun dir ↦
      match recoveredLog group dir with
      | none => dir
      | some content => { dir with log := some (content.take (recoverContent content).2) } := by
  rw [openStore, recover]
  exact SortedMap.find?_mapValues _ _ _

theorem find?_offsets_openStore (dirs : SortedMap Bytes GroupDir) (group : Bytes) :
    (openStore dirs).offsets.find? group = (readLog dirs group).bind recoverGroup := by
  rw [openStore, recover]
  simp only [SortedMap.find?_filterMapValues]
  rfl

/-- Opening cuts a log that it reads at its last line. -/
theorem readLog_openStore (dirs : SortedMap Bytes GroupDir) (group : Bytes) :
    readLog (openStore dirs).dirs group =
      (readLog dirs group).map fun content ↦ content.take (recoverContent content).2 := by
  rw [readLog, readLog, find?_dirs_openStore]
  cases dirs.find? group with
  | none => rfl
  | some dir =>
      rw [Option.map_some, Option.bind_some, Option.bind_some]
      by_cases hgroup : isValidGroupName group = true
      · cases hlog : dir.log with
        | none => simp only [recoveredLog, if_pos hgroup, hlog, Option.map_none]
        | some content => simp only [recoveredLog, if_pos hgroup, hlog, Option.map_some]
      · simp only [recoveredLog, if_neg hgroup, Option.map_none]

theorem settled_openStore (dirs : SortedMap Bytes GroupDir) : (openStore dirs).Settled := by
  constructor
  · intro group content hread
    rw [readLog_openStore] at hread
    obtain ⟨content, -, rfl⟩ := Option.map_eq_some_iff.mp hread
    exact ⟨_, lines_recoverContent content⟩
  · intro group
    rw [find?_offsets_openStore, readLog_openStore]
    cases readLog dirs group with
    | none => rfl
    | some content =>
        rw [Option.map_some, Option.bind_some, Option.bind_some, recoverGroup, recoverGroup,
          (lines_recoverContent content).recoverContent_self]

theorem Settled.offsets_openStore {store : OffsetStore} (h : store.Settled) :
    (openStore store.dirs).offsets = store.offsets := by
  apply SortedMap.ext
  intro group
  rw [find?_offsets_openStore, h.offsets]

theorem Settled.dirs_openStore {store : OffsetStore} (h : store.Settled) :
    (openStore store.dirs).dirs = store.dirs := by
  apply SortedMap.ext
  intro group
  rw [find?_dirs_openStore]
  cases hdir : store.dirs.find? group with
  | none => rfl
  | some dir =>
      rw [Option.map_some]
      cases hlog : recoveredLog group dir with
      | none => rfl
      | some content =>
          obtain ⟨records, hlines⟩ := h.lines group content (by rw [readLog, hdir]; exact hlog)
          rw [recoveredLog] at hlog
          split_ifs at hlog
          dsimp only
          rw [hlines.recoverContent_self, List.take_length, ← hlog]

/-- The logs that opening reads. -/
def readLogs (dirs : SortedMap Bytes GroupDir) : SortedMap Bytes Bytes :=
  dirs.filterMapValues recoveredLog

theorem find?_readLogs (dirs : SortedMap Bytes GroupDir) (group : Bytes) :
    (readLogs dirs).find? group = readLog dirs group := by
  rw [readLogs, readLog, SortedMap.find?_filterMapValues]

theorem bytesTruncated_openStore (dirs : SortedMap Bytes GroupDir) :
    (openStore dirs).stats.bytesTruncated = ((readLogs dirs).entries.map fun entry ↦
      entry.2.length - (recoverContent entry.2).2).sum := by
  rw [openStore, recover]
  simp only [List.map_map]
  rfl

theorem Settled.bytesTruncated_openStore {store : OffsetStore} (h : store.Settled) :
    (openStore store.dirs).stats.bytesTruncated = 0 := by
  rw [OffsetStore.bytesTruncated_openStore]
  apply List.sum_eq_zero
  intro cut hcut
  obtain ⟨entry, hentry, rfl⟩ := List.mem_map.mp hcut
  have hread := SortedMap.find?_of_mem hentry
  rw [find?_readLogs] at hread
  obtain ⟨records, hlines⟩ := h.lines entry.1 entry.2 hread
  rw [hlines.recoverContent_self, Nat.sub_self]

/-- A group's share of the bytes that are cut off. -/
theorem bytesTruncated_erase {dirs : SortedMap Bytes GroupDir} {group content : Bytes}
    (hread : readLog dirs group = some content) :
    (openStore dirs).stats.bytesTruncated =
      (content.length - (recoverContent content).2) +
        (openStore (dirs.erase group)).stats.bytesTruncated := by
  have hothers : readLogs (dirs.erase group) = (readLogs dirs).erase group := by
    apply SortedMap.ext
    intro other
    rw [find?_readLogs, readLog, SortedMap.find?_erase, SortedMap.find?_erase, find?_readLogs]
    split_ifs
    · rfl
    · rfl
  rw [← find?_readLogs] at hread
  have hperm := (SortedMap.entries_perm_cons_erase hread).map fun entry ↦
    entry.2.length - (recoverContent entry.2).2
  rw [bytesTruncated_openStore, bytesTruncated_openStore, hothers, hperm.sum_eq, List.map_cons,
    List.sum_cons]

/-! ## A commit behind the lines -/

theorem Settled.recoverGroup_line {store : OffsetStore} (h : store.Settled) {group : Bytes}
    {record : OffsetRecord} (hgroup : isValidGroupName group = true) (hrecord : record.Storable) :
    (∃ records, Lines (store.logOf group ++ record.line) records) ∧
      recoverGroup (store.logOf group ++ record.line) =
        some (enterRecord ((store.offsets.find? group).getD ∅) record) := by
  have hbefore : ∃ records, Lines (store.logOf group) records ∧
      (store.offsets.find? group).getD ∅ = enterRecords records := by
    rw [h.offsets, logOf]
    cases hdir : store.dirs.find? group with
    | none => exact ⟨[], Lines.nil, by rw [readLog, hdir]; rfl⟩
    | some dir =>
        cases hlog : dir.log with
        | none =>
            refine ⟨[], by simpa [hlog] using Lines.nil, ?_⟩
            rw [readLog, hdir, Option.bind_some, recoveredLog, if_pos hgroup, hlog]
            rfl
        | some content =>
            have hread : readLog store.dirs group = some content := by
              rw [readLog, hdir, Option.bind_some, recoveredLog, if_pos hgroup, hlog]
            obtain ⟨records, hlines⟩ := h.lines group content hread
            refine ⟨records, by simpa [hlog] using hlines, ?_⟩
            rw [hread, Option.bind_some, recoverGroup, hlines.recoverContent_self]
            by_cases hnone : records = []
            · rw [if_pos hnone, hnone]
              rfl
            · rw [if_neg hnone]
              rfl
  obtain ⟨records, hlines, hoffsets⟩ := hbefore
  have hmore := hlines.append (Lines.line hrecord)
  refine ⟨⟨_, hmore⟩, ?_⟩
  rw [recoverGroup, hmore.recoverContent_self, hoffsets]
  dsimp only
  rw [if_neg (by simp), enterRecords_append]

theorem Settled.commit {store : OffsetStore} (h : store.Settled) {group topic : Bytes}
    {partition nextOffset : ℕ} (hgroup : isValidGroupName group = true)
    (hrecord : OffsetRecord.Storable ⟨topic, partition, nextOffset⟩) :
    (store.commit group topic partition nextOffset none).2 = .ok () ∧
      (store.commit group topic partition nextOffset none).1.Settled ∧
      (store.commit group topic partition nextOffset none).1.dirs.find? group =
        some { (store.dirs.find? group).getD {} with
          log := some (store.logOf group ++ writeOffsetRecord topic partition nextOffset) } := by
  obtain ⟨hlines, hrecover⟩ := h.recoverGroup_line hgroup hrecord
  have hlog : ((store.dirs.find? group).getD {}).log.getD [] = store.logOf group := by
    rw [logOf]
    cases store.dirs.find? group with
    | none => rfl
    | some dir => rfl
  have hread : ∀ dir : GroupDir, ∀ other, readLog (store.dirs.insert group dir) other =
      if other = group then dir.log else readLog store.dirs other := by
    intro dir other
    rw [readLog, SortedMap.find?_insert]
    by_cases hother : other = group
    · rw [if_pos hother, if_pos hother, Option.bind_some, hother, recoveredLog, if_pos hgroup]
    · rw [if_neg hother, if_neg hother, readLog]
  have htopic := hrecord.topic
  rw [OffsetStore.commit, if_neg (by simp [hgroup]), if_neg (by simpa using htopic)]
  simp only [setDir, hlog]
  refine ⟨trivial, ⟨fun other content hother ↦ ?_, fun other ↦ ?_⟩,
    SortedMap.find?_insert_self _ _ _⟩
  · rw [hread] at hother
    split_ifs at hother
    · obtain rfl := Option.some.inj hother
      exact hlines
    · exact h.lines other content hother
  · rw [hread, SortedMap.find?_insert]
    split_ifs
    · exact hrecover.symm
    · exact h.offsets other

/-! ## Recovery -/

/-- For every content of a group's log, opening the store keeps the longest front made
of commit lines, has the last offset of each partition in it in memory, and counts
what it cuts off.  Opening again changes nothing, and after a commit opening finds
the same offsets with the committed one among them. -/
theorem recovers_longest_lines (dirs : SortedMap Bytes GroupDir) {group content : Bytes}
    {dir : GroupDir} (hgroup : isValidGroupName group = true)
    (hdir : dirs.find? group = some dir) (hlog : dir.log = some content) :
    ∃ kept cut records, content = kept ++ cut ∧ CommitLines kept records ∧
      (∀ front records', CommitLines front records' → front <+: content →
        front <+: kept ∧ records' <+: records) ∧
      (openStore dirs).dirs.find? group = some { dir with log := some kept } ∧
      (∀ topic partition, (openStore dirs).committed group topic partition =
        lastRecorded records topic partition) ∧
      (openStore dirs).stats.bytesTruncated =
        cut.length + (openStore (dirs.erase group)).stats.bytesTruncated ∧
      (openStore (openStore dirs).dirs).dirs = (openStore dirs).dirs ∧
      (openStore (openStore dirs).dirs).offsets = (openStore dirs).offsets ∧
      (openStore (openStore dirs).dirs).stats.bytesTruncated = 0 ∧
      ∀ topic partition nextOffset,
        OffsetRecord.Storable ⟨topic, partition, nextOffset⟩ →
        ∃ store', (openStore dirs).commit group topic partition nextOffset none =
            (store', .ok ()) ∧
          store'.dirs.find? group = some { dir with
            log := some (kept ++ writeOffsetRecord topic partition nextOffset) } ∧
          (openStore store'.dirs).stats.bytesTruncated = 0 ∧
          ∀ group' topic' partition',
            (openStore store'.dirs).committed group' topic' partition' =
              if group' = group ∧ topic' = topic ∧ partition' = partition then some nextOffset
              else (openStore dirs).committed group' topic' partition' := by
  have hsettled := settled_openStore dirs
  have hread : readLog dirs group = some content := by
    rw [readLog, hdir, Option.bind_some, recoveredLog, if_pos hgroup, hlog]
  have hcut : content.length - (recoverContent content).2 =
      (content.drop (recoverContent content).2).length := List.length_drop.symm
  have hkept : (openStore dirs).dirs.find? group =
      some { dir with log := some (content.take (recoverContent content).2) } := by
    rw [find?_dirs_openStore, hdir, Option.map_some, recoveredLog, if_pos hgroup, hlog]
  have hopened : (openStore dirs).logOf group = content.take (recoverContent content).2 := by
    rw [logOf, hkept]
    rfl
  refine ⟨content.take (recoverContent content).2, content.drop (recoverContent content).2,
    (recoverContent content).1, (List.take_append_drop _ _).symm,
    lines_iff_commitLines.mp (lines_recoverContent content), ?_, hkept, ?_, ?_,
    hsettled.dirs_openStore, hsettled.offsets_openStore, hsettled.bytesTruncated_openStore, ?_⟩
  · intro front records' hfront hprefix
    exact prefix_recoverContent (lines_iff_commitLines.mpr hfront) hprefix
  · intro topic partition
    rw [openStore, committed_recover, hdir, Option.bind_some, recoveredLog, if_pos hgroup, hlog,
      Option.bind_some, find?_enterRecords]
  · rw [bytesTruncated_erase hread, hcut]
  · intro topic partition nextOffset hrecord
    obtain ⟨hok, hcommitted, hfound⟩ := hsettled.commit hgroup hrecord
    rw [hkept, Option.getD_some, hopened] at hfound
    refine ⟨_, Prod.ext rfl hok, hfound, hcommitted.bytesTruncated_openStore, ?_⟩
    intro group' topic' partition'
    rw [committed, hcommitted.offsets_openStore]
    exact committed_commit_ok hok group' topic' partition'

/-- A log whose first line ends with a carriage return, whose second has leading zeros,
and whose third has no end. -/
def carelessLog : Bytes :=
  OffsetRecord.text ⟨[116], 1, 5⟩ ++ [13, 10] ++
    ([116, 9, 48, 49, 9, 48, 48, 55, 9] ++ decimal (crc32 (crcInput [116] 1 7)) ++ [10]) ++
    [116, 9, 49]

theorem recovers_longest_lines_careless :
    ∃ kept records, CommitLines kept records ∧
      (openStore (SortedMap.insert ∅ [103] { log := some carelessLog })).dirs.find? [103] =
        some { log := some kept } ∧
      carelessLog = kept ++ [116, 9, 49] ∧ lastRecorded records [116] 1 = some 7 := by
  obtain ⟨kept, cut, records, hcontent, hlines, -, hkept, hlast, -⟩ :=
    recovers_longest_lines (SortedMap.insert ∅ [103] { log := some carelessLog })
      (by decide : isValidGroupName [103] = true) (SortedMap.find?_insert_self _ _ _) rfl
  refine ⟨kept, records, hlines, hkept, ?_, ?_⟩
  · have hfound : (openStore (SortedMap.insert ∅ [103] { log := some carelessLog })).dirs.find?
        [103] = some { log := some (carelessLog.take (carelessLog.length - 3)) } := by
      decide +kernel
    rw [hkept] at hfound
    injection hfound with hfound
    injection hfound with hfound
    injection hfound with hfound
    rw [hfound]
    decide
  · rw [← hlast]
    decide

end OffsetStore

end BoltStream.Storage
