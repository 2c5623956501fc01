import BoltStream.Storage.ArbitraryFiles
import BoltStream.Storage.CrashRecovery
import BoltStream.Storage.RetentionBudget

/-!
# The layout of the segments

A run leaves segments that hold whole entries, each segment no longer than
allowed or with a single entry, named by its first offset and behind all offsets of
the segments before it.  The bound on the length is an invariant of the index
alone: an entry that does not start a segment ends within the bound.
-/

namespace BoltStream.Storage

open BoltStream.Lib BoltStream.Protocol BoltStream.Compression

namespace PartitionLog

/-- The offsets of the records of a stored entry. -/
def offsetsOf (Z : Zstd) (options : PartitionLogOptions) (c : Bytes) : List ℕ :=
  (indexOf Z options 0 0 c).map IndexEntry.offset

/-- The segment logs hold these entries, segment by segment. -/
structure LaidOut (Z : Zstd) (log : PartitionLog) (segments : List (ℕ × List Bytes)) : Prop where
  logs : log.dir.logs = segments.map fun s ↦ (s.1, s.2.flatten)
  entries : ∀ s ∈ segments, ∀ c ∈ s.2, IsEntry Z log.options c
  size : ∀ s ∈ segments, s.2.flatten.length ≤ log.options.maxSegmentBytes ∨ s.2.length = 1
  named : ∀ s ∈ segments, ∀ c ∈ s.2.head?, (offsetsOf Z log.options c).head? = some s.1
  ordered : segments.Pairwise fun s t ↦ s.1 < t.1 ∧
    ∀ c ∈ s.2, ∀ d ∈ t.2, ∀ offset ∈ offsetsOf Z log.options c,
      ∀ later ∈ offsetsOf Z log.options d, offset < later

/-- Files are only extended, and only those at or behind the last file with bytes. -/
structure ExtendsLast (before after : FileTable) : Prop where
  extended : ∀ name, (before.content? name).getD [] <+: (after.content? name).getD []
  last : ∀ name, (after.content? name).getD [] ≠ (before.content? name).getD [] →
    ∀ other, (before.content? other).getD [] ≠ [] → other ≤ name

/-! ## The end of an entry -/

/-- An entry that does not start a segment ends within the bound. -/
def EndsWithin (bound : ℕ) (entry : IndexEntry) : Prop :=
  entry.filePosition = 0 ∨ entry.filePosition + (4 + entry.recordBytes) ≤ bound

/-- An entry that did not make its segment roll. -/
theorem endsWithin_of_kept {bound length : ℕ} {entry : IndexEntry} (hlength : 4 ≤ length)
    (hbytes : entry.recordBytes = (length - 4) % 2 ^ 32)
    (hkept : ¬ (entry.filePosition > 0 ∧ entry.filePosition + length > bound)) :
    EndsWithin bound entry := by
  have hmod : (length - 4) % 2 ^ 32 ≤ length - 4 := Nat.mod_le _ _
  by_cases hstart : entry.filePosition = 0
  · exact Or.inl hstart
  · right
    omega

theorem endsWithin_stageRecords (options : PartitionLogOptions) (clock : AppendClock)
    (original : ℕ) (records : List AppendRecord) :
    ∀ i base size, ∀ staged ∈ (stageRecords options clock original i base size records).records,
      EndsWithin options.maxSegmentBytes staged.entry := by
  induction records with
  | nil =>
      intro i base size staged hstaged
      cases hstaged
  | cons record rest ih =>
      intro i base size staged hstaged
      rw [stageRecords] at hstaged
      cases hencoded : encodeRecord ((original + i) % 2 ^ 64) (clock.timestamp i).toNat record.key
          record.value with
      | error message =>
          simp only [hencoded] at hstaged
          cases hstaged
      | ok encoded =>
          simp only [hencoded, List.mem_cons] at hstaged
          rcases hstaged with rfl | hstaged
          · have hlength : 4 ≤ encoded.length := by
              rw [(encodeRecord_ok hencoded).1, Entry.length_bytes]
              omega
            split_ifs with hroll
            · exact Or.inl rfl
            · rw [Bool.or_eq_true, decide_eq_true_eq, not_or] at hroll
              exact endsWithin_of_kept hlength rfl hroll.1
          · exact ih _ _ _ staged hstaged

section EndsWithin

variable {Z : Zstd} {log log' : PartitionLog}

theorem endsWithin_appendBatch
    (h : ∀ entry ∈ log.index, EndsWithin log.options.maxSegmentBytes entry) {clock : AppendClock}
    {records : List AppendRecord} {metas : List RecordMetadata}
    (happend : log.appendBatch clock none records = (log', .ok metas)) :
    ∀ entry ∈ log'.index, EndsWithin log.options.maxSegmentBytes entry := by
  rcases appendBatch_ok happend with ⟨-, rfl⟩ | ⟨-, hindex, -⟩
  · exact h
  intro entry hentry
  rw [hindex, List.mem_append] at hentry
  rcases hentry with hold | hnew
  · exact h entry hold
  · obtain ⟨staged, hstaged, rfl⟩ := List.mem_map.mp hnew
    exact endsWithin_stageRecords _ _ _ _ _ _ _ staged hstaged

theorem endsWithin_appendEncodedBatch
    (h : ∀ entry ∈ log.index, EndsWithin log.options.maxSegmentBytes entry) {codec : Codec}
    {encodedRecords : Bytes} {uncompressedBytes : UInt32} {decodedRecords : List AppendRecord}
    {timestamp : UInt64} {metadata : BatchMetadata}
    (happend : PartitionLog.appendEncodedBatch Z log codec encodedRecords uncompressedBytes
      decodedRecords timestamp none = (log', .ok metadata)) :
    ∀ entry ∈ log'.index, EndsWithin log.options.maxSegmentBytes entry := by
  obtain ⟨-, -, hindex, -⟩ := appendEncodedBatch_parts happend
  intro entry hentry
  rw [hindex, List.mem_append] at hentry
  rcases hentry with hold | hnew
  · exact h entry hold
  · obtain ⟨i, -, rfl⟩ := List.mem_map.mp hnew
    have hlength : 4 ≤ (encodeBatch log.nextOffset timestamp.toNat codec
        (decodedRecords.length % 2 ^ 32) uncompressedBytes.toNat encodedRecords).length := by
      rw [encodeBatch, length_frameBody]
      omega
    rw [PartitionLog.stageEncodedBatch]
    split_ifs with hroll
    · exact Or.inl rfl
    · exact endsWithin_of_kept hlength rfl hroll

end EndsWithin

/-! ## Layouts as bytes -/

section LaidOut

variable {Z : Zstd} {log : PartitionLog} {layout : Layout} {options : PartitionLogOptions}

/-- An entry that decodes is an entry of the format, with its own offsets. -/
theorem isEntry_bytes {e : Entry} (hwritten : e.Written Z)
    (hdecodable : e.Decodable options.maxUncompressedBatchBytes) :
    IsEntry Z options e.bytes ∧
      offsetsOf Z options e.bytes = List.range' e.first e.count := by
  obtain ⟨hfits, limit, haccepted⟩ := hwritten
  have hcount : readU32Be e.bytes 0 = e.recordBytes := by
    have hread := Entry.readU32Be_bytes hfits []
    rwa [List.append_nil] at hread
  have hbody : e.bytes.drop 4 = e.bodyAndCrc := by
    rw [Entry.bytes_eq, List.drop_left' (length_writeU32 _)]
  have hscan := @Entry.scanEntry_of_decodable Z limit options 0 0 e hfits haccepted hdecodable
  constructor
  · refine ⟨?_, ?_, (e.indexEntries 0 0, e.stop), ?_⟩
    · rw [hcount, Entry.length_bytes]
    · rw [hcount]
      exact e.kMinimum_le_recordBytes
    · rw [hcount, hbody]
      exact hscan
  · rw [offsetsOf, indexOf, hcount, hbody, hscan]
    exact Layout.map_offset_indexEntries hfits.1 0 0

/-- A segment with more than one entry: the last one does not start it. -/
theorem length_content_le {s : Segment} {bound : ℕ} (hcount : ∀ e ∈ s.entries, 0 < e.count)
    (hends : ∀ entry ∈ s.index, EndsWithin bound entry) :
    s.content.length ≤ bound ∨ s.entries.length = 1 := by
  rcases List.eq_nil_or_concat s.entries with hnil | ⟨front, e, hentries⟩
  · left
    rw [Segment.content, hnil]
    exact Nat.zero_le _
  rw [List.concat_eq_append] at hentries
  by_cases hfront : front = []
  · right
    rw [hentries, hfront]
    rfl
  left
  have hstart := length_le_content front
  have hpos := List.length_pos_iff.mpr hfront
  have hlength : s.content.length = (front.flatMap Entry.bytes).length + (4 + e.recordBytes) := by
    rw [Segment.content, hentries, Layout.content_snoc, List.length_append, Entry.length_bytes]
  -- Some index entry leads to the last entry of the segment.
  obtain ⟨entry, hentry, hposition, hbytes⟩ : ∃ entry ∈ s.index,
      entry.filePosition = (front.flatMap Entry.bytes).length ∧
        entry.recordBytes = e.recordBytes := by
    rw [Segment.index, hentries, Layout.indexFrom_snoc, Nat.zero_add]
    have he := hcount e (by rw [hentries]; simp)
    cases e with
    | record => exact ⟨_, List.mem_append_right _ (List.mem_singleton.mpr rfl), rfl, rfl⟩
    | batch =>
        refine ⟨_, List.mem_append_right _ (List.mem_map.mpr ⟨0, List.mem_range.mpr he, rfl⟩), ?_⟩
        exact ⟨rfl, rfl⟩
  rcases hends entry hentry with hzero | hle
  · omega
  · omega

/-- The entries of a layout that decode, as bytes. -/
theorem Represents.laidOut (hrep : log.Represents Z layout)
    (hdecodable : ∀ e ∈ layout.entries, e.Decodable log.options.maxUncompressedBatchBytes)
    (hends : ∀ entry ∈ log.index, EndsWithin log.options.maxSegmentBytes entry) :
    log.LaidOut Z (layout.map fun s ↦ (s.base, s.entries.map Entry.bytes)) := by
  have hpieces : ∀ s ∈ layout, ∀ e ∈ s.entries, IsEntry Z log.options e.bytes ∧
      offsetsOf Z log.options e.bytes = List.range' e.first e.count := by
    intro s hs e he
    have hmem : e ∈ layout.entries := Layout.mem_entries.mpr ⟨s, hs, he⟩
    exact isEntry_bytes (hrep.written e hmem) (hdecodable e hmem)
  have hcount : ∀ s ∈ layout, ∀ e ∈ s.entries, 0 < e.count := fun s hs e he ↦
    hrep.count_pos (Layout.mem_entries.mpr ⟨s, hs, he⟩)
  constructor
  case logs =>
    rw [hrep.logs, Layout.files, List.map_map]
    apply List.map_congr_left
    intro s _
    simp [Segment.file, Segment.content, List.flatMap_def]
  case entries =>
    intro t ht c hc
    obtain ⟨s, hs, rfl⟩ := List.mem_map.mp ht
    obtain ⟨e, he, rfl⟩ := List.mem_map.mp hc
    exact (hpieces s hs e he).1
  case size =>
    intro t ht
    obtain ⟨s, hs, rfl⟩ := List.mem_map.mp ht
    have hindex : ∀ entry ∈ s.index, EndsWithin log.options.maxSegmentBytes entry := by
      intro entry hentry
      apply hends
      rw [hrep.index]
      exact List.mem_flatMap.mpr ⟨s, hs, hentry⟩
    have hsize := length_content_le (hcount s hs) hindex
    rwa [Segment.content, List.flatMap_def, ← List.length_map (f := Entry.bytes)] at hsize
  case named =>
    intro t ht c hc
    obtain ⟨s, hs, rfl⟩ := List.mem_map.mp ht
    rw [List.head?_map, Option.mem_map] at hc
    obtain ⟨e, he, rfl⟩ := hc
    have hmem : e ∈ s.entries := List.mem_of_mem_head? he
    obtain ⟨count, hcount⟩ := Nat.exists_eq_succ_of_ne_zero (hcount s hs e hmem).ne'
    rw [(hpieces s hs e hmem).2, hcount, List.range'_succ, ← hrep.placed.named s hs e he]
    rfl
  case ordered =>
    rw [List.pairwise_map]
    have hchain := List.pairwise_flatMap.mp hrep.placed.chain
    refine (hrep.placed.bases.and hchain.2).imp_of_mem ?_
    rintro s t hs ht ⟨hbases, hstops⟩
    refine ⟨hbases, fun c hc d hd offset hoffset later hlater ↦ ?_⟩
    obtain ⟨e, he, rfl⟩ := List.mem_map.mp hc
    obtain ⟨f, hf, rfl⟩ := List.mem_map.mp hd
    rw [(hpieces s hs e he).2, List.mem_range'_1] at hoffset
    rw [(hpieces t ht f hf).2, List.mem_range'_1] at hlater
    have hstop : e.first + e.count ≤ f.first := hstops e he f hf
    omega

end LaidOut

/-! ## Where appends write -/

section Extends

variable {Z : Zstd} {log log' : PartitionLog} {layout : Layout}

/-- Writes that leave nothing stored behind them. -/
theorem extendsLast_writeAll (hlogs : log.dir.logs = layout.files)
    (hbases : layout.Pairwise fun s t ↦ s.base < t.base) {writes : List (ℕ × Bytes)}
    (hbehind : ∀ write ∈ writes, ∀ s ∈ layout, write.1 < s.base → s.entries = [])
    (hwritten : log'.dir.logs = log.dir.logs.writeAll writes) :
    ExtendsLast log.dir.logs log'.dir.logs := by
  have hsorted : log.dir.logs.Sorted := hlogs ▸ Layout.files_sorted hbases
  constructor
  · intro name
    cases hold : log.dir.logs.content? name with
    | none => exact List.nil_prefix
    | some bytes =>
        obtain ⟨more, hmore⟩ :=
          ((FileTable.Grows.refl hsorted).writeAll writes).kept name bytes hold
        rw [hwritten, hmore]
        exact List.prefix_append bytes more
  · intro name hchanged other hother
    by_contra hlt
    rw [Nat.not_le] at hlt
    have hmem : name ∈ writes.map Prod.fst := by
      by_contra hmissing
      rw [hwritten, FileTable.content?_writeAll_of_not_mem hsorted hmissing] at hchanged
      exact hchanged rfl
    obtain ⟨write, hwrite, rfl⟩ := List.mem_map.mp hmem
    -- The file behind the written one is a segment without entries.
    cases hcontent : log.dir.logs.content? other with
    | none =>
        rw [hcontent] at hother
        exact hother rfl
    | some bytes =>
        have hfile := FileTable.exists_mem_of_content? hcontent
        rw [hlogs] at hfile
        obtain ⟨s, hs, hsame⟩ := List.mem_map.mp hfile
        obtain ⟨rfl, rfl⟩ := Prod.mk.inj hsame
        rw [hcontent, Option.getD_some, Segment.content, hbehind write hwrite s hs hlt] at hother
        exact hother rfl

/-- Placing an entry keeps what is stored in the other segments. -/
theorem stored_place (base : ℕ) (e : Entry) {s : Segment} (hs : s ∈ layout)
    (hstored : s.entries ≠ []) : ∃ t ∈ layout.place base e, t.base = s.base ∧ t.entries ≠ [] := by
  induction layout with
  | nil => cases hs
  | cons t layout ih =>
      rw [Layout.place]
      split_ifs with hlt heq
      · exact ⟨s, List.mem_cons_of_mem _ hs, rfl, hstored⟩
      · rcases List.mem_cons.mp hs with rfl | hs
        · exact ⟨_, List.mem_cons_self, rfl, by simp⟩
        · exact ⟨s, List.mem_cons_of_mem _ hs, rfl, hstored⟩
      · rcases List.mem_cons.mp hs with rfl | hs
        · exact ⟨s, List.mem_cons_self, rfl, hstored⟩
        · obtain ⟨u, hu, hbase, hne⟩ := ih hs
          exact ⟨u, List.mem_cons_of_mem t hu, hbase, hne⟩

/-- Nothing is stored behind the segments of a plan. -/
theorem placements_behind {next stop : ℕ} {plan : Layout.Plan}
    (h : layout.Placements next plan stop) :
    ∀ write ∈ plan, ∀ s ∈ layout, write.1 < s.base → s.entries = [] := by
  induction h with
  | nil =>
      intro write hwrite
      cases hwrite
  | @cons layout next base stop e plan hplace hfirst hrest ih =>
      intro write hwrite s hs hlt
      rcases List.mem_cons.mp hwrite with rfl | hwrite
      · exact hplace.behind s hs hlt
      · by_contra hstored
        obtain ⟨t, ht, hbase, hne⟩ := stored_place base e hs hstored
        exact hne (ih write hwrite t ht (hbase ▸ hlt))

theorem Represents.extendsLast_appendBatch (hrep : log.Represents Z layout) {clock : AppendClock}
    {records : List AppendRecord} (hbound : log.nextOffset + records.length < 2 ^ 64)
    {metas : List RecordMetadata}
    (happend : log.appendBatch clock none records = (log', .ok metas)) :
    ExtendsLast log.dir.logs log'.dir.logs := by
  rcases appendBatch_ok happend with ⟨-, rfl⟩ | ⟨hlogs, -, -⟩
  · exact ⟨fun name ↦ List.prefix_refl _, fun name hchanged ↦ absurd rfl hchanged⟩
  obtain ⟨plan, hplan⟩ := hrep.stageBatch_follows clock hbound
  rw [hplan.writes] at hlogs
  refine extendsLast_writeAll hrep.logs hrep.placed.bases ?_ hlogs
  intro write hwrite
  obtain ⟨placed, hplaced, rfl⟩ := List.mem_map.mp hwrite
  exact placements_behind hplan.placed placed hplaced

theorem Represents.extendsLast_appendEncodedBatch (hrep : log.Represents Z layout) {codec : Codec}
    {encodedRecords : Bytes} {uncompressedBytes : UInt32} {decodedRecords : List AppendRecord}
    {timestamp : UInt64} {metadata : BatchMetadata}
    (happend : PartitionLog.appendEncodedBatch Z log codec encodedRecords uncompressedBytes
      decodedRecords timestamp none = (log', .ok metadata)) :
    ExtendsLast log.dir.logs log'.dir.logs := by
  obtain ⟨-, hlogs, -, -⟩ := appendEncodedBatch_parts happend
  obtain ⟨segment, hplace, hstaged⟩ :=
    hrep.stageEncodedBatch (LogState.validate_of_appendEncodedBatch happend) timestamp
  rw [hstaged] at hlogs
  set encoded := (batchEntry log.nextOffset codec encodedRecords decodedRecords timestamp).bytes
  have hwritten : log'.dir.logs = log.dir.logs.writeAll [(segment, encoded)] := hlogs
  refine extendsLast_writeAll hrep.logs hrep.placed.bases ?_ hwritten
  intro write hwrite
  rw [List.mem_singleton.mp hwrite]
  exact hplace.behind

end Extends

end PartitionLog

/-! ## Runs -/

namespace LogState

open PartitionLog

variable {Z : Zstd} {options : PartitionLogOptions} {state state' : LogState} {layout : Layout}

/-- No call adds an index entry that ends outside the bound. -/
theorem Tracks.endsWithin (h : state.Tracks Z options layout) (hopen : OpenOptions options)
    (hdecodable : ∀ e ∈ layout.entries, e.Decodable options.maxUncompressedBatchBytes)
    (hends : ∀ entry ∈ state.log.index, EndsWithin options.maxSegmentBytes entry) {op : LogOp}
    (hstep : state.step Z op = some state') :
    ∀ entry ∈ state'.log.index, EndsWithin options.maxSegmentBytes entry := by
  rw [← h.options] at hends ⊢
  cases op with
  | append clock key value =>
      obtain ⟨metas, happend, -⟩ := step_appendBatch (step_append hstep)
      exact endsWithin_appendBatch hends happend
  | appendBatch clock records =>
      obtain ⟨metas, happend, -⟩ := step_appendBatch hstep
      exact endsWithin_appendBatch hends happend
  | appendEncodedBatch codec encodedRecords uncompressedBytes decodedRecords timestamp =>
      obtain ⟨metadata, happend, -⟩ := step_appendEncodedBatch hstep
      exact endsWithin_appendEncodedBatch hends happend
  | applyRetention env policy =>
      obtain ⟨⟨stats, hretention⟩, -⟩ := step_applyRetention hstep
      obtain ⟨walk, -, hlog, -⟩ := applyRetention_ok hretention
      rw [hlog]
      intro entry hentry
      exact hends entry (List.mem_of_mem_filter hentry)
  | reopen =>
      obtain ⟨hopened, -⟩ := step_reopen hstep
      obtain ⟨log', hopened', -, -, hrep'⟩ := h.represents.openLog (h.options ▸ hopen)
        (h.options ▸ hdecodable) state.log.dir.indexes
      obtain rfl : state'.log = log' := Except.ok.inj (hopened.symm.trans hopened')
      rwa [hrep'.index, ← h.represents.index]

/-- The layout of a run and the ends of its entries. -/
theorem run_endsWithin {log : PartitionLog} {ops : List LogOp}
    (hopened : openLog Z options {} = .ok log) (hsized : ∀ op ∈ ops, op.Sized)
    (hvalues : ∀ op ∈ ops, op.ValuesPresent)
    (hrun : run (step Z) ⟨log, []⟩ ops = some state) (hbound : state.acked.length < 2 ^ 64) :
    ∃ layout, TracksDecodable Z options state layout ∧
      ∀ entry ∈ state.log.index, EndsWithin options.maxSegmentBytes entry := by
  have hopen := openOptions_of_openLog hopened
  refine run_invariant (fun _ op ↦ op.Sized ∧ op.ValuesPresent)
    (fun state ↦ state.acked.length < 2 ^ 64 → ∃ layout, TracksDecodable Z options state layout ∧
      ∀ entry ∈ state.log.index, EndsWithin options.maxSegmentBytes entry) ?_
    (along_of_forall (fun op hop _ ↦ ⟨hsized op hop, hvalues op hop⟩) _) hrun ?_ hbound
  · intro state op state' ⟨hsized, hvalues⟩ hstep hinv hbound
    have hlength := length_acked_step hstep
    obtain ⟨layout, hlayout, hends⟩ := hinv (by omega)
    obtain ⟨layout', hlayout', -⟩ := hlayout.step hopen hsized hvalues hbound hstep
    exact ⟨layout', hlayout', hlayout.1.endsWithin hopen hlayout.2 hends hstep⟩
  · intro _
    obtain ⟨layout, hlayout, hnil⟩ := tracks_opened hopened
    have hindex : log.index = [] := by
      rw [hlayout.represents.index]
      exact Layout.index_of_entries_nil (List.flatMap_eq_nil_iff.mp hnil)
    refine ⟨layout, ⟨hlayout, by simp [hnil]⟩, ?_⟩
    dsimp only
    rw [hindex]
    simp

/-- Appends go to the last segment that has entries, or behind it. -/
theorem Tracks.extendsLast (h : state.Tracks Z options layout) {op : LogOp}
    (happend : op.IsAppend) (hstep : state.step Z op = some state')
    (hbound : state'.acked.length < 2 ^ 64) :
    ExtendsLast state.log.dir.logs state'.log.dir.logs := by
  have hlength := length_acked_step hstep
  rw [← h.next] at hlength
  cases op with
  | append clock key value =>
      obtain ⟨metas, happend, -⟩ := step_appendBatch (step_append hstep)
      apply h.represents.extendsLast_appendBatch _ happend
      exact hlength ▸ hbound
  | appendBatch clock records =>
      obtain ⟨metas, happend, -⟩ := step_appendBatch hstep
      apply h.represents.extendsLast_appendBatch _ happend
      exact hlength ▸ hbound
  | appendEncodedBatch codec encodedRecords uncompressedBytes decodedRecords timestamp =>
      obtain ⟨metadata, happend, -⟩ := step_appendEncodedBatch hstep
      exact h.represents.extendsLast_appendEncodedBatch happend
  | applyRetention => exact happend.elim
  | reopen => exact happend.elim

end LogState

/-- In every run whose encoded batches fit their byte count, the segments are laid out and
the next append extends the last one or starts another. -/
theorem run_laidOut (Z : Zstd) (options : PartitionLogOptions) (log : PartitionLog)
    (hopened : PartitionLog.openLog Z options {} = .ok log) (ops : List LogOp)
    (hsized : ∀ op ∈ ops, op.Sized) (hvalues : ∀ op ∈ ops, op.ValuesPresent) (state : LogState)
    (hrun : run (LogState.step Z) ⟨log, []⟩ ops = some state)
    (hbound : state.acked.length < 2 ^ 64) :
    state.log.options = options ∧ (∃ segments, state.log.LaidOut Z segments) ∧
      ∀ op state', op.IsAppend → state.step Z op = some state' →
        state'.acked.length < 2 ^ 64 →
          PartitionLog.ExtendsLast state.log.dir.logs state'.log.dir.logs := by
  obtain ⟨layout, ⟨htracks, hdecodable⟩, hends⟩ :=
    LogState.run_endsWithin hopened hsized hvalues hrun hbound
  refine ⟨htracks.options, ⟨_, htracks.represents.laidOut ?_ ?_⟩, ?_⟩
  · rwa [htracks.options]
  · rwa [htracks.options]
  · intro op state' happend hstep hbound'
    exact htracks.extendsLast happend hstep hbound'

/-- Two segments of a short run, the first batch compressed. -/
theorem run_laidOut_shortRun :
    ∃ state, run (LogState.step rawBlockZstd) ⟨PartitionLog.emptyLog smallSegments, []⟩ shortRun =
        some state ∧
      state.log.dir.logs.map Prod.fst = [1, 2] ∧
      ∃ segments, state.log.LaidOut rawBlockZstd segments := by
  have hends : (run (LogState.step rawBlockZstd) ⟨PartitionLog.emptyLog smallSegments, []⟩
      shortRun).map (fun state ↦ (state.acked.length, state.log.dir.logs.map Prod.fst)) =
        some (3, [1, 2]) := by decide
  obtain ⟨state, hrun, hstate⟩ := Option.map_eq_some_iff.mp hends
  obtain ⟨hacked, hnames⟩ := Prod.mk.inj hstate
  have hlaidOut := run_laidOut rawBlockZstd smallSegments _
    (PartitionLog.openLog_empty ⟨by decide, by decide⟩ rawBlockZstd) shortRun sized_shortRun
    valuesPresent_shortRun state hrun (by rw [hacked]; decide)
  exact ⟨state, hrun, hnames, hlaidOut.2.1⟩

/-! ## A batch that does not fit its byte count -/

namespace PartitionLog

/-- No entry lies in front of a byte count that wraps to a small one. -/
theorem not_isEntry_of_wraps {Z : Zstd} {options : PartitionLogOptions} {e : Entry}
    (hwraps : e.recordBytes % 2 ^ 32 < kMinimumRecordBytes) {c : Bytes} (hfront : c <+: e.bytes) :
    ¬ IsEntry Z options c := by
  intro h
  obtain ⟨rest, hrest⟩ := hfront
  have hcount : readU32Be e.bytes 0 = e.recordBytes % 2 ^ 32 := by
    rw [Entry.bytes_eq, readU32Be_front]
  rw [← hrest, readU32Be_append rest h.four_le] at hcount
  have hle := h.2.1
  omega

/-- A log with such an entry alone in a segment. -/
theorem not_laidOut_of_wraps {Z : Zstd} {log : PartitionLog} {e : Entry}
    (hwraps : e.recordBytes % 2 ^ 32 < kMinimumRecordBytes) {name : ℕ}
    (hlogs : log.dir.logs = [(name, e.bytes)]) (segments : List (ℕ × List Bytes)) :
    ¬ log.LaidOut Z segments := by
  intro h
  have hfile : (name, e.bytes) ∈ segments.map fun s ↦ (s.1, s.2.flatten) := by
    rw [← h.logs, hlogs]
    exact List.mem_singleton.mpr rfl
  obtain ⟨s, hs, hsame⟩ := List.mem_map.mp hfile
  have hbytes : s.2.flatten = e.bytes := congrArg Prod.snd hsame
  cases hpieces : s.2 with
  | nil =>
      rw [hpieces, List.flatten_nil] at hbytes
      have hpos := e.bytes_length_pos
      rw [← hbytes] at hpos
      exact absurd hpos (lt_irrefl 0)
  | cons c cs =>
      rw [hpieces, List.flatten_cons] at hbytes
      refine not_isEntry_of_wraps hwraps ⟨cs.flatten, hbytes⟩ (h.entries s hs c ?_)
      rw [hpieces]
      exact List.mem_cons_self

end PartitionLog

/-- Small segments and batches of any size. -/
def largeBatches : PartitionLogOptions :=
  { smallSegments with maxUncompressedBatchBytes := 2 ^ 32 - 1 }

/-- A batch of 2^32 bytes leaves a segment that is longer than allowed and holds no
entry. -/
theorem wrapped_batch_not_laidOut :
    PartitionLog.openLog noZstd largeBatches {} = .ok (PartitionLog.emptyLog largeBatches) ∧
    (oneRecordBatch (List.replicate (2 ^ 32 - 52) 0)
      (UInt32.ofNat (2 ^ 32 - 40))).ValuesPresent ∧
    ∃ state, run (LogState.step noZstd) ⟨PartitionLog.emptyLog largeBatches, []⟩
        [oneRecordBatch (List.replicate (2 ^ 32 - 52) 0) (UInt32.ofNat (2 ^ 32 - 40))] =
          some state ∧
      (∃ file ∈ state.log.dir.logs, largeBatches.maxSegmentBytes < file.2.length ∧
        ¬ PartitionLog.IsEntry noZstd largeBatches file.2) ∧
      ∀ segments, ¬ state.log.LaidOut noZstd segments := by
  have hlength : (List.replicate (2 ^ 32 - 52) (0 : UInt8)).length = 2 ^ 32 - 52 :=
    List.length_replicate
  obtain ⟨state, hstep, -, -, -, -, hlogs⟩ := step_oneRecordBatch noZstd largeBatches
    (List.replicate (2 ^ 32 - 52) 0) (UInt32.ofNat (2 ^ 32 - 40)) (by rw [hlength]; decide)
    (by rw [hlength, largeBatches]; norm_num)
  obtain ⟨e, hbytes, hlogs⟩ : ∃ e : Entry, e.recordBytes = 2 ^ 32 ∧
      state.log.dir.logs = [(0, e.bytes)] := ⟨_, recordBytes_wraps hlength, hlogs⟩
  have hwraps : e.recordBytes % 2 ^ 32 < kMinimumRecordBytes := by
    rw [hbytes]
    decide
  refine ⟨PartitionLog.openLog_empty ⟨by decide, by decide⟩ noZstd, ?_, state,
    by rw [run, hstep]; rfl, ⟨_, by rw [hlogs]; exact List.mem_singleton.mpr rfl, ?_, ?_⟩, ?_⟩
  · intro record hrecord
    rw [List.mem_singleton.mp hrecord]
    exact fun h ↦ absurd (congrArg List.length h) (by rw [hlength]; decide)
  · dsimp only
    rw [Entry.length_bytes, hbytes, largeBatches]
    decide
  · exact PartitionLog.not_isEntry_of_wraps hwraps (List.prefix_refl _)
  · exact PartitionLog.not_laidOut_of_wraps hwraps hlogs

end BoltStream.Storage
