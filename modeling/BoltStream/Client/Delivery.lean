import BoltStream.Broker.CommittedFetch
import BoltStream.Broker.Deliverable
import BoltStream.Client.GroupRun

/-!
# At-least-once delivery

Below a committed offset every offset was printed, or retention had removed it
before a fetch started above it.  The invariant follows a commit back to its page:
a page leaves out nothing that is retained, it starts where everything below is
accounted for, and the consumer commits behind what it has printed.
-/

namespace BoltStream.Client

open BoltStream.Lib BoltStream.Protocol BoltStream.Compression BoltStream.Storage BoltStream.Broker

/-! ## Accounted offsets -/

/-- An offset was printed, or it was removed when no fetch had started above it. -/
def Accounted (history : List Event) (partition offset : ℕ) : Prop :=
  (∃ memberId generationId record,
    Event.printed memberId generationId partition record ∈ history ∧ record.offset = offset) ∨
  ∃ before after, history = before ++ .removed partition offset :: after ∧
    ∀ start, Event.fetched partition start ∈ before → start ≤ offset

/-- Everything below an offset is accounted for. -/
def Covered (history : List Event) (partition bound : ℕ) : Prop :=
  ∀ offset < bound, Accounted history partition offset

section Accounting

variable {history : List Event} {partition offset bound : ℕ}

theorem Accounted.append (h : Accounted history partition offset) (events : List Event) :
    Accounted (history ++ events) partition offset := by
  rcases h with ⟨memberId, generationId, record, hprinted, hoffset⟩ | ⟨before, after, rfl, hbefore⟩
  · exact Or.inl ⟨memberId, generationId, record, List.mem_append_left _ hprinted, hoffset⟩
  · exact Or.inr ⟨before, after ++ events, by simp, hbefore⟩

theorem Covered.append (h : Covered history partition bound) (events : List Event) :
    Covered (history ++ events) partition bound :=
  fun offset hlt ↦ (h offset hlt).append events

theorem Covered.succ (h : Covered history partition bound)
    (hbound : Accounted history partition bound) : Covered history partition (bound + 1) := by
  intro offset hlt
  rcases Nat.lt_succ_iff_lt_or_eq.mp hlt with hlt | rfl
  · exact h offset hlt
  · exact hbound

/-- Where fetches start above covered offsets only, a removed offset is accounted
for: if a fetch came first, then by what made it start there. -/
theorem accounted_of_removed
    (hfetched : ∀ start, Event.fetched partition start ∈ history → Covered history partition start)
    (h : Event.removed partition offset ∈ history) : Accounted history partition offset := by
  by_cases habove : ∃ start, Event.fetched partition start ∈ history ∧ offset < start
  · obtain ⟨start, hstart, hlt⟩ := habove
    exact hfetched start hstart offset hlt
  · obtain ⟨before, after, hsplit⟩ := List.append_of_mem h
    refine Or.inr ⟨before, after, hsplit, fun start hstart ↦ ?_⟩
    refine Nat.le_of_not_lt fun hlt ↦ habove ⟨start, ?_, hlt⟩
    rw [hsplit]
    exact List.mem_append_left _ hstart

end Accounting

/-! ## Pages -/

/-- Records that may be printed and committed one after another. -/
structure Page (history : List Event) (partition : ℕ) (records : List FetchRecord) : Prop where
  increasing : records.Pairwise fun r r' ↦ r.offset < r'.offset
  bounded : ∀ r ∈ records, r.offset + 1 < 2 ^ 64
  preceded : ∀ r ∈ records, ∀ offset < r.offset, Accounted history partition offset ∨
    ∃ r' ∈ records, r'.offset = offset

section Pages

variable {history : List Event} {partition : ℕ} {record : FetchRecord} {records : List FetchRecord}

theorem Page.append (h : Page history partition records) (events : List Event) :
    Page (history ++ events) partition records :=
  ⟨h.increasing, h.bounded, fun r hr offset hlt ↦
    (h.preceded r hr offset hlt).imp_left fun haccounted ↦ haccounted.append events⟩

/-- Before the first record of a page everything is accounted for. -/
theorem Page.covered (h : Page history partition (record :: records)) :
    Covered history partition record.offset := by
  intro offset hlt
  rcases h.preceded record List.mem_cons_self offset hlt with haccounted | ⟨r, hr, rfl⟩
  · exact haccounted
  · rcases List.mem_cons.mp hr with rfl | hr
    · omega
    · have habove := (List.pairwise_cons.mp h.increasing).1 r hr
      omega

/-- What printing a record does to its page. -/
theorem Page.print (h : Page history partition (record :: records)) (memberId : Bytes)
    (generationId : ℕ) :
    Covered (history ++ [.printed memberId generationId partition record]) partition
        (record.offset + 1) ∧
      Page (history ++ [.printed memberId generationId partition record]) partition records := by
  have hprinted : Accounted (history ++ [.printed memberId generationId partition record])
      partition record.offset :=
    Or.inl ⟨memberId, generationId, record, List.mem_append_right _ List.mem_cons_self, rfl⟩
  refine ⟨(h.covered.append _).succ hprinted, (List.pairwise_cons.mp h.increasing).2,
    fun r hr ↦ h.bounded r (List.mem_cons_of_mem _ hr), fun r hr offset hlt ↦ ?_⟩
  rcases h.preceded r (List.mem_cons_of_mem _ hr) offset hlt with haccounted | ⟨r', hr', rfl⟩
  · exact Or.inl (haccounted.append _)
  · rcases List.mem_cons.mp hr' with rfl | hr'
    · exact Or.inl hprinted
    · exact Or.inr ⟨r', hr', rfl⟩

end Pages

/-! ## The invariant -/

/-- The pages and commits of a consumer are sound. -/
def SoundPhase (Z : Zstd) (history : List Event) (reply : Option GroupReply) : Phase → Prop
  | .fetching partition _ _ => ∀ answer, reply = some (.fetched answer) →
      ∀ response, openAnswer Z kDefaultMaxFrameBytes answer = .ok response →
        response.partition = partition ∧ Page history partition response.records
  | .printing partition response records commitNextOffset _ =>
      response.partition = partition ∧ Page history partition records ∧
        (records = [] → Covered history partition commitNextOffset)
  | .committing partition commitNextOffset _ => Covered history partition commitNextOffset
  | _ => True

/-- A request that may be served. -/
def SoundRequest (history : List Event) : GroupRequest → Prop
  | .commit _ _ partition nextOffset => Covered history partition nextOffset
  | _ => True

/-- The logs as they are, and which of their offsets are gone. -/
structure SoundLogs (Z : Zstd) (config : GroupConfig) (topic : GroupTopic)
    (history : List Event) : Prop where
  openable : ∀ partition < topic.partitionCount.toNat,
    PartitionLog.OpenOptions (config.server.logOptions config.topic partition)
  tracks : ∀ partition < topic.partitionCount.toNat, ∃ layout,
    LogState.TracksDecodable Z (config.server.logOptions config.topic partition)
      (topic.logs partition) layout
  removed : ∀ partition < topic.partitionCount.toNat,
    ∀ offset < (topic.logs partition).log.nextOffset,
      offset ∈ indexedOffsets (topic.logs partition).log ∨
        Event.removed partition offset ∈ history

structure Sound {C : Type*} (Z : Zstd) (config : GroupConfig) (s : GroupRun C) : Prop where
  logs : SoundLogs Z config s.topic s.history
  fetched : ∀ partition start, Event.fetched partition start ∈ s.history →
    Covered s.history partition start
  committed : ∀ partition committed,
    s.topic.offsets.committed config.group config.topic partition = some committed →
    Covered s.history partition committed
  phases : ∀ name consumer, s.consumers name = some consumer →
    SoundPhase Z s.history consumer.reply consumer.phase
  abandoned : ∀ request ∈ s.abandoned, SoundRequest s.history request

section Growing

variable {Z : Zstd} {history : List Event}

theorem SoundPhase.append {reply : Option GroupReply} {phase : Phase}
    (h : SoundPhase Z history reply phase) (events : List Event) :
    SoundPhase Z (history ++ events) reply phase := by
  cases phase with
  | fetching partition plain rest =>
      intro answer hanswer response hresponse
      obtain ⟨hpartition, hpage⟩ := h answer hanswer response hresponse
      exact ⟨hpartition, hpage.append events⟩
  | printing partition response records commitNextOffset rest =>
      obtain ⟨hpartition, hpage, hcovered⟩ := h
      exact ⟨hpartition, hpage.append events, fun hnil ↦ (hcovered hnil).append events⟩
  | committing partition commitNextOffset rest => exact Covered.append h events
  | _ => trivial

theorem SoundRequest.append {request : GroupRequest} (h : SoundRequest history request)
    (events : List Event) : SoundRequest (history ++ events) request := by
  cases request with
  | commit => exact Covered.append h events
  | _ => trivial

/-- Without records in hand a phase is as sound as with them. -/
theorem SoundPhase.of_reply {reply reply' : Option GroupReply} {phase : Phase}
    (h : SoundPhase Z history reply phase) (hreply : ∀ answer, reply' ≠ some (.fetched answer)) :
    SoundPhase Z history reply' phase := by
  cases phase with
  | fetching => exact fun answer hanswer ↦ absurd hanswer (hreply answer)
  | printing => exact h
  | committing => exact h
  | _ => trivial

theorem SoundPhase.request {consumer : Consumer} {request : GroupRequest}
    (h : SoundPhase Z history consumer.reply consumer.phase)
    (hrequest : consumer.request = some request) : SoundRequest history request := by
  unfold Consumer.request at hrequest
  cases hphase : consumer.phase with
  | committing partition commitNextOffset rest =>
      rw [hphase] at h hrequest
      obtain rfl := Option.some.inj hrequest
      exact h
  | _ =>
      rw [hphase] at hrequest
      cases hrequest <;> trivial

end Growing

/-! ## Where fetches start, and what they bring -/

section Fetching

variable {Z : Zstd} {config : GroupConfig} {topic : GroupTopic} {history : List Event}
  {partition : ℕ}

theorem mem_indexedOffsets_iff {options : PartitionLogOptions} {state : LogState} {layout : Layout}
    (h : state.Tracks Z options layout) {offset : ℕ} :
    offset ∈ indexedOffsets state.log ↔ ∃ r ∈ layout.records, r.offset = offset := by
  rw [indexedOffsets, h.represents.index,
    Layout.map_offset_index fun e he ↦ (h.represents.written e he).stop_lt, List.mem_map]

/-- What is below the earliest offset is gone. -/
theorem SoundLogs.covered_earliest (h : SoundLogs Z config topic history)
    (hfetched : ∀ start, Event.fetched partition start ∈ history → Covered history partition start)
    (hpartition : partition < topic.partitionCount.toNat) :
    Covered history partition (topic.logs partition).log.earliestOffset := by
  intro offset hlt
  obtain ⟨layout, htracks, -⟩ := h.tracks partition hpartition
  have hnext := earliestOffset_le_nextOffset htracks.represents
  rcases h.removed partition hpartition offset (by omega) with hindexed | hremoved
  · obtain ⟨r, hr, rfl⟩ := (mem_indexedOffsets_iff htracks).mp hindexed
    have hle := earliestOffset_le htracks.represents hr
    omega
  · exact accounted_of_removed hfetched hremoved

theorem SoundLogs.covered_start (h : SoundLogs Z config topic history)
    (hfetched : ∀ start, Event.fetched partition start ∈ history → Covered history partition start)
    (hcommitted : ∀ committed,
      topic.offsets.committed config.group config.topic partition = some committed →
      Covered history partition committed)
    {position : ℕ} (hstarts : GroupTopic.StartsAt config topic partition position) :
    Covered history partition position := by
  have hresolved := hstarts.resolved
  rw [resolveFetchOffset] at hresolved
  split_ifs at hresolved with hbeginning hlatest hselector hgroup
  · exact absurd hbeginning (show committedSelector ≠ beginningSelector by decide)
  · exact absurd hlatest (show committedSelector ≠ latestSelector by decide)
  · rw [checkOffsetRange] at hresolved
    split_ifs at hresolved
    have hposition := Except.ok.inj hresolved
    dsimp only [GroupTopic.committedRequest] at hposition
    cases hstored : topic.offsets.committed config.group config.topic partition with
    | none =>
        rw [hstored, Option.getD_none] at hposition
        exact hposition ▸ h.covered_earliest hfetched hstarts.exists_log
    | some committed =>
        rw [hstored, Option.getD_some] at hposition
        exact hposition ▸ hcommitted committed hstored
  · exact absurd rfl hselector

/-- A stretch of the log from a covered offset on is a page. -/
theorem SoundLogs.page (h : SoundLogs Z config topic history)
    (hfetched : ∀ start, Event.fetched partition start ∈ history → Covered history partition start)
    (hpartition : partition < topic.partitionCount.toNat) {layout : Layout}
    (htracks : LogState.Tracks Z (config.server.logOptions config.topic partition)
      (topic.logs partition) layout) {position : ℕ} (hcovered : Covered history partition position)
    {records : List FetchRecord} (hstretch : StretchOf layout position records) :
    Page history partition records := by
  have hbelow : ∀ r ∈ records, r.offset < (topic.logs partition).log.nextOffset := by
    intro r hr
    obtain ⟨e, he, hre⟩ := List.mem_flatMap.mp (hstretch.stored r hr)
    exact (Layout.mem_entry_records hre).2.trans_le (htracks.represents.placed.stop_le e he)
  refine ⟨hstretch.increasing, fun r hr ↦ ?_, fun r hr offset hlt ↦ ?_⟩
  · have hnext := hbelow r hr
    have hbound := htracks.represents.bound
    omega
  · by_cases hstart : offset < position
    · exact Or.inl (hcovered offset hstart)
    · have hnext := hbelow r hr
      rcases h.removed partition hpartition offset (by omega) with hindexed | hremoved
      · obtain ⟨r', hr', rfl⟩ := (mem_indexedOffsets_iff htracks).mp hindexed
        exact Or.inr (hstretch.complete r hr r' hr' (by omega) hlt)
      · exact Or.inl (accounted_of_removed hfetched hremoved)

end Fetching

/-! ## Steps of a consumer -/

/-- A consumer that has neither records nor a commit in hand. -/
def Consumer.Quiet (consumer : Consumer) : Prop :=
  consumer.reply = none ∧
    match consumer.phase with
    | .printing _ _ _ _ _ => False
    | .committing _ _ _ => False
    | _ => True

section Quiet

variable {Z : Zstd} {history : List Event} {consumer : Consumer}

theorem Consumer.Quiet.sound (h : consumer.Quiet) :
    SoundPhase Z history consumer.reply consumer.phase := by
  obtain ⟨hreply, hphase⟩ := h
  cases hcase : consumer.phase with
  | fetching => exact fun answer hanswer ↦ absurd (hreply.symm.trans hanswer) nofun
  | printing => rw [hcase] at hphase; exact hphase.elim
  | committing => rw [hcase] at hphase; exact hphase.elim
  | _ => trivial

theorem Consumer.quiet_exit (consumer : Consumer) (code : ℕ) : (consumer.exit code).Quiet :=
  ⟨rfl, trivial⟩

theorem Consumer.quiet_rejoinOrExit (consumer : Consumer) (after : AfterJoin)
    (code : Option ErrorCode) : (consumer.rejoinOrExit after code).Quiet := by
  rw [rejoinOrExit]
  split_ifs
  · exact ⟨rfl, trivial⟩
  · exact consumer.quiet_exit _

theorem Consumer.quiet_startPolling (consumer : Consumer) : consumer.startPolling.Quiet :=
  ⟨rfl, trivial⟩

theorem Consumer.quiet_afterSync (consumer : Consumer) (attempt : ℕ) (after : AfterJoin) (now : ℤ)
    (reply : GroupReply) : (consumer.afterSync attempt after now reply).Quiet := by
  unfold afterSync
  split
  · cases after <;> exact ⟨rfl, trivial⟩
  · split_ifs
    · exact ⟨rfl, trivial⟩
    · exact consumer.quiet_exit _
    · exact consumer.quiet_exit _
  · exact consumer.quiet_exit _

theorem Consumer.quiet_afterCommit (consumer : Consumer) (rest : List ℕ) (reply : GroupReply) :
    (consumer.afterCommit rest reply).Quiet := by
  unfold afterCommit
  split
  · split_ifs <;> exact ⟨rfl, trivial⟩
  · exact consumer.quiet_rejoinOrExit _ _
  · exact consumer.quiet_exit _

end Quiet

section Resume

variable {Z : Zstd} {history : List Event}

/-- A response with records is taken over as it is. -/
theorem afterFetch_sound {consumer : Consumer} {partition : ℕ} {rest : List ℕ} {reply : GroupReply}
    (h : ∀ answer, reply = .fetched answer →
      ∀ response, openAnswer Z kDefaultMaxFrameBytes answer = .ok response →
        response.partition = partition ∧ Page history partition response.records) :
    SoundPhase Z history (consumer.afterFetch Z partition rest reply).reply
      (consumer.afterFetch Z partition rest reply).phase := by
  unfold Consumer.afterFetch
  split
  · next answer =>
      split
      · exact (consumer.quiet_exit _).sound
      · next response hopened =>
          obtain ⟨hpartition, hpage⟩ := h answer rfl response hopened
          split_ifs with hempty
          · trivial
          · exact ⟨hpartition, hpage, fun hnil ↦ absurd hnil hempty⟩
  · exact (consumer.quiet_exit _).sound
  · exact (consumer.quiet_exit _).sound

theorem printRecord_sound (consumer : Consumer) {partition : ℕ} {response : FetchResponse}
    {record : FetchRecord} {records : List FetchRecord} (rest : List ℕ)
    (hpartition : response.partition = partition)
    (hpage : Page history partition (record :: records)) :
    SoundPhase Z
      (history ++
        [.printed consumer.memberId consumer.generationId response.partition record])
      (consumer.printRecord partition response record records rest).reply
      (consumer.printRecord partition response record records rest).phase := by
  have hnext : (record.offset + 1) % 2 ^ 64 = record.offset + 1 :=
    Nat.mod_eq_of_lt (hpage.bounded record List.mem_cons_self)
  obtain ⟨hcovered, hrest⟩ := hpage.print consumer.memberId consumer.generationId
  rw [hpartition]
  unfold Consumer.printRecord
  simp only [hnext]
  split_ifs
  · exact hcovered
  · exact ⟨hpartition, hrest, fun _ ↦ hcovered⟩

/-- Only where it fetches and prints does a consumer have to do with records. -/
theorem resume_quiet {consumer consumer' : Consumer} {now : ℤ} {events : List Event}
    (hfetching : ∀ partition plain rest, consumer.phase ≠ .fetching partition plain rest)
    (hprinting : ∀ partition response records commitNextOffset rest,
      consumer.phase ≠ .printing partition response records commitNextOffset rest)
    (hresume : consumer.resume Z now = some (consumer', events)) :
    consumer'.Quiet ∧ events = [] := by
  unfold Consumer.resume at hresume
  have hquiet : ∀ {consumer'' : Consumer}, consumer''.Quiet →
      (consumer'', ([] : List Event)) = (consumer', events) → consumer'.Quiet ∧ events = [] := by
    intro consumer'' hquiet heq
    obtain ⟨rfl, rfl⟩ := Prod.mk.inj heq
    exact ⟨hquiet, rfl⟩
  cases hphase : consumer.phase with
  | joining attempt after =>
      simp only [hphase, Option.map_eq_some_iff] at hresume
      obtain ⟨reply, -, heq⟩ := hresume
      split at heq
      · exact hquiet ⟨rfl, trivial⟩ heq
      · exact hquiet (consumer.quiet_exit _) heq
      · exact hquiet (consumer.quiet_exit _) heq
  | syncing attempt after =>
      simp only [hphase, Option.map_eq_some_iff] at hresume
      obtain ⟨reply, -, heq⟩ := hresume
      exact hquiet (consumer.quiet_afterSync _ _ _ _) heq
  | turning =>
      simp only [hphase] at hresume
      split_ifs at hresume
      · exact hquiet ⟨rfl, trivial⟩ (Option.some.inj hresume)
      · exact hquiet consumer.quiet_startPolling (Option.some.inj hresume)
  | heartbeating =>
      simp only [hphase, Option.map_eq_some_iff] at hresume
      obtain ⟨reply, -, heq⟩ := hresume
      split at heq
      · exact hquiet (consumer.quiet_rejoinOrExit _ _) heq
      · exact hquiet (Consumer.quiet_startPolling _) heq
  | polling rest =>
      cases rest with
      | nil =>
          simp only [hphase] at hresume
          exact hquiet ⟨rfl, trivial⟩ (Option.some.inj hresume)
      | cons partition rest =>
          simp only [hphase] at hresume
          exact hquiet ⟨rfl, trivial⟩ (Option.some.inj hresume)
  | fetching partition plain rest => exact absurd hphase (hfetching partition plain rest)
  | printing partition response records commitNextOffset rest =>
      exact absurd hphase (hprinting partition response records commitNextOffset rest)
  | committing partition commitNextOffset rest =>
      simp only [hphase, Option.map_eq_some_iff] at hresume
      obtain ⟨reply, -, heq⟩ := hresume
      exact hquiet (consumer.quiet_afterCommit _ _) heq
  | settling =>
      simp only [hphase] at hresume
      refine hquiet ⟨rfl, ?_⟩ (Option.some.inj hresume)
      cases consumer.running <;> trivial
  | idling =>
      simp only [hphase] at hresume
      split_ifs at hresume
      · exact hquiet ⟨rfl, trivial⟩ (Option.some.inj hresume)
      · exact hquiet ⟨rfl, trivial⟩ (Option.some.inj hresume)
  | leaving =>
      simp only [hphase, Option.map_eq_some_iff] at hresume
      obtain ⟨reply, -, heq⟩ := hresume
      exact hquiet (consumer.quiet_exit _) heq
  | stopped exitCode =>
      simp only [hphase] at hresume
      cases hresume

/-- A consumer that takes its next step stays sound, and it only prints. -/
theorem resume_sound {consumer consumer' : Consumer} {now : ℤ} {events : List Event}
    (h : SoundPhase Z history consumer.reply consumer.phase)
    (hresume : consumer.resume Z now = some (consumer', events)) :
    SoundPhase Z (history ++ events) consumer'.reply consumer'.phase ∧
      ∀ partition start, Event.fetched partition start ∉ events := by
  by_cases hfetching : ∃ partition plain rest, consumer.phase = .fetching partition plain rest
  · obtain ⟨partition, plain, rest, hphase⟩ := hfetching
    unfold Consumer.resume at hresume
    simp only [hphase, Option.map_eq_some_iff] at hresume
    obtain ⟨reply, hreply, heq⟩ := hresume
    obtain ⟨rfl, rfl⟩ := Prod.mk.inj heq
    rw [hphase, hreply] at h
    rw [List.append_nil]
    exact ⟨afterFetch_sound fun answer hanswer ↦ h answer (congrArg some hanswer),
      fun _ _ ↦ List.not_mem_nil⟩
  by_cases hprinting : ∃ partition response records commitNextOffset rest,
      consumer.phase = .printing partition response records commitNextOffset rest
  · obtain ⟨partition, response, records, commitNextOffset, rest, hphase⟩ := hprinting
    unfold Consumer.resume at hresume
    rw [hphase] at h
    obtain ⟨hpartition, hpage, hcovered⟩ := h
    cases records with
    | nil =>
        simp only [hphase] at hresume
        obtain ⟨rfl, rfl⟩ := Prod.mk.inj (Option.some.inj hresume)
        rw [List.append_nil]
        exact ⟨hcovered rfl, fun _ _ ↦ List.not_mem_nil⟩
    | cons record records =>
        simp only [hphase] at hresume
        obtain ⟨rfl, rfl⟩ := Prod.mk.inj (Option.some.inj hresume)
        exact ⟨printRecord_sound consumer rest hpartition hpage, by simp⟩
  obtain ⟨hquiet, rfl⟩ := resume_quiet
    (fun partition plain rest hphase ↦ hfetching ⟨partition, plain, rest, hphase⟩)
    (fun partition response records commitNextOffset rest hphase ↦
      hprinting ⟨partition, response, records, commitNextOffset, rest, hphase⟩) hresume
  exact ⟨hquiet.sound, fun _ _ ↦ List.not_mem_nil⟩

end Resume

/-! ## Steps of a log -/

section Logs

variable {Z : Zstd} {config : GroupConfig} {topic : GroupTopic} {history : List Event}
  {partition : ℕ}

theorem SoundLogs.append (h : SoundLogs Z config topic history) (events : List Event) :
    SoundLogs Z config topic (history ++ events) :=
  ⟨h.openable, h.tracks, fun partition hpartition offset hlt ↦
    (h.removed partition hpartition offset hlt).imp_right fun hremoved ↦
      List.mem_append_left _ hremoved⟩

/-- A call on a log keeps the logs sound if it accounts for what it removes. -/
theorem SoundLogs.step (h : SoundLogs Z config topic history)
    (hpartition : partition < topic.partitionCount.toNat) {op : LogOp} (hsized : op.Sized)
    (hvalues : op.ValuesPresent) {state : LogState}
    (hstep : LogState.step Z (topic.logs partition) op = some state)
    (hbound : state.acked.length < 2 ^ 64)
    (hremoved : ∀ layout layout',
      LogState.Tracks Z (config.server.logOptions config.topic partition)
        (topic.logs partition) layout →
      LogState.Follows Z (topic.logs partition) state op layout layout' →
      ∀ offset < state.log.nextOffset, offset ∈ indexedOffsets state.log ∨
        Event.removed partition offset ∈ history) :
    SoundLogs Z config
      { topic with logs := Function.update topic.logs partition state } history := by
  obtain ⟨layout, hlayout⟩ := h.tracks partition hpartition
  obtain ⟨layout', hlayout', hfollows⟩ :=
    hlayout.step (h.openable partition hpartition) hsized hvalues hbound hstep
  refine ⟨h.openable, fun other hother ↦ ?_, fun other hother ↦ ?_⟩
  · by_cases hsame : other = partition
    · subst hsame
      dsimp only
      rw [Function.update_self]
      exact ⟨layout', hlayout'⟩
    · dsimp only
      rw [Function.update_of_ne hsame]
      exact h.tracks other hother
  · by_cases hsame : other = partition
    · subst hsame
      dsimp only
      rw [Function.update_self]
      exact hremoved layout layout' hlayout.1 hfollows
    · dsimp only
      rw [Function.update_of_ne hsame]
      exact h.removed other hother

/-- A produce removes nothing, and all it adds is indexed. -/
theorem SoundLogs.produce (h : SoundLogs Z config topic history)
    (hpartition : partition < topic.partitionCount.toNat) {op : LogOp} (happend : op.IsAppend)
    (hsized : op.Sized) (hvalues : op.ValuesPresent) {state : LogState}
    (hstep : LogState.step Z (topic.logs partition) op = some state)
    (hbound : state.acked.length < 2 ^ 64) :
    SoundLogs Z config
      { topic with logs := Function.update topic.logs partition state } history := by
  refine h.step hpartition hsized hvalues hstep hbound ?_
  intro layout layout' htracks hfollows offset hlt
  have htracks' := htracks.follow hfollows
  have hrecords : layout'.records =
      layout.records ++ (op.entries (topic.logs partition).log.nextOffset).flatMap
        Entry.records := by
    rw [Layout.records, hfollows.appended happend, List.flatMap_append]
    rfl
  have hnew := (op.consecutive (topic.logs partition).log.nextOffset).map_offset
  by_cases hold : offset < (topic.logs partition).log.nextOffset
  · refine (h.removed partition hpartition offset hold).imp_left fun hindexed ↦ ?_
    obtain ⟨r, hr, hoffset⟩ := (mem_indexedOffsets_iff htracks).mp hindexed
    refine (mem_indexedOffsets_iff htracks').mpr ⟨r, ?_, hoffset⟩
    rw [hrecords]
    exact List.mem_append_left _ hr
  · left
    have hmem : offset ∈ ((op.entries (topic.logs partition).log.nextOffset).flatMap
        Entry.records).map StoredRecord.offset := by
      rw [hnew, List.mem_range'_1]
      have hnext := hfollows.next
      omega
    obtain ⟨r, hr, hoffset⟩ := List.mem_map.mp hmem
    refine (mem_indexedOffsets_iff htracks').mpr ⟨r, ?_, hoffset⟩
    rw [hrecords]
    exact List.mem_append_right _ hr

/-- Retention records every offset that it removes. -/
theorem SoundLogs.retain (h : SoundLogs Z config topic history)
    (hpartition : partition < topic.partitionCount.toNat) {env : RetentionEnv}
    {policy : RetentionPolicy} {state : LogState}
    (hstep : LogState.step Z (topic.logs partition) (.applyRetention env policy) = some state)
    (hbound : state.acked.length < 2 ^ 64) :
    SoundLogs Z config { topic with logs := Function.update topic.logs partition state }
      (history ++ ((indexedOffsets (topic.logs partition).log).filter fun offset ↦
        decide (offset ∉ indexedOffsets state.log)).map (Event.removed partition)) := by
  have hsized : (LogOp.applyRetention env policy).Sized := trivial
  have hvalues : (LogOp.applyRetention env policy).ValuesPresent := trivial
  refine (h.append _).step hpartition hsized hvalues hstep hbound ?_
  intro layout layout' htracks hfollows offset hlt
  have hnext : state.log.nextOffset = (topic.logs partition).log.nextOffset := hfollows.next
  by_cases hkept : offset ∈ indexedOffsets state.log
  · exact Or.inl hkept
  · right
    rcases h.removed partition hpartition offset (hnext ▸ hlt) with hindexed | hremoved
    · refine List.mem_append_right _ (List.mem_map_of_mem (List.mem_filter.mpr ⟨hindexed, ?_⟩))
      exact decide_eq_true hkept
    · exact List.mem_append_left _ hremoved

end Logs

/-! ## Steps of the system -/

section Steps

variable {C : Type*} [DecidableEq C] {Z : Zstd} {config : GroupConfig} {s : GroupRun C}

theorem Sound.setConsumer (h : Sound Z config s) {name : C} {consumer : Consumer}
    (hphase : SoundPhase Z s.history consumer.reply consumer.phase) :
    Sound Z config (s.setConsumer name consumer) := by
  refine ⟨h.logs, h.fetched, h.committed, fun other found hfound ↦ ?_, h.abandoned⟩
  dsimp only [GroupRun.setConsumer] at hfound
  rcases eq_or_ne other name with rfl | hne
  · rw [Function.update_self] at hfound
    obtain rfl := Option.some.inj hfound
    exact hphase
  · rw [Function.update_of_ne hne] at hfound
    exact h.phases other found hfound

omit [DecidableEq C] in
theorem Sound.record (h : Sound Z config s) (events : List Event)
    (hfetched : ∀ partition start, Event.fetched partition start ∈ events →
      Covered s.history partition start) : Sound Z config (s.record events) := by
  refine ⟨h.logs.append events, fun partition start hmem ↦ ?_,
    fun partition committed hcommitted ↦ (h.committed partition committed hcommitted).append events,
    fun name consumer hconsumer ↦ (h.phases name consumer hconsumer).append events,
    fun request hrequest ↦ (h.abandoned request hrequest).append events⟩
  rcases List.mem_append.mp hmem with hmem | hmem
  · exact (h.fetched partition start hmem).append events
  · exact (hfetched partition start hmem).append events

omit [DecidableEq C] in
/-- A request was served: the stores of the broker have changed. -/
theorem Sound.setStores (h : Sound Z config s) (coordinator : GroupCoordinator)
    (offsets : OffsetStore)
    (hcommitted : ∀ partition committed,
      offsets.committed config.group config.topic partition = some committed →
      Covered s.history partition committed) :
    Sound Z config
      { s with topic := { s.topic with coordinator := coordinator, offsets := offsets } } :=
  ⟨⟨h.logs.openable, h.logs.tracks, h.logs.removed⟩, h.fetched, hcommitted, h.phases, h.abandoned⟩

omit [DecidableEq C] in
theorem Sound.serveTopic (h : Sound Z config s) (env : ServeEnv) {request : GroupRequest}
    (hrequest : SoundRequest s.history request) :
    Sound Z config { s with topic := (s.topic.serve Z config env request).1 } := by
  obtain ⟨coordinator, offsets, hframe, hcommits⟩ := GroupTopic.serve_frame request
  rw [hframe]
  refine h.setStores coordinator offsets fun partition committed hcommitted ↦ ?_
  rcases hcommits partition committed hcommitted with hbefore | ⟨memberId, generationId, rfl⟩
  · exact h.committed partition committed hbefore
  · exact hrequest

omit [DecidableEq C] in
/-- An answered request starts its fetch at a covered offset, and what it brings
is a page. -/
theorem Sound.answered (h : Sound Z config s) {env : ServeEnv} {request : GroupRequest}
    {reply : GroupReply} {start : Option ℕ}
    (hserved : (s.topic.serve Z config env request).2 = .answered reply start) :
    (∀ partition position, Event.fetched partition position ∈ GroupRun.startEvents start request →
        Covered s.history partition position) ∧
      ∀ partition plain, request = .fetch partition plain → ∀ answer, reply = .fetched answer →
        ∀ response, openAnswer Z kDefaultMaxFrameBytes answer = .ok response →
          response.partition = partition ∧ Page s.history partition response.records := by
  cases request with
  | fetch partition plain =>
      have htracks : ∃ layout, partition < s.topic.partitionCount.toNat →
          LogState.TracksDecodable Z (config.server.logOptions config.topic partition)
            (s.topic.logs partition) layout := by
        by_cases hpartition : partition < s.topic.partitionCount.toNat
        · obtain ⟨layout, hlayout⟩ := h.logs.tracks partition hpartition
          exact ⟨layout, fun _ ↦ hlayout⟩
        · exact ⟨[], fun hlt ↦ absurd hlt hpartition⟩
      obtain ⟨layout, htracks⟩ := htracks
      rcases GroupTopic.serve_fetch htracks hserved with
        ⟨rfl, code, rfl⟩ | ⟨position, rfl, hstarts, hbrings⟩
      · exact ⟨fun _ _ hmem ↦ absurd hmem List.not_mem_nil,
          fun _ _ _ answer hanswer ↦ by cases hanswer⟩
      · have hcovered : Covered s.history partition position :=
          h.logs.covered_start (h.fetched partition) (h.committed partition) hstarts
        refine ⟨fun other position' hmem ↦ ?_,
          fun other plain' heq answer hanswer response hopened ↦ ?_⟩
        · obtain ⟨rfl, rfl⟩ := Event.fetched.inj (List.mem_singleton.mp hmem)
          exact hcovered
        · obtain ⟨rfl, -⟩ := GroupRequest.fetch.inj heq
          obtain ⟨hpartition, hstretch⟩ := hbrings answer hanswer response hopened
          exact ⟨hpartition, h.logs.page (h.fetched partition) hstarts.exists_log
            (htracks hstarts.exists_log).1 hcovered hstretch⟩
  | _ => exact ⟨fun _ _ hmem ↦ absurd hmem List.not_mem_nil, fun _ _ heq ↦ by cases heq⟩

theorem Sound.serveConsumer (h : Sound Z config s) {name : C} {consumer : Consumer}
    (hconsumer : s.consumers name = some consumer) {request : GroupRequest}
    (hrequest : consumer.request = some request) (env : ServeEnv) :
    Sound Z config (s.serveConsumer Z config name consumer request env) := by
  have hphase := h.phases name consumer hconsumer
  have hsound := hphase.request hrequest
  unfold GroupRun.serveConsumer
  dsimp only
  split
  · refine (h.serveTopic env hsound).setConsumer ?_
    unfold GroupRun.unforwarded
    split
    · exact Consumer.Quiet.sound ⟨rfl, trivial⟩
    · exact hphase
  · next reply start hserved =>
      obtain ⟨hfetched, hpage⟩ := h.answered hserved
      refine Sound.setConsumer (s := { s.record (GroupRun.startEvents start request) with
        topic := (s.topic.serve Z config env request).1 })
        ((h.record _ hfetched).serveTopic env (hsound.append _)) ?_
      refine SoundPhase.append ?_ (GroupRun.startEvents start request)
      cases hcase : consumer.phase with
      | fetching partition plain rest =>
          intro answer hanswer
          refine hpage partition plain ?_ answer (Option.some.inj hanswer)
          rw [Consumer.request, hcase] at hrequest
          exact (Option.some.inj hrequest).symm
      | printing =>
          rw [hcase] at hphase
          exact hphase
      | committing =>
          rw [hcase] at hphase
          exact hphase
      | _ => trivial

omit [DecidableEq C] in
theorem Sound.serveAbandoned (h : Sound Z config s) {place : ℕ} {request : GroupRequest}
    (hrequest : s.abandoned[place]? = some request) (env : ServeEnv) :
    Sound Z config (s.serveAbandoned Z config place request env) := by
  have hsound := h.abandoned request (List.mem_of_getElem? hrequest)
  have hserved := h.serveTopic env hsound
  unfold GroupRun.serveAbandoned
  dsimp only
  split
  · refine ⟨hserved.logs, hserved.fetched, hserved.committed, hserved.phases,
      fun other hother ↦ ?_⟩
    rcases List.mem_or_eq_of_mem_set hother with hother | rfl
    · exact h.abandoned other hother
    · trivial
  · exact ⟨hserved.logs, hserved.fetched, hserved.committed, hserved.phases,
      fun other hother ↦ h.abandoned other (List.mem_of_mem_eraseIdx hother)⟩
  · next reply start hanswered =>
      have hrecorded := (h.record _ (h.answered hanswered).1).serveTopic env (hsound.append _)
      exact ⟨hrecorded.logs, hrecorded.fetched, hrecorded.committed, hrecorded.phases,
        fun other hother ↦ hrecorded.abandoned other (List.mem_of_mem_eraseIdx hother)⟩

theorem Sound.abandon (h : Sound Z config s) {name : C} {consumer stopped : Consumer}
    (hconsumer : s.consumers name = some consumer) (hstopped : stopped.Quiet) :
    Sound Z config (s.abandon name consumer stopped) := by
  have hset : Sound Z config (s.setConsumer name stopped) := h.setConsumer hstopped.sound
  refine ⟨hset.logs, hset.fetched, hset.committed, hset.phases, fun request hrequest ↦ ?_⟩
  rcases List.mem_append.mp hrequest with hrequest | hrequest
  · exact h.abandoned request hrequest
  · split_ifs at hrequest
    · exact (h.phases name consumer hconsumer).request (Option.mem_toList.mp hrequest)
    · cases hrequest

omit [DecidableEq C] in
/-- New logs, and the history that belongs to them. -/
theorem Sound.setLogs (h : Sound Z config s) {logs : ℕ → LogState} {events : List Event}
    (hlogs : SoundLogs Z config { s.topic with logs := logs } (s.history ++ events))
    (hevents : ∀ partition start, Event.fetched partition start ∉ events) :
    Sound Z config
      { s with topic := { s.topic with logs := logs }, history := s.history ++ events } := by
  have hrecorded := h.record events fun partition start hmem ↦ absurd hmem (hevents partition start)
  exact ⟨hlogs, hrecorded.fetched, hrecorded.committed, hrecorded.phases, hrecorded.abandoned⟩

end Steps

/-! ## Runs -/

section Runs

variable {C : Type*} [DecidableEq C] {Z : Zstd} {config : GroupConfig} {s t : GroupRun C}

/-- A produce is for a request that the broker has accepted. -/
def GroupStep.Accepted (Z : Zstd) (config : GroupConfig) : GroupStep C → Prop
  | .produce partition op => AcceptedOp Z config.server config.topic partition op
  | _ => True

/-- Offsets are 64-bit numbers. -/
def GroupRun.Bounded (s : GroupRun C) : Prop :=
  ∀ partition < s.topic.partitionCount.toNat, (s.topic.logs partition).acked.length < 2 ^ 64

omit [DecidableEq C] in
theorem callLog_some {partition : ℕ} {op : LogOp} (h : s.callLog Z partition op = some t) :
    partition < s.topic.partitionCount.toNat ∧ ∃ state,
      LogState.step Z (s.topic.logs partition) op = some state ∧ t = s.setLog partition state := by
  rw [GroupRun.callLog] at h
  split_ifs at h with hpartition
  obtain ⟨state, hstep, rfl⟩ := Option.map_eq_some_iff.mp h
  exact ⟨hpartition, state, hstep, rfl⟩

/-- A produce calls its log to append. -/
theorem step_produce {partition : ℕ} {op : LogOp}
    (h : s.step Z config (.produce partition op) = some t) :
    op.IsAppend ∧ s.callLog Z partition op = some t := by
  cases op with
  | applyRetention => cases h
  | reopen => cases h
  | append => exact ⟨trivial, h⟩
  | appendBatch => exact ⟨trivial, h⟩
  | appendEncodedBatch => exact ⟨trivial, h⟩

/-- The logs change by calls on them only. -/
theorem step_logs {step : GroupStep C} (hstep : s.step Z config step = some t) :
    (t.topic.partitionCount = s.topic.partitionCount ∧ t.topic.logs = s.topic.logs) ∨
      ∃ partition op u, s.callLog Z partition op = some u ∧ t.topic = u.topic := by
  have hserve : ∀ env request,
      (s.topic.serve Z config env request).1.partitionCount = s.topic.partitionCount ∧
        (s.topic.serve Z config env request).1.logs = s.topic.logs := by
    intro env request
    obtain ⟨coordinator, offsets, hframe, -⟩ := GroupTopic.serve_frame request
    rw [hframe]
    exact ⟨rfl, rfl⟩
  cases step with
  | start name options now =>
      simp only [GroupRun.step] at hstep
      split at hstep
      · rw [← Option.some.inj hstep]
        exact Or.inl ⟨rfl, rfl⟩
      · cases hstep
  | resume name now =>
      obtain ⟨consumer, -, hstep⟩ := Option.bind_eq_some_iff.mp hstep
      obtain ⟨done, -, rfl⟩ := Option.map_eq_some_iff.mp hstep
      exact Or.inl ⟨rfl, rfl⟩
  | serve name env =>
      obtain ⟨consumer, -, hstep⟩ := Option.bind_eq_some_iff.mp hstep
      split_ifs at hstep
      obtain ⟨request, -, rfl⟩ := Option.map_eq_some_iff.mp hstep
      left
      unfold GroupRun.serveConsumer
      dsimp only
      split
      · exact hserve env request
      · exact hserve env request
  | serveAbandoned place env =>
      obtain ⟨request, -, rfl⟩ := Option.map_eq_some_iff.mp hstep
      left
      unfold GroupRun.serveAbandoned
      dsimp only
      split
      · exact hserve env _
      · exact hserve env _
      · exact hserve env _
  | refuse name code =>
      obtain ⟨consumer, -, hstep⟩ := Option.bind_eq_some_iff.mp hstep
      split_ifs at hstep
      obtain ⟨request, -, rfl⟩ := Option.map_eq_some_iff.mp hstep
      exact Or.inl ⟨rfl, rfl⟩
  | transportFailure name timedOut =>
      obtain ⟨consumer, -, hstep⟩ := Option.bind_eq_some_iff.mp hstep
      obtain ⟨request, -, rfl⟩ := Option.map_eq_some_iff.mp hstep
      exact Or.inl ⟨rfl, rfl⟩
  | crash name =>
      obtain ⟨consumer, -, rfl⟩ := Option.map_eq_some_iff.mp hstep
      exact Or.inl ⟨rfl, rfl⟩
  | expire now =>
      rw [← Option.some.inj hstep]
      exact Or.inl ⟨rfl, rfl⟩
  | produce partition op => exact Or.inr ⟨partition, op, t, (step_produce hstep).2, rfl⟩
  | retain partition env policy =>
      obtain ⟨u, hcall, rfl⟩ := Option.map_eq_some_iff.mp hstep
      exact Or.inr ⟨partition, _, u, hcall, rfl⟩

/-- A step of a bounded run starts from a bounded state. -/
theorem bounded_of_step {step : GroupStep C} (hstep : s.step Z config step = some t)
    (h : t.Bounded) : s.Bounded := by
  intro partition hpartition
  rcases step_logs hstep with ⟨hcount, hlogs⟩ | ⟨other, op, u, hcall, htopic⟩
  · rw [← hlogs]
    exact h partition (hcount ▸ hpartition)
  · obtain ⟨-, state, happlied, rfl⟩ := callLog_some hcall
    have hbound := h partition
    rw [htopic] at hbound
    have hbound := hbound hpartition
    dsimp only [GroupRun.setLog] at hbound
    rcases eq_or_ne partition other with rfl | hne
    · rw [Function.update_self, LogState.length_acked_step happlied] at hbound
      omega
    · rw [Function.update_of_ne hne] at hbound
      exact hbound

theorem Sound.step (h : Sound Z config s) {step : GroupStep C} (haccepted : step.Accepted Z config)
    (hstep : s.step Z config step = some t) (hbound : t.Bounded) : Sound Z config t := by
  cases step with
  | start name options now =>
      simp only [GroupRun.step] at hstep
      split at hstep
      · rw [← Option.some.inj hstep]
        exact h.setConsumer trivial
      · cases hstep
  | resume name now =>
      obtain ⟨consumer, hconsumer, hstep⟩ := Option.bind_eq_some_iff.mp hstep
      obtain ⟨⟨consumer', events⟩, hresume, rfl⟩ := Option.map_eq_some_iff.mp hstep
      obtain ⟨hphase, hevents⟩ := resume_sound (h.phases name consumer hconsumer) hresume
      have hrecorded := h.record events fun partition start hmem ↦
        absurd hmem (hevents partition start)
      exact hrecorded.setConsumer hphase
  | serve name env =>
      obtain ⟨consumer, hconsumer, hstep⟩ := Option.bind_eq_some_iff.mp hstep
      split_ifs at hstep
      obtain ⟨request, hrequest, rfl⟩ := Option.map_eq_some_iff.mp hstep
      exact h.serveConsumer hconsumer hrequest env
  | serveAbandoned place env =>
      obtain ⟨request, hrequest, rfl⟩ := Option.map_eq_some_iff.mp hstep
      exact h.serveAbandoned hrequest env
  | refuse name code =>
      obtain ⟨consumer, hconsumer, hstep⟩ := Option.bind_eq_some_iff.mp hstep
      split_ifs at hstep
      obtain ⟨request, -, rfl⟩ := Option.map_eq_some_iff.mp hstep
      exact h.setConsumer ((h.phases name consumer hconsumer).of_reply nofun)
  | transportFailure name timedOut =>
      obtain ⟨consumer, hconsumer, hstep⟩ := Option.bind_eq_some_iff.mp hstep
      obtain ⟨request, -, rfl⟩ := Option.map_eq_some_iff.mp hstep
      refine h.abandon hconsumer ?_
      rw [Consumer.transportFailure]
      split_ifs <;> exact consumer.quiet_exit _
  | crash name =>
      obtain ⟨consumer, hconsumer, rfl⟩ := Option.map_eq_some_iff.mp hstep
      exact h.abandon hconsumer ⟨rfl, trivial⟩
  | expire now =>
      rw [← Option.some.inj hstep]
      exact h.setStores _ s.topic.offsets h.committed
  | produce partition op =>
      obtain ⟨happend, hcall⟩ := step_produce hstep
      obtain ⟨hpartition, state, happlied, rfl⟩ := callLog_some hcall
      obtain ⟨hsized, hvalues⟩ := AcceptedOp.sized haccepted
      have hstate := hbound partition hpartition
      dsimp only [GroupRun.setLog] at hstate
      rw [Function.update_self] at hstate
      have hlogs := h.logs.produce hpartition happend hsized hvalues happlied hstate
      rw [← List.append_nil s.history] at hlogs
      have hsound := h.setLogs hlogs fun _ _ ↦ List.not_mem_nil
      rw [List.append_nil] at hsound
      exact hsound
  | retain partition env policy =>
      obtain ⟨u, hcall, rfl⟩ := Option.map_eq_some_iff.mp hstep
      obtain ⟨hpartition, state, happlied, rfl⟩ := callLog_some hcall
      have hstate := hbound partition hpartition
      dsimp only [GroupRun.setLog, GroupRun.record] at hstate
      rw [Function.update_self] at hstate
      have hremoved : s.removedSince (s.setLog partition state) partition =
          (indexedOffsets (s.topic.logs partition).log).filter fun offset ↦
            decide (offset ∉ indexedOffsets state.log) := by
        simp only [GroupRun.removedSince, GroupRun.setLog, Function.update_self]
      rw [hremoved]
      exact h.setLogs (h.logs.retain hpartition happlied hstate) (by simp)

omit [DecidableEq C] in
/-- Nothing is committed and nothing is removed from the logs just opened. -/
theorem sound_initial {partitionCount : UInt16} {coordinator : GroupCoordinator}
    {offsets : OffsetStore} {logs : ℕ → PartitionLog}
    (hopened : ∀ partition < partitionCount.toNat,
      PartitionLog.openLog Z (config.server.logOptions config.topic partition) {} =
        .ok (logs partition))
    (hoffsets : ∀ partition, offsets.committed config.group config.topic partition = none) :
    Sound Z config (GroupRun.initial (C := C) partitionCount coordinator offsets logs) := by
  refine ⟨⟨fun partition hpartition ↦ LogState.openOptions_of_openLog
    (hopened partition hpartition),
    fun partition hpartition ↦ ?_, fun partition hpartition offset hlt ↦ ?_⟩,
    fun _ _ hmem ↦ absurd hmem List.not_mem_nil, fun partition committed hcommitted ↦ ?_,
    (fun _ _ hconsumer ↦ by cases hconsumer), fun _ hmem ↦ absurd hmem List.not_mem_nil⟩
  · obtain ⟨layout, htracks, hnil⟩ := LogState.tracks_opened (hopened partition hpartition)
    exact ⟨layout, htracks, by simp [hnil]⟩
  · obtain ⟨layout, htracks, -⟩ := LogState.tracks_opened (hopened partition hpartition)
    have hnext : (logs partition).nextOffset = 0 := htracks.next
    have hlt : offset < (logs partition).nextOffset := hlt
    omega
  · cases (hoffsets partition).symm.trans hcommitted

/-- In every state that consumers of a group, producers and retention reach, each
offset below a committed one was printed by a consumer, or retention had removed
it before a fetch of the group started above it. -/
theorem consumers_deliver (Z : Zstd) (config : GroupConfig) (partitionCount : UInt16)
    (coordinator : GroupCoordinator) (offsets : OffsetStore) (logs : ℕ → PartitionLog)
    (hopened : ∀ partition < partitionCount.toNat,
      PartitionLog.openLog Z (config.server.logOptions config.topic partition) {} =
        .ok (logs partition))
    (hoffsets : ∀ partition, offsets.committed config.group config.topic partition = none)
    (steps : List (GroupStep C)) (haccepted : ∀ step ∈ steps, step.Accepted Z config)
    (s : GroupRun C)
    (hrun : run (GroupRun.step Z config) (.initial partitionCount coordinator offsets logs) steps =
      some s) (hbound : s.Bounded) :
    ∀ partition committed,
      s.topic.offsets.committed config.group config.topic partition = some committed →
      ∀ offset < committed, Accounted s.history partition offset := by
  have hsound : s.Bounded → Sound Z config s :=
    run_invariant (fun _ step ↦ step.Accepted Z config) (fun s ↦ s.Bounded → Sound Z config s)
      (fun s step t haccepted hstep h hbound ↦
        (h (bounded_of_step hstep hbound)).step haccepted hstep hbound)
      (along_of_forall (fun step hmem _ ↦ haccepted step hmem) _) hrun
      (fun _ ↦ sound_initial hopened hoffsets)
  exact (hsound hbound).committed

end Runs

/-! ## A small group -/

/-- The group `g` on the topic `t`. -/
def smallGroup : GroupConfig :=
  ⟨smallFrames 1048576 ServerConfig.defaultFrameBytes_ne, [103], [116]⟩

/-- Two records are produced, a consumer prints the first of them and commits, and
another one crashes before it commits the second. -/
def handedOver : List (GroupStep ℕ) :=
  [.produce 0 (.append stillClock [] [118]), .produce 0 (.append stillClock [] [119]),
    .start 0 { maxRecords := 1 } 0, .serve 0 ⟨0, 0, none⟩, .resume 0 0, .serve 0 ⟨0, 0, none⟩,
    .resume 0 0, .resume 0 0, .resume 0 0, .serve 0 ⟨0, 0, none⟩, .resume 0 0, .resume 0 0,
    .serve 0 ⟨0, 0, none⟩, .resume 0 0, .resume 0 0, .serve 0 ⟨0, 0, none⟩, .resume 0 0,
    .start 1 {} 0, .serve 1 ⟨0, 0, none⟩, .resume 1 0, .serve 1 ⟨0, 0, none⟩, .resume 1 0,
    .resume 1 0, .resume 1 0, .serve 1 ⟨0, 0, none⟩, .resume 1 0, .resume 1 0, .crash 1]

theorem consumers_deliver_handedOver :
    ∃ s : GroupRun ℕ, run (GroupRun.step noZstd smallGroup)
        (.initial 1 {} {} fun partition ↦
          PartitionLog.emptyLog (smallGroup.server.logOptions [116] partition)) handedOver =
            some s ∧
      s.topic.offsets.committed [103] [116] 0 = some 1 ∧ Accounted s.history 0 0 := by
  have hchecks : (run (GroupRun.step noZstd smallGroup)
      (.initial 1 {} {} fun partition ↦
        PartitionLog.emptyLog (smallGroup.server.logOptions [116] partition)) handedOver).map
      (fun s ↦ (s.topic.partitionCount, (s.topic.logs 0).acked.length,
        s.topic.offsets.committed [103] [116] 0)) = some (1, 2, some 1) := by decide +kernel
  obtain ⟨s, hrun, hs⟩ := Option.map_eq_some_iff.mp hchecks
  obtain ⟨hcount, hs⟩ := Prod.mk.inj hs
  obtain ⟨hacked, hcommitted⟩ := Prod.mk.inj hs
  refine ⟨s, hrun, hcommitted, consumers_deliver noZstd smallGroup 1 {} {} _
    (fun _ _ ↦ PartitionLog.openLog_empty ⟨show isValidTopicName [116] = true by decide,
      show (268435456 : UInt64).toNat ≠ 0 by decide⟩ noZstd) (fun _ ↦ rfl)
    handedOver ?_ s hrun ?_ 0 1 hcommitted 0 Nat.one_pos⟩
  · simp only [handedOver, List.mem_cons, List.not_mem_nil, or_false, forall_eq_or_imp, forall_eq,
      GroupStep.Accepted, and_true]
    exact ⟨acceptedRecord_of_decide (by decide +kernel),
      acceptedRecord_of_decide (by decide +kernel)⟩
  · intro partition hpartition
    rw [hcount] at hpartition
    obtain rfl : partition = 0 := Nat.lt_one_iff.mp hpartition
    rw [hacked]
    norm_num

end BoltStream.Client
