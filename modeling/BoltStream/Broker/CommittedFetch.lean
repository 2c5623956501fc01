import BoltStream.Broker.GroupTopic
import BoltStream.Storage.OffsetCommits

/-!
# What a group's requests do

Only a commit changes a committed offset.  A fetch starts at the committed offset
or, without one, at the earliest offset, and on both paths it brings the retained
records from there on without a gap.
-/

namespace BoltStream.Broker

open BoltStream.Lib BoltStream.Protocol BoltStream.Compression BoltStream.Storage PartitionLog

/-- Records of a response that leave out nothing of the layout between the start
and the last of them. -/
structure StretchOf (layout : Layout) (start : ℕ) (records : List FetchRecord) : Prop where
  increasing : records.Pairwise fun r r' ↦ r.offset < r'.offset
  stored : ∀ r ∈ records, received r ∈ layout.records
  complete : ∀ r ∈ records, ∀ r' ∈ layout.records, start ≤ r'.offset → r'.offset < r.offset →
    ∃ r'' ∈ records, r''.offset = r'.offset

section Stretch

variable {layout : Layout} {start : ℕ} {records : List FetchRecord}

theorem StretchOf.of_sublist {found : List StoredRecord}
    (hsorted : layout.records.Pairwise fun r r' ↦ r.offset < r'.offset)
    (hsublist : found.Sublist layout.records) (hfound : records.map received = found)
    (hcomplete : ∀ r ∈ found, ∀ r' ∈ layout.records, start ≤ r'.offset →
      r'.offset < r.offset → r' ∈ found) : StretchOf layout start records := by
  subst hfound
  refine ⟨?_, fun r hr ↦ hsublist.subset (List.mem_map_of_mem hr), fun r hr r' hr' hstart hlt ↦ ?_⟩
  · have hpairwise := hsorted.sublist hsublist
    rw [List.pairwise_map] at hpairwise
    exact hpairwise
  · obtain ⟨r'', hr'', heq⟩ :=
      List.mem_map.mp (hcomplete _ (List.mem_map_of_mem hr) r' hr' hstart hlt)
    exact ⟨r'', hr'', by rw [← heq]; rfl⟩

theorem StretchOf.of_take {taken : ℕ}
    (hsorted : layout.records.Pairwise fun r r' ↦ r.offset < r'.offset)
    (h : records.map received =
      (layout.records.filter fun r ↦ start ≤ r.offset).take taken) :
    StretchOf layout start records := by
  refine .of_sublist hsorted ((List.take_sublist _ _).trans List.filter_sublist) h ?_
  intro r hr r' hr' hstart hlt
  have hbehind := hsorted.sublist (List.filter_sublist (p := fun r ↦ start ≤ r.offset))
  have hmem : r' ∈ layout.records.filter fun r ↦ start ≤ r.offset :=
    List.mem_filter.mpr ⟨hr', decide_eq_true hstart⟩
  rw [← List.take_append_drop taken (layout.records.filter fun r ↦ start ≤ r.offset)]
    at hbehind hmem
  rcases List.mem_append.mp hmem with htaken | hdropped
  · exact htaken
  · have hlt' := (List.pairwise_append.mp hbehind).2.2 r hr r' hdropped
    omega

theorem StretchOf.of_itemsWithin {stop : ℕ}
    (hsorted : layout.records.Pairwise fun r r' ↦ r.offset < r'.offset)
    (h : records.map received = itemsWithin StoredRecord.offset layout.records start stop) :
    StretchOf layout start records := by
  refine .of_sublist hsorted List.filter_sublist h ?_
  intro r hr r' hr' hstart hlt
  have hstop := of_decide_eq_true (List.mem_filter.mp hr).2
  refine List.mem_filter.mpr ⟨hr', decide_eq_true ⟨hstart, ?_⟩⟩
  omega

end Stretch

namespace GroupTopic

variable {Z : Zstd} {config : GroupConfig} {topic : GroupTopic} {env : ServeEnv}

/-! ## What stays -/

section Frame

variable (config topic env)

theorem memberCall_frame (call : GroupCoordinator →
    GroupCoordinator × Except GroupCoordinatorError GroupResult) :
    ∃ coordinator, (topic.memberCall config env call).1 =
      { topic with coordinator := coordinator } := by
  unfold memberCall
  split
  · exact ⟨topic.coordinator, rfl⟩
  · exact ⟨_, rfl⟩

theorem joinGroup_frame (memberId : Bytes) (sessionTimeoutMs : ℕ) :
    ∃ coordinator, (topic.joinGroup config memberId sessionTimeoutMs env).1 =
      { topic with coordinator := coordinator } := by
  unfold joinGroup
  split
  · exact ⟨topic.coordinator, rfl⟩
  · exact ⟨_, rfl⟩

/-- A commit stores its offset, after checking it against the log, or nothing. -/
theorem commitGroupOffset_frame (memberId : Bytes) (generationId partition nextOffset : ℕ) :
    ∃ coordinator offsets, (topic.commitGroupOffset config memberId generationId partition
        nextOffset env).1 = { topic with coordinator := coordinator, offsets := offsets } ∧
      ∀ group' topic' partition', offsets.committed group' topic' partition' =
          topic.offsets.committed group' topic' partition' ∨
        partition' = partition ∧ offsets.committed group' topic' partition' = some nextOffset := by
  have hsame : ∀ group' topic' partition', topic.offsets.committed group' topic' partition' =
      topic.offsets.committed group' topic' partition' ∨ partition' = partition ∧
        topic.offsets.committed group' topic' partition' = some nextOffset :=
    fun _ _ _ ↦ Or.inl rfl
  unfold commitGroupOffset
  dsimp only
  split
  · exact ⟨topic.coordinator, topic.offsets, rfl, hsame⟩
  · next target hchecked =>
      have htarget : target = nextOffset := by
        obtain ⟨-, -, hchecked⟩ := bind_eq_ok hchecked
        obtain ⟨state, -, hchecked⟩ := bind_eq_ok hchecked
        rw [checkOffsetRange] at hchecked
        split_ifs at hchecked
        exact (Except.ok.inj hchecked).symm
      subst htarget
      split
      · exact ⟨_, topic.offsets, rfl, hsame⟩
      · refine ⟨_, _, rfl, fun group' topic' partition' ↦ ?_⟩
        cases hstored : (topic.offsets.commit config.group config.topic partition target
            env.commitFault).2 with
        | error message =>
            rw [OffsetStore.committed, OffsetStore.committed_commit_error hstored]
            exact Or.inl rfl
        | ok done =>
            rw [OffsetStore.committed_commit_ok hstored]
            split_ifs with hkey
            · exact Or.inr ⟨hkey.2.2, rfl⟩
            · exact Or.inl rfl

end Frame

/-- A request leaves the logs alone, and the committed offsets are those from
before or what it commits. -/
theorem serve_frame (request : GroupRequest) :
    ∃ coordinator offsets, (topic.serve Z config env request).1 =
        { topic with coordinator := coordinator, offsets := offsets } ∧
      ∀ partition committed, offsets.committed config.group config.topic partition =
          some committed →
        topic.offsets.committed config.group config.topic partition = some committed ∨
        ∃ memberId generationId,
          request = .commit memberId generationId partition committed := by
  cases request with
  | join memberId sessionTimeoutMs =>
      obtain ⟨coordinator, hframe⟩ :=
        joinGroup_frame config topic env memberId sessionTimeoutMs
      exact ⟨coordinator, topic.offsets, hframe, fun _ _ h ↦ Or.inl h⟩
  | sync memberId generationId =>
      obtain ⟨coordinator, hframe⟩ := memberCall_frame config topic env _
      exact ⟨coordinator, topic.offsets, hframe, fun _ _ h ↦ Or.inl h⟩
  | heartbeat memberId generationId =>
      obtain ⟨coordinator, hframe⟩ := memberCall_frame config topic env _
      exact ⟨coordinator, topic.offsets, hframe, fun _ _ h ↦ Or.inl h⟩
  | leave memberId generationId =>
      obtain ⟨coordinator, hframe⟩ := memberCall_frame config topic env _
      exact ⟨coordinator, topic.offsets, hframe, fun _ _ h ↦ Or.inl h⟩
  | fetch partition plain =>
      refine ⟨topic.coordinator, topic.offsets, ?_, fun _ _ h ↦ Or.inl h⟩
      cases plain <;> unfold serve <;> dsimp only <;> split <;> rfl
  | commit memberId generationId partition nextOffset =>
      obtain ⟨coordinator, offsets, hframe, hoffsets⟩ := commitGroupOffset_frame config topic env
        memberId generationId partition nextOffset
      refine ⟨coordinator, offsets, hframe, fun partition' committed hcommitted ↦ ?_⟩
      rcases hoffsets config.group config.topic partition' with hsame | ⟨rfl, hnew⟩
      · exact Or.inl (hsame ▸ hcommitted)
      · obtain rfl : nextOffset = committed := Option.some.inj (hnew.symm.trans hcommitted)
        exact Or.inr ⟨memberId, generationId, rfl⟩

/-! ## What a fetch brings -/

theorem partitionOrThrow_ok {partition : ℕ} {state : LogState}
    (h : topic.partitionOrThrow partition = .ok state) :
    partition < topic.partitionCount.toNat ∧ state = topic.logs partition := by
  rw [partitionOrThrow] at h
  split_ifs at h with hcount
  exact ⟨Nat.lt_of_not_le hcount, (Except.ok.inj h).symm⟩

/-- A fetch of a partition starts at an offset. -/
structure StartsAt (config : GroupConfig) (topic : GroupTopic) (partition position : ℕ) : Prop where
  exists_log : partition < topic.partitionCount.toNat
  resolved : resolveFetchOffset (committedRequest config partition) topic.offsets
    (topic.logs partition).log.earliestOffset (topic.logs partition).log.nextOffset = .ok position

/-- The response that a consumer makes of an answer. -/
def Brings (Z : Zstd) (layout : Layout) (partition position : ℕ) (answer : FetchAnswer) : Prop :=
  ∀ response, openAnswer Z kDefaultMaxFrameBytes answer = .ok response →
    response.partition = partition ∧ StretchOf layout position response.records

theorem decode_of_openAnswer {limit : ℕ} {payload : Bytes} {response : FetchResponse}
    (h : openAnswer Z limit (.compressed payload) = .ok response) :
    decodeFetchResponseWithin Z limit payload = .ok response := by
  rw [openAnswer] at h
  cases hdecoded : decodeFetchResponseWithin Z limit payload with
  | error error =>
      rw [hdecoded] at h
      cases h
  | ok decoded =>
      rw [hdecoded] at h
      exact congrArg Except.ok (Except.ok.inj h)

section Fetched

variable {layout : Layout} {partition : ℕ}

theorem fetchPlain_ok (htracks : partition < topic.partitionCount.toNat →
      LogState.TracksDecodable Z (config.server.logOptions config.topic partition)
        (topic.logs partition) layout) {response : FetchResponse}
    (h : topic.fetchPlain Z config partition = .ok response) :
    StartsAt config topic partition response.fromOffset ∧
      Brings Z layout partition response.fromOffset (.plain response) := by
  obtain ⟨state, hstate, hfetch⟩ := bind_eq_ok h
  obtain ⟨hcount, rfl⟩ := partitionOrThrow_ok hstate
  obtain ⟨htracks, hdecodable⟩ := htracks hcount
  rw [← htracks.options] at hdecodable
  have hrecords : 0 < config.server.limits.maxFetchRecords.toNat :=
    Nat.pos_of_ne_zero fun hzero ↦ config.server.maxFetchRecords_ne (UInt32.toNat.inj hzero)
  obtain ⟨hresolved, hpartition, taken, htaken⟩ :=
    fetch_take htracks.represents hdecodable hrecords hfetch
  refine ⟨⟨hcount, hresolved⟩, fun opened hopened ↦ ?_⟩
  obtain rfl := Except.ok.inj hopened
  exact ⟨hpartition, .of_take htracks.represents.placed.records_sorted htaken⟩

/-- A forwarded batch starts where the fetch does. -/
theorem fetchForwarded_ok (htracks : partition < topic.partitionCount.toNat →
      LogState.TracksDecodable Z (config.server.logOptions config.topic partition)
        (topic.logs partition) layout) {batch : EncodedBatch}
    (h : topic.fetchForwarded Z config partition = .ok (some batch)) :
    StartsAt config topic partition batch.metadata.baseOffset ∧
      Brings Z layout partition batch.metadata.baseOffset
        (.compressed (encodedBatchPayload batch)) := by
  obtain ⟨state, hstate, hforwarded⟩ := bind_eq_ok h
  obtain ⟨hcount, rfl⟩ := partitionOrThrow_ok hstate
  obtain ⟨found, hfound, hfiltered⟩ := map_eq_ok hforwarded
  obtain ⟨rfl, hframe⟩ := Option.filter_eq_some_iff.mp hfiltered
  have hfits := of_decide_eq_true hframe
  obtain ⟨position, hresolved, hread⟩ := bind_eq_ok hfound
  obtain ⟨read, hread, hallowed⟩ := map_eq_ok hread
  obtain ⟨rfl, -⟩ := Option.filter_eq_some_iff.mp hallowed
  obtain ⟨htracks, hdecodable⟩ := htracks hcount
  have hoptions := htracks.options
  rw [← hoptions] at hdecodable
  have hrep := htracks.represents
  rcases hrep.readEncodedBatch_cases hdecodable position with
    hnone | ⟨timestamp, codec, encoded, records, he, hbatch⟩
  · rw [hnone] at hread
    cases hread
  rw [hbatch] at hread
  obtain rfl := Option.some.inj (Except.ok.inj hread)
  refine ⟨⟨hcount, hresolved⟩, fun opened hopened ↦ ?_⟩
  have hwritten := hrep.written _ he
  have hpayload : (encodedBatchPayload (forwardedBatch (topic.logs partition).log.options.topic
      (topic.logs partition).log.options.partitionId position timestamp codec encoded
        records)).length < 2 ^ 32 := by
    have hmax := config.server.limits.maxFrameBytes.toNat_lt
    exact (Nat.le_add_right _ _).trans_lt (hfits.trans_lt hmax)
  have hdecoded := decode_forwardedBatch (topic.logs partition).log.options.topic
    (topic.logs partition).log.options.partitionId kDefaultMaxFrameBytes hwritten
    (hdecodable _ he).2 hpayload
  have hopened := decode_of_openAnswer hopened
  rw [forwardedBatch] at hdecoded
  rw [hdecoded] at hopened
  split_ifs at hopened
  obtain rfl := Except.ok.inj hopened
  have hstop : position + records.length < 2 ^ 64 := hwritten.stop_lt
  refine ⟨?_, ?_⟩
  · have hpartition : (topic.logs partition).log.options.partitionId = partition := by
      rw [hoptions]
      rfl
    have hlt := topic.partitionCount.toNat_lt
    dsimp only
    rw [hpartition, Nat.mod_eq_of_lt (by omega)]
  · have hentry := hrep.placed.records_entry he
    rw [← received_forwardedRecords codec hstop] at hentry
    exact .of_itemsWithin hrep.placed.records_sorted hentry.symm

/-- A fetch that is answered fails, or starts somewhere and brings a stretch. -/
theorem serve_fetch (htracks : partition < topic.partitionCount.toNat →
      LogState.TracksDecodable Z (config.server.logOptions config.topic partition)
        (topic.logs partition) layout) {plain : Bool} {reply : GroupReply} {start : Option ℕ}
    (h : (topic.serve Z config env (.fetch partition plain)).2 = .answered reply start) :
    (start = none ∧ ∃ code, reply = .error code) ∨
      ∃ position, start = some position ∧ StartsAt config topic partition position ∧
        ∀ answer, reply = .fetched answer → Brings Z layout partition position answer := by
  cases plain with
  | false =>
      simp only [serve] at h
      split at h
      · obtain ⟨rfl, rfl⟩ := Served.answered.inj h
        exact Or.inl ⟨rfl, _, rfl⟩
      · cases h
      · next batch hbatch =>
          obtain ⟨rfl, rfl⟩ := Served.answered.inj h
          obtain ⟨hstarts, hbrings⟩ := fetchForwarded_ok htracks hbatch
          refine Or.inr ⟨_, rfl, hstarts, fun answer hanswer ↦ ?_⟩
          rw [← GroupReply.fetched.inj hanswer]
          exact hbrings
  | true =>
      simp only [serve] at h
      split at h
      · obtain ⟨rfl, rfl⟩ := Served.answered.inj h
        exact Or.inl ⟨rfl, _, rfl⟩
      · next response hresponse =>
          obtain ⟨rfl, rfl⟩ := Served.answered.inj h
          obtain ⟨hstarts, hbrings⟩ := fetchPlain_ok htracks hresponse
          refine Or.inr ⟨_, rfl, hstarts, fun answer hanswer ↦ ?_⟩
          cases hwritten : writeFetchResponse config.server.limits response with
          | error error =>
              rw [hwritten] at hanswer
              cases hanswer
          | ok payload =>
              rw [hwritten] at hanswer
              rw [← GroupReply.fetched.inj hanswer]
              exact hbrings

end Fetched

end GroupTopic

end BoltStream.Broker
