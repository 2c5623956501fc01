import BoltStream.Broker.FittingFrames
import BoltStream.Broker.ServedNames
import BoltStream.Protocol.MetadataVersion

/-!
# The sizes of answers

Most handlers write the response of an operation without measuring it.  The response
to a request that names its records one by one is as short as the request; the others
grow with the topics, the partitions or the names that the request has.
-/

namespace BoltStream.Broker

open BoltStream.Lib BoltStream.Protocol BoltStream.Compression BoltStream.Storage

/-! ## Encoded responses -/

section Encoders

theorem length_flatMap_const {α : Type*} {write : α → Bytes} {values : List α} {size : ℕ}
    (h : ∀ value ∈ values, (write value).length = size) :
    (values.flatMap write).length = values.length * size := by
  rw [List.length_flatMap, List.map_congr_left h, List.map_const', List.sum_replicate,
    smul_eq_mul]

theorem length_encodeMetadataResponse (response : MetadataResponse) (protocolVersion : ℕ) :
    (encodeMetadataResponse response protocolVersion).length =
      (if protocolVersion = 4 then 4 else 12) +
        (response.topics.map fun topic ↦ 14 + topic.topic.length).sum := by
  have htopics : (response.topics.flatMap writeMetadataTopic).length =
      (response.topics.map fun topic ↦ 14 + topic.topic.length).sum := by
    rw [List.length_flatMap]
    exact congrArg _ (List.map_congr_left fun topic _ ↦ length_writeMetadataTopic topic)
  rw [encodeMetadataResponse]
  split_ifs
  · rw [writeCounted, List.length_append, length_writeU32, htopics]
  · simp only [writeCounted, List.length_append, length_writeU32, htopics]
    omega

theorem length_writeTopicDescription (topic : TopicDescription) :
    (writeTopicDescription topic).length =
      18 + topic.topic.length + 30 * topic.partitions.length := by
  have hpartitions : (topic.partitions.flatMap writeTopicPartitionDescription).length =
      topic.partitions.length * 30 :=
    length_flatMap_const fun partition _ ↦ by
      simp [writeTopicPartitionDescription]
  simp only [writeTopicDescription, writeCounted, List.length_append, length_writeBytes,
    length_writeU16, length_writeU32, length_writeU64, hpartitions]
  omega

theorem length_encodeListTopicsResponse (response : ListTopicsResponse) :
    (encodeListTopicsResponse response).length =
      4 + (response.topics.map fun topic ↦
        18 + topic.topic.length + 30 * topic.partitions.length).sum := by
  rw [encodeListTopicsResponse, writeCounted, List.length_append, length_writeU32,
    List.length_flatMap]
  exact congrArg (4 + List.sum ·)
    (List.map_congr_left fun topic _ ↦ length_writeTopicDescription topic)

theorem length_encodeRunRetentionResponse (response : RunRetentionResponse) :
    (encodeRunRetentionResponse response).length =
      28 + response.topic.length +
        (response.partitions.map fun partition ↦ 34 + partition.topic.length).sum := by
  have hpartitions : (response.partitions.flatMap writeRetentionPartitionResult).length =
      (response.partitions.map fun partition ↦ 34 + partition.topic.length).sum := by
    rw [List.length_flatMap]
    refine congrArg _ (List.map_congr_left fun partition _ ↦ ?_)
    simp only [writeRetentionPartitionResult, List.length_append, length_writeBytes,
      length_writeU16, length_writeU32, length_writeU64]
    omega
  simp only [encodeRunRetentionResponse, writeCounted, List.length_append, length_writeBytes,
    length_writeU32, length_writeU64, hpartitions]
  omega

theorem length_encodeDescribeGroupResponse (response : DescribeGroupResponse) :
    (encodeDescribeGroupResponse response).length =
      16 + response.group.length + response.topic.length + 42 * response.offsets.length := by
  have hoffsets : (response.offsets.flatMap writeGroupOffsetDescription).length =
      response.offsets.length * 42 :=
    length_flatMap_const fun offset _ ↦ by
      simp [writeGroupOffsetDescription, writeBool]
  simp only [encodeDescribeGroupResponse, writeCounted, List.length_append, length_writeBytes,
    length_writeU32, hoffsets]
  omega

theorem length_writeGroupMember (member : GroupMember) :
    (writeGroupMember member).length =
      20 + member.group.length + member.topic.length + member.memberId.length := by
  simp only [writeGroupMember, List.length_append, length_writeBytes, length_writeU64]
  omega

theorem length_encodeSyncGroupResponse (response : SyncGroupResponse) :
    (encodeSyncGroupResponse response).length =
      24 + response.group.length + response.topic.length + response.memberId.length +
        2 * response.assignment.length := by
  have hassignment : (response.assignment.flatMap writeU16).length =
      response.assignment.length * 2 :=
    length_flatMap_const fun partition _ ↦ length_writeU16 partition
  simp only [encodeSyncGroupResponse, writeCounted, List.length_append, length_writeBytes,
    length_writeU32, length_writeU64, hassignment]
  omega

theorem length_writeGroupMemberStatus (member : GroupMemberStatus) :
    (writeGroupMemberStatus member).length =
      24 + member.group.length + member.topic.length + member.memberId.length +
        member.status.length := by
  simp only [writeGroupMemberStatus, List.length_append, length_writeBytes, length_writeU64]
  omega

end Encoders

/-! ## Sizes that grow -/

namespace BrokerRuntime

/-- The size of a metadata response. -/
def metadataBytes (s : BrokerRuntime) (protocolVersion : ℕ) : ℕ :=
  (if protocolVersion = 4 then 4 else 12) +
    (s.store.topics.entries.map fun entry ↦
      entry.2.partitions.length * (14 + entry.1.length)).sum

/-- The size of the description of a topic. -/
def topicBytes (topic : Bytes) (served : ServedTopic) : ℕ :=
  18 + topic.length + 30 * served.partitions.length

def listTopicsBytes (s : BrokerRuntime) : ℕ :=
  4 + (s.store.topics.entries.map fun entry ↦ topicBytes entry.1 entry.2).sum

/-- Only a topic that is served is described. -/
def describeTopicBytes (s : BrokerRuntime) (request : DescribeTopicRequest) : Option ℕ :=
  (s.store.topics.find? request.topic).map (topicBytes request.topic)

def describeGroupBytes (s : BrokerRuntime) (request : DescribeGroupRequest) : Option ℕ :=
  (s.store.topics.find? request.topic).map fun served ↦
    16 + request.group.length + request.topic.length + 42 * served.partitions.length

/-- The partitions that a retention walks over. -/
def retainedPartitions (s : BrokerRuntime) (topicFilter : Bytes) : List (Bytes × ℕ) :=
  (s.retained topicFilter).flatMap fun entry ↦
    (List.range entry.2.partitionCount).map (entry.1, ·)

/-- A retention answers unless its topic is not served or the walk throws. -/
def runRetentionBytes (config : RuntimeConfig) (env : OperationEnv) (s : BrokerRuntime)
    (request : RunRetentionRequest) : Option ℕ :=
  if request.topic.isEmpty = false ∧ s.retained request.topic = [] then none
  else
    (retain config env s (s.retainedPartitions request.topic)).2.toOption.map fun _ ↦
      28 + request.topic.length +
        ((s.retainedPartitions request.topic).map fun partition ↦ 34 + partition.1.length).sum

def joinGroupBytes (s : BrokerRuntime) (request : JoinGroupRequest) : Option ℕ :=
  (s.store.topics.find? request.topic).map fun _ ↦
    20 + request.group.length + request.topic.length +
      (s.store.coordinator.joinedId request.memberId).length

/-- The member that a call speaks for, with a topic that is served. -/
def speaker (env : OperationEnv) (s : BrokerRuntime) (request : GroupMember) :
    Option MemberState :=
  (s.store.topics.find? request.topic).bind fun _ ↦
    (s.store.coordinator.expire request.group request.topic env.first).1.speaker request.group
      request.topic request.memberId request.generationId env.second

/-- The size of the answer to a member, with what it has beside the names. -/
def memberBytes (more : MemberState → ℕ) (env : OperationEnv) (s : BrokerRuntime)
    (request : GroupMember) : Option ℕ :=
  (s.speaker env request).map fun member ↦
    20 + request.group.length + request.topic.length + request.memberId.length + more member

section Answers

variable {config : RuntimeConfig} {env : OperationEnv} {s : BrokerRuntime}

theorem length_metadata (s : BrokerRuntime) (supported negotiated protocolVersion : ℕ) :
    (encodeMetadataResponse ⟨supported, negotiated, s.metadata⟩ protocolVersion).length =
      s.metadataBytes protocolVersion := by
  have hentries : ∀ entries : List (Bytes × ServedTopic),
      ((entries.flatMap fun entry ↦ entry.2.partitions.map fun log ↦
          (⟨entry.1, log.options.partitionId, log.nextOffset⟩ : MetadataTopic)).map
        fun topic ↦ 14 + topic.topic.length).sum =
        (entries.map fun entry ↦ entry.2.partitions.length * (14 + entry.1.length)).sum := by
    intro entries
    induction entries with
    | nil => rfl
    | cons entry entries ih =>
        have hsame : (entry.2.partitions.map fun log ↦
            (⟨entry.1, log.options.partitionId, log.nextOffset⟩ : MetadataTopic)).map
              (fun topic ↦ 14 + topic.topic.length) =
            List.replicate entry.2.partitions.length (14 + entry.1.length) := by
          rw [List.map_map]
          change entry.2.partitions.map (fun _ ↦ 14 + entry.1.length) = _
          exact List.map_const'
        rw [List.flatMap_cons, List.map_append, List.sum_append, ih, List.map_cons,
          List.sum_cons, hsame, List.sum_replicate, smul_eq_mul]
  rw [length_encodeMetadataResponse, metadataBytes, metadata, hentries]

theorem length_describeTopicState (topic : Bytes) (served : ServedTopic) :
    (writeTopicDescription (describeTopicState topic served)).length =
      topicBytes topic served := by
  rw [length_writeTopicDescription, topicBytes, describeTopicState, List.length_map]

theorem size_listTopics (request : Unit) (s : BrokerRuntime) :
    (listTopics request s).2.toOption.map (fun response ↦
      (encodeListTopicsResponse response).length) = some s.listTopicsBytes := by
  refine congrArg some ?_
  dsimp only
  rw [length_encodeListTopicsResponse, listTopicsBytes, List.map_map]
  refine congrArg (4 + List.sum ·) (List.map_congr_left fun entry _ ↦ ?_)
  rw [topicBytes, Function.comp_apply, describeTopicState, List.length_map]

theorem size_describeTopic {request : DescribeTopicRequest}
    (hname : isValidTopicName request.topic = true) :
    (describeTopic request s).2.toOption.map (fun response ↦
      (encodeDescribeTopicResponse response).length) = s.describeTopicBytes request := by
  rw [describeTopic, if_neg (by simp [hname]), findTopicOrThrow, describeTopicBytes]
  cases hfind : s.store.topics.find? request.topic with
  | none => rfl
  | some served => exact congrArg some (length_describeTopicState request.topic served)

theorem validateGroupAndTopic_eq {group : Bytes} (hgroup : isValidGroupName group = true)
    (topic : Bytes) : s.validateGroupAndTopic group topic = s.findTopicOrThrow topic := by
  rw [validateGroupAndTopic, GroupTopic.validateGroupOrThrow, if_pos hgroup]
  rfl

theorem size_describeGroup {request : DescribeGroupRequest}
    (hgroup : isValidGroupName request.group = true) :
    (describeGroup env request s).2.toOption.map (fun response ↦
      (encodeDescribeGroupResponse response).length) = s.describeGroupBytes request := by
  rw [describeGroup, validateGroupAndTopic_eq hgroup, findTopicOrThrow, describeGroupBytes]
  cases hfind : s.store.topics.find? request.topic with
  | none => rfl
  | some served =>
      refine congrArg some ?_
      dsimp only
      rw [length_encodeDescribeGroupResponse, List.length_map]

theorem length_retain {partitions : List (Bytes × ℕ)} {results : List RetentionPartitionResult}
    (h : (retain config env s partitions).2 = .ok results) :
    results.map RetentionPartitionResult.topic = partitions.map Prod.fst := by
  induction partitions generalizing s results with
  | nil =>
      rw [← Except.ok.inj h]
      rfl
  | cons partition partitions ih =>
      rw [retain] at h
      split at h
      · cases h
      · split at h
        · cases h
        · obtain ⟨later, hlater, rfl⟩ := map_eq_ok h
          rw [List.map_cons, List.map_cons, ih hlater]

theorem size_runRetention {request : RunRetentionRequest}
    (hname : request.topic.isEmpty = false → isValidTopicName request.topic = true) :
    (runRetention config env request s).2.toOption.map (fun response ↦
      (encodeRunRetentionResponse response).length) = s.runRetentionBytes config env request := by
  have hvalid : ¬ (request.topic.isEmpty = false ∧ isValidTopicName request.topic = false) := by
    rintro ⟨hpresent, hinvalid⟩
    rw [hname hpresent] at hinvalid
    cases hinvalid
  rw [runRetention, if_neg hvalid, runRetentionBytes]
  dsimp only
  split_ifs
  · rfl
  · change ((((retain config env s (s.retainedPartitions request.topic)).2.map _).mapError
      _).toOption.map _) = _
    cases hretain : (retain config env s (s.retainedPartitions request.topic)).2 with
    | error error => rfl
    | ok results =>
        refine congrArg some ?_
        have htopics := congrArg (List.map fun topic : Bytes ↦ 34 + topic.length)
          (length_retain hretain)
        rw [List.map_map, List.map_map] at htopics
        dsimp only
        rw [length_encodeRunRetentionResponse]
        exact congrArg (28 + request.topic.length + List.sum ·) htopics

theorem size_joinGroup (h : s.Named) {request : JoinGroupRequest}
    (hgroup : isValidGroupName request.group = true) :
    (joinGroup env request s).2.toOption.map (fun response ↦
      (encodeJoinGroupResponse response).length) = s.joinGroupBytes request := by
  rw [joinGroup, validateGroupAndTopic_eq hgroup, findTopicOrThrow, joinGroupBytes]
  cases hfind : s.store.topics.find? request.topic with
  | none => rfl
  | some served =>
      obtain ⟨hanswer, htopic, hid⟩ := h.groups.join_answer request.group request.topic
        request.memberId request.sessionTimeoutMs served.partitionCount env.first
      refine congrArg some ?_
      dsimp only
      rw [encodeJoinGroupResponse, length_writeGroupMember]
      dsimp only
      rw [hanswer, htopic, hid]

/-- The answer to a member repeats its names. -/
theorem size_memberCall {response : Type} (more : List ℕ → ℕ) {request : GroupMember}
    (hgroup : isValidGroupName request.group = true)
    {call : GroupCoordinator → GroupCoordinator × Except GroupCoordinatorError GroupResult}
    (hcall : (call (s.store.coordinator.expire request.group request.topic
        env.first).1).2.toOption.map GroupResult.repeated =
      ((s.store.coordinator.expire request.group request.topic env.first).1.speaker request.group
        request.topic request.memberId request.generationId env.second).map fun member ↦
          (request.group, request.topic, request.memberId, member.assignment))
    {answer : GroupResult → response} {encode : response → Bytes}
    (hencode : ∀ result, (encode (answer result)).length =
      20 + result.group.length + result.topic.length + result.memberId.length +
        more result.assignment) :
    (memberCall env call answer request s).2.toOption.map (fun response ↦
      (encode response).length) =
        s.memberBytes (fun member ↦ more member.assignment) env request := by
  rw [memberCall, validateGroupAndTopic_eq hgroup, findTopicOrThrow, memberBytes, speaker]
  cases hfind : s.store.topics.find? request.topic with
  | none => rfl
  | some served =>
      have hsizes := congrArg (Option.map fun repeated : Bytes × Bytes × Bytes × List ℕ ↦
        20 + repeated.1.length + repeated.2.1.length + repeated.2.2.1.length +
          more repeated.2.2.2) hcall
      rw [Option.map_map, Option.map_map] at hsizes
      rw [Option.bind_some]
      refine Eq.trans ?_ hsizes
      dsimp only
      cases (call (s.store.coordinator.expire request.group request.topic env.first).1).2 with
      | error error => rfl
      | ok result => exact congrArg some (hencode result)

/-! ### Short answers -/

theorem mapError_eq_ok {ε ε' α : Type} {result : Except ε α} {f : ε → ε'} {value : α}
    (h : result.mapError f = .ok value) : result = .ok value := by
  cases result with
  | error error => cases h
  | ok found => exact congrArg Except.ok (Except.ok.inj h)

theorem length_createTopic (h : s.Named) {Z : Zstd} {request : CreateTopicRequest}
    {response : CreateTopicResponse}
    (hcall : (createTopic Z config env request s).2 = .ok response) :
    (encodeCreateTopicResponse response).length ≤ 272 := by
  obtain ⟨htopic, hstatus⟩ := (TopicStore.Named.createTopic h request env.utcNow
    (env.topicNames request.topic)).2 response (mapError_eq_ok hcall)
  simp only [encodeCreateTopicResponse, List.length_append, length_writeBytes, length_writeU16]
  omega

theorem length_deleteTopic (h : s.Named) {Z : Zstd} {request : DeleteTopicRequest}
    {response : DeleteTopicResponse}
    (hcall : (deleteTopic Z config env request s).2 = .ok response) :
    (encodeDeleteTopicResponse response).length ≤ 288 := by
  obtain ⟨htopic, hstatus⟩ := (TopicStore.Named.deleteTopic h request env.first env.second
    env.deleteFault).2 response (mapError_eq_ok hcall)
  simp only [encodeDeleteTopicResponse, List.length_append, length_writeBytes, length_writeU16,
    length_writeU32, length_writeU64]
  omega

theorem length_produceBatch (h : s.Named) {Z : Zstd}
    {request : ProduceBatchRequest × List BatchRecord} {response : ProduceBatchResponse}
    (hcall : (produceBatch Z env request s).2 = .ok response) :
    (encodeProduceBatchResponse response).length ≤ 293 := by
  have hshort : response.topic.length ≤ 255 := by
    rw [produceBatch] at hcall
    split at hcall
    · cases hcall
    · next log hfind =>
        obtain ⟨hdirectory, htopic⟩ := h.findPartition hfind
        dsimp only at hcall
        split at hcall
        · cases hcall
        · next stored happended =>
            rw [← Except.ok.inj hcall]
            dsimp only
            rw [topic_appendEncodedBatch happended, htopic]
            exact hdirectory
  simp only [encodeProduceBatchResponse, List.length_append, length_writeBytes, length_writeU16,
    length_writeU32, length_writeU64]
  omega

theorem length_encodeProduceResponse (response : ProduceResponse) :
    (encodeProduceResponse response).length = 26 + response.topic.length := by
  simp only [encodeProduceResponse, List.length_append, length_writeBytes, length_writeU16,
    length_writeU32, length_writeU64]
  omega

/-- The response to a commit repeats the request. -/
theorem commitOffset_ok {request response : OffsetCommit}
    (hcall : (commitOffset env request s).2 = .ok response) : response = request := by
  rw [commitOffset] at hcall
  split at hcall
  · cases hcall
  · dsimp only at hcall
    split_ifs at hcall
    split at hcall
    · cases hcall
    · obtain ⟨-, -, hrequest⟩ := map_eq_ok hcall
      exact hrequest.symm

theorem length_commitGroupOffset {request response : GroupOffsetCommit}
    (hcall : (commitGroupOffset env request s).2 = .ok response) :
    (writeGroupOffsetCommit response).length = (writeGroupOffsetCommit request).length := by
  rw [commitGroupOffset] at hcall
  split at hcall
  · cases hcall
  · dsimp only at hcall
    split at hcall
    · cases hcall
    · obtain ⟨-, -, rfl⟩ := map_eq_ok hcall
      simp only [writeGroupOffsetCommit, List.length_append, length_writeBytes, length_writeU16,
        length_writeU64]

/-- The directory of a group with a long name cannot be created. -/
theorem length_of_storeOffset {group topic : Bytes} {partition target : ℕ}
    (h : (s.storeOffset env group topic partition target).2 = .ok ()) : group.length ≤ 255 := by
  by_contra hlong
  have hcommit := mapError_eq_ok h
  rw [OffsetStore.commit] at hcommit
  split_ifs at hcommit
  dsimp only at hcommit
  cases hfault : env.commitFault group with
  | none => exact env.groupNames group (Nat.not_le.mp hlong) hfault
  | some fault =>
      rw [hfault] at hcommit
      cases fault with
      | createDirectory reason => cases hcommit
      | openLog => cases hcommit
      | write cut => cases hcommit

theorem length_reset : (text "reset").length = 5 := length_text _

theorem length_resetGroupOffset (h : s.Named) {request : ResetGroupOffsetRequest}
    {response : ResetGroupOffsetResponse}
    (hcall : (resetGroupOffset env request s).2 = .ok response) :
    (encodeResetGroupOffsetResponse response).length ≤ 537 := by
  have hshort : response.group.length ≤ 255 ∧ response.topic.length ≤ 255 ∧
      response.status.length = 5 := by
    rw [resetGroupOffset] at hcall
    split at hcall
    · cases hcall
    dsimp only at hcall
    split at hcall
    · cases hcall
    split at hcall
    · cases hcall
    next served hfind =>
      rw [findTopicOrThrow] at hfind
      cases hserved : s.store.topics.find? request.topic with
      | none =>
          rw [hserved] at hfind
          cases hfind
      | some found =>
          split at hcall
          · cases hcall
          split at hcall
          · cases hcall
          · obtain ⟨done, hstored, rfl⟩ := map_eq_ok hcall
            exact ⟨length_of_storeOffset hstored, (h.topics _ _ hserved).directory, length_reset⟩
  obtain ⟨hgroup, htopic, hstatus⟩ := hshort
  simp only [encodeResetGroupOffsetResponse, List.length_append, length_writeBytes,
    length_writeU16, length_writeU64]
  omega

end Answers

end BrokerRuntime

end BoltStream.Broker
