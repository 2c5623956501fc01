import BoltStream.Protocol.Payloads

/-!
# Consumer groups

The payloads of the messages that commit and reset offsets, and of those of
group members.  Messages whose fields and checks are the same share their
definition.
-/

namespace BoltStream.Protocol

open BoltStream.Lib PayloadReader

/-! ## Offsets -/

/-- `OffsetCommitRequest` and `OffsetCommitResponse` -/
structure OffsetCommit where
  group : Bytes
  topic : Bytes
  partition : ℕ
  nextOffset : ℕ
  deriving DecidableEq, Repr

def writeOffsetCommit (commit : OffsetCommit) : Bytes :=
  writeBytes commit.group ++ (writeBytes commit.topic ++ (writeU16 commit.partition ++
    writeU64 commit.nextOffset))

def readOffsetCommit : PayloadReader OffsetCommit := do
  let group ← string
  let topic ← string
  let partition ← u16
  let nextOffset ← u64
  return ⟨group, topic, partition, nextOffset⟩

def OffsetCommit.Fits (commit : OffsetCommit) : Prop :=
  Short commit.group ∧ Short commit.topic ∧ commit.partition < 2 ^ 16 ∧
    commit.nextOffset < 2 ^ 64

theorem offsetCommit_exact : Exact writeOffsetCommit readOffsetCommit OffsetCommit.Fits := by
  refine .field OffsetCommit.group string_exact fun group ↦ ?_
  refine .field OffsetCommit.topic string_exact fun topic ↦ ?_
  refine .field OffsetCommit.partition u16_exact fun partition ↦ ?_
  refine .last OffsetCommit.nextOffset u64_exact ?_
  rintro ⟨⟩
  grind

def encodeOffsetCommitRequest (request : OffsetCommit) : Bytes := writeOffsetCommit request

def offsetCommitRequestChecks (request : OffsetCommit) : List (Bool × String) :=
  [(request.group.isEmpty, "offset-commit group must not be empty"),
    (request.topic.isEmpty, "offset-commit topic must not be empty")]

def decodeOffsetCommitRequest : Bytes → Except DecodeError OffsetCommit :=
  decodePayload readOffsetCommit "malformed offset-commit request payload"
    offsetCommitRequestChecks

def encodeOffsetCommitResponse (response : OffsetCommit) : Bytes := writeOffsetCommit response

def decodeOffsetCommitResponse : Bytes → Except DecodeError OffsetCommit :=
  decodePayload readOffsetCommit "malformed offset-commit response payload" fun _ ↦ []

/-- `GroupOffsetCommitRequest` and `GroupOffsetCommitResponse` -/
structure GroupOffsetCommit where
  group : Bytes
  topic : Bytes
  memberId : Bytes
  generationId : ℕ
  partition : ℕ
  nextOffset : ℕ
  deriving DecidableEq, Repr

def writeGroupOffsetCommit (commit : GroupOffsetCommit) : Bytes :=
  writeBytes commit.group ++ (writeBytes commit.topic ++ (writeBytes commit.memberId ++
    (writeU64 commit.generationId ++ (writeU16 commit.partition ++ writeU64 commit.nextOffset))))

def readGroupOffsetCommit : PayloadReader GroupOffsetCommit := do
  let group ← string
  let topic ← string
  let memberId ← string
  let generationId ← u64
  let partition ← u16
  let nextOffset ← u64
  return ⟨group, topic, memberId, generationId, partition, nextOffset⟩

def GroupOffsetCommit.Fits (commit : GroupOffsetCommit) : Prop :=
  Short commit.group ∧ Short commit.topic ∧ Short commit.memberId ∧
    commit.generationId < 2 ^ 64 ∧ commit.partition < 2 ^ 16 ∧ commit.nextOffset < 2 ^ 64

theorem groupOffsetCommit_exact :
    Exact writeGroupOffsetCommit readGroupOffsetCommit GroupOffsetCommit.Fits := by
  refine .field GroupOffsetCommit.group string_exact fun group ↦ ?_
  refine .field GroupOffsetCommit.topic string_exact fun topic ↦ ?_
  refine .field GroupOffsetCommit.memberId string_exact fun memberId ↦ ?_
  refine .field GroupOffsetCommit.generationId u64_exact fun generationId ↦ ?_
  refine .field GroupOffsetCommit.partition u16_exact fun partition ↦ ?_
  refine .last GroupOffsetCommit.nextOffset u64_exact ?_
  rintro ⟨⟩
  grind

def encodeGroupOffsetCommitRequest (request : GroupOffsetCommit) : Bytes :=
  writeGroupOffsetCommit request

def groupOffsetCommitRequestChecks (request : GroupOffsetCommit) : List (Bool × String) :=
  [(request.group.isEmpty, "group-offset-commit group must not be empty"),
    (request.topic.isEmpty, "group-offset-commit topic must not be empty"),
    (request.memberId.isEmpty, "group-offset-commit member id must not be empty"),
    (request.generationId == 0, "group-offset-commit generation id must be greater than zero")]

def decodeGroupOffsetCommitRequest : Bytes → Except DecodeError GroupOffsetCommit :=
  decodePayload readGroupOffsetCommit "malformed group-offset-commit request payload"
    groupOffsetCommitRequestChecks

def encodeGroupOffsetCommitResponse (response : GroupOffsetCommit) : Bytes :=
  writeGroupOffsetCommit response

def decodeGroupOffsetCommitResponse : Bytes → Except DecodeError GroupOffsetCommit :=
  decodePayload readGroupOffsetCommit "malformed group-offset-commit response payload" fun _ ↦ []

structure ResetGroupOffsetRequest where
  group : Bytes
  topic : Bytes
  partition : ℕ
  «to» : Bytes
  deriving DecidableEq, Repr

def encodeResetGroupOffsetRequest (request : ResetGroupOffsetRequest) : Bytes :=
  writeBytes request.group ++ (writeBytes request.topic ++ (writeU16 request.partition ++
    writeBytes request.«to»))

def readResetGroupOffsetRequest : PayloadReader ResetGroupOffsetRequest := do
  let group ← string
  let topic ← string
  let partition ← u16
  let target ← string
  return ⟨group, topic, partition, target⟩

def ResetGroupOffsetRequest.checks (request : ResetGroupOffsetRequest) : List (Bool × String) :=
  [(request.group.isEmpty, "reset-group-offset group must not be empty"),
    (request.topic.isEmpty, "reset-group-offset topic must not be empty"),
    (request.«to».isEmpty, "reset-group-offset target must not be empty")]

def decodeResetGroupOffsetRequest : Bytes → Except DecodeError ResetGroupOffsetRequest :=
  decodePayload readResetGroupOffsetRequest "malformed reset-group-offset request payload"
    ResetGroupOffsetRequest.checks

def ResetGroupOffsetRequest.Fits (request : ResetGroupOffsetRequest) : Prop :=
  Short request.group ∧ Short request.topic ∧ request.partition < 2 ^ 16 ∧ Short request.«to»

theorem resetGroupOffsetRequest_exact :
    Exact encodeResetGroupOffsetRequest readResetGroupOffsetRequest
      ResetGroupOffsetRequest.Fits := by
  refine .field ResetGroupOffsetRequest.group string_exact fun group ↦ ?_
  refine .field ResetGroupOffsetRequest.topic string_exact fun topic ↦ ?_
  refine .field ResetGroupOffsetRequest.partition u16_exact fun partition ↦ ?_
  refine .last ResetGroupOffsetRequest.«to» string_exact ?_
  rintro ⟨⟩
  grind

structure ResetGroupOffsetResponse where
  group : Bytes
  topic : Bytes
  partition : ℕ
  nextOffset : ℕ
  status : Bytes
  deriving DecidableEq, Repr

def encodeResetGroupOffsetResponse (response : ResetGroupOffsetResponse) : Bytes :=
  writeBytes response.group ++ (writeBytes response.topic ++ (writeU16 response.partition ++
    (writeU64 response.nextOffset ++ writeBytes response.status)))

def readResetGroupOffsetResponse : PayloadReader ResetGroupOffsetResponse := do
  let group ← string
  let topic ← string
  let partition ← u16
  let nextOffset ← u64
  let status ← string
  return ⟨group, topic, partition, nextOffset, status⟩

def decodeResetGroupOffsetResponse : Bytes → Except DecodeError ResetGroupOffsetResponse :=
  decodePayload readResetGroupOffsetResponse "malformed reset-group-offset response payload"
    fun _ ↦ []

def ResetGroupOffsetResponse.Fits (response : ResetGroupOffsetResponse) : Prop :=
  Short response.group ∧ Short response.topic ∧ response.partition < 2 ^ 16 ∧
    response.nextOffset < 2 ^ 64 ∧ Short response.status

theorem resetGroupOffsetResponse_exact :
    Exact encodeResetGroupOffsetResponse readResetGroupOffsetResponse
      ResetGroupOffsetResponse.Fits := by
  refine .field ResetGroupOffsetResponse.group string_exact fun group ↦ ?_
  refine .field ResetGroupOffsetResponse.topic string_exact fun topic ↦ ?_
  refine .field ResetGroupOffsetResponse.partition u16_exact fun partition ↦ ?_
  refine .field ResetGroupOffsetResponse.nextOffset u64_exact fun nextOffset ↦ ?_
  refine .last ResetGroupOffsetResponse.status string_exact ?_
  rintro ⟨⟩
  grind

/-! ## Members -/

structure JoinGroupRequest where
  group : Bytes
  topic : Bytes
  memberId : Bytes
  sessionTimeoutMs : ℕ
  deriving DecidableEq, Repr

def encodeJoinGroupRequest (request : JoinGroupRequest) : Bytes :=
  writeBytes request.group ++ (writeBytes request.topic ++ (writeBytes request.memberId ++
    writeU32 request.sessionTimeoutMs))

def readJoinGroupRequest : PayloadReader JoinGroupRequest := do
  let group ← string
  let topic ← string
  let memberId ← string
  let sessionTimeoutMs ← u32
  return ⟨group, topic, memberId, sessionTimeoutMs⟩

/-- A new member has no id yet. -/
def JoinGroupRequest.checks (request : JoinGroupRequest) : List (Bool × String) :=
  [(request.group.isEmpty, "join-group group must not be empty"),
    (request.topic.isEmpty, "join-group topic must not be empty"),
    (request.sessionTimeoutMs == 0, "join-group session timeout must be greater than zero")]

def decodeJoinGroupRequest : Bytes → Except DecodeError JoinGroupRequest :=
  decodePayload readJoinGroupRequest "malformed join-group request payload"
    JoinGroupRequest.checks

def JoinGroupRequest.Fits (request : JoinGroupRequest) : Prop :=
  Short request.group ∧ Short request.topic ∧ Short request.memberId ∧
    request.sessionTimeoutMs < 2 ^ 32

theorem joinGroupRequest_exact :
    Exact encodeJoinGroupRequest readJoinGroupRequest JoinGroupRequest.Fits := by
  refine .field JoinGroupRequest.group string_exact fun group ↦ ?_
  refine .field JoinGroupRequest.topic string_exact fun topic ↦ ?_
  refine .field JoinGroupRequest.memberId string_exact fun memberId ↦ ?_
  refine .last JoinGroupRequest.sessionTimeoutMs u32_exact ?_
  rintro ⟨⟩
  grind

/-- `JoinGroupResponse`, `SyncGroupRequest`, `HeartbeatRequest` and
`LeaveGroupRequest` -/
structure GroupMember where
  group : Bytes
  topic : Bytes
  memberId : Bytes
  generationId : ℕ
  deriving DecidableEq, Repr

def writeGroupMember (member : GroupMember) : Bytes :=
  writeBytes member.group ++ (writeBytes member.topic ++ (writeBytes member.memberId ++
    writeU64 member.generationId))

def readGroupMember : PayloadReader GroupMember := do
  let group ← string
  let topic ← string
  let memberId ← string
  let generationId ← u64
  return ⟨group, topic, memberId, generationId⟩

def GroupMember.Fits (member : GroupMember) : Prop :=
  Short member.group ∧ Short member.topic ∧ Short member.memberId ∧
    member.generationId < 2 ^ 64

theorem groupMember_exact : Exact writeGroupMember readGroupMember GroupMember.Fits := by
  refine .field GroupMember.group string_exact fun group ↦ ?_
  refine .field GroupMember.topic string_exact fun topic ↦ ?_
  refine .field GroupMember.memberId string_exact fun memberId ↦ ?_
  refine .last GroupMember.generationId u64_exact ?_
  rintro ⟨⟩
  grind

/-- The checks of the requests that a member makes, under the request's name. -/
def memberChecks (name : String) (request : GroupMember) : List (Bool × String) :=
  [(request.group.isEmpty, name ++ " group must not be empty"),
    (request.topic.isEmpty, name ++ " topic must not be empty"),
    (request.memberId.isEmpty, name ++ " member id must not be empty"),
    (request.generationId == 0, name ++ " generation id must be greater than zero")]

def encodeJoinGroupResponse (response : GroupMember) : Bytes := writeGroupMember response

def decodeJoinGroupResponse : Bytes → Except DecodeError GroupMember :=
  decodePayload readGroupMember "malformed join-group response payload" fun _ ↦ []

def encodeSyncGroupRequest (request : GroupMember) : Bytes := writeGroupMember request

def decodeSyncGroupRequest : Bytes → Except DecodeError GroupMember :=
  decodePayload readGroupMember "malformed sync-group request payload"
    (memberChecks "sync-group")

def encodeHeartbeatRequest (request : GroupMember) : Bytes := writeGroupMember request

def decodeHeartbeatRequest : Bytes → Except DecodeError GroupMember :=
  decodePayload readGroupMember "malformed heartbeat request payload" (memberChecks "heartbeat")

def encodeLeaveGroupRequest (request : GroupMember) : Bytes := writeGroupMember request

def decodeLeaveGroupRequest : Bytes → Except DecodeError GroupMember :=
  decodePayload readGroupMember "malformed leave-group request payload"
    (memberChecks "leave-group")

structure SyncGroupResponse where
  group : Bytes
  topic : Bytes
  memberId : Bytes
  generationId : ℕ
  assignment : List ℕ
  deriving DecidableEq, Repr

def encodeSyncGroupResponse (response : SyncGroupResponse) : Bytes :=
  writeBytes response.group ++ (writeBytes response.topic ++ (writeBytes response.memberId ++
    (writeU64 response.generationId ++ writeCounted writeU16 response.assignment)))

def readSyncGroupResponse : PayloadReader SyncGroupResponse := do
  let group ← string
  let topic ← string
  let memberId ← string
  let generationId ← u64
  let assignment ← counted u16
  return ⟨group, topic, memberId, generationId, assignment⟩

def decodeSyncGroupResponse : Bytes → Except DecodeError SyncGroupResponse :=
  decodePayload readSyncGroupResponse "malformed sync-group response payload" fun _ ↦ []

def SyncGroupResponse.Fits (response : SyncGroupResponse) : Prop :=
  Short response.group ∧ Short response.topic ∧ Short response.memberId ∧
    response.generationId < 2 ^ 64 ∧ response.assignment.length < 2 ^ 32 ∧
    ∀ partition ∈ response.assignment, partition < 2 ^ 16

theorem syncGroupResponse_exact :
    Exact encodeSyncGroupResponse readSyncGroupResponse SyncGroupResponse.Fits := by
  refine .field SyncGroupResponse.group string_exact fun group ↦ ?_
  refine .field SyncGroupResponse.topic string_exact fun topic ↦ ?_
  refine .field SyncGroupResponse.memberId string_exact fun memberId ↦ ?_
  refine .field SyncGroupResponse.generationId u64_exact fun generationId ↦ ?_
  refine .last SyncGroupResponse.assignment (counted_exact u16_exact) ?_
  rintro ⟨⟩
  grind

/-- `HeartbeatResponse` and `LeaveGroupResponse` -/
structure GroupMemberStatus where
  group : Bytes
  topic : Bytes
  memberId : Bytes
  generationId : ℕ
  status : Bytes
  deriving DecidableEq, Repr

def writeGroupMemberStatus (member : GroupMemberStatus) : Bytes :=
  writeBytes member.group ++ (writeBytes member.topic ++ (writeBytes member.memberId ++
    (writeU64 member.generationId ++ writeBytes member.status)))

def readGroupMemberStatus : PayloadReader GroupMemberStatus := do
  let group ← string
  let topic ← string
  let memberId ← string
  let generationId ← u64
  let status ← string
  return ⟨group, topic, memberId, generationId, status⟩

def GroupMemberStatus.Fits (member : GroupMemberStatus) : Prop :=
  Short member.group ∧ Short member.topic ∧ Short member.memberId ∧
    member.generationId < 2 ^ 64 ∧ Short member.status

theorem groupMemberStatus_exact :
    Exact writeGroupMemberStatus readGroupMemberStatus GroupMemberStatus.Fits := by
  refine .field GroupMemberStatus.group string_exact fun group ↦ ?_
  refine .field GroupMemberStatus.topic string_exact fun topic ↦ ?_
  refine .field GroupMemberStatus.memberId string_exact fun memberId ↦ ?_
  refine .field GroupMemberStatus.generationId u64_exact fun generationId ↦ ?_
  refine .last GroupMemberStatus.status string_exact ?_
  rintro ⟨⟩
  grind

def encodeHeartbeatResponse (response : GroupMemberStatus) : Bytes :=
  writeGroupMemberStatus response

def decodeHeartbeatResponse : Bytes → Except DecodeError GroupMemberStatus :=
  decodePayload readGroupMemberStatus "malformed heartbeat response payload" fun _ ↦ []

def encodeLeaveGroupResponse (response : GroupMemberStatus) : Bytes :=
  writeGroupMemberStatus response

def decodeLeaveGroupResponse : Bytes → Except DecodeError GroupMemberStatus :=
  decodePayload readGroupMemberStatus "malformed leave-group response payload" fun _ ↦ []

/-! ## Describing a group -/

structure DescribeGroupRequest where
  group : Bytes
  topic : Bytes
  deriving DecidableEq, Repr

def encodeDescribeGroupRequest (request : DescribeGroupRequest) : Bytes :=
  writeBytes request.group ++ writeBytes request.topic

def readDescribeGroupRequest : PayloadReader DescribeGroupRequest := do
  let group ← string
  let topic ← string
  return ⟨group, topic⟩

def DescribeGroupRequest.checks (request : DescribeGroupRequest) : List (Bool × String) :=
  [(request.group.isEmpty, "describe-group group must not be empty"),
    (request.topic.isEmpty, "describe-group topic must not be empty")]

def decodeDescribeGroupRequest : Bytes → Except DecodeError DescribeGroupRequest :=
  decodePayload readDescribeGroupRequest "malformed describe-group request payload"
    DescribeGroupRequest.checks

def DescribeGroupRequest.Fits (request : DescribeGroupRequest) : Prop :=
  Short request.group ∧ Short request.topic

theorem describeGroupRequest_exact :
    Exact encodeDescribeGroupRequest readDescribeGroupRequest DescribeGroupRequest.Fits := by
  refine .field DescribeGroupRequest.group string_exact fun group ↦ ?_
  refine .last DescribeGroupRequest.topic string_exact ?_
  rintro ⟨⟩
  grind

structure GroupOffsetDescription where
  partition : ℕ
  hasCommittedOffset : Bool
  committedOffset : ℕ
  earliestOffset : ℕ
  nextOffset : ℕ
  lag : ℕ
  outOfRange : Bool
  deriving DecidableEq, Repr

def writeGroupOffsetDescription (offset : GroupOffsetDescription) : Bytes :=
  writeU16 offset.partition ++ (writeBool offset.hasCommittedOffset ++
    (writeU64 offset.committedOffset ++ (writeU64 offset.earliestOffset ++
      (writeU64 offset.nextOffset ++ (writeU64 offset.lag ++ writeBool offset.outOfRange)))))

def readGroupOffsetDescription : PayloadReader GroupOffsetDescription := do
  let partition ← u16
  let hasCommittedOffset ← PayloadReader.bool
  let committedOffset ← u64
  let earliestOffset ← u64
  let nextOffset ← u64
  let lag ← u64
  let outOfRange ← PayloadReader.bool
  return ⟨partition, hasCommittedOffset, committedOffset, earliestOffset, nextOffset, lag,
    outOfRange⟩

def GroupOffsetDescription.Fits (offset : GroupOffsetDescription) : Prop :=
  offset.partition < 2 ^ 16 ∧ offset.committedOffset < 2 ^ 64 ∧
    offset.earliestOffset < 2 ^ 64 ∧ offset.nextOffset < 2 ^ 64 ∧ offset.lag < 2 ^ 64

theorem groupOffsetDescription_exact :
    Exact writeGroupOffsetDescription readGroupOffsetDescription GroupOffsetDescription.Fits := by
  -- Booleans always fit.
  have hfits : ∀ offset : GroupOffsetDescription,
      offset.partition < 2 ^ 16 ∧ True ∧ offset.committedOffset < 2 ^ 64 ∧
        offset.earliestOffset < 2 ^ 64 ∧ offset.nextOffset < 2 ^ 64 ∧ offset.lag < 2 ^ 64 ∧
        True ↔ offset.Fits := by
    intro offset
    simp only [GroupOffsetDescription.Fits, true_and, and_true]
  refine ExactOn.congr ?_ hfits
  refine .field GroupOffsetDescription.partition u16_exact fun partition ↦ ?_
  refine .field GroupOffsetDescription.hasCommittedOffset bool_exact fun committed ↦ ?_
  refine .field GroupOffsetDescription.committedOffset u64_exact fun committedOffset ↦ ?_
  refine .field GroupOffsetDescription.earliestOffset u64_exact fun earliestOffset ↦ ?_
  refine .field GroupOffsetDescription.nextOffset u64_exact fun nextOffset ↦ ?_
  refine .field GroupOffsetDescription.lag u64_exact fun lag ↦ ?_
  refine .last GroupOffsetDescription.outOfRange bool_exact ?_
  rintro ⟨⟩
  grind

structure DescribeGroupResponse where
  group : Bytes
  topic : Bytes
  activeMemberCount : ℕ
  offsets : List GroupOffsetDescription
  deriving DecidableEq, Repr

def encodeDescribeGroupResponse (response : DescribeGroupResponse) : Bytes :=
  writeBytes response.group ++ (writeBytes response.topic ++
    (writeU32 response.activeMemberCount ++
      writeCounted writeGroupOffsetDescription response.offsets))

def readDescribeGroupResponse : PayloadReader DescribeGroupResponse := do
  let group ← string
  let topic ← string
  let activeMemberCount ← u32
  let offsets ← counted readGroupOffsetDescription
  return ⟨group, topic, activeMemberCount, offsets⟩

def decodeDescribeGroupResponse : Bytes → Except DecodeError DescribeGroupResponse :=
  decodePayload readDescribeGroupResponse "malformed describe-group response payload" fun _ ↦ []

def DescribeGroupResponse.Fits (response : DescribeGroupResponse) : Prop :=
  Short response.group ∧ Short response.topic ∧ response.activeMemberCount < 2 ^ 32 ∧
    response.offsets.length < 2 ^ 32 ∧ ∀ offset ∈ response.offsets, offset.Fits

theorem describeGroupResponse_exact :
    Exact encodeDescribeGroupResponse readDescribeGroupResponse DescribeGroupResponse.Fits := by
  refine .field DescribeGroupResponse.group string_exact fun group ↦ ?_
  refine .field DescribeGroupResponse.topic string_exact fun topic ↦ ?_
  refine .field DescribeGroupResponse.activeMemberCount u32_exact fun activeMemberCount ↦ ?_
  refine .last DescribeGroupResponse.offsets (counted_exact groupOffsetDescription_exact) ?_
  rintro ⟨⟩
  grind

end BoltStream.Protocol
