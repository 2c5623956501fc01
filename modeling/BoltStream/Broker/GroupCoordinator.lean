import BoltStream.Lib.Decimal
import BoltStream.Lib.SortedMap
import BoltStream.Protocol.Messages

/-!
# The group coordinator

Members of a consumer group share the partitions of a topic.  Every change of
the member set starts a new generation and shares the partitions anew.  Each
public operation is one critical section; it may expire members on its way and
then fail, so operations return the coordinator they leave behind beside their
result.  Time points are nanoseconds of the steady clock.  The generation and the
number of the next member id are 64-bit counters that wrap.
-/

namespace BoltStream.Broker

open BoltStream.Lib BoltStream.Protocol

structure GroupCoordinatorError where
  code : ErrorCode
  message : String
  deriving DecidableEq, Repr

/-- Group and topic, ordered by the group first. -/
abbrev GroupKey := Bytes ×ₗ Bytes

def groupKey (group topic : Bytes) : GroupKey := toLex (group, topic)

structure MemberState where
  memberId : Bytes := []
  sessionTimeoutMs : ℕ := 0
  lastHeartbeat : ℤ := 0
  assignment : List ℕ := []
  deriving DecidableEq, Repr

structure GroupState where
  group : Bytes := []
  topic : Bytes := []
  partitionCount : ℕ := 0
  generationId : UInt64 := 0
  members : SortedMap Bytes MemberState := ∅
  deriving DecidableEq

/-- `GroupCoordinator::Result` -/
structure GroupResult where
  group : Bytes := []
  topic : Bytes := []
  memberId : Bytes := []
  generationId : ℕ := 0
  assignment : List ℕ := []
  expiredMemberIds : List Bytes := []
  memberJoined : Bool := false
  memberLeft : Bool := false
  generationChanged : Bool := false
  deriving DecidableEq, Repr

structure GroupCoordinator where
  groups : SortedMap GroupKey GroupState := ∅
  nextMemberId : UInt64 := 1
  deriving DecidableEq

/-- The session of a member has timed out. -/
def MemberState.timedOut (member : MemberState) (now : ℤ) : Bool :=
  decide (now - member.lastHeartbeat ≥ (member.sessionTimeoutMs : ℤ) * 10 ^ 6)

def ownsPartition (member : MemberState) (partition : ℕ) : Bool :=
  decide (partition ∈ member.assignment)

namespace GroupState

def makeResult (state : GroupState) (member : Option MemberState) : GroupResult :=
  { group := state.group
    topic := state.topic
    memberId := (member.map MemberState.memberId).getD []
    generationId := state.generationId.toNat
    assignment := (member.map MemberState.assignment).getD [] }

/-- The members left, and the ids of the expired ones. -/
def expireMembers (state : GroupState) (now : ℤ) : GroupState × List Bytes :=
  ({ state with members := state.members.filter fun _ member ↦ !member.timedOut now },
    (state.members.filter fun _ member ↦ member.timedOut now).keys)

/-- One turn of the loop of `recompute_assignment`; the state is `index` and
`next_partition`. -/
def assignMember (base remainder : ℕ) (place : ℕ × ℕ) (member : MemberState) :
    (ℕ × ℕ) × MemberState :=
  let count := base + if place.1 < remainder then 1 else 0
  ((place.1 + 1, place.2 + count), { member with assignment := List.range' place.2 count })

def recomputeAssignment (state : GroupState) : GroupState :=
  let cleared := state.members.mapValues fun _ member ↦ { member with assignment := [] }
  if state.members.entries = [] ∨ state.partitionCount = 0 then { state with members := cleared }
  else
    let memberCount := state.members.entries.length
    { state with
      members := cleared.mapAccum
        (fun place _ member ↦
          assignMember (state.partitionCount / memberCount) (state.partitionCount % memberCount)
            place member)
        (0, 0) }

def bumpGeneration (state : GroupState) : GroupState :=
  { state with generationId := state.generationId + 1 }.recomputeAssignment

/-- What every operation on a known group does first. -/
def expireAndBump (state : GroupState) (now : ℤ) : GroupState × List Bytes :=
  let expired := state.expireMembers now
  if expired.2 ≠ [] then (expired.1.bumpGeneration, expired.2) else expired

/-- The member a request speaks for, or the error for a request that is not of
this member set and generation. -/
def currentMember (state : GroupState) (memberId : Bytes) (generationId : ℕ)
    (changed : GroupCoordinatorError) : Except GroupCoordinatorError MemberState :=
  match state.members.find? memberId with
  | none => .error ⟨.staleMember, "group member is stale"⟩
  | some member => if generationId ≠ state.generationId.toNat then .error changed else .ok member

/-- A sign of life of `memberId`. -/
def touch (state : GroupState) (memberId : Bytes) (member : MemberState) (now : ℤ) : GroupState :=
  { state with members := state.members.insert memberId { member with lastHeartbeat := now } }

end GroupState

namespace GroupCoordinator

def setGroup (coordinator : GroupCoordinator) (group topic : Bytes) (state : GroupState) :
    GroupCoordinator :=
  { coordinator with groups := coordinator.groups.insert (groupKey group topic) state }

/-- The id `next_member_id()` prints: `member-` and twelve decimal places. -/
def makeMemberId (coordinator : GroupCoordinator) : Bytes :=
  [109, 101, 109, 98, 101, 114, 45] ++ paddedDecimal 12 coordinator.nextMemberId.toNat

def join (coordinator : GroupCoordinator) (group topic memberId : Bytes)
    (sessionTimeoutMs partitionCount : ℕ) (now : ℤ) : GroupCoordinator × GroupResult :=
  let found := (coordinator.groups.find? (groupKey group topic)).getD {}
  let named := if found.group = [] then { found with group := group, topic := topic } else found
  let expired := { named with partitionCount := partitionCount }.expireAndBump now
  let id := if memberId = [] then coordinator.makeMemberId else memberId
  let inserted := (expired.1.members.find? id).isNone
  let entered :=
    if inserted then
      { expired.1 with
        members := expired.1.members.insert id { memberId := id } }.bumpGeneration
    else expired.1
  let member : MemberState :=
    { (entered.members.find? id).getD {} with
      sessionTimeoutMs := sessionTimeoutMs
      lastHeartbeat := now }
  let joined := { entered with members := entered.members.insert id member }
  let settled := if !inserted ∧ member.assignment = [] then joined.recomputeAssignment else joined
  ({ coordinator with
      groups := coordinator.groups.insert (groupKey group topic) settled
      nextMemberId :=
        if memberId = [] then coordinator.nextMemberId + 1 else coordinator.nextMemberId },
    { settled.makeResult (settled.members.find? id) with
      memberJoined := inserted
      generationChanged := expired.2 ≠ [] ∨ inserted
      expiredMemberIds := expired.2 })

/-- The frame of the operations that need an existing group: its members are
expired first, and what `body` then does to the group is kept also when it
fails. -/
def onGroup (coordinator : GroupCoordinator) (group topic : Bytes) (now : ℤ)
    (body : GroupState → GroupState × Except GroupCoordinatorError GroupResult) :
    GroupCoordinator × Except GroupCoordinatorError GroupResult :=
  match coordinator.groups.find? (groupKey group topic) with
  | none => (coordinator, .error ⟨.staleMember, "consumer group is unknown"⟩)
  | some state =>
      let expired := state.expireAndBump now
      let done := body expired.1
      (coordinator.setGroup group topic done.1, done.2.map fun result ↦
        { result with
          generationChanged := result.generationChanged || decide (expired.2 ≠ [])
          expiredMemberIds := expired.2 })

def rebalanceError : GroupCoordinatorError :=
  ⟨.rebalanceRequired, "group generation has changed"⟩

/-- The body shared by `sync` and `heartbeat`. -/
def renewMember (memberId : Bytes) (generationId : ℕ) (now : ℤ) (state : GroupState) :
    GroupState × Except GroupCoordinatorError GroupResult :=
  match state.currentMember memberId generationId rebalanceError with
  | .error error => (state, .error error)
  | .ok member => (state.touch memberId member now, .ok (state.makeResult (some member)))

def sync (coordinator : GroupCoordinator) (group topic memberId : Bytes) (generationId : ℕ)
    (now : ℤ) : GroupCoordinator × Except GroupCoordinatorError GroupResult :=
  coordinator.onGroup group topic now (renewMember memberId generationId now)

def heartbeat (coordinator : GroupCoordinator) (group topic memberId : Bytes) (generationId : ℕ)
    (now : ℤ) : GroupCoordinator × Except GroupCoordinatorError GroupResult :=
  coordinator.onGroup group topic now (renewMember memberId generationId now)

def leave (coordinator : GroupCoordinator) (group topic memberId : Bytes) (generationId : ℕ)
    (now : ℤ) : GroupCoordinator × Except GroupCoordinatorError GroupResult :=
  coordinator.onGroup group topic now fun state ↦
    match state.currentMember memberId generationId rebalanceError with
    | .error error => (state, .error error)
    | .ok member =>
        let left := { state with members := state.members.erase memberId }.bumpGeneration
        (left, .ok
          { state.makeResult (some member) with
            generationId := left.generationId.toNat
            memberLeft := true
            generationChanged := true })

def expire (coordinator : GroupCoordinator) (group topic : Bytes) (now : ℤ) :
    GroupCoordinator × GroupResult :=
  match coordinator.groups.find? (groupKey group topic) with
  | none => (coordinator, { group := group, topic := topic })
  | some state =>
      let expired := state.expireAndBump now
      (coordinator.setGroup group topic expired.1,
        { state.makeResult none with
          generationId := expired.1.generationId.toNat
          generationChanged := expired.2 ≠ []
          expiredMemberIds := expired.2 })

def validateCommit (coordinator : GroupCoordinator) (group topic memberId : Bytes)
    (generationId partition : ℕ) (now : ℤ) :
    GroupCoordinator × Except GroupCoordinatorError GroupResult :=
  coordinator.onGroup group topic now fun state ↦
    match state.currentMember memberId generationId
        ⟨.staleMember, "group generation is stale for commit"⟩ with
    | .error error => (state, .error error)
    | .ok member =>
        if ownsPartition member partition = false then
          (state, .error ⟨.staleMember, "group member does not own committed partition"⟩)
        else (state.touch memberId member now, .ok (state.makeResult (some member)))

/-- `active_member_count` -/
def activeMemberCount (coordinator : GroupCoordinator) (group topic : Bytes) (now : ℤ) :
    GroupCoordinator × ℕ :=
  match coordinator.groups.find? (groupKey group topic) with
  | none => (coordinator, 0)
  | some state =>
      let expired := (state.expireAndBump now).1
      (coordinator.setGroup group topic expired, expired.members.entries.length)

def hasActiveMembers (coordinator : GroupCoordinator) (group topic : Bytes) (now : ℤ) :
    GroupCoordinator × Bool :=
  match coordinator.groups.find? (groupKey group topic) with
  | none => (coordinator, false)
  | some state =>
      let expired := (state.expireAndBump now).1
      (coordinator.setGroup group topic expired, expired.members.entries ≠ [])

def topicHasActiveMembers (coordinator : GroupCoordinator) (topic : Bytes) (now : ℤ) :
    GroupCoordinator × Bool :=
  let groups := coordinator.groups.mapValues fun key state ↦
    if (ofLex key).2 = topic then (state.expireAndBump now).1 else state
  ({ coordinator with groups := groups },
    groups.entries.any fun entry ↦
      decide ((ofLex entry.1).2 = topic ∧ entry.2.members.entries ≠ []))

def removeTopic (coordinator : GroupCoordinator) (topic : Bytes) : GroupCoordinator :=
  { coordinator with groups := coordinator.groups.filter fun key _ ↦ (ofLex key).2 ≠ topic }

end GroupCoordinator

end BoltStream.Broker
