import BoltStream.Broker.MemberIds

/-!
# The names that answers repeat

A group is kept under its own name and its topic's, and each of its members under the
member's id, so that the answer to a member repeats what the member has sent.
-/

namespace BoltStream.Broker

open BoltStream.Lib BoltStream.Protocol

/-- The group has these names, and each member has the id that it is found under. -/
structure GroupState.NamedAs (state : GroupState) (group topic : Bytes) : Prop where
  group : state.group = group
  topic : state.topic = topic
  members : ∀ id found, (state.members.find? id).map MemberState.memberId = some found →
    found = id

/-- What an answer takes from a result, beside the generation. -/
def GroupResult.repeated (result : GroupResult) : Bytes × Bytes × Bytes × List ℕ :=
  (result.group, result.topic, result.memberId, result.assignment)

namespace GroupState

variable {state : GroupState} {group topic : Bytes}

theorem NamedAs.expireMembers (h : state.NamedAs group topic) (now : ℤ) :
    (state.expireMembers now).1.NamedAs group topic := by
  refine ⟨h.group, h.topic, fun id found hfound ↦ h.members id found ?_⟩
  obtain ⟨member, hmember, hid⟩ := Option.map_eq_some_iff.mp hfound
  rw [GroupState.expireMembers, SortedMap.find?_filter] at hmember
  obtain ⟨hmember, -⟩ := Option.filter_eq_some_iff.mp hmember
  rw [hmember]
  exact congrArg some hid

theorem NamedAs.recomputeAssignment (h : state.NamedAs group topic) :
    state.recomputeAssignment.NamedAs group topic := by
  have hnames : state.recomputeAssignment.group = state.group ∧
      state.recomputeAssignment.topic = state.topic := by
    rw [GroupState.recomputeAssignment]
    split_ifs
    · exact ⟨rfl, rfl⟩
    · exact ⟨rfl, rfl⟩
  refine ⟨hnames.1.trans h.group, hnames.2.trans h.topic, fun id found hfound ↦ ?_⟩
  rw [memberId_recomputeAssignment] at hfound
  exact h.members id found hfound

theorem NamedAs.bumpGeneration (h : state.NamedAs group topic) :
    state.bumpGeneration.NamedAs group topic := by
  have hnext : ({ state with generationId := state.generationId + 1 } : GroupState).NamedAs group
      topic := ⟨h.group, h.topic, h.members⟩
  exact hnext.recomputeAssignment

theorem NamedAs.expireAndBump (h : state.NamedAs group topic) (now : ℤ) :
    (state.expireAndBump now).1.NamedAs group topic := by
  rw [GroupState.expireAndBump]
  split_ifs
  · exact (h.expireMembers now).bumpGeneration
  · exact h.expireMembers now

theorem NamedAs.insert (h : state.NamedAs group topic) {id : Bytes} {member : MemberState}
    (hid : member.memberId = id) :
    ({ state with members := state.members.insert id member } : GroupState).NamedAs group
      topic := by
  refine ⟨h.group, h.topic, fun other found hfound ↦ ?_⟩
  rw [SortedMap.find?_insert] at hfound
  split_ifs at hfound with hsame
  · rw [hsame, ← hid]
    exact (Option.some.inj hfound).symm
  · exact h.members other found hfound

theorem NamedAs.erase (h : state.NamedAs group topic) (id : Bytes) :
    ({ state with members := state.members.erase id } : GroupState).NamedAs group topic := by
  refine ⟨h.group, h.topic, fun other found hfound ↦ ?_⟩
  rw [SortedMap.find?_erase] at hfound
  split_ifs at hfound
  · cases hfound
  · exact h.members other found hfound

theorem NamedAs.memberId (h : state.NamedAs group topic) {id : Bytes} {member : MemberState}
    (hmember : state.members.find? id = some member) : member.memberId = id :=
  h.members id member.memberId (by rw [hmember]; rfl)

theorem NamedAs.touch (h : state.NamedAs group topic) {id : Bytes} {member : MemberState}
    (hmember : state.members.find? id = some member) (now : ℤ) :
    (state.touch id member now).NamedAs group topic := by
  have hid : member.memberId = id := h.memberId hmember
  have htouched : ({ member with lastHeartbeat := now } : MemberState).memberId = id := hid
  exact h.insert htouched

/-- A join enters a member under its id. -/
theorem NamedAs.enrol (h : state.NamedAs group topic) (id : Bytes) (sessionTimeoutMs : ℕ)
    (now : ℤ) :
    (state.enrol id sessionTimeoutMs now).NamedAs group topic ∧
      ((state.enrol id sessionTimeoutMs now).members.find? id).map MemberState.memberId =
        some id := by
  set entered := if (state.members.find? id).isNone then
      { state with
        members := state.members.insert id { memberId := id } }.bumpGeneration
    else state with hentered
  have hnamed : entered.NamedAs group topic := by
    rw [hentered]
    split_ifs
    · exact NamedAs.bumpGeneration (h.insert rfl)
    · exact h
  have hfound : (entered.members.find? id).map MemberState.memberId = some id := by
    rw [hentered]
    split_ifs with hnone
    · rw [GroupState.bumpGeneration, memberId_recomputeAssignment]
      exact congrArg _ (SortedMap.find?_insert_self _ _ _)
    · obtain ⟨member, hmember⟩ := Option.ne_none_iff_exists'.mp
        fun habsent ↦ hnone (Option.isNone_iff_eq_none.mpr habsent)
      rw [hmember]
      exact congrArg some (h.memberId hmember)
  set member : MemberState :=
    { (entered.members.find? id).getD {} with
      sessionTimeoutMs := sessionTimeoutMs
      lastHeartbeat := now } with hmember
  have hid : member.memberId = id := by
    obtain ⟨found, hfind, hid⟩ := Option.map_eq_some_iff.mp hfound
    rw [hmember, hfind]
    exact hid
  set joined : GroupState := { entered with members := entered.members.insert id member }
    with hjoined
  have hjoin : joined.NamedAs group topic := hnamed.insert hid
  have hself : (joined.members.find? id).map MemberState.memberId = some id := by
    rw [hjoined]
    refine (congrArg _ (SortedMap.find?_insert_self _ _ _)).trans ?_
    exact congrArg some hid
  have hsettled : state.enrol id sessionTimeoutMs now =
      if !(state.members.find? id).isNone ∧ member.assignment = [] then
        joined.recomputeAssignment
      else joined := rfl
  rw [hsettled]
  split_ifs
  · exact ⟨hjoin.recomputeAssignment, (memberId_recomputeAssignment joined id).trans hself⟩
  · exact ⟨hjoin, hself⟩

end GroupState

namespace GroupCoordinator

open GroupState

/-- Every group has the names it is kept under. -/
def Named (coordinator : GroupCoordinator) : Prop :=
  ∀ group topic state, coordinator.groups.find? (groupKey group topic) = some state →
    state.NamedAs group topic

variable {coordinator : GroupCoordinator} {group topic memberId : Bytes} {generationId : ℕ}

theorem named_empty : ({} : GroupCoordinator).Named := by
  intro group topic state hstate
  cases hstate

theorem Named.setGroup (h : coordinator.Named) {state : GroupState}
    (hstate : state.NamedAs group topic) : (coordinator.setGroup group topic state).Named := by
  intro group' topic' found hfound
  rw [GroupCoordinator.setGroup, SortedMap.find?_insert] at hfound
  split_ifs at hfound with hkey
  · obtain ⟨rfl, rfl⟩ := groupKey_injective hkey
    exact Option.some.inj hfound ▸ hstate
  · exact h group' topic' found hfound

theorem Named.onGroup (h : coordinator.Named) {now : ℤ}
    {body : GroupState → GroupState × Except GroupCoordinatorError GroupResult}
    (hbody : ∀ state : GroupState, state.NamedAs group topic →
      (body state).1.NamedAs group topic) :
    (coordinator.onGroup group topic now body).1.Named := by
  rw [GroupCoordinator.onGroup]
  cases hfind : coordinator.groups.find? (groupKey group topic) with
  | none => exact h
  | some state => exact h.setGroup (hbody _ ((h group topic state hfind).expireAndBump now))

/-- Operations that only expire members of a group. -/
theorem Named.setExpired (h : coordinator.Named) {state : GroupState} {now : ℤ}
    (hfind : coordinator.groups.find? (groupKey group topic) = some state) :
    (coordinator.setGroup group topic (state.expireAndBump now).1).Named :=
  h.setGroup ((h group topic state hfind).expireAndBump now)

theorem Named.expire (h : coordinator.Named) (group topic : Bytes) (now : ℤ) :
    (coordinator.expire group topic now).1.Named := by
  rw [GroupCoordinator.expire]
  cases hfind : coordinator.groups.find? (groupKey group topic) with
  | none => exact h
  | some state => exact h.setExpired hfind

theorem Named.hasActiveMembers (h : coordinator.Named) (group topic : Bytes) (now : ℤ) :
    (coordinator.hasActiveMembers group topic now).1.Named := by
  rw [GroupCoordinator.hasActiveMembers]
  cases hfind : coordinator.groups.find? (groupKey group topic) with
  | none => exact h
  | some state => exact h.setExpired hfind

theorem Named.activeMemberCount (h : coordinator.Named) (group topic : Bytes) (now : ℤ) :
    (coordinator.activeMemberCount group topic now).1.Named := by
  rw [GroupCoordinator.activeMemberCount]
  cases hfind : coordinator.groups.find? (groupKey group topic) with
  | none => exact h
  | some state => exact h.setExpired hfind

theorem Named.topicHasActiveMembers (h : coordinator.Named) (topic : Bytes) (now : ℤ) :
    (coordinator.topicHasActiveMembers topic now).1.Named := by
  intro group' topic' found hfound
  rw [GroupCoordinator.topicHasActiveMembers, SortedMap.find?_mapValues] at hfound
  obtain ⟨state, hstate, rfl⟩ := Option.map_eq_some_iff.mp hfound
  split_ifs
  · exact (h group' topic' state hstate).expireAndBump now
  · exact h group' topic' state hstate

theorem Named.removeTopic (h : coordinator.Named) (topic : Bytes) :
    (coordinator.removeTopic topic).Named := by
  intro group' topic' found hfound
  rw [GroupCoordinator.removeTopic, SortedMap.find?_filter] at hfound
  exact h group' topic' found (Option.filter_eq_some_iff.mp hfound).1

theorem Named.joinedGroup (h : coordinator.Named) (group topic : Bytes) (partitionCount : ℕ) :
    (coordinator.joinedGroup group topic partitionCount).NamedAs group topic := by
  have hmembers : ∀ id found,
      ((coordinator.joinedGroup group topic partitionCount).members.find? id).map
        MemberState.memberId = some found → found = id := by
    intro id found hfound
    rw [GroupCoordinator.joinedGroup] at hfound
    cases hfind : coordinator.groups.find? (groupKey group topic) with
    | none =>
        rw [hfind] at hfound
        cases hfound
    | some state =>
        rw [hfind, Option.getD_some] at hfound
        split_ifs at hfound
        · exact (h group topic state hfind).members id found hfound
        · exact (h group topic state hfind).members id found hfound
  rw [GroupCoordinator.joinedGroup] at hmembers ⊢
  cases hfind : coordinator.groups.find? (groupKey group topic) with
  | none =>
      rw [hfind] at hmembers
      exact ⟨rfl, rfl, hmembers⟩
  | some state =>
      rw [hfind] at hmembers
      have hnamed := h group topic state hfind
      rw [Option.getD_some] at hmembers ⊢
      split_ifs at hmembers ⊢
      · exact ⟨rfl, rfl, hmembers⟩
      · exact ⟨hnamed.group, hnamed.topic, hmembers⟩

theorem Named.join (h : coordinator.Named) (group topic id : Bytes)
    (sessionTimeoutMs partitionCount : ℕ) (now : ℤ) :
    (coordinator.join group topic id sessionTimeoutMs partitionCount now).1.Named := by
  have henrolled := (((h.joinedGroup group topic partitionCount).expireAndBump now).enrol
    (coordinator.joinedId id) sessionTimeoutMs now).1
  rw [join_fst]
  exact h.setGroup henrolled

/-- The answer to a join names the member that has joined. -/
theorem Named.join_answer (h : coordinator.Named) (group topic id : Bytes)
    (sessionTimeoutMs partitionCount : ℕ) (now : ℤ) :
    (coordinator.join group topic id sessionTimeoutMs partitionCount now).2.group = group ∧
      (coordinator.join group topic id sessionTimeoutMs partitionCount now).2.topic = topic ∧
      (coordinator.join group topic id sessionTimeoutMs partitionCount now).2.memberId =
        coordinator.joinedId id := by
  obtain ⟨hnamed, hmember⟩ :=
    ((h.joinedGroup group topic partitionCount).expireAndBump now).enrol
      (coordinator.joinedId id) sessionTimeoutMs now
  exact ⟨hnamed.group, hnamed.topic, congrArg (Option.getD · []) hmember⟩

theorem namedAs_renewMember {state : GroupState} (h : state.NamedAs group topic)
    (memberId : Bytes) (generationId : ℕ) (now : ℤ) :
    (renewMember memberId generationId now state).1.NamedAs group topic := by
  rw [renewMember]
  split
  · exact h
  · next member hmember =>
      exact h.touch (find?_of_currentMember hmember).1 now

theorem Named.sync (h : coordinator.Named) (group topic memberId : Bytes) (generationId : ℕ)
    (now : ℤ) : (coordinator.sync group topic memberId generationId now).1.Named :=
  h.onGroup fun _ hstate ↦ namedAs_renewMember hstate memberId generationId now

theorem Named.heartbeat (h : coordinator.Named) (group topic memberId : Bytes)
    (generationId : ℕ) (now : ℤ) :
    (coordinator.heartbeat group topic memberId generationId now).1.Named :=
  h.onGroup fun _ hstate ↦ namedAs_renewMember hstate memberId generationId now

theorem Named.leave (h : coordinator.Named) (group topic memberId : Bytes) (generationId : ℕ)
    (now : ℤ) : (coordinator.leave group topic memberId generationId now).1.Named := by
  apply h.onGroup
  intro state hstate
  split
  · exact hstate
  · exact (hstate.erase memberId).bumpGeneration

theorem Named.validateCommit (h : coordinator.Named) (group topic memberId : Bytes)
    (generationId partition : ℕ) (now : ℤ) :
    (coordinator.validateCommit group topic memberId generationId partition now).1.Named := by
  apply h.onGroup
  intro state hstate
  split
  · exact hstate
  · next member hmember =>
      split_ifs
      · exact hstate
      · exact hstate.touch (find?_of_currentMember hmember).1 now

/-! ## Answers to members -/

/-- The member a request speaks for, when those that have timed out are gone. -/
def speaker (coordinator : GroupCoordinator) (group topic memberId : Bytes) (generationId : ℕ)
    (now : ℤ) : Option MemberState :=
  (coordinator.groups.find? (groupKey group topic)).bind fun state ↦
    ((state.expireAndBump now).1.currentMember memberId generationId rebalanceError).toOption

theorem repeated_makeResult {state : GroupState} (h : state.NamedAs group topic)
    {member : MemberState}
    (hmember : state.currentMember memberId generationId rebalanceError = .ok member) :
    (state.makeResult (some member)).repeated =
      (group, topic, memberId, member.assignment) := by
  have hid := h.memberId (find?_of_currentMember hmember).1
  rw [GroupResult.repeated, makeResult, h.group, h.topic, ← hid]
  rfl

/-- An operation on a group answers for the member that speaks if its body does. -/
theorem Named.onGroup_answer (h : coordinator.Named) {now : ℤ}
    {body : GroupState → GroupState × Except GroupCoordinatorError GroupResult}
    (hbody : ∀ state : GroupState, state.NamedAs group topic →
      (body state).2.toOption.map GroupResult.repeated =
        (state.currentMember memberId generationId rebalanceError).toOption.map fun member ↦
          (group, topic, memberId, member.assignment)) :
    (coordinator.onGroup group topic now body).2.toOption.map GroupResult.repeated =
      (coordinator.speaker group topic memberId generationId now).map fun member ↦
        (group, topic, memberId, member.assignment) := by
  rw [GroupCoordinator.onGroup, speaker]
  cases hfind : coordinator.groups.find? (groupKey group topic) with
  | none => rfl
  | some state =>
      have hanswer := hbody _ ((h group topic state hfind).expireAndBump now)
      rw [Option.bind_some, ← hanswer]
      dsimp only
      cases (body (state.expireAndBump now).1).2 with
      | error error => rfl
      | ok result => rfl

theorem Named.sync_answer (h : coordinator.Named) (group topic memberId : Bytes)
    (generationId : ℕ) (now : ℤ) :
    (coordinator.sync group topic memberId generationId now).2.toOption.map
        GroupResult.repeated =
      (coordinator.speaker group topic memberId generationId now).map fun member ↦
        (group, topic, memberId, member.assignment) := by
  apply h.onGroup_answer
  intro state hstate
  rw [renewMember]
  cases hmember : state.currentMember memberId generationId rebalanceError with
  | error error => rfl
  | ok member => exact congrArg some (repeated_makeResult hstate hmember)

theorem Named.heartbeat_answer (h : coordinator.Named) (group topic memberId : Bytes)
    (generationId : ℕ) (now : ℤ) :
    (coordinator.heartbeat group topic memberId generationId now).2.toOption.map
        GroupResult.repeated =
      (coordinator.speaker group topic memberId generationId now).map fun member ↦
        (group, topic, memberId, member.assignment) :=
  h.sync_answer group topic memberId generationId now

theorem Named.leave_answer (h : coordinator.Named) (group topic memberId : Bytes)
    (generationId : ℕ) (now : ℤ) :
    (coordinator.leave group topic memberId generationId now).2.toOption.map
        GroupResult.repeated =
      (coordinator.speaker group topic memberId generationId now).map fun member ↦
        (group, topic, memberId, member.assignment) := by
  apply h.onGroup_answer
  intro state hstate
  cases hmember : state.currentMember memberId generationId rebalanceError with
  | error error => rfl
  | ok member => exact congrArg some (repeated_makeResult hstate hmember)

end GroupCoordinator

end BoltStream.Broker
