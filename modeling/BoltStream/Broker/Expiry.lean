import BoltStream.Broker.GroupMembers

/-!
# Lazy expiry

Members expire when an operation looks at their group, not at their deadline.  To
a specification in which they are gone on the deadline this makes no difference:
after every operation on a group the members are those that were last heard of
less than a session timeout ago.
-/

namespace BoltStream.Broker

open BoltStream.Lib BoltStream.Protocol

/-! ## Sightings -/

/-- When a member was last heard of, and the timeout of its last join. -/
structure Sighting where
  timeoutMs : ℕ
  seenAt : ℤ
  deriving DecidableEq, Repr

/-- The member's session has not timed out. -/
def Sighting.live (sighting : Sighting) (now : ℤ) : Bool :=
  decide (now - sighting.seenAt < (sighting.timeoutMs : ℤ) * 10 ^ 6)

def GroupOp.time : GroupOp → Option ℤ
  | .join _ _ _ _ _ now => some now
  | .sync _ _ _ _ now => some now
  | .heartbeat _ _ _ _ now => some now
  | .leave _ _ _ _ now => some now
  | .expire _ _ now => some now
  | .validateCommit _ _ _ _ _ now => some now
  | .hasActiveMembers _ _ now => some now
  | .activeMemberCount _ _ now => some now
  | .topicHasActiveMembers _ now => some now
  | .removeTopic _ => none

/-- The operation looks at the group. -/
def GroupOp.On (group topic : Bytes) : GroupOp → Prop
  | .join group' topic' _ _ _ _ => group' = group ∧ topic' = topic
  | .sync group' topic' _ _ _ => group' = group ∧ topic' = topic
  | .heartbeat group' topic' _ _ _ => group' = group ∧ topic' = topic
  | .leave group' topic' _ _ _ => group' = group ∧ topic' = topic
  | .expire group' topic' _ => group' = group ∧ topic' = topic
  | .validateCommit group' topic' _ _ _ _ => group' = group ∧ topic' = topic
  | .hasActiveMembers group' topic' _ => group' = group ∧ topic' = topic
  | .activeMemberCount group' topic' _ => group' = group ∧ topic' = topic
  | .topicHasActiveMembers topic' _ => topic' = topic
  | .removeTopic _ => False

instance (group topic : Bytes) : DecidablePred (GroupOp.On group topic)
  | .join group' topic' .. => inferInstanceAs (Decidable (group' = group ∧ topic' = topic))
  | .sync group' topic' .. => inferInstanceAs (Decidable (group' = group ∧ topic' = topic))
  | .heartbeat group' topic' .. => inferInstanceAs (Decidable (group' = group ∧ topic' = topic))
  | .leave group' topic' .. => inferInstanceAs (Decidable (group' = group ∧ topic' = topic))
  | .expire group' topic' _ => inferInstanceAs (Decidable (group' = group ∧ topic' = topic))
  | .validateCommit group' topic' .. =>
      inferInstanceAs (Decidable (group' = group ∧ topic' = topic))
  | .hasActiveMembers group' topic' _ =>
      inferInstanceAs (Decidable (group' = group ∧ topic' = topic))
  | .activeMemberCount group' topic' _ =>
      inferInstanceAs (Decidable (group' = group ∧ topic' = topic))
  | .topicHasActiveMembers topic' _ => inferInstanceAs (Decidable (topic' = topic))
  | .removeTopic _ => .isFalse id

theorem GroupOp.On.exists_time {group topic : Bytes} {op : GroupOp} (h : op.On group topic) :
    ∃ now, op.time = some now := by
  cases op with
  | removeTopic => exact h.elim
  | _ => exact ⟨_, rfl⟩

/-- The member for which a `sync`, `heartbeat`, `leave` or `validate_commit`
speaks. -/
def GroupOp.speaker : GroupOp → Option Bytes
  | .sync _ _ memberId _ _ => some memberId
  | .heartbeat _ _ memberId _ _ => some memberId
  | .leave _ _ memberId _ _ => some memberId
  | .validateCommit _ _ memberId _ _ _ => some memberId
  | _ => none

namespace GroupCoordinator

/-- The operation returns normally. -/
def accepted (coordinator : GroupCoordinator) : GroupOp → Bool
  | .sync group topic memberId generationId now =>
      (coordinator.sync group topic memberId generationId now).2.toBool
  | .heartbeat group topic memberId generationId now =>
      (coordinator.heartbeat group topic memberId generationId now).2.toBool
  | .leave group topic memberId generationId now =>
      (coordinator.leave group topic memberId generationId now).2.toBool
  | .validateCommit group topic memberId generationId partition now =>
      (coordinator.validateCommit group topic memberId generationId partition now).2.toBool
  | _ => true

/-- The member whom an operation shows to be alive. -/
def shownAlive (coordinator : GroupCoordinator) : GroupOp → Option Bytes
  | .join _ _ memberId _ _ _ => some (coordinator.joinedId memberId)
  | op => if coordinator.accepted op then op.speaker else none

/-- What is known of a member after an operation: joins and accepted calls are
noted, and who leaves or whose topic is removed is forgotten.  No deadline takes
part in this. -/
def note (coordinator : GroupCoordinator) (group topic memberId : Bytes)
    (seen : Option Sighting) (op : GroupOp) : Option Sighting :=
  match op with
  | .removeTopic topic' => if topic' = topic then none else seen
  | .join _ _ _ sessionTimeoutMs _ now =>
      if op.On group topic ∧ coordinator.shownAlive op = some memberId then
        some ⟨sessionTimeoutMs, now⟩
      else seen
  | .leave _ _ _ _ _ =>
      if op.On group topic ∧ coordinator.shownAlive op = some memberId then none else seen
  | op =>
      if op.On group topic ∧ coordinator.shownAlive op = some memberId then
        seen.map fun sighting ↦ { sighting with seenAt := op.time.getD sighting.seenAt }
      else seen

/-- The notes on a member along a run. -/
def watch (group topic memberId : Bytes) :
    GroupCoordinator → Option Sighting → List GroupOp → Option Sighting
  | _, seen, [] => seen
  | coordinator, seen, op :: ops =>
      watch group topic memberId (coordinator.apply op)
        (coordinator.note group topic memberId seen op) ops

def lastSighting (group topic memberId : Bytes) (ops : List GroupOp) : Option Sighting :=
  watch group topic memberId {} none ops

end GroupCoordinator

/-! ## What the coordinator keeps of a member -/

namespace GroupState

def vitals (state : GroupState) (memberId : Bytes) : Option Sighting :=
  (state.members.find? memberId).map fun member ↦ ⟨member.sessionTimeoutMs, member.lastHeartbeat⟩

variable {state : GroupState} {memberId : Bytes}

theorem mem_keys_iff_vitals : memberId ∈ state.members.keys ↔ state.vitals memberId ≠ none := by
  rw [SortedMap.mem_keys_iff, vitals, Ne, Option.map_eq_none_iff, ← Ne, Option.ne_none_iff_exists']

@[simp] theorem vitals_recomputeAssignment (state : GroupState) (memberId : Bytes) :
    state.recomputeAssignment.vitals memberId = state.vitals memberId := by
  have hcleared : ((state.members.mapValues fun _ member ↦
      { member with assignment := [] }).find? memberId).map
        (fun member ↦ (⟨member.sessionTimeoutMs, member.lastHeartbeat⟩ : Sighting)) =
      state.vitals memberId := by
    rw [SortedMap.find?_mapValues, Option.map_map]
    rfl
  rw [vitals, recomputeAssignment]
  split_ifs
  · exact hcleared
  · refine Eq.trans ?_ hcleared
    exact SortedMap.map_find?_mapAccum (fun member : MemberState ↦
      (⟨member.sessionTimeoutMs, member.lastHeartbeat⟩ : Sighting)) _ (fun _ _ _ ↦ rfl) _ _ _

@[simp] theorem vitals_bumpGeneration (state : GroupState) (memberId : Bytes) :
    state.bumpGeneration.vitals memberId = state.vitals memberId := by
  rw [bumpGeneration, vitals_recomputeAssignment]
  rfl

theorem live_vitals (member : MemberState) (now : ℤ) :
    (⟨member.sessionTimeoutMs, member.lastHeartbeat⟩ : Sighting).live now =
      !member.timedOut now := by
  rw [Sighting.live, MemberState.timedOut, ← decide_not]
  simp only [ge_iff_le, not_le]

/-- Looking at a group is what makes its members expire. -/
theorem vitals_expireAndBump (state : GroupState) (now : ℤ) (memberId : Bytes) :
    (state.expireAndBump now).1.vitals memberId =
      (state.vitals memberId).filter fun sighting ↦ sighting.live now := by
  have hexpired : (state.expireMembers now).1.vitals memberId =
      (state.vitals memberId).filter fun sighting ↦ sighting.live now := by
    rw [vitals, expireMembers, SortedMap.find?_filter, vitals]
    cases state.members.find? memberId with
    | none => rfl
    | some member =>
        simp only [Option.filter_some, Option.map_some, live_vitals]
        split_ifs <;> rfl
  rw [expireAndBump]
  split_ifs
  · rw [vitals_bumpGeneration, hexpired]
  · exact hexpired

theorem vitals_insert (state : GroupState) (id : Bytes) (member : MemberState) (memberId : Bytes) :
    ({ state with members := state.members.insert id member } : GroupState).vitals memberId =
      if memberId = id then some ⟨member.sessionTimeoutMs, member.lastHeartbeat⟩
      else state.vitals memberId := by
  rw [vitals, SortedMap.find?_insert]
  split_ifs <;> rfl

theorem vitals_erase (state : GroupState) (id memberId : Bytes) :
    ({ state with members := state.members.erase id } : GroupState).vitals memberId =
      if memberId = id then none else state.vitals memberId := by
  rw [vitals, SortedMap.find?_erase]
  split_ifs <;> rfl

theorem vitals_enrol (state : GroupState) (id : Bytes) (sessionTimeoutMs : ℕ) (now : ℤ)
    (memberId : Bytes) :
    (state.enrol id sessionTimeoutMs now).vitals memberId =
      if id = memberId then some ⟨sessionTimeoutMs, now⟩ else state.vitals memberId := by
  set entered := if (state.members.find? id).isNone then
    ({ state with members := state.members.insert id { memberId := id } } :
      GroupState).bumpGeneration
    else state with hentered
  have hjoined : ∀ member : MemberState,
      ({ entered with members := entered.members.insert id member } : GroupState).vitals memberId =
        if id = memberId then some ⟨member.sessionTimeoutMs, member.lastHeartbeat⟩
        else state.vitals memberId := by
    intro member
    rw [vitals_insert]
    by_cases hid : id = memberId
    · rw [if_pos hid, if_pos hid.symm]
    · rw [if_neg hid, if_neg (Ne.symm hid), hentered]
      split_ifs
      · rw [vitals_bumpGeneration, vitals_insert, if_neg (Ne.symm hid)]
      · rfl
  rw [enrol]
  dsimp only
  rw [← hentered]
  split_ifs
  · rw [vitals_recomputeAssignment, hjoined, if_pos ‹_›]
  · rw [vitals_recomputeAssignment, hjoined, if_neg ‹_›]
  · rw [hjoined, if_pos ‹_›]
  · rw [hjoined, if_neg ‹_›]

end GroupState

namespace GroupCoordinator

open GroupState

variable {coordinator : GroupCoordinator} {group topic memberId : Bytes}

def vitals (coordinator : GroupCoordinator) (group topic memberId : Bytes) : Option Sighting :=
  (coordinator.groups.find? (groupKey group topic)).bind fun state ↦ state.vitals memberId

theorem mem_memberIds_iff_vitals :
    memberId ∈ coordinator.memberIds group topic ↔
      coordinator.vitals group topic memberId ≠ none := by
  rw [memberIds, vitals]
  cases coordinator.groups.find? (groupKey group topic) with
  | none => simp
  | some state => exact mem_keys_iff_vitals

theorem vitals_setGroup_self (coordinator : GroupCoordinator) (state : GroupState) :
    (coordinator.setGroup group topic state).vitals group topic memberId =
      state.vitals memberId := by
  rw [vitals, setGroup, SortedMap.find?_insert_self, Option.bind_some]

theorem vitals_insert_ne {group' topic' : Bytes}
    (h : ¬ (group' = group ∧ topic' = topic)) (groups : SortedMap GroupKey GroupState)
    (state : GroupState) (nextMemberId : UInt64) :
    vitals ⟨groups.insert (groupKey group' topic') state, nextMemberId⟩ group topic memberId =
      vitals ⟨groups, nextMemberId⟩ group topic memberId := by
  have hkey : groupKey group topic ≠ groupKey group' topic' := by
    intro heq
    obtain ⟨rfl, rfl⟩ := groupKey_injective heq
    exact h ⟨rfl, rfl⟩
  rw [vitals, vitals, SortedMap.find?_insert, if_neg hkey]

theorem vitals_onGroup_ne {group' topic' : Bytes} (h : ¬ (group' = group ∧ topic' = topic))
    (now : ℤ) (body : GroupState → GroupState × Except GroupCoordinatorError GroupResult) :
    (coordinator.onGroup group' topic' now body).1.vitals group topic memberId =
      coordinator.vitals group topic memberId := by
  rw [onGroup]
  split
  · rfl
  · exact vitals_insert_ne h _ _ _

/-- Members of a group that an operation looks at. -/
def liveVitals (coordinator : GroupCoordinator) (group topic memberId : Bytes) (now : ℤ) :
    Option Sighting :=
  (coordinator.vitals group topic memberId).filter fun sighting ↦ sighting.live now

/-- What an operation on a known group does to the vitals. -/
theorem vitals_onGroup {now : ℤ}
    {body : GroupState → GroupState × Except GroupCoordinatorError GroupResult}
    (note : Option Sighting → Option Sighting) (hnone : note none = none)
    (hbody : ∀ state, coordinator.groups.find? (groupKey group topic) = some state →
      (body (state.expireAndBump now).1).1.vitals memberId =
        note ((state.expireAndBump now).1.vitals memberId)) :
    (coordinator.onGroup group topic now body).1.vitals group topic memberId =
      note (coordinator.liveVitals group topic memberId now) := by
  rw [onGroup, liveVitals]
  cases hfind : coordinator.groups.find? (groupKey group topic) with
  | none =>
      simp only [vitals, hfind, Option.bind_none, Option.filter_none, hnone]
  | some state =>
      simp only [vitals_setGroup_self, hbody state hfind, vitals_expireAndBump]
      simp only [vitals, hfind, Option.bind_some]

theorem toBool_onGroup {now : ℤ} {state : GroupState}
    (hfind : coordinator.groups.find? (groupKey group topic) = some state)
    (body : GroupState → GroupState × Except GroupCoordinatorError GroupResult) :
    (coordinator.onGroup group topic now body).2.toBool =
      (body (state.expireAndBump now).1).2.toBool := by
  rw [onGroup, hfind]
  dsimp only
  cases (body (state.expireAndBump now).1).2 <;> rfl

/-- A sign of life sets the time and nothing else. -/
theorem vitals_touch {state : GroupState} {id : Bytes} {member : MemberState}
    (h : state.members.find? id = some member) (now : ℤ) (memberId : Bytes) :
    (state.touch id member now).vitals memberId =
      if id = memberId then
        (state.vitals memberId).map fun sighting ↦ { sighting with seenAt := now }
      else state.vitals memberId := by
  rw [touch, vitals_insert]
  by_cases hid : memberId = id
  · subst hid
    rw [if_pos rfl, if_pos rfl, GroupState.vitals, h]
    rfl
  · rw [if_neg hid, if_neg (Ne.symm hid)]

/-- A call that renews its member if it is accepted. -/
theorem vitals_renewing {now : ℤ} {id : Bytes}
    {body : GroupState → GroupState × Except GroupCoordinatorError GroupResult}
    (hbody : ∀ state : GroupState,
      (body state).1 = state ∧ (body state).2.toBool = false ∨
      ∃ member, state.members.find? id = some member ∧
        (body state).1 = state.touch id member now ∧ (body state).2.toBool = true) :
    (coordinator.onGroup group topic now body).1.vitals group topic memberId =
      if (coordinator.onGroup group topic now body).2.toBool = true ∧ id = memberId then
        (coordinator.liveVitals group topic memberId now).map fun sighting ↦
          { sighting with seenAt := now }
      else coordinator.liveVitals group topic memberId now := by
  refine vitals_onGroup (fun seen ↦
    if (coordinator.onGroup group topic now body).2.toBool = true ∧ id = memberId then
      seen.map fun sighting ↦ { sighting with seenAt := now }
    else seen) (by simp) fun state hfind ↦ ?_
  rw [toBool_onGroup hfind]
  rcases hbody (state.expireAndBump now).1 with ⟨hstate, hrejected⟩ |
    ⟨member, hmember, hstate, haccepted⟩
  · rw [hstate, hrejected, if_neg (by simp)]
  · rw [hstate, haccepted, vitals_touch hmember]
    simp

theorem renewMember_cases (id : Bytes) (generationId : ℕ) (now : ℤ) (state : GroupState) :
    (renewMember id generationId now state).1 = state ∧
        (renewMember id generationId now state).2.toBool = false ∨
      ∃ member, state.members.find? id = some member ∧
        (renewMember id generationId now state).1 = state.touch id member now ∧
        (renewMember id generationId now state).2.toBool = true := by
  rw [renewMember]
  split
  · exact Or.inl ⟨rfl, rfl⟩
  · next member hmember =>
      exact Or.inr ⟨member, (find?_of_currentMember hmember).1, rfl, rfl⟩

/-- Operations that only look at the group. -/
theorem vitals_setExpired {now : ℤ} {state : GroupState}
    (hfind : coordinator.groups.find? (groupKey group topic) = some state) :
    (coordinator.setGroup group topic (state.expireAndBump now).1).vitals group topic memberId =
      coordinator.liveVitals group topic memberId now := by
  rw [vitals_setGroup_self, vitals_expireAndBump, liveVitals, vitals, hfind, Option.bind_some]

theorem liveVitals_of_none {now : ℤ}
    (hfind : coordinator.groups.find? (groupKey group topic) = none) :
    coordinator.liveVitals group topic memberId now = none := by
  rw [liveVitals, vitals, hfind, Option.bind_none, Option.filter_none]

theorem vitals_expire (now : ℤ) :
    (coordinator.expire group topic now).1.vitals group topic memberId =
      coordinator.liveVitals group topic memberId now := by
  rw [expire]
  split
  · next hfind => rw [liveVitals_of_none hfind, vitals, hfind, Option.bind_none]
  · next state hfind => exact vitals_setExpired hfind

theorem vitals_joinedGroup (coordinator : GroupCoordinator) (group topic : Bytes)
    (partitionCount : ℕ) (memberId : Bytes) :
    (coordinator.joinedGroup group topic partitionCount).vitals memberId =
      coordinator.vitals group topic memberId := by
  have hmembers : (coordinator.joinedGroup group topic partitionCount).members =
      ((coordinator.groups.find? (groupKey group topic)).getD {}).members := by
    rw [joinedGroup]
    split_ifs <;> rfl
  rw [GroupState.vitals, hmembers, vitals]
  cases coordinator.groups.find? (groupKey group topic) <;> rfl

theorem vitals_join (id : Bytes) (sessionTimeoutMs partitionCount : ℕ) (now : ℤ) :
    (coordinator.join group topic id sessionTimeoutMs partitionCount now).1.vitals group topic
        memberId =
      if coordinator.joinedId id = memberId then some ⟨sessionTimeoutMs, now⟩
      else coordinator.liveVitals group topic memberId now := by
  rw [join_fst, vitals, SortedMap.find?_insert_self, Option.bind_some, vitals_enrol,
    vitals_expireAndBump, vitals_joinedGroup]
  rfl

theorem vitals_leave (id : Bytes) (generationId : ℕ) (now : ℤ) :
    (coordinator.leave group topic id generationId now).1.vitals group topic memberId =
      if (coordinator.leave group topic id generationId now).2.toBool = true ∧ id = memberId then
        none
      else coordinator.liveVitals group topic memberId now := by
  refine vitals_onGroup (fun seen ↦
    if (coordinator.leave group topic id generationId now).2.toBool = true ∧ id = memberId then none
    else seen) (by simp) fun state hfind ↦ ?_
  rw [leave, toBool_onGroup hfind]
  dsimp only
  split
  · rw [if_neg (by simp [Except.toBool])]
  · rw [vitals_bumpGeneration, vitals_erase]
    by_cases hid : id = memberId
    · rw [if_pos hid.symm, if_pos ⟨rfl, hid⟩]
    · rw [if_neg (Ne.symm hid), if_neg fun h ↦ hid h.2]

theorem vitals_validateCommit (id : Bytes) (generationId partition : ℕ) (now : ℤ) :
    (coordinator.validateCommit group topic id generationId partition now).1.vitals group topic
        memberId =
      if (coordinator.validateCommit group topic id generationId partition now).2.toBool = true ∧
          id = memberId then
        (coordinator.liveVitals group topic memberId now).map fun sighting ↦
          { sighting with seenAt := now }
      else coordinator.liveVitals group topic memberId now := by
  refine vitals_renewing fun state ↦ ?_
  split
  · exact Or.inl ⟨rfl, rfl⟩
  · next member hmember =>
      split_ifs
      · exact Or.inl ⟨rfl, rfl⟩
      · exact Or.inr ⟨member, (find?_of_currentMember hmember).1, rfl, rfl⟩

/-- An operation on a group lets its members expire and then notes what it does. -/
theorem vitals_apply_on (coordinator : GroupCoordinator) (memberId : Bytes) {op : GroupOp}
    (hon : op.On group topic) {now : ℤ}
    (htime : op.time = some now) :
    (coordinator.apply op).vitals group topic memberId =
      coordinator.note group topic memberId
        (coordinator.liveVitals group topic memberId now) op := by
  cases op with
  | join group' topic' id sessionTimeoutMs partitionCount now' =>
      obtain ⟨rfl, rfl⟩ := hon
      obtain rfl := Option.some.inj htime
      rw [apply, vitals_join]
      simp [note, shownAlive, GroupOp.On]
  | sync group' topic' id generationId now' =>
      obtain ⟨rfl, rfl⟩ := hon
      obtain rfl := Option.some.inj htime
      rw [apply, sync, vitals_renewing (renewMember_cases id generationId now')]
      cases haccepted : coordinator.accepted (.sync group' topic' id generationId now') <;>
        simp_all [note, shownAlive, accepted, GroupOp.On, GroupOp.speaker, GroupOp.time, sync]
  | heartbeat group' topic' id generationId now' =>
      obtain ⟨rfl, rfl⟩ := hon
      obtain rfl := Option.some.inj htime
      rw [apply, heartbeat, vitals_renewing (renewMember_cases id generationId now')]
      cases haccepted : coordinator.accepted (.heartbeat group' topic' id generationId now') <;>
        simp_all [note, shownAlive, accepted, GroupOp.On, GroupOp.speaker, GroupOp.time, heartbeat]
  | leave group' topic' id generationId now' =>
      obtain ⟨rfl, rfl⟩ := hon
      obtain rfl := Option.some.inj htime
      rw [apply, vitals_leave]
      cases haccepted : coordinator.accepted (.leave group' topic' id generationId now') <;>
        simp_all [note, shownAlive, accepted, GroupOp.On, GroupOp.speaker]
  | expire group' topic' now' =>
      obtain ⟨rfl, rfl⟩ := hon
      obtain rfl := Option.some.inj htime
      rw [apply, vitals_expire]
      simp [note, shownAlive, GroupOp.speaker]
  | validateCommit group' topic' id generationId partition now' =>
      obtain ⟨rfl, rfl⟩ := hon
      obtain rfl := Option.some.inj htime
      rw [apply, vitals_validateCommit]
      cases haccepted : coordinator.accepted
          (.validateCommit group' topic' id generationId partition now') <;>
        simp_all [note, shownAlive, accepted, GroupOp.On, GroupOp.speaker, GroupOp.time]
  | hasActiveMembers group' topic' now' =>
      obtain ⟨rfl, rfl⟩ := hon
      obtain rfl := Option.some.inj htime
      rw [apply, hasActiveMembers]
      simp only [note, shownAlive, GroupOp.speaker, ite_self, reduceCtorEq, and_false, if_false]
      split
      · next hfind => rw [liveVitals_of_none hfind, vitals, hfind, Option.bind_none]
      · next state hfind => exact vitals_setExpired hfind
  | activeMemberCount group' topic' now' =>
      obtain ⟨rfl, rfl⟩ := hon
      obtain rfl := Option.some.inj htime
      rw [apply, activeMemberCount]
      simp only [note, shownAlive, GroupOp.speaker, ite_self, reduceCtorEq, and_false, if_false]
      split
      · next hfind => rw [liveVitals_of_none hfind, vitals, hfind, Option.bind_none]
      · next state hfind => exact vitals_setExpired hfind
  | topicHasActiveMembers topic' now' =>
      obtain rfl := hon
      obtain rfl := Option.some.inj htime
      rw [apply, topicHasActiveMembers]
      simp only [note, shownAlive, GroupOp.speaker, ite_self, reduceCtorEq, and_false, if_false,
        liveVitals, vitals, SortedMap.find?_mapValues]
      cases coordinator.groups.find? (groupKey group topic') with
      | none => rfl
      | some state =>
          have hkey : (ofLex (groupKey group topic')).2 = topic' := rfl
          simp only [Option.map_some, Option.bind_some, hkey, if_true, vitals_expireAndBump]
  | removeTopic topic' => exact hon.elim

/-- Other operations do not change a group and leave no note on it, apart from the
removal of its topic. -/
theorem vitals_apply_off (coordinator : GroupCoordinator) (memberId : Bytes) {op : GroupOp}
    (hoff : ¬ op.On group topic)
    (hkept : op ≠ .removeTopic topic) (seen : Option Sighting) :
    (coordinator.apply op).vitals group topic memberId =
        coordinator.vitals group topic memberId ∧
      coordinator.note group topic memberId seen op = seen := by
  cases op with
  | join group' topic' id sessionTimeoutMs partitionCount now' =>
      refine ⟨?_, if_neg fun h ↦ hoff h.1⟩
      rw [apply, join_fst, vitals_insert_ne hoff]
      rfl
  | sync group' topic' id generationId now' =>
      exact ⟨vitals_onGroup_ne hoff _ _, if_neg fun h ↦ hoff h.1⟩
  | heartbeat group' topic' id generationId now' =>
      exact ⟨vitals_onGroup_ne hoff _ _, if_neg fun h ↦ hoff h.1⟩
  | leave group' topic' id generationId now' =>
      exact ⟨vitals_onGroup_ne hoff _ _, if_neg fun h ↦ hoff h.1⟩
  | expire group' topic' now' =>
      refine ⟨?_, if_neg fun h ↦ hoff h.1⟩
      rw [apply, expire]
      split
      · rfl
      · exact vitals_insert_ne hoff _ _ _
  | validateCommit group' topic' id generationId partition now' =>
      exact ⟨vitals_onGroup_ne hoff _ _, if_neg fun h ↦ hoff h.1⟩
  | hasActiveMembers group' topic' now' =>
      refine ⟨?_, if_neg fun h ↦ hoff h.1⟩
      rw [apply, hasActiveMembers]
      split
      · rfl
      · exact vitals_insert_ne hoff _ _ _
  | activeMemberCount group' topic' now' =>
      refine ⟨?_, if_neg fun h ↦ hoff h.1⟩
      rw [apply, activeMemberCount]
      split
      · rfl
      · exact vitals_insert_ne hoff _ _ _
  | topicHasActiveMembers topic' now' =>
      refine ⟨?_, if_neg fun h ↦ hoff h.1⟩
      have hkey : (ofLex (groupKey group topic)).2 ≠ topic' := fun h ↦ hoff h.symm
      rw [apply, topicHasActiveMembers]
      simp only [vitals, SortedMap.find?_mapValues, if_neg hkey]
      cases coordinator.groups.find? (groupKey group topic) <;> rfl
  | removeTopic topic' =>
      have hne : topic' ≠ topic := fun h ↦ hkept (by rw [h])
      refine ⟨?_, if_neg hne⟩
      have hkey : decide ((ofLex (groupKey group topic)).2 ≠ topic') = true :=
        decide_eq_true (show topic ≠ topic' from hne.symm)
      rw [apply, removeTopic]
      simp only [vitals, SortedMap.find?_filter]
      cases coordinator.groups.find? (groupKey group topic) with
      | none => rfl
      | some state => rw [Option.filter_some, if_pos hkey]

theorem vitals_removeTopic (coordinator : GroupCoordinator) (group topic memberId : Bytes) :
    (coordinator.removeTopic topic).vitals group topic memberId = none := by
  have hkey : ¬ decide ((ofLex (groupKey group topic)).2 ≠ topic) = true := by simp [groupKey]
  rw [vitals, removeTopic, SortedMap.find?_filter]
  cases coordinator.groups.find? (groupKey group topic) with
  | none => rfl
  | some state =>
      rw [Option.filter_some, if_neg hkey]
      rfl

/-! ## The notes and the coordinator -/

/-- What the coordinator keeps of a member is what was noted, unless the member's
deadline is over. -/
def Agrees (coordinator : GroupCoordinator) (group topic memberId : Bytes)
    (seen : Option Sighting) (now : ℤ) : Prop :=
  coordinator.vitals group topic memberId = seen ∨
    coordinator.vitals group topic memberId = none ∧
      ∀ sighting, seen = some sighting → sighting.live now = false

theorem Sighting.lapsed_mono {sighting : Sighting} {now now' : ℤ}
    (h : sighting.live now = false) (hle : now ≤ now') : sighting.live now' = false := by
  rw [Sighting.live, decide_eq_false_iff_not] at h ⊢
  omega

theorem Agrees.mono {seen : Option Sighting} {now now' : ℤ}
    (h : coordinator.Agrees group topic memberId seen now) (hle : now ≤ now') :
    coordinator.Agrees group topic memberId seen now' := by
  rcases h with h | ⟨h, hlapsed⟩
  · exact Or.inl h
  · exact Or.inr ⟨h, fun sighting hseen ↦ Sighting.lapsed_mono (hlapsed sighting hseen) hle⟩

/-- Looking at the group removes what the deadline is over for. -/
theorem Agrees.liveVitals {seen : Option Sighting} {now : ℤ}
    (h : coordinator.Agrees group topic memberId seen now) :
    coordinator.liveVitals group topic memberId now =
      seen.filter fun sighting ↦ sighting.live now := by
  rw [GroupCoordinator.liveVitals]
  rcases h with h | ⟨h, hlapsed⟩
  · rw [h]
  · rw [h, Option.filter_none]
    cases seen with
    | none => rfl
    | some sighting => rw [Option.filter_some, hlapsed sighting rfl, if_neg Bool.false_ne_true]

/-- The operation enters the member into the group. -/
def Enters (coordinator : GroupCoordinator) (group topic memberId : Bytes) : GroupOp → Prop
  | .join group' topic' id _ _ _ =>
      group' = group ∧ topic' = topic ∧ coordinator.joinedId id = memberId
  | _ => False

/-- A note is kept, forgotten, made anew by a join, or renewed by an accepted call
of the member. -/
theorem note_cases (coordinator : GroupCoordinator) (group topic memberId : Bytes) (op : GroupOp) :
    (∀ seen, coordinator.note group topic memberId seen op = seen) ∨
      (∀ seen, coordinator.note group topic memberId seen op = none) ∨
      (∃ id sessionTimeoutMs partitionCount now,
        op = .join group topic id sessionTimeoutMs partitionCount now ∧
        coordinator.joinedId id = memberId ∧
        ∀ seen, coordinator.note group topic memberId seen op = some ⟨sessionTimeoutMs, now⟩) ∨
      op.On group topic ∧ op.speaker = some memberId ∧ coordinator.accepted op = true ∧
        ∀ seen, coordinator.note group topic memberId seen op =
          seen.map fun sighting ↦ { sighting with seenAt := op.time.getD sighting.seenAt } := by
  have hshown : op.On group topic ∧
      (if coordinator.accepted op then op.speaker else none) = some memberId →
      op.speaker = some memberId ∧ coordinator.accepted op = true := by
    intro h
    split_ifs at h with haccepted
    · exact ⟨h.2, haccepted⟩
    · cases h.2
  cases op with
  | removeTopic topic' =>
      by_cases htopic : topic' = topic
      · exact Or.inr (Or.inl fun _ ↦ if_pos htopic)
      · exact Or.inl fun _ ↦ if_neg htopic
  | join group' topic' id sessionTimeoutMs partitionCount now =>
      by_cases hjoins : (GroupOp.join group' topic' id sessionTimeoutMs partitionCount now).On
          group topic ∧ coordinator.shownAlive
            (.join group' topic' id sessionTimeoutMs partitionCount now) = some memberId
      · obtain ⟨⟨rfl, rfl⟩, hid⟩ := hjoins
        exact Or.inr (Or.inr (Or.inl ⟨id, sessionTimeoutMs, partitionCount, now, rfl,
          Option.some.inj hid, fun _ ↦ if_pos ⟨⟨rfl, rfl⟩, hid⟩⟩))
      · exact Or.inl fun _ ↦ if_neg hjoins
  | leave group' topic' id generationId now =>
      by_cases hleaves : (GroupOp.leave group' topic' id generationId now).On group topic ∧
          coordinator.shownAlive (.leave group' topic' id generationId now) = some memberId
      · exact Or.inr (Or.inl fun _ ↦ if_pos hleaves)
      · exact Or.inl fun _ ↦ if_neg hleaves
  | sync group' topic' id generationId now =>
      by_cases hrenews : (GroupOp.sync group' topic' id generationId now).On group topic ∧
          coordinator.shownAlive (.sync group' topic' id generationId now) = some memberId
      · obtain ⟨hspeaker, haccepted⟩ := hshown hrenews
        exact Or.inr (Or.inr (Or.inr ⟨hrenews.1, hspeaker, haccepted, fun _ ↦ if_pos hrenews⟩))
      · exact Or.inl fun _ ↦ if_neg hrenews
  | heartbeat group' topic' id generationId now =>
      by_cases hrenews : (GroupOp.heartbeat group' topic' id generationId now).On group topic ∧
          coordinator.shownAlive (.heartbeat group' topic' id generationId now) = some memberId
      · obtain ⟨hspeaker, haccepted⟩ := hshown hrenews
        exact Or.inr (Or.inr (Or.inr ⟨hrenews.1, hspeaker, haccepted, fun _ ↦ if_pos hrenews⟩))
      · exact Or.inl fun _ ↦ if_neg hrenews
  | validateCommit group' topic' id generationId partition now =>
      by_cases hrenews : (GroupOp.validateCommit group' topic' id generationId partition now).On
          group topic ∧ coordinator.shownAlive
            (.validateCommit group' topic' id generationId partition now) = some memberId
      · obtain ⟨hspeaker, haccepted⟩ := hshown hrenews
        exact Or.inr (Or.inr (Or.inr ⟨hrenews.1, hspeaker, haccepted, fun _ ↦ if_pos hrenews⟩))
      · exact Or.inl fun _ ↦ if_neg hrenews
  | expire => exact Or.inl fun _ ↦ if_neg fun h ↦ by cases h.2
  | hasActiveMembers => exact Or.inl fun _ ↦ if_neg fun h ↦ by cases h.2
  | activeMemberCount => exact Or.inl fun _ ↦ if_neg fun h ↦ by cases h.2
  | topicHasActiveMembers => exact Or.inl fun _ ↦ if_neg fun h ↦ by cases h.2

theorem liveVitals_ne_none_of_onGroup {now : ℤ}
    {body : GroupState → GroupState × Except GroupCoordinatorError GroupResult}
    (hbody : ∀ state : GroupState, (body state).2.toBool = true →
      ∃ member, state.members.find? memberId = some member)
    (h : (coordinator.onGroup group topic now body).2.toBool = true) :
    coordinator.liveVitals group topic memberId now ≠ none := by
  cases hfind : coordinator.groups.find? (groupKey group topic) with
  | none =>
      rw [onGroup, hfind] at h
      cases h
  | some state =>
      rw [toBool_onGroup hfind] at h
      obtain ⟨member, hmember⟩ := hbody _ h
      rw [liveVitals, vitals, hfind, Option.bind_some, ← vitals_expireAndBump, GroupState.vitals,
        hmember]
      exact Option.some_ne_none _

/-- Only a member whose session has not timed out is accepted. -/
theorem liveVitals_ne_none_of_accepted {op : GroupOp} {now : ℤ} (hon : op.On group topic)
    (htime : op.time = some now) (hspeaker : op.speaker = some memberId)
    (h : coordinator.accepted op = true) :
    coordinator.liveVitals group topic memberId now ≠ none := by
  have hrenew : ∀ (id : Bytes) (generationId : ℕ) (state : GroupState),
      (renewMember id generationId now state).2.toBool = true →
      ∃ member, state.members.find? id = some member := by
    intro id generationId state haccepted
    rcases renewMember_cases id generationId now state with
      ⟨-, hrejected⟩ | ⟨member, hmember, -, -⟩
    · rw [hrejected] at haccepted
      cases haccepted
    · exact ⟨member, hmember⟩
  cases op with
  | sync group' topic' id generationId now' =>
      obtain ⟨rfl, rfl⟩ := hon
      obtain rfl := Option.some.inj htime
      obtain rfl := Option.some.inj hspeaker
      exact liveVitals_ne_none_of_onGroup (hrenew _ _) h
  | heartbeat group' topic' id generationId now' =>
      obtain ⟨rfl, rfl⟩ := hon
      obtain rfl := Option.some.inj htime
      obtain rfl := Option.some.inj hspeaker
      exact liveVitals_ne_none_of_onGroup (hrenew _ _) h
  | leave group' topic' id generationId now' =>
      obtain ⟨rfl, rfl⟩ := hon
      obtain rfl := Option.some.inj htime
      obtain rfl := Option.some.inj hspeaker
      refine liveVitals_ne_none_of_onGroup (fun state haccepted ↦ ?_) h
      split at haccepted
      · cases haccepted
      · next member hmember => exact ⟨member, (find?_of_currentMember hmember).1⟩
  | validateCommit group' topic' id generationId partition now' =>
      obtain ⟨rfl, rfl⟩ := hon
      obtain rfl := Option.some.inj htime
      obtain rfl := Option.some.inj hspeaker
      refine liveVitals_ne_none_of_onGroup (fun state haccepted ↦ ?_) h
      split at haccepted
      · cases haccepted
      · next member hmember => exact ⟨member, (find?_of_currentMember hmember).1⟩
  | _ => cases hspeaker

theorem Agrees.apply_on {seen : Option Sighting} {now : ℤ}
    (h : coordinator.Agrees group topic memberId seen now) {op : GroupOp}
    (hon : op.On group topic) (htime : op.time = some now) :
    (coordinator.apply op).Agrees group topic memberId
      (coordinator.note group topic memberId seen op) now := by
  have hlive := h.liveVitals
  have hvitals := vitals_apply_on coordinator memberId hon htime
  rw [hlive] at hvitals
  rw [Agrees, hvitals]
  cases hseen : seen.filter fun sighting ↦ sighting.live now with
  | some sighting =>
      have hkept : seen = some sighting := (Option.filter_eq_some_iff.mp hseen).1
      exact Or.inl (by rw [hkept])
  | none =>
      rw [hseen] at hlive
      rcases note_cases coordinator group topic memberId op with
        hsame | hforgotten | ⟨_, _, _, _, _, _, hnoted⟩ | ⟨-, hspeaker, haccepted, -⟩
      · rw [hsame, hsame]
        refine Or.inr ⟨rfl, fun sighting hsighting ↦ ?_⟩
        rw [hsighting, Option.filter_some] at hseen
        split_ifs at hseen with hdead
        exact Bool.eq_false_of_not_eq_true hdead
      · rw [hforgotten, hforgotten]
        exact Or.inl rfl
      · rw [hnoted, hnoted]
        exact Or.inl rfl
      · exact absurd hlive (liveVitals_ne_none_of_accepted hon htime hspeaker haccepted)

/-- What one operation keeps of the agreement, at its time or without one. -/
theorem Agrees.apply {seen : Option Sighting} {now : ℤ}
    (h : coordinator.Agrees group topic memberId seen now) {op : GroupOp}
    (htime : ∀ now', op.time = some now' → now ≤ now') :
    (coordinator.apply op).Agrees group topic memberId
      (coordinator.note group topic memberId seen op) (op.time.getD now) := by
  by_cases hon : op.On group topic
  · obtain ⟨now', hop⟩ := hon.exists_time
    rw [hop]
    exact (h.mono (htime now' hop)).apply_on hon hop
  · by_cases hremoved : op = .removeTopic topic
    · subst hremoved
      refine Or.inl ?_
      rw [note, if_pos rfl]
      exact vitals_removeTopic coordinator group topic memberId
    · obtain ⟨hvitals, hnote⟩ :=
        vitals_apply_off coordinator memberId hon hremoved seen
      rw [Agrees, hvitals, hnote]
      refine h.mono ?_
      cases hop : op.time with
      | none => exact le_rfl
      | some now' => exact htime now' hop

/-! ## Runs -/

/-- The clock does not run backwards. -/
def Timely (ops : List GroupOp) : Prop := (ops.filterMap GroupOp.time).Pairwise (· ≤ ·)

instance : DecidablePred Timely := fun ops ↦
  inferInstanceAs (Decidable ((ops.filterMap GroupOp.time).Pairwise (· ≤ ·)))

theorem watch_append (group topic memberId : Bytes) (op : GroupOp) (ops : List GroupOp) :
    ∀ (coordinator : GroupCoordinator) (seen : Option Sighting),
      watch group topic memberId coordinator seen (ops ++ [op]) =
        (coordinator.applyAll ops).note group topic memberId
          (watch group topic memberId coordinator seen ops) op := by
  induction ops with
  | nil => exact fun _ _ ↦ rfl
  | cons first ops ih => exact fun coordinator seen ↦ ih (coordinator.apply first) _

theorem lastSighting_append (group topic memberId : Bytes) (ops : List GroupOp) (op : GroupOp) :
    lastSighting group topic memberId (ops ++ [op]) =
      (({} : GroupCoordinator).applyAll ops).note group topic memberId
        (lastSighting group topic memberId ops) op :=
  watch_append group topic memberId op ops {} none

/-- Before a later operation a run agrees with the notes taken along it. -/
theorem agrees_applyAll (group topic memberId : Bytes) {ops : List GroupOp} (htimely : Timely ops) :
    ∀ now, (∀ earlier ∈ ops.filterMap GroupOp.time, earlier ≤ now) →
      (({} : GroupCoordinator).applyAll ops).Agrees group topic memberId
        (lastSighting group topic memberId ops) now := by
  induction ops using List.reverseRecOn with
  | nil => exact fun _ _ ↦ Or.inl rfl
  | append_singleton ops op ih =>
      intro now hbound
      rw [Timely, List.filterMap_append, List.pairwise_append] at htimely
      obtain ⟨hops, -, hlast⟩ := htimely
      rw [applyAll_append, lastSighting_append]
      -- The notes before the operation agree at its own time.
      have hbefore : (({} : GroupCoordinator).applyAll ops).Agrees group topic memberId
          (lastSighting group topic memberId ops) (op.time.getD now) := by
        refine ih hops _ fun earlier hearlier ↦ ?_
        cases hop : op.time with
        | none =>
            exact hbound earlier
              (by rw [List.filterMap_append]; exact List.mem_append_left _ hearlier)
        | some now' => exact hlast earlier hearlier now' (by simp [hop])
      have hafter := hbefore.apply (show ∀ now', op.time = some now' → op.time.getD now ≤ now' from
        fun now' hop ↦ by rw [hop, Option.getD_some])
      refine hafter.mono ?_
      cases hop : op.time with
      | none => exact le_rfl
      | some now' => exact hbound now' (by simp [hop])

theorem Timely.split {before after : List GroupOp} {op : GroupOp}
    (h : Timely (before ++ op :: after)) {now : ℤ} (htime : op.time = some now) :
    Timely before ∧ ∀ earlier ∈ before.filterMap GroupOp.time, earlier ≤ now := by
  rw [Timely, List.filterMap_append, List.pairwise_append] at h
  refine ⟨h.1, fun earlier hearlier ↦ h.2.2 earlier hearlier now ?_⟩
  rw [List.filterMap_cons_some htime]
  exact List.mem_cons_self

/-- The session timeouts that joins name are positive. -/
def PositiveTimeouts (ops : List GroupOp) : Prop :=
  ∀ group topic memberId sessionTimeoutMs partitionCount now,
    GroupOp.join group topic memberId sessionTimeoutMs partitionCount now ∈ ops →
      0 < sessionTimeoutMs

theorem timeoutMs_pos_of_lastSighting {ops : List GroupOp} (h : PositiveTimeouts ops)
    {sighting : Sighting} (hseen : lastSighting group topic memberId ops = some sighting) :
    0 < sighting.timeoutMs := by
  induction ops using List.reverseRecOn generalizing sighting with
  | nil => cases hseen
  | append_singleton ops op ih =>
      have hops : PositiveTimeouts ops := fun group topic memberId timeout count now hmem ↦
        h group topic memberId timeout count now (List.mem_append_left _ hmem)
      rw [lastSighting_append] at hseen
      rcases note_cases (({} : GroupCoordinator).applyAll ops) group topic memberId op with
        hkept | hforgotten | ⟨id, timeout, count, now, rfl, -, hnoted⟩ | ⟨-, -, -, hrenewed⟩
      · rw [hkept] at hseen
        exact ih hops hseen
      · rw [hforgotten] at hseen
        cases hseen
      · rw [hnoted] at hseen
        rw [← Option.some.inj hseen]
        exact h group topic id timeout count now (List.mem_append_right _ List.mem_cons_self)
      · rw [hrenewed] at hseen
        obtain ⟨earlier, hearlier, rfl⟩ := Option.map_eq_some_iff.mp hseen
        have hpos : 0 < earlier.timeoutMs := ih hops hearlier
        exact hpos

/-- After an operation on a group its members are those whose session has not
timed out. -/
theorem mem_memberIds_iff_live {before after : List GroupOp} {op : GroupOp} {now : ℤ}
    (htimely : Timely (before ++ op :: after)) (htimeouts : PositiveTimeouts (before ++ [op]))
    (hon : op.On group topic) (htime : op.time = some now) :
    memberId ∈ (({} : GroupCoordinator).applyAll (before ++ [op])).memberIds group topic ↔
      ∃ sighting, lastSighting group topic memberId (before ++ [op]) = some sighting ∧
        sighting.live now = true := by
  obtain ⟨hbefore, hearlier⟩ := htimely.split htime
  have hagrees := agrees_applyAll group topic memberId hbefore now hearlier
  have hafter := hagrees.apply_on hon htime
  rw [applyAll_append, lastSighting_append, mem_memberIds_iff_vitals]
  change ((({} : GroupCoordinator).applyAll before).apply op).vitals group topic memberId ≠ none ↔ _
  constructor
  · intro hpresent
    rcases hafter with hsame | ⟨hnone, -⟩
    · obtain ⟨sighting, hsighting⟩ := Option.ne_none_iff_exists'.mp hpresent
      have hseen := hsame.symm.trans hsighting
      refine ⟨sighting, hseen, ?_⟩
      -- A session that was renewed now has its whole timeout before it.
      have hrenewed : sighting.seenAt = now → sighting.live now = true := by
        intro heq
        have hpos := timeoutMs_pos_of_lastSighting htimeouts
          ((lastSighting_append group topic memberId before op).trans hseen)
        rw [Sighting.live, heq, decide_eq_true_eq]
        omega
      have hvitals := vitals_apply_on (({} : GroupCoordinator).applyAll before) memberId hon htime
      rw [hsighting, GroupCoordinator.liveVitals] at hvitals
      rcases note_cases (({} : GroupCoordinator).applyAll before) group topic memberId op with
        hkept | hforgotten | ⟨id, timeout, count, now', rfl, -, hnoted⟩ | ⟨-, -, -, hmapped⟩
      · rw [hkept] at hvitals
        exact (Option.filter_eq_some_iff.mp hvitals.symm).2
      · rw [hforgotten] at hvitals
        cases hvitals
      · rw [hnoted] at hvitals
        refine hrenewed ?_
        rw [Option.some.inj hvitals]
        exact Option.some.inj htime
      · rw [hmapped] at hvitals
        obtain ⟨earlier, -, heq⟩ := Option.map_eq_some_iff.mp hvitals.symm
        refine hrenewed ?_
        rw [← heq, htime, Option.getD_some]
    · exact absurd hnone hpresent
  · rintro ⟨sighting, hseen, hlive⟩ hnone
    rcases hafter with hsame | ⟨-, hlapsed⟩
    · cases hnone.symm.trans (hsame.trans hseen)
    · rw [hlapsed sighting hseen] at hlive
      cases hlive

/-- The deadline of a member is over, or it is not known at all. -/
def Lapsed (group topic memberId : Bytes) (ops : List GroupOp) (now : ℤ) : Prop :=
  ∀ sighting, lastSighting group topic memberId ops = some sighting → sighting.live now = false

theorem Lapsed.liveVitals {ops : List GroupOp} {now now' : ℤ}
    (h : Lapsed group topic memberId ops now) (hle : now ≤ now') (htimely : Timely ops)
    (hearlier : ∀ earlier ∈ ops.filterMap GroupOp.time, earlier ≤ now') :
    (({} : GroupCoordinator).applyAll ops).liveVitals group topic memberId now' = none := by
  rw [(agrees_applyAll group topic memberId htimely now' hearlier).liveVitals]
  cases hseen : lastSighting group topic memberId ops with
  | none => rfl
  | some sighting =>
      rw [Option.filter_some, Sighting.lapsed_mono (h sighting hseen) hle,
        if_neg Bool.false_ne_true]

/-- A member whose deadline is over is not accepted. -/
theorem Lapsed.rejected {before after : List GroupOp} {op : GroupOp} {now now' : ℤ}
    (h : Lapsed group topic memberId before now) (htimely : Timely (before ++ op :: after))
    (hon : op.On group topic) (htime : op.time = some now') (hle : now ≤ now')
    (hspeaker : op.speaker = some memberId) :
    (({} : GroupCoordinator).applyAll before).accepted op = false := by
  obtain ⟨hbefore, hearlier⟩ := htimely.split htime
  refine Bool.eq_false_of_not_eq_true fun haccepted ↦ ?_
  exact liveVitals_ne_none_of_accepted hon htime hspeaker haccepted
    (h.liveVitals hle hbefore hearlier)

/-- Its deadline stays over until it joins again. -/
theorem Lapsed.step {before after : List GroupOp} {op : GroupOp} {now : ℤ}
    (h : Lapsed group topic memberId before now) (htimely : Timely (before ++ op :: after))
    (hlater : ∀ now', op.time = some now' → now ≤ now')
    (henters : ¬ (({} : GroupCoordinator).applyAll before).Enters group topic memberId op) :
    Lapsed group topic memberId (before ++ [op]) now := by
  intro sighting hseen
  rw [lastSighting_append] at hseen
  rcases note_cases (({} : GroupCoordinator).applyAll before) group topic memberId op with
    hkept | hforgotten | ⟨id, timeout, count, now', rfl, hid, -⟩ | ⟨hon, hspeaker, haccepted, -⟩
  · rw [hkept] at hseen
    exact h sighting hseen
  · rw [hforgotten] at hseen
    cases hseen
  · exact absurd ⟨rfl, rfl, hid⟩ henters
  · obtain ⟨now', htime⟩ := hon.exists_time
    have hrejected := h.rejected htimely hon htime (hlater now' htime) hspeaker
    rw [hrejected] at haccepted
    cases haccepted

/-- An admitted member that was not there starts a new generation. -/
theorem generationId_enrol {state : GroupState} {id : Bytes}
    (h : state.members.find? id = none) (sessionTimeoutMs : ℕ) (now : ℤ) :
    (state.enrol id sessionTimeoutMs now).generationId = state.generationId + 1 := by
  rw [enrol, h]
  simp [bumpGeneration]

theorem generationOf_lt (coordinator : GroupCoordinator) (group topic : Bytes) :
    coordinator.generationOf group topic < 2 ^ 64 := by
  rw [generationOf]
  cases coordinator.groups.find? (groupKey group topic) with
  | none => exact Nat.two_pow_pos 64
  | some state => exact state.generationId.toNat_lt

/-- The id is at most the number of generations that the run has started. -/
theorem generationOf_le (ops : List GroupOp) (group topic : Bytes) :
    (({} : GroupCoordinator).applyAll ops).generationOf group topic ≤
      ({} : GroupCoordinator).generationsStarted group topic ops := by
  induction ops using List.reverseRecOn with
  | nil => exact le_rfl
  | append_singleton ops op ih =>
      rw [generationsStarted_append, generationsStarted, generationsStarted, Nat.add_zero,
        applyAll_append]
      set coordinator := ({} : GroupCoordinator).applyAll ops
      change (coordinator.apply op).generationOf group topic ≤ _
      rw [startedBy]
      split_ifs with hremoved
      · have hzero : (coordinator.apply op).generationOf group topic = 0 := by
          rw [hremoved, generationOf_eq _ _ _ 0]
          exact congrArg (UInt64.toNat ∘ GroupState.generationId)
            (groupState_removeTopic coordinator group topic 0)
        rw [hzero]
        exact Nat.zero_le _
      · have hlt := generationOf_lt coordinator group topic
        have hlt' := generationOf_lt (coordinator.apply op) group topic
        omega

theorem Lapsed.join_raises {before after : List GroupOp} {op : GroupOp} {now now' : ℤ}
    (h : Lapsed group topic memberId before now) (htimely : Timely (before ++ op :: after))
    (htime : op.time = some now') (hle : now ≤ now')
    (henters : (({} : GroupCoordinator).applyAll before).Enters group topic memberId op)
    (hstarted : ({} : GroupCoordinator).generationsStarted group topic (before ++ [op]) <
      2 ^ 64) :
    (({} : GroupCoordinator).applyAll before).generationOf group topic <
      ((({} : GroupCoordinator).applyAll before).apply op).generationOf group topic := by
  obtain ⟨hbefore, hearlier⟩ := htimely.split htime
  have hcounted := generationOf_le before group topic
  rw [generationsStarted_append, generationsStarted, generationsStarted, Nat.add_zero] at hstarted
  set coordinator := ({} : GroupCoordinator).applyAll before with hcoordinator
  have hnone : coordinator.liveVitals group topic memberId now' = none :=
    h.liveVitals hle hbefore hearlier
  cases op with
  | join group' topic' id sessionTimeoutMs partitionCount now'' =>
      obtain ⟨rfl, rfl, hid⟩ := henters
      obtain rfl := Option.some.inj htime
      set joined := coordinator.joinedGroup group' topic' partitionCount with hjoined
      have habsent : (joined.expireAndBump now'').1.members.find? memberId = none := by
        have hvitals := vitals_expireAndBump joined now'' memberId
        rw [hjoined, vitals_joinedGroup] at hvitals
        exact Option.map_eq_none_iff.mp (hvitals.trans hnone)
      have hgeneration : joined.generationId.toNat = coordinator.generationOf group' topic' := by
        rw [hjoined, joinedGroup, generationOf]
        cases coordinator.groups.find? (groupKey group' topic') with
        | none => rfl
        | some state =>
            dsimp only [Option.getD_some, Option.map_some]
            split_ifs <;> rfl
      -- One generation for the members that expire and one for the new member.
      obtain ⟨started, hle, hexpired⟩ := evolves_expireAndBump joined now''
      have hraised : (coordinator.apply (.join group' topic' id sessionTimeoutMs partitionCount
          now'')).generationOf group' topic' =
            (coordinator.generationOf group' topic' + started + 1) % 2 ^ 64 := by
        rw [← hgeneration, apply, join_fst, generationOf, SortedMap.find?_insert_self,
          Option.map_some, Option.getD_some, hid, ← hjoined, generationId_enrol habsent,
          hexpired.generation, UInt64.toNat_add, UInt64.toNat_add, UInt64.toNat_ofNat']
        simp
      rw [startedBy, if_neg GroupOp.noConfusion, hraised] at hstarted
      have hlt := generationOf_lt coordinator group' topic'
      rw [hraised]
      omega
  | _ => exact henters.elim

/-- A call that is rejected has let members expire, and nothing else. -/
theorem apply_of_rejected {op : GroupOp} {now : ℤ} (hon : op.On group topic)
    (htime : op.time = some now) (h : coordinator.accepted op = false) :
    coordinator.apply op = (coordinator.expire group topic now).1 := by
  have hrejected : ∀ body : GroupState → GroupState × Except GroupCoordinatorError GroupResult,
      (∀ state, (body state).2.toBool = false → (body state).1 = state) →
      (coordinator.onGroup group topic now body).2.toBool = false →
      (coordinator.onGroup group topic now body).1 = (coordinator.expire group topic now).1 := by
    intro body hbody hresult
    rw [expire]
    cases hfind : coordinator.groups.find? (groupKey group topic) with
    | none => rw [onGroup, hfind]
    | some state =>
        rw [toBool_onGroup hfind] at hresult
        rw [onGroup, hfind]
        simp only [hbody _ hresult]
  have hrenew : ∀ (id : Bytes) (generationId : ℕ) (state : GroupState),
      (renewMember id generationId now state).2.toBool = false →
      (renewMember id generationId now state).1 = state := by
    intro id generationId state hresult
    rcases renewMember_cases id generationId now state with ⟨hstate, -⟩ | ⟨-, -, -, haccepted⟩
    · exact hstate
    · rw [haccepted] at hresult
      cases hresult
  cases op with
  | sync group' topic' id generationId now' =>
      obtain ⟨rfl, rfl⟩ := hon
      obtain rfl := Option.some.inj htime
      exact hrejected _ (hrenew id generationId) h
  | heartbeat group' topic' id generationId now' =>
      obtain ⟨rfl, rfl⟩ := hon
      obtain rfl := Option.some.inj htime
      exact hrejected _ (hrenew id generationId) h
  | leave group' topic' id generationId now' =>
      obtain ⟨rfl, rfl⟩ := hon
      obtain rfl := Option.some.inj htime
      refine hrejected _ (fun state hresult ↦ ?_) h
      split at hresult
      · rfl
      · cases hresult
  | validateCommit group' topic' id generationId partition now' =>
      obtain ⟨rfl, rfl⟩ := hon
      obtain rfl := Option.some.inj htime
      refine hrejected _ (fun state hresult ↦ ?_) h
      split
      · rfl
      · next member hmember =>
          rw [hmember] at hresult
          dsimp only at hresult
          split_ifs at hresult with howns
          · rw [if_pos howns]
          · cases hresult
  | _ => cases h

/-- No operation of a stretch of a run enters the member. -/
def StaysOut (group topic memberId : Bytes) (before middle : List GroupOp) : Prop :=
  ∀ front op back, middle = front ++ op :: back →
    ¬ (({} : GroupCoordinator).applyAll (before ++ front)).Enters group topic memberId op

theorem Lapsed.stretch {before middle after : List GroupOp} {now : ℤ}
    (h : Lapsed group topic memberId before now)
    (htimely : Timely (before ++ middle ++ after))
    (hlater : ∀ op ∈ middle, ∀ now', op.time = some now' → now ≤ now')
    (hout : StaysOut group topic memberId before middle) :
    Lapsed group topic memberId (before ++ middle) now := by
  induction middle using List.reverseRecOn generalizing after with
  | nil => rwa [List.append_nil]
  | append_singleton middle op ih =>
      have hsplit : before ++ (middle ++ [op]) ++ after = before ++ middle ++ op :: after := by simp
      rw [hsplit] at htimely
      have hmiddle := ih htimely (fun other hother ↦ hlater other (List.mem_append_left _ hother))
        fun front other back heq ↦ hout front other (back ++ [op]) (by rw [heq]; simp)
      rw [← List.append_assoc]
      refine hmiddle.step htimely (hlater op (List.mem_append_right _ List.mem_cons_self)) ?_
      exact hout middle op [] rfl

/-- The coordinator behaves as if members vanished on their deadline: who is there
after an operation is who was heard of in time, a member that was not is rejected
until it joins again, which raises the generation as long as fewer than 2^64 have
been started, and a rejected call does what `expire` does. -/
theorem lazy_expiry (ops : List GroupOp) (htimely : Timely ops) (htimeouts : PositiveTimeouts ops)
    (group topic memberId : Bytes) :
    (∀ before op after now, ops = before ++ op :: after → op.On group topic →
      op.time = some now →
      (memberId ∈ (({} : GroupCoordinator).applyAll (before ++ [op])).memberIds group topic ↔
        ∃ sighting, lastSighting group topic memberId (before ++ [op]) = some sighting ∧
          sighting.live now = true)) ∧
    (∀ before middle op after now, ops = before ++ middle ++ op :: after →
      Lapsed group topic memberId before now →
      (∀ other ∈ middle ++ [op], ∀ now', other.time = some now' → now ≤ now') →
      StaysOut group topic memberId before middle →
      let coordinator := ({} : GroupCoordinator).applyAll (before ++ middle)
      (op.On group topic → op.speaker = some memberId → coordinator.accepted op = false) ∧
        (coordinator.Enters group topic memberId op →
          ({} : GroupCoordinator).generationsStarted group topic (before ++ middle ++ [op]) <
            2 ^ 64 →
          coordinator.generationOf group topic <
            (coordinator.apply op).generationOf group topic)) ∧
    ∀ (coordinator : GroupCoordinator) (op : GroupOp) (now : ℤ), op.On group topic →
      op.time = some now → coordinator.accepted op = false →
      coordinator.apply op = (coordinator.expire group topic now).1 := by
  refine ⟨fun before op after now hsplit hon htime ↦ ?_,
    fun before middle op after now hsplit hlapsed hlater hout ↦ ?_,
    fun coordinator op now hon htime hrejected ↦ apply_of_rejected hon htime hrejected⟩
  · subst hsplit
    refine mem_memberIds_iff_live htimely
      (fun group' topic' id timeout count time hmem ↦
        htimeouts group' topic' id timeout count time ?_) hon htime
    rcases List.mem_append.mp hmem with hmem | hmem
    · exact List.mem_append_left _ hmem
    · exact List.mem_append_right _ (List.mem_singleton.mp hmem ▸ List.mem_cons_self)
  · subst hsplit
    have hmiddle := hlapsed.stretch htimely
      (fun other hother ↦ hlater other (List.mem_append_left _ hother)) hout
    have hop := hlater op (List.mem_append_right _ List.mem_cons_self)
    refine ⟨fun hon hspeaker ↦ ?_, fun henters hstarted ↦ ?_⟩
    · obtain ⟨now', htime⟩ := hon.exists_time
      exact hmiddle.rejected htimely hon htime (hop now' htime) hspeaker
    · obtain ⟨now', htime⟩ : ∃ now', op.time = some now' := by
        cases op with
        | join => exact ⟨_, rfl⟩
        | _ => exact henters.elim
      exact hmiddle.join_raises htimely htime (hop now' htime) henters hstarted

/-- A member whose session times out, and that joins again. -/
def lapsedMember : List GroupOp :=
  [.join [103] [116] [97] 1 2 0, .heartbeat [103] [116] [97] 1 999999,
    .heartbeat [103] [116] [97] 1 2000000, .join [103] [116] [97] 1 2 2000001]

theorem lazy_expiry_lapsedMember :
    [97] ∈ (({} : GroupCoordinator).applyAll (lapsedMember.take 2)).memberIds [103] [116] ∧
      (({} : GroupCoordinator).applyAll (lapsedMember.take 2)).accepted
        (.heartbeat [103] [116] [97] 1 2000000) = false ∧
      (({} : GroupCoordinator).applyAll (lapsedMember.take 3)).generationOf [103] [116] <
        (({} : GroupCoordinator).applyAll lapsedMember).generationOf [103] [116] := by
  have hexpiry := lazy_expiry lapsedMember (by decide)
    (by
      intro group topic memberId timeout count now hmem
      simp only [lapsedMember, List.mem_cons, List.not_mem_nil] at hmem
      grind) [103] [116] [97]
  have hseen : lastSighting [103] [116] [97] (lapsedMember.take 2) = some ⟨1, 999999⟩ := by
    decide
  have hlapsed : Lapsed [103] [116] [97] (lapsedMember.take 2) 2000000 := by
    intro sighting hsighting
    rw [← Option.some.inj (hseen.symm.trans hsighting)]
    decide
  refine ⟨(hexpiry.1 (lapsedMember.take 1) _ _ 999999 rfl ⟨rfl, rfl⟩ rfl).mpr
    ⟨⟨1, 999999⟩, by decide, by decide⟩, ?_, ?_⟩
  · exact (hexpiry.2.1 (lapsedMember.take 2) [] (.heartbeat [103] [116] [97] 1 2000000)
      (lapsedMember.drop 3) 2000000 rfl hlapsed (by simp [GroupOp.time])
      (fun front op back h ↦ by simp at h)).1 ⟨rfl, rfl⟩ rfl
  · refine (hexpiry.2.1 (lapsedMember.take 2) [.heartbeat [103] [116] [97] 1 2000000] _ []
      2000000 rfl hlapsed (by simp [GroupOp.time]) (fun front op back h ↦ ?_)).2 ⟨rfl, rfl, rfl⟩
      (by decide)
    cases front with
    | nil =>
        obtain ⟨rfl, -⟩ := List.cons.inj h
        exact id
    | cons => simp at h

/-! ### Where the counter wraps -/

/-- A member that is let in again after its deadline raises the id. -/
def ReturnsRaise (ops : List GroupOp) (group topic memberId : Bytes) : Prop :=
  ∀ before middle op after now, ops = before ++ middle ++ op :: after →
    Lapsed group topic memberId before now →
    (∀ other ∈ middle ++ [op], ∀ now', other.time = some now' → now ≤ now') →
    StaysOut group topic memberId before middle →
    (({} : GroupCoordinator).applyAll (before ++ middle)).Enters group topic memberId op →
    (({} : GroupCoordinator).applyAll (before ++ middle)).generationOf group topic <
      ((({} : GroupCoordinator).applyAll (before ++ middle)).apply op).generationOf group topic

/-- A member joins, and when its deadline is over a second one. -/
def twoArrivals : List GroupOp :=
  [.join [103] [116] [97] 1 2 0, .join [103] [116] [98] 1 2 (10 ^ 6)]

/-- The group when only the second is left. -/
def arrived : GroupState := (({} : GroupCoordinator).applyAll twoArrivals).groupState [103] [116] 2

theorem settled_arrived : Settled arrived [99] 4 (10 ^ 6) :=
  ⟨by decide, by decide, by decide, by decide, by decide⟩

/-- The first member comes back when a third one has come and gone. -/
def lateReturn (count : ℕ) : List GroupOp :=
  twoArrivals ++ stays [99] 4 (10 ^ 6) count ++ [.join [103] [116] [97] 1 2 (10 ^ 6)]

theorem times_stays (count : ℕ) :
    (stays [99] 4 (10 ^ 6) count).filterMap GroupOp.time =
      List.replicate (2 * count) (10 ^ 6) := by
  induction count with
  | zero => rfl
  | succ count ih =>
      rw [stays_succ, List.filterMap_append, ih, Nat.mul_succ, List.replicate_add]
      rfl

theorem timely_lateReturn (count : ℕ) : Timely (lateReturn count) := by
  have htimes : (lateReturn count).filterMap GroupOp.time =
      0 :: 10 ^ 6 :: List.replicate (2 * count + 1) (10 ^ 6) := by
    rw [lateReturn, List.filterMap_append, List.filterMap_append, times_stays,
      List.replicate_succ']
    rfl
  rw [Timely, htimes, ← List.replicate_succ, List.pairwise_cons, List.pairwise_replicate]
  refine ⟨fun time htime ↦ ?_, Or.inr le_rfl⟩
  rw [List.eq_of_mem_replicate htime]
  norm_num

theorem generationOf_lateReturn (count : ℕ) :
    (({} : GroupCoordinator).applyAll (lateReturn count)).generationOf [103] [116] =
      (4 + 2 * count) % 2 ^ 64 := by
  have hfind : (({} : GroupCoordinator).applyAll twoArrivals).groups.find?
      (groupKey [103] [116]) = some arrived := by decide
  have hstays := find?_stays settled_arrived (List.cons_ne_nil _ _) hfind count
  have hjoin := find?_join (List.cons_ne_nil 97 []) hstays settled_arrived.group
    settled_arrived.count 1 (10 ^ 6)
  rw [GroupState.expireAndBump_later, GroupState.enrol_later] at hjoin
  have hfour : ((arrived.expireAndBump (10 ^ 6)).1.enrol [97] 1 (10 ^ 6)).generationId = 4 := by
    decide
  rw [lateReturn, applyAll_append, applyAll_append, generationOf, applyAll, List.foldl_cons,
    List.foldl_nil, hjoin, Option.map_some, Option.getD_some, GroupState.later, hfour,
    UInt64.toNat_add, UInt64.toNat_ofNat', Nat.add_mod_mod]
  rfl

/-- The return with which the id comes to 2^64 does not raise it. -/
theorem not_returnsRaise_of_wraps {count : ℕ} (hcount : 2 * count + 4 = 2 ^ 64) :
    ¬ ReturnsRaise (lateReturn count) [103] [116] [97] := by
  intro h
  have hstays : ∀ op ∈ .join [103] [116] [98] 1 2 (10 ^ 6) :: stays [99] 4 (10 ^ 6) count,
      op.time = some (10 ^ 6) ∧ ∀ coordinator : GroupCoordinator,
        ¬ coordinator.Enters [103] [116] [97] op := by
    intro op hop
    rcases List.mem_cons.mp hop with rfl | hop
    · exact ⟨rfl, fun coordinator henters ↦ absurd henters.2.2 (by simp [joinedId])⟩
    rcases mem_stays hop with rfl | ⟨generationId, rfl⟩
    · exact ⟨rfl, fun coordinator henters ↦ absurd henters.2.2 (by simp [joinedId])⟩
    · exact ⟨rfl, fun coordinator henters ↦ henters⟩
  have hraised := h [.join [103] [116] [97] 1 2 0]
    (.join [103] [116] [98] 1 2 (10 ^ 6) :: stays [99] 4 (10 ^ 6) count)
    (.join [103] [116] [97] 1 2 (10 ^ 6)) [] (10 ^ 6) rfl (fun sighting hseen ↦ ?_)
    (fun other hother now' hnow ↦ ?_)
    (fun front op back hsplit ↦ (hstays op (hsplit ▸ by simp)).2 _) ⟨rfl, rfl, rfl⟩
  · have hafter := generationOf_lateReturn count
    rw [lateReturn, applyAll_append] at hafter
    have hzero := hraised.trans_eq hafter
    omega
  · obtain rfl : (⟨1, 0⟩ : Sighting) = sighting := Option.some.inj hseen
    decide
  · rcases List.mem_append.mp hother with hother | hother
    · rw [(hstays other hother).1] at hnow
      exact (Option.some.inj hnow).le
    · rw [List.mem_singleton.mp hother] at hnow
      exact (Option.some.inj hnow).le

/-- The id has only 2^64 values to rise through. -/
theorem not_returnsRaise_lateReturn :
    Timely (lateReturn (2 ^ 63 - 2)) ∧ PositiveTimeouts (lateReturn (2 ^ 63 - 2)) ∧
      ¬ ReturnsRaise (lateReturn (2 ^ 63 - 2)) [103] [116] [97] := by
  obtain ⟨count, hcount⟩ : ∃ count, 2 ^ 63 - 2 = count := ⟨_, rfl⟩
  rw [hcount]
  refine ⟨timely_lateReturn count, fun group topic memberId timeout partitions now hop ↦ ?_,
    not_returnsRaise_of_wraps (by omega)⟩
  have htimeout : timeout = 1 := by
    rcases List.mem_append.mp hop with hop | hop
    · rcases List.mem_append.mp hop with hop | hop
      · simp only [twoArrivals, List.mem_cons, GroupOp.join.injEq, List.not_mem_nil,
          or_false] at hop
        omega
      · rcases mem_stays hop with hjoin | ⟨generationId, hleave⟩
        · exact (GroupOp.join.inj hjoin).2.2.2.1
        · cases hleave
    · exact (GroupOp.join.inj (List.mem_singleton.mp hop)).2.2.2.1
  exact htimeout ▸ Nat.one_pos

end GroupCoordinator

end BoltStream.Broker
