import BoltStream.Broker.GroupFencing

/-!
# Who is a member

Only a join brings a member into a group; every other operation, on whatever
group, leaves the members of a group as they are or removes some.
-/

namespace BoltStream.Broker

open BoltStream.Lib BoltStream.Protocol

namespace GroupState

theorem keys_expireMembers (state : GroupState) (now : ℤ) :
    (state.expireMembers now).1.members.keys ⊆ state.members.keys := by
  intro id hid
  obtain ⟨entry, hentry, rfl⟩ := List.mem_map.mp hid
  exact List.mem_map.mpr ⟨entry, (List.mem_filter.mp hentry).1, rfl⟩

theorem keys_expireAndBump (state : GroupState) (now : ℤ) :
    (state.expireAndBump now).1.members.keys ⊆ state.members.keys := by
  rw [expireAndBump]
  split_ifs with hexpired
  · rw [bumpGeneration, keys_recomputeAssignment]
    exact keys_expireMembers state now
  · exact keys_expireMembers state now

theorem keys_touch {state : GroupState} {memberId : Bytes} {member : MemberState}
    (h : state.members.find? memberId = some member) (now : ℤ) :
    (state.touch memberId member now).members.keys ⊆ state.members.keys := by
  intro id hid
  obtain ⟨found, hfound⟩ := SortedMap.mem_keys_iff.mp hid
  rw [touch, SortedMap.find?_insert] at hfound
  split_ifs at hfound with hsame
  · exact SortedMap.mem_keys_iff.mpr ⟨member, hsame ▸ h⟩
  · exact SortedMap.mem_keys_iff.mpr ⟨found, hfound⟩

end GroupState

/-- The operation is a join of the group. -/
def GroupOp.Joins (group topic : Bytes) : GroupOp → Prop
  | .join group' topic' _ _ _ _ => group' = group ∧ topic' = topic
  | _ => False

namespace GroupCoordinator

open GroupState

variable {coordinator : GroupCoordinator} {group topic : Bytes}

theorem memberIds_setGroup_self (coordinator : GroupCoordinator) (state : GroupState) :
    (coordinator.setGroup group topic state).memberIds group topic = state.members.keys := by
  rw [memberIds, setGroup, SortedMap.find?_insert_self]
  rfl

theorem memberIds_insert_ne {group' topic' : Bytes}
    (h : groupKey group topic ≠ groupKey group' topic') (groups : SortedMap GroupKey GroupState)
    (state : GroupState) (nextMemberId : UInt64) :
    memberIds ⟨groups.insert (groupKey group' topic') state, nextMemberId⟩ group topic =
      memberIds ⟨groups, nextMemberId⟩ group topic := by
  rw [memberIds, memberIds, SortedMap.find?_insert, if_neg h]

theorem memberIds_of_find? {state : GroupState}
    (h : coordinator.groups.find? (groupKey group topic) = some state) :
    coordinator.memberIds group topic = state.members.keys := by
  rw [memberIds, h]
  rfl

theorem memberIds_onGroup {group' topic' : Bytes} {now : ℤ}
    {body : GroupState → GroupState × Except GroupCoordinatorError GroupResult}
    (hbody : ∀ state : GroupState, (body state).1.members.keys ⊆ state.members.keys) :
    (coordinator.onGroup group' topic' now body).1.memberIds group topic ⊆
      coordinator.memberIds group topic := by
  rw [onGroup]
  cases hfind : coordinator.groups.find? (groupKey group' topic') with
  | none => exact List.Subset.refl _
  | some state =>
      by_cases hkey : groupKey group topic = groupKey group' topic'
      · obtain ⟨rfl, rfl⟩ := groupKey_injective hkey
        simp only [memberIds_setGroup_self, memberIds_of_find? hfind]
        exact List.Subset.trans (hbody _) (keys_expireAndBump state now)
      · simp only [setGroup, memberIds_insert_ne hkey]
        exact List.Subset.refl _

/-- Operations that only expire the members of a group. -/
theorem memberIds_setExpired {group' topic' : Bytes} {state : GroupState} {now : ℤ}
    (hfind : coordinator.groups.find? (groupKey group' topic') = some state) :
    (coordinator.setGroup group' topic' (state.expireAndBump now).1).memberIds group topic ⊆
      coordinator.memberIds group topic := by
  have hframe : (coordinator.onGroup group' topic' now fun state ↦ (state, .ok {})).1.memberIds
      group topic ⊆ coordinator.memberIds group topic :=
    memberIds_onGroup fun state ↦ List.Subset.refl _
  rw [onGroup, hfind] at hframe
  exact hframe

theorem keys_renewMember (memberId : Bytes) (generationId : ℕ) (now : ℤ) (state : GroupState) :
    (renewMember memberId generationId now state).1.members.keys ⊆ state.members.keys := by
  rw [renewMember]
  split
  · exact List.Subset.refl _
  · next member hmember => exact keys_touch (find?_of_currentMember hmember).1 now

/-- Without a join of the group no member is new. -/
theorem memberIds_apply {op : GroupOp} (hop : ¬ op.Joins group topic) :
    (coordinator.apply op).memberIds group topic ⊆ coordinator.memberIds group topic := by
  cases op with
  | join group' topic' memberId sessionTimeoutMs partitionCount now =>
      have hkey : groupKey group topic ≠ groupKey group' topic' := fun heq ↦ by
        obtain ⟨rfl, rfl⟩ := groupKey_injective heq
        exact hop ⟨rfl, rfl⟩
      rw [apply, join]
      simp only [memberIds_insert_ne hkey]
      exact List.Subset.refl _
  | sync group' topic' memberId generationId now =>
      exact memberIds_onGroup (keys_renewMember memberId generationId now)
  | heartbeat group' topic' memberId generationId now =>
      exact memberIds_onGroup (keys_renewMember memberId generationId now)
  | leave group' topic' memberId generationId now =>
      refine memberIds_onGroup fun state ↦ ?_
      split
      · exact List.Subset.refl _
      · intro id hid
        dsimp only at hid
        rw [bumpGeneration, keys_recomputeAssignment] at hid
        obtain ⟨found, hfound⟩ := SortedMap.mem_keys_iff.mp hid
        rw [SortedMap.find?_erase] at hfound
        split_ifs at hfound with hsame
        exact SortedMap.mem_keys_iff.mpr ⟨found, hfound⟩
  | expire group' topic' now =>
      rw [apply, expire]
      cases hfind : coordinator.groups.find? (groupKey group' topic') with
      | none => exact List.Subset.refl _
      | some state => exact memberIds_setExpired hfind
  | validateCommit group' topic' memberId generationId partition now =>
      refine memberIds_onGroup fun state ↦ ?_
      split
      · exact List.Subset.refl _
      · next member hmember =>
          split_ifs with howns
          · exact List.Subset.refl _
          · exact keys_touch (find?_of_currentMember hmember).1 now
  | hasActiveMembers group' topic' now =>
      rw [apply, hasActiveMembers]
      cases hfind : coordinator.groups.find? (groupKey group' topic') with
      | none => exact List.Subset.refl _
      | some state => exact memberIds_setExpired hfind
  | activeMemberCount group' topic' now =>
      rw [apply, activeMemberCount]
      cases hfind : coordinator.groups.find? (groupKey group' topic') with
      | none => exact List.Subset.refl _
      | some state => exact memberIds_setExpired hfind
  | topicHasActiveMembers topic' now =>
      rw [apply, topicHasActiveMembers, memberIds, memberIds]
      simp only [SortedMap.find?_mapValues]
      cases coordinator.groups.find? (groupKey group topic) with
      | none => exact List.Subset.refl _
      | some state =>
          simp only [Option.map_some, Option.getD_some]
          split_ifs with htopic
          · exact keys_expireAndBump state now
          · exact List.Subset.refl _
  | removeTopic topic' =>
      rw [apply, removeTopic, memberIds, memberIds]
      simp only [SortedMap.find?_filter]
      cases coordinator.groups.find? (groupKey group topic) with
      | none => exact List.Subset.refl _
      | some state =>
          rw [Option.filter_some]
          split_ifs
          · exact List.Subset.refl _
          · exact List.nil_subset _

theorem memberIds_eq_nil_of_hasActiveMembers {now : ℤ}
    (h : (coordinator.hasActiveMembers group topic now).2 = false) :
    (coordinator.hasActiveMembers group topic now).1.memberIds group topic = [] := by
  rw [hasActiveMembers] at h ⊢
  cases hfind : coordinator.groups.find? (groupKey group topic) with
  | none =>
      dsimp only
      rw [memberIds, hfind]
      rfl
  | some state =>
      simp only [hfind, ne_eq, decide_not, Bool.not_eq_false', decide_eq_true_eq] at h
      simp only [memberIds_setGroup_self, SortedMap.keys, h, List.map_nil]

end GroupCoordinator

end BoltStream.Broker
