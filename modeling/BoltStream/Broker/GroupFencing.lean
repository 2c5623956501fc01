import BoltStream.Broker.GroupCoordinator

/-!
# Generation fencing

How the partitions are shared is a function of the member set, and the member
set is a function of the generation.  So two members can own a partition only in
different generations.  The id of the generation is a 64-bit counter; a number
stands for one generation as long as fewer than 2^64 are started.
-/

namespace BoltStream.Broker

open BoltStream.Lib BoltStream.Protocol

/-! ## Sharing the partitions -/

def shareLoop (base remainder : ℕ) : ℕ → ℕ → List Bytes → List (Bytes × List ℕ)
  | _, _, [] => []
  | index, nextPartition, id :: rest =>
      let count := base + if index < remainder then 1 else 0
      (id, List.range' nextPartition count) ::
        shareLoop base remainder (index + 1) (nextPartition + count) rest

/-- The share of every member, for members in the order of their ids. -/
def sharePartitions (ids : List Bytes) (partitionCount : ℕ) : List (Bytes × List ℕ) :=
  shareLoop (partitionCount / ids.length) (partitionCount % ids.length) 0 0 ids

theorem le_of_mem_shareLoop {base remainder : ℕ} {ids : List Bytes} {share : Bytes × List ℕ}
    {partition : ℕ} : ∀ {index nextPartition : ℕ},
    share ∈ shareLoop base remainder index nextPartition ids → partition ∈ share.2 →
      nextPartition ≤ partition := by
  induction ids with
  | nil => exact fun hshare ↦ absurd hshare List.not_mem_nil
  | cons id ids ih =>
      intro index nextPartition hshare hpartition
      rcases List.mem_cons.mp hshare with rfl | hshare
      · exact (List.mem_range'_1.mp hpartition).1
      · exact (Nat.le_add_right _ _).trans (ih hshare hpartition)

/-- No partition is shared out twice. -/
theorem shareLoop_disjoint {base remainder : ℕ} {ids : List Bytes} {share share' : Bytes × List ℕ}
    {partition : ℕ} : ∀ {index nextPartition : ℕ},
    share ∈ shareLoop base remainder index nextPartition ids →
      share' ∈ shareLoop base remainder index nextPartition ids →
        partition ∈ share.2 → partition ∈ share'.2 → share.1 = share'.1 := by
  induction ids with
  | nil => exact fun hshare ↦ absurd hshare List.not_mem_nil
  | cons id ids ih =>
      intro index nextPartition hshare hshare' hpartition hpartition'
      -- The first share ends where the others begin.
      have hapart : ∀ count later, partition ∈ List.range' nextPartition count →
          later ∈ shareLoop base remainder (index + 1) (nextPartition + count) ids →
            partition ∉ later.2 := by
        intro count later hfirst hlater hmem
        have hlt := (List.mem_range'_1.mp hfirst).2
        have hle := le_of_mem_shareLoop hlater hmem
        omega
      rcases List.mem_cons.mp hshare with rfl | hshare <;>
        rcases List.mem_cons.mp hshare' with rfl | hshare'
      · rfl
      · exact (hapart _ _ hpartition hshare' hpartition').elim
      · exact (hapart _ _ hpartition' hshare hpartition).elim
      · exact ih hshare hshare' hpartition hpartition'

namespace GroupState

/-- Who holds which partitions. -/
def shares (state : GroupState) : List (Bytes × List ℕ) :=
  state.members.entries.map fun entry ↦ (entry.1, entry.2.assignment)

/-- The partitions are shared as `recompute_assignment` shares them. -/
def Assigned (state : GroupState) : Prop :=
  state.shares = sharePartitions state.members.keys state.partitionCount

theorem mem_shares {state : GroupState} {memberId : Bytes} {member : MemberState}
    (h : state.members.find? memberId = some member) :
    (memberId, member.assignment) ∈ state.shares :=
  List.mem_map.mpr ⟨(memberId, member), SortedMap.mem_of_find? h, rfl⟩

theorem shares_mapAccumEntries (base remainder : ℕ) (entries : List (Bytes × MemberState)) :
    ∀ place : ℕ × ℕ,
      (SortedMap.mapAccumEntries (fun place _ member ↦ assignMember base remainder place member)
        place entries).map (fun entry ↦ (entry.1, entry.2.assignment)) =
      shareLoop base remainder place.1 place.2 (entries.map Prod.fst) := by
  induction entries with
  | nil => exact fun _ ↦ rfl
  | cons entry entries ih =>
      intro place
      rw [SortedMap.mapAccumEntries, List.map_cons, List.map_cons, shareLoop, ih]
      rfl

theorem shareLoop_zero (index : ℕ) (ids : List Bytes) :
    shareLoop 0 0 index 0 ids = ids.map fun id ↦ (id, []) := by
  induction ids generalizing index with
  | nil => rfl
  | cons id ids ih =>
      rw [shareLoop, List.map_cons]
      exact congrArg _ (ih (index + 1))

theorem keys_recomputeAssignment (state : GroupState) :
    state.recomputeAssignment.members.keys = state.members.keys := by
  rw [recomputeAssignment]
  split_ifs
  · simp [SortedMap.keys, SortedMap.mapValues]
  · rw [SortedMap.keys_mapAccum]
    simp [SortedMap.keys, SortedMap.mapValues]

@[simp] theorem partitionCount_recomputeAssignment (state : GroupState) :
    state.recomputeAssignment.partitionCount = state.partitionCount := by
  rw [recomputeAssignment]
  split_ifs <;> rfl

@[simp] theorem generationId_recomputeAssignment (state : GroupState) :
    state.recomputeAssignment.generationId = state.generationId := by
  rw [recomputeAssignment]
  split_ifs <;> rfl

theorem assigned_recomputeAssignment (state : GroupState) : state.recomputeAssignment.Assigned := by
  rw [Assigned, keys_recomputeAssignment, partitionCount_recomputeAssignment, sharePartitions,
    recomputeAssignment]
  split_ifs with hnone
  · rcases hnone with hmembers | hcount
    · simp [shares, SortedMap.keys, SortedMap.mapValues, hmembers, shareLoop]
    · rw [hcount, Nat.zero_div, Nat.zero_mod, shareLoop_zero]
      simp [shares, SortedMap.keys, SortedMap.mapValues]
  · simp only [shares, SortedMap.mapAccum]
    rw [shares_mapAccumEntries]
    simp [SortedMap.keys, SortedMap.mapValues, Function.comp_def]

/-! ## What an operation does to a group -/

/-- `new` is a later state of the group `old`, `started` generations on. -/
structure EvolvesBy (started : ℕ) (old new : GroupState) : Prop where
  partitionCount : new.partitionCount = old.partitionCount
  assigned : old.Assigned → new.Assigned
  generation : new.generationId = old.generationId + .ofNat started
  changed : old.members.keys ≠ new.members.keys → 0 < started

/-- `new` is a later state of the group `old`, and between them at most `most`
generations have been started. -/
def Evolves (most : ℕ) (old new : GroupState) : Prop :=
  ∃ started ≤ most, EvolvesBy started old new

variable {old mid new state : GroupState} {most more started started' : ℕ}

theorem EvolvesBy.refl (state : GroupState) : EvolvesBy 0 state state :=
  ⟨rfl, id, (UInt64.add_zero _).symm, fun h ↦ (h rfl).elim⟩

theorem EvolvesBy.trans (h : EvolvesBy started old mid) (h' : EvolvesBy started' mid new) :
    EvolvesBy (started + started') old new := by
  refine ⟨h'.partitionCount.trans h.partitionCount, h'.assigned ∘ h.assigned, ?_, fun hkeys ↦ ?_⟩
  · rw [h'.generation, h.generation, UInt64.ofNat_add, UInt64.add_assoc]
  · by_cases hmid : old.members.keys = mid.members.keys
    · exact Nat.add_pos_right _ (h'.changed (hmid ▸ hkeys))
    · exact Nat.add_pos_left (h.changed hmid) _

/-- The number of the generation, as long as the counter does not wrap. -/
theorem EvolvesBy.toNat (h : EvolvesBy started old new)
    (hroom : old.generationId.toNat + started < 2 ^ 64) :
    new.generationId.toNat = old.generationId.toNat + started := by
  rw [h.generation, UInt64.toNat_add, UInt64.toNat_ofNat', Nat.add_mod_mod, Nat.mod_eq_of_lt hroom]

theorem Evolves.refl (state : GroupState) : Evolves 0 state state :=
  ⟨0, le_rfl, EvolvesBy.refl state⟩

theorem Evolves.mono (h : Evolves most old new) (hmore : most ≤ more) : Evolves more old new := by
  obtain ⟨started, hstarted, h⟩ := h
  exact ⟨started, hstarted.trans hmore, h⟩

theorem Evolves.trans (h : Evolves most old mid) (h' : Evolves more mid new) :
    Evolves (most + more) old new := by
  obtain ⟨started, hstarted, h⟩ := h
  obtain ⟨started', hstarted', h'⟩ := h'
  exact ⟨started + started', Nat.add_le_add hstarted hstarted', h.trans h'⟩

theorem Evolves.partitionCount (h : Evolves most old new) :
    new.partitionCount = old.partitionCount := by
  obtain ⟨_, _, h⟩ := h
  exact h.partitionCount

theorem Evolves.assigned (h : Evolves most old new) (hassigned : old.Assigned) : new.Assigned := by
  obtain ⟨_, _, h⟩ := h
  exact h.assigned hassigned

/-- A new generation, whatever the new member set. -/
theorem evolvesBy_bump (members : SortedMap Bytes MemberState) :
    EvolvesBy 1 state { state with members := members }.bumpGeneration := by
  refine ⟨?_, fun _ ↦ assigned_recomputeAssignment _, ?_, fun _ ↦ Nat.one_pos⟩ <;>
    simp [bumpGeneration]

theorem evolves_bump (members : SortedMap Bytes MemberState) :
    Evolves 1 state { state with members := members }.bumpGeneration :=
  ⟨1, le_rfl, evolvesBy_bump members⟩

/-- The same members with the same shares. -/
theorem evolves_update {members : SortedMap Bytes MemberState}
    (hshares : ({ state with members := members } : GroupState).shares = state.shares) :
    Evolves 0 state { state with members := members } := by
  have hkeys : members.keys = state.members.keys := by
    have hfst := congrArg (List.map Prod.fst) hshares
    simpa [shares, SortedMap.keys, Function.comp_def] using hfst
  refine ⟨0, le_rfl, rfl, fun h ↦ ?_, (UInt64.add_zero _).symm, fun h ↦ (h hkeys.symm).elim⟩
  rw [Assigned] at h ⊢
  rw [hshares, h, ← hkeys]

theorem evolves_recompute (state : GroupState) : Evolves 0 state state.recomputeAssignment := by
  refine ⟨0, le_rfl, by simp, fun _ ↦ assigned_recomputeAssignment state, by simp, fun h ↦ ?_⟩
  exact (h (keys_recomputeAssignment state).symm).elim

theorem shares_insert {memberId : Bytes} {member member' : MemberState}
    (hmember : state.members.find? memberId = some member)
    (hassignment : member'.assignment = member.assignment) :
    ({ state with members := state.members.insert memberId member' } : GroupState).shares =
      state.shares := by
  have hentries : ∀ entries : List (Bytes × MemberState),
      entries.Pairwise (fun e f ↦ e.1 < f.1) → (memberId, member) ∈ entries →
        (SortedMap.insertEntry memberId member' entries).map
            (fun entry ↦ (entry.1, entry.2.assignment)) =
          entries.map fun entry ↦ (entry.1, entry.2.assignment) := by
    intro entries
    induction entries with
    | nil => exact fun _ h ↦ absurd h List.not_mem_nil
    | cons first rest ih =>
        intro hsorted hmem
        obtain ⟨hfirst, hrest⟩ := List.pairwise_cons.mp hsorted
        rw [SortedMap.insertEntry]
        rcases List.mem_cons.mp hmem with rfl | hmem
        · simp [hassignment]
        · have hlt := hfirst _ hmem
          rw [if_neg hlt.not_gt, if_neg hlt.ne', List.map_cons, List.map_cons, ih hrest hmem]
  exact hentries _ state.members.sorted (SortedMap.mem_of_find? hmember)

theorem evolves_insert {memberId : Bytes} {member member' : MemberState}
    (hmember : state.members.find? memberId = some member)
    (hassignment : member'.assignment = member.assignment) :
    Evolves 0 state { state with members := state.members.insert memberId member' } :=
  evolves_update (shares_insert hmember hassignment)

theorem filter_keys_eq_nil {now : ℤ} (h : (state.expireMembers now).2 = []) :
    (state.expireMembers now).1 = state := by
  have hentries : (state.members.entries.filter fun entry ↦ !entry.2.timedOut now) =
      state.members.entries := by
    refine List.filter_eq_self.mpr fun entry hentry ↦ ?_
    have hnone := List.filter_eq_nil_iff.mp (List.map_eq_nil_iff.mp h) entry hentry
    simpa using hnone
  have hmembers : (state.members.filter fun _ member ↦ !member.timedOut now) = state.members :=
    SortedMap.ext_entries hentries
  rw [expireMembers, hmembers]

theorem evolves_expireAndBump (state : GroupState) (now : ℤ) :
    Evolves 1 state (state.expireAndBump now).1 := by
  rw [expireAndBump]
  split_ifs with hexpired
  · exact evolves_bump _
  · rw [filter_keys_eq_nil (not_not.mp hexpired)]
    exact (Evolves.refl state).mono (Nat.zero_le 1)

/-- What a join does to its group once the expired members are gone. -/
def enrol (state : GroupState) (id : Bytes) (sessionTimeoutMs : ℕ) (now : ℤ) : GroupState :=
  let inserted := (state.members.find? id).isNone
  let entered :=
    if inserted then
      { state with members := state.members.insert id { memberId := id } }.bumpGeneration
    else state
  let member : MemberState :=
    { (entered.members.find? id).getD {} with
      sessionTimeoutMs := sessionTimeoutMs
      lastHeartbeat := now }
  let joined := { entered with members := entered.members.insert id member }
  if !inserted ∧ member.assignment = [] then joined.recomputeAssignment else joined

theorem evolves_enrol (state : GroupState) (id : Bytes) (sessionTimeoutMs : ℕ) (now : ℤ) :
    Evolves 1 state (state.enrol id sessionTimeoutMs now) := by
  rw [enrol]
  cases hmember : state.members.find? id with
  | none =>
      -- A new member starts a new generation.
      simp only [Option.isNone_none, if_true, Bool.not_true, Bool.false_eq_true, false_and,
        if_false]
      refine ((evolves_bump (state.members.insert id { memberId := id })).trans ?_).mono
        (show 1 + 0 ≤ 1 from le_rfl)
      have hentered : id ∈ ({ state with
          members := state.members.insert id { memberId := id } } :
            GroupState).bumpGeneration.members.keys := by
        rw [bumpGeneration, keys_recomputeAssignment]
        exact SortedMap.mem_keys_iff.mpr ⟨_, SortedMap.find?_insert_self _ _ _⟩
      obtain ⟨member, hentered⟩ := SortedMap.mem_keys_iff.mp hentered
      rw [hentered]
      exact evolves_insert hentered rfl
  | some member =>
      simp only [Option.isNone_some, Bool.false_eq_true, if_false, Bool.not_false, true_and,
        hmember, Option.getD_some]
      have hrenewed : Evolves 0 state { state with
          members := state.members.insert id
            { member with sessionTimeoutMs := sessionTimeoutMs, lastHeartbeat := now } } :=
        evolves_insert hmember rfl
      split_ifs
      · exact (hrenewed.trans (evolves_recompute _)).mono (Nat.zero_le 1)
      · exact hrenewed.mono (Nat.zero_le 1)

/-! ## The number of the generation -/

/-- The same group `n` generations on. -/
def later (state : GroupState) (n : UInt64) : GroupState :=
  { state with generationId := state.generationId + n }

@[simp] theorem members_later (state : GroupState) (n : UInt64) :
    (state.later n).members = state.members := rfl

theorem recomputeAssignment_later (state : GroupState) (n : UInt64) :
    (state.later n).recomputeAssignment = state.recomputeAssignment.later n := by
  rw [recomputeAssignment, recomputeAssignment]
  split_ifs with hlater hnone hnone
  · rfl
  · exact absurd hlater hnone
  · exact absurd hnone hlater
  · rfl

theorem bumpGeneration_later (state : GroupState) (n : UInt64) :
    (state.later n).bumpGeneration = state.bumpGeneration.later n := by
  rw [bumpGeneration, bumpGeneration, ← recomputeAssignment_later]
  simp only [later, UInt64.add_assoc, UInt64.add_comm n 1]

theorem expireAndBump_later (state : GroupState) (n : UInt64) (now : ℤ) :
    ((state.later n).expireAndBump now).1 = (state.expireAndBump now).1.later n := by
  have hexpired : (state.later n).expireMembers now =
      ((state.expireMembers now).1.later n, (state.expireMembers now).2) := rfl
  rw [expireAndBump, expireAndBump, hexpired]
  dsimp only
  split_ifs
  · exact bumpGeneration_later _ n
  · rfl

theorem enrol_later (state : GroupState) (n : UInt64) (id : Bytes) (sessionTimeoutMs : ℕ)
    (now : ℤ) :
    (state.later n).enrol id sessionTimeoutMs now =
      (state.enrol id sessionTimeoutMs now).later n := by
  set entered := if (state.members.find? id).isNone then
    ({ state with members := state.members.insert id { memberId := id } } :
      GroupState).bumpGeneration
    else state with hentered
  have hlater : (if ((state.later n).members.find? id).isNone then
      ({ state.later n with
        members := (state.later n).members.insert id { memberId := id } } :
          GroupState).bumpGeneration
      else state.later n) = entered.later n := by
    by_cases hnew : (state.members.find? id).isNone
    · rw [hentered, members_later, if_pos hnew, if_pos hnew]
      exact bumpGeneration_later
        { state with members := state.members.insert id { memberId := id } } n
    · rw [hentered, members_later, if_neg hnew, if_neg hnew]
  rw [enrol, enrol]
  dsimp only
  rw [hlater, ← hentered]
  have hsettled : ∀ (settles : Prop) [Decidable settles] (joined : GroupState),
      (if settles then (joined.later n).recomputeAssignment else joined.later n) =
        (if settles then joined.recomputeAssignment else joined).later n := by
    intro settles _ joined
    split_ifs
    · exact recomputeAssignment_later joined n
    · rfl
  exact hsettled _ { entered with members := _ }

/-- The group when a member has joined. -/
def joinedBy (state : GroupState) (memberId : Bytes) (now : ℤ) : GroupState :=
  (((state.expireAndBump now).1.enrol memberId 1 now).expireAndBump now).1

/-- The group when it has left again. -/
def stayed (state : GroupState) (memberId : Bytes) (now : ℤ) : GroupState :=
  { state.joinedBy memberId now with
    members := (state.joinedBy memberId now).members.erase memberId }.bumpGeneration

theorem joinedBy_later (state : GroupState) (n : UInt64) (memberId : Bytes) (now : ℤ) :
    (state.later n).joinedBy memberId now = (state.joinedBy memberId now).later n := by
  rw [joinedBy, expireAndBump_later, enrol_later, expireAndBump_later]
  rfl

theorem stayed_later (state : GroupState) (n : UInt64) (memberId : Bytes) (now : ℤ) :
    (state.later n).stayed memberId now = (state.stayed memberId now).later n := by
  rw [stayed, joinedBy_later, stayed, ← bumpGeneration_later]
  rfl

end GroupState

/-! ## Runs of operations -/

/-- The operations of the coordinator between two `remove_topic` calls. -/
inductive GroupOp where
  | join (group topic memberId : Bytes) (sessionTimeoutMs partitionCount : ℕ) (now : ℤ)
  | sync (group topic memberId : Bytes) (generationId : ℕ) (now : ℤ)
  | heartbeat (group topic memberId : Bytes) (generationId : ℕ) (now : ℤ)
  | leave (group topic memberId : Bytes) (generationId : ℕ) (now : ℤ)
  | expire (group topic : Bytes) (now : ℤ)
  | validateCommit (group topic memberId : Bytes) (generationId partition : ℕ) (now : ℤ)
  | hasActiveMembers (group topic : Bytes) (now : ℤ)
  | activeMemberCount (group topic : Bytes) (now : ℤ)
  | topicHasActiveMembers (topic : Bytes) (now : ℤ)
  | removeTopic (topic : Bytes)
  deriving DecidableEq, Repr

namespace GroupCoordinator

/-- The coordinator after an operation. -/
def apply (coordinator : GroupCoordinator) : GroupOp → GroupCoordinator
  | .join group topic memberId sessionTimeoutMs partitionCount now =>
      (coordinator.join group topic memberId sessionTimeoutMs partitionCount now).1
  | .sync group topic memberId generationId now =>
      (coordinator.sync group topic memberId generationId now).1
  | .heartbeat group topic memberId generationId now =>
      (coordinator.heartbeat group topic memberId generationId now).1
  | .leave group topic memberId generationId now =>
      (coordinator.leave group topic memberId generationId now).1
  | .expire group topic now => (coordinator.expire group topic now).1
  | .validateCommit group topic memberId generationId partition now =>
      (coordinator.validateCommit group topic memberId generationId partition now).1
  | .hasActiveMembers group topic now => (coordinator.hasActiveMembers group topic now).1
  | .activeMemberCount group topic now => (coordinator.activeMemberCount group topic now).1
  | .topicHasActiveMembers topic now => (coordinator.topicHasActiveMembers topic now).1
  | .removeTopic topic => coordinator.removeTopic topic

def applyAll (coordinator : GroupCoordinator) (ops : List GroupOp) : GroupCoordinator :=
  ops.foldl apply coordinator

/-- The group of a topic with `partitionCount` partitions; before the first join
it has no members. -/
def groupState (coordinator : GroupCoordinator) (group topic : Bytes) (partitionCount : ℕ) :
    GroupState :=
  (coordinator.groups.find? (groupKey group topic)).getD { partitionCount := partitionCount }

def generationOf (coordinator : GroupCoordinator) (group topic : Bytes) : ℕ :=
  ((coordinator.groups.find? (groupKey group topic)).map fun state ↦
    state.generationId.toNat).getD 0

def memberIds (coordinator : GroupCoordinator) (group topic : Bytes) : List Bytes :=
  ((coordinator.groups.find? (groupKey group topic)).map fun state ↦ state.members.keys).getD []

/-- How many generations of a group an operation starts.  It starts two at most, so
the difference of the ids tells, also where the counter wraps; to remove the topic
starts none. -/
def startedBy (coordinator : GroupCoordinator) (group topic : Bytes) (op : GroupOp) : ℕ :=
  if op = .removeTopic topic then 0
  else
    ((coordinator.apply op).generationOf group topic +
      (2 ^ 64 - coordinator.generationOf group topic)) % 2 ^ 64

/-- How many generations of a group a run starts. -/
def generationsStarted (coordinator : GroupCoordinator) (group topic : Bytes) :
    List GroupOp → ℕ
  | [] => 0
  | op :: ops =>
      coordinator.startedBy group topic op +
        (coordinator.apply op).generationsStarted group topic ops

end GroupCoordinator

/-- The operation leaves the topic in place, and if it joins the group it names
the topic's partition count. -/
def GroupOp.Within (group topic : Bytes) (partitionCount : ℕ) : GroupOp → Prop
  | .join group' topic' _ _ partitionCount' _ =>
      group' = group → topic' = topic → partitionCount' = partitionCount
  | .removeTopic topic' => topic' ≠ topic
  | _ => True

instance (group topic : Bytes) (partitionCount : ℕ) :
    DecidablePred (GroupOp.Within group topic partitionCount)
  | .join group' topic' _ _ partitionCount' _ =>
      inferInstanceAs (Decidable (group' = group → topic' = topic →
        partitionCount' = partitionCount))
  | .removeTopic topic' => inferInstanceAs (Decidable (topic' ≠ topic))
  | .sync .. => .isTrue trivial
  | .heartbeat .. => .isTrue trivial
  | .leave .. => .isTrue trivial
  | .expire .. => .isTrue trivial
  | .validateCommit .. => .isTrue trivial
  | .hasActiveMembers .. => .isTrue trivial
  | .activeMemberCount .. => .isTrue trivial
  | .topicHasActiveMembers .. => .isTrue trivial

namespace GroupCoordinator

open GroupState

variable {coordinator : GroupCoordinator} {group topic : Bytes} {partitionCount : ℕ}

theorem groupKey_injective {group topic group' topic' : Bytes}
    (h : groupKey group topic = groupKey group' topic') : group = group' ∧ topic = topic' :=
  Prod.mk.inj (toLex.injective h)

theorem groupState_setGroup_self (coordinator : GroupCoordinator) (state : GroupState) :
    (coordinator.setGroup group topic state).groupState group topic partitionCount = state := by
  rw [groupState, setGroup, SortedMap.find?_insert_self, Option.getD_some]

theorem groupState_insert_ne {group' topic' : Bytes}
    (h : groupKey group topic ≠ groupKey group' topic') (groups : SortedMap GroupKey GroupState)
    (state : GroupState) (nextMemberId : UInt64) :
    groupState ⟨groups.insert (groupKey group' topic') state, nextMemberId⟩ group topic
        partitionCount =
      groupState ⟨groups, nextMemberId⟩ group topic partitionCount := by
  rw [groupState, groupState, SortedMap.find?_insert, if_neg h]

theorem generationOf_eq (coordinator : GroupCoordinator) (group topic : Bytes)
    (partitionCount : ℕ) : coordinator.generationOf group topic =
      (coordinator.groupState group topic partitionCount).generationId.toNat := by
  rw [generationOf, groupState]
  cases coordinator.groups.find? (groupKey group topic) <;> rfl

theorem memberIds_eq (coordinator : GroupCoordinator) (group topic : Bytes)
    (partitionCount : ℕ) : coordinator.memberIds group topic =
      (coordinator.groupState group topic partitionCount).members.keys := by
  rw [memberIds, groupState]
  cases coordinator.groups.find? (groupKey group topic) <;> rfl

theorem startedBy_of_within {op : GroupOp} (hop : op.Within group topic partitionCount) :
    coordinator.startedBy group topic op =
      ((coordinator.apply op).generationOf group topic +
        (2 ^ 64 - coordinator.generationOf group topic)) % 2 ^ 64 := by
  rw [startedBy, if_neg]
  rintro rfl
  exact hop rfl

theorem applyAll_append (coordinator : GroupCoordinator) (ops ops' : List GroupOp) :
    coordinator.applyAll (ops ++ ops') = (coordinator.applyAll ops).applyAll ops' :=
  List.foldl_append

theorem generationsStarted_append (coordinator : GroupCoordinator) (group topic : Bytes)
    (ops ops' : List GroupOp) :
    coordinator.generationsStarted group topic (ops ++ ops') =
      coordinator.generationsStarted group topic ops +
        (coordinator.applyAll ops).generationsStarted group topic ops' := by
  induction ops generalizing coordinator with
  | nil => exact (Nat.zero_add _).symm
  | cons op ops ih =>
      rw [List.cons_append, generationsStarted, generationsStarted, ih, Nat.add_assoc]
      rfl

/-- The group stays as it is. -/
theorem evolves_kept (h : new = old) : Evolves 2 old new :=
  h ▸ (Evolves.refl old).mono (Nat.zero_le 2)

/-- The frame of operations on a known group. -/
theorem evolves_onGroup {group' topic' : Bytes} {now : ℤ}
    {body : GroupState → GroupState × Except GroupCoordinatorError GroupResult}
    (hbody : ∀ state : GroupState, Evolves 1 state (body state).1) :
    Evolves 2 (coordinator.groupState group topic partitionCount)
      ((coordinator.onGroup group' topic' now body).1.groupState group topic partitionCount) := by
  rw [onGroup]
  cases hfind : coordinator.groups.find? (groupKey group' topic') with
  | none => exact evolves_kept rfl
  | some state =>
      by_cases hkey : groupKey group topic = groupKey group' topic'
      · obtain ⟨rfl, rfl⟩ := groupKey_injective hkey
        have hstate : coordinator.groupState group topic partitionCount = state := by
          rw [groupState, hfind, Option.getD_some]
        simp only [groupState_setGroup_self, hstate]
        exact (evolves_expireAndBump state now).trans (hbody _)
      · exact evolves_kept (groupState_insert_ne hkey _ _ _)

theorem find?_of_currentMember {state : GroupState} {memberId : Bytes} {generationId : ℕ}
    {changed : GroupCoordinatorError} {member : MemberState}
    (h : state.currentMember memberId generationId changed = .ok member) :
    state.members.find? memberId = some member ∧ generationId = state.generationId.toNat := by
  rw [currentMember] at h
  split at h
  · cases h
  · next found hfound =>
      split_ifs at h with hgeneration
      exact ⟨by rw [hfound, Except.ok.inj h], not_not.mp hgeneration⟩

theorem evolves_touch {state : GroupState} {memberId : Bytes} {member : MemberState}
    (h : state.members.find? memberId = some member) (now : ℤ) :
    Evolves 1 state (state.touch memberId member now) :=
  Evolves.mono (show Evolves 0 state (state.touch memberId member now) from evolves_insert h rfl)
    (Nat.zero_le 1)

theorem evolves_renewMember (memberId : Bytes) (generationId : ℕ) (now : ℤ) (state : GroupState) :
    Evolves 1 state (renewMember memberId generationId now state).1 := by
  rw [renewMember]
  split
  · exact (Evolves.refl state).mono (Nat.zero_le 1)
  · next member hmember => exact evolves_touch (find?_of_currentMember hmember).1 now

/-- Operations that only expire members of a group. -/
theorem evolves_setExpired {group' topic' : Bytes} {state : GroupState} {now : ℤ}
    (hfind : coordinator.groups.find? (groupKey group' topic') = some state) :
    Evolves 2 (coordinator.groupState group topic partitionCount)
      ((coordinator.setGroup group' topic' (state.expireAndBump now).1).groupState group topic
        partitionCount) := by
  have hframe : Evolves 2 (coordinator.groupState group topic partitionCount)
      ((coordinator.onGroup group' topic' now fun state ↦ (state, .ok {})).1.groupState group topic
        partitionCount) :=
    evolves_onGroup fun state ↦ (Evolves.refl state).mono (Nat.zero_le 1)
  rw [onGroup, hfind] at hframe
  exact hframe

/-- The id under which a join enters its member. -/
def joinedId (coordinator : GroupCoordinator) (memberId : Bytes) : Bytes :=
  if memberId = [] then coordinator.makeMemberId else memberId

/-- The state that a join finds or makes for its group. -/
def joinedGroup (coordinator : GroupCoordinator) (group topic : Bytes) (partitionCount : ℕ) :
    GroupState :=
  let found := (coordinator.groups.find? (groupKey group topic)).getD {}
  { (if found.group = [] then { found with group := group, topic := topic } else found) with
    partitionCount := partitionCount }

/-- A join expires, and then admits its member. -/
theorem join_fst (coordinator : GroupCoordinator) (group topic memberId : Bytes)
    (sessionTimeoutMs partitionCount : ℕ) (now : ℤ) :
    (coordinator.join group topic memberId sessionTimeoutMs partitionCount now).1 =
      ⟨coordinator.groups.insert (groupKey group topic)
        (((coordinator.joinedGroup group topic partitionCount).expireAndBump now).1.enrol
          (coordinator.joinedId memberId) sessionTimeoutMs now),
        if memberId = [] then coordinator.nextMemberId + 1 else coordinator.nextMemberId⟩ := rfl

/-- A join to a group that is there. -/
theorem find?_join {memberId : Bytes} {state : GroupState} (hid : memberId ≠ [])
    (hfind : coordinator.groups.find? (groupKey group topic) = some state)
    (hgroup : state.group ≠ []) (hcount : state.partitionCount = partitionCount)
    (sessionTimeoutMs : ℕ) (now : ℤ) :
    (coordinator.apply (.join group topic memberId sessionTimeoutMs partitionCount
        now)).groups.find? (groupKey group topic) =
      some ((state.expireAndBump now).1.enrol memberId sessionTimeoutMs now) := by
  have hjoined : coordinator.joinedGroup group topic partitionCount = state := by
    rw [joinedGroup, hfind, Option.getD_some, if_neg hgroup, ← hcount]
  rw [apply, join_fst, hjoined, joinedId, if_neg hid]
  exact SortedMap.find?_insert_self _ _ _

/-- A leave of a member that is still there. -/
theorem find?_leave {memberId : Bytes} {state : GroupState} {now : ℤ}
    (hfind : coordinator.groups.find? (groupKey group topic) = some state)
    (hmember : ((state.expireAndBump now).1.members.find? memberId).isSome = true) :
    (coordinator.apply (.leave group topic memberId
        (state.expireAndBump now).1.generationId.toNat now)).groups.find? (groupKey group topic) =
      some { (state.expireAndBump now).1 with
        members := (state.expireAndBump now).1.members.erase memberId }.bumpGeneration := by
  obtain ⟨member, hmember⟩ := Option.isSome_iff_exists.mp hmember
  have hcurrent : (state.expireAndBump now).1.currentMember memberId
      (state.expireAndBump now).1.generationId.toNat rebalanceError = .ok member := by
    rw [currentMember, hmember]
    exact if_neg (not_not.mpr rfl)
  simp only [apply, leave, onGroup, hfind, hcurrent, setGroup, SortedMap.find?_insert_self]

theorem evolves_join (memberId : Bytes) (sessionTimeoutMs : ℕ) (now : ℤ)
    (hcount : (coordinator.groupState group topic partitionCount).partitionCount =
      partitionCount) :
    Evolves 2 (coordinator.groupState group topic partitionCount)
      ((coordinator.join group topic memberId sessionTimeoutMs partitionCount now).1.groupState
        group topic partitionCount) := by
  set old := coordinator.groupState group topic partitionCount with hold
  -- Setting the name and the partition count changes nothing here.
  have hfound : (coordinator.joinedGroup group topic partitionCount).generationId =
        old.generationId ∧
      (coordinator.joinedGroup group topic partitionCount).members = old.members := by
    rw [hold, groupState, joinedGroup]
    cases coordinator.groups.find? (groupKey group topic) with
    | none => exact ⟨rfl, rfl⟩
    | some state =>
        rw [Option.getD_some, Option.getD_some]
        split_ifs <;> exact ⟨rfl, rfl⟩
  obtain ⟨hgeneration, hmembers⟩ := hfound
  have hstart : Evolves 0 old (coordinator.joinedGroup group topic partitionCount) := by
    refine ⟨0, le_rfl, hcount.symm, fun h ↦ ?_, hgeneration.trans (UInt64.add_zero _).symm,
      fun h ↦ (h (by rw [hmembers])).elim⟩
    rw [Assigned, shares] at h ⊢
    rw [hmembers, h, hcount]
    rfl
  have hjoined := (hstart.trans (evolves_expireAndBump _ now)).trans
    (evolves_enrol _ (coordinator.joinedId memberId) sessionTimeoutMs now)
  rw [join_fst, groupState, SortedMap.find?_insert_self]
  exact hjoined.mono (show 0 + 1 + 1 ≤ 2 from le_rfl)

/-- Every operation between two `remove_topic` calls lets the group evolve, by two
generations at most. -/
theorem evolves_apply {op : GroupOp} (hop : op.Within group topic partitionCount)
    (hcount : (coordinator.groupState group topic partitionCount).partitionCount =
      partitionCount) :
    Evolves 2 (coordinator.groupState group topic partitionCount)
      ((coordinator.apply op).groupState group topic partitionCount) := by
  cases op with
  | join group' topic' memberId sessionTimeoutMs partitionCount' now =>
      by_cases hkey : groupKey group topic = groupKey group' topic'
      · obtain ⟨rfl, rfl⟩ := groupKey_injective hkey
        obtain rfl := hop rfl rfl
        exact evolves_join memberId sessionTimeoutMs now hcount
      · exact evolves_kept (groupState_insert_ne hkey _ _ _)
  | sync group' topic' memberId generationId now =>
      exact evolves_onGroup (evolves_renewMember memberId generationId now)
  | heartbeat group' topic' memberId generationId now =>
      exact evolves_onGroup (evolves_renewMember memberId generationId now)
  | leave group' topic' memberId generationId now =>
      refine evolves_onGroup fun state ↦ ?_
      split
      · exact (Evolves.refl state).mono (Nat.zero_le 1)
      · exact evolves_bump _
  | expire group' topic' now =>
      rw [apply, expire]
      split
      · exact evolves_kept rfl
      · next state hfind => exact evolves_setExpired hfind
  | validateCommit group' topic' memberId generationId partition now =>
      refine evolves_onGroup fun state ↦ ?_
      split
      · exact (Evolves.refl state).mono (Nat.zero_le 1)
      · next member hmember =>
          split_ifs
          · exact (Evolves.refl state).mono (Nat.zero_le 1)
          · exact evolves_touch (find?_of_currentMember hmember).1 now
  | hasActiveMembers group' topic' now =>
      rw [apply, hasActiveMembers]
      split
      · exact evolves_kept rfl
      · next state hfind => exact evolves_setExpired hfind
  | activeMemberCount group' topic' now =>
      rw [apply, activeMemberCount]
      split
      · exact evolves_kept rfl
      · next state hfind => exact evolves_setExpired hfind
  | topicHasActiveMembers topic' now =>
      rw [apply, topicHasActiveMembers]
      simp only [groupState, SortedMap.find?_mapValues]
      cases coordinator.groups.find? (groupKey group topic) with
      | none => exact evolves_kept rfl
      | some state =>
          simp only [Option.map_some, Option.getD_some]
          split_ifs
          · exact (evolves_expireAndBump state now).mono (Nat.le_succ 1)
          · exact evolves_kept rfl
  | removeTopic topic' =>
      rw [apply, removeTopic]
      simp only [groupState, SortedMap.find?_filter]
      have hkept : decide ((ofLex (groupKey group topic)).2 ≠ topic') = true :=
        decide_eq_true (show topic ≠ topic' from Ne.symm hop)
      cases coordinator.groups.find? (groupKey group topic) with
      | none => exact evolves_kept rfl
      | some state =>
          rw [Option.filter_some, if_pos hkept]
          exact evolves_kept rfl

/-- The id that an operation leaves is ahead by the generations that it started. -/
theorem evolvesBy_apply {op : GroupOp} (hop : op.Within group topic partitionCount)
    (hcount : (coordinator.groupState group topic partitionCount).partitionCount =
      partitionCount) :
    EvolvesBy (coordinator.startedBy group topic op)
      (coordinator.groupState group topic partitionCount)
      ((coordinator.apply op).groupState group topic partitionCount) := by
  obtain ⟨started, hstarted, h⟩ := evolves_apply hop hcount
  have hdifference : coordinator.startedBy group topic op = started := by
    rw [startedBy_of_within hop, generationOf_eq _ _ _ partitionCount,
      generationOf_eq _ _ _ partitionCount, h.generation, UInt64.toNat_add, UInt64.toNat_ofNat']
    have hold := (coordinator.groupState group topic partitionCount).generationId.toNat_lt
    omega
  rwa [hdifference]

/-- What one operation keeps, a run keeps. -/
theorem evolvesBy_applyAll {ops : List GroupOp}
    (hops : ∀ op ∈ ops, op.Within group topic partitionCount)
    (hcount : (coordinator.groupState group topic partitionCount).partitionCount =
      partitionCount) :
    EvolvesBy (coordinator.generationsStarted group topic ops)
      (coordinator.groupState group topic partitionCount)
      ((coordinator.applyAll ops).groupState group topic partitionCount) := by
  induction ops generalizing coordinator with
  | nil => exact EvolvesBy.refl _
  | cons op ops ih =>
      have hstep := evolvesBy_apply (hops op List.mem_cons_self) hcount
      exact hstep.trans (ih (fun op' hop' ↦ hops op' (List.mem_cons_of_mem op hop'))
        (hstep.partitionCount.trans hcount))

/-- A commit that was accepted: in the state behind it the member is there, the
generation is current and the partition is in the member's share. -/
theorem owns_of_validateCommit {memberId : Bytes} {generationId partition : ℕ} {now : ℤ}
    {result : GroupResult} (partitionCount : ℕ)
    (h : (coordinator.validateCommit group topic memberId generationId partition now).2 =
      .ok result) :
    let state := (coordinator.validateCommit group topic memberId generationId partition
      now).1.groupState group topic partitionCount
    state.generationId.toNat = generationId ∧ ∃ share ∈ state.shares, share.1 = memberId ∧
      partition ∈ share.2 := by
  rw [validateCommit, onGroup] at h ⊢
  cases hfind : coordinator.groups.find? (groupKey group topic) with
  | none =>
      rw [hfind] at h
      cases h
  | some state =>
      simp only [hfind, groupState_setGroup_self] at h ⊢
      split at h
      · cases h
      · next member hmember =>
          obtain ⟨hfound, hgeneration⟩ := find?_of_currentMember hmember
          split_ifs at h with howns
          · cases h
          · have hpartition : partition ∈ member.assignment := by
              simpa [ownsPartition] using howns
            simp only [if_neg howns]
            refine ⟨hgeneration.symm, (memberId, member.assignment), ?_, rfl, hpartition⟩
            have hshares : ((state.expireAndBump now).1.touch memberId member now).shares =
                (state.expireAndBump now).1.shares := shares_insert hfound rfl
            rw [hshares]
            exact mem_shares hfound

theorem groupState_removeTopic (coordinator : GroupCoordinator) (group topic : Bytes)
    (partitionCount : ℕ) :
    (coordinator.removeTopic topic).groupState group topic partitionCount =
      { partitionCount := partitionCount } := by
  rw [groupState, removeTopic, SortedMap.find?_filter]
  cases coordinator.groups.find? (groupKey group topic) with
  | none => rfl
  | some state =>
      rw [Option.filter_some, if_neg (by simp [groupKey])]
      rfl

theorem assigned_empty (partitionCount : ℕ) :
    ({ partitionCount := partitionCount } : GroupState).Assigned := rfl

/-- The number of a generation comes back when 2^64 others have been started. -/
theorem eq_zero_of_generation {old new : GroupState} {started : ℕ} (h : EvolvesBy started old new)
    (hstarted : started < 2 ^ 64) (hgeneration : old.generationId = new.generationId) :
    started = 0 := by
  have hsame := congrArg UInt64.toNat (hgeneration.trans h.generation)
  rw [UInt64.toNat_add, UInt64.toNat_ofNat'] at hsame
  have hold := old.generationId.toNat_lt
  omega

/-- In one generation the shares stay. -/
theorem shares_eq_of_generation {old new : GroupState} {started : ℕ} (hassigned : old.Assigned)
    (hevolves : EvolvesBy started old new) (hstarted : started < 2 ^ 64)
    (hgeneration : old.generationId = new.generationId) : new.shares = old.shares := by
  have hkeys : old.members.keys = new.members.keys := by
    by_contra hne
    exact (hevolves.changed hne).ne' (eq_zero_of_generation hevolves hstarted hgeneration)
  rw [hevolves.assigned hassigned, hassigned, hkeys, hevolves.partitionCount]

/-- In one generation a partition has one owner, also when two later states of
the group are compared. -/
theorem owner_unique {old new : GroupState} {started : ℕ} {memberId memberId' : Bytes}
    {partition : ℕ} (hassigned : old.Assigned) (hevolves : EvolvesBy started old new)
    (hstarted : started < 2 ^ 64) (hgeneration : old.generationId = new.generationId)
    (howner : ∃ share ∈ old.shares, share.1 = memberId ∧ partition ∈ share.2)
    (howner' : ∃ share ∈ new.shares, share.1 = memberId' ∧ partition ∈ share.2) :
    memberId = memberId' := by
  have hshares := shares_eq_of_generation hassigned hevolves hstarted hgeneration
  obtain ⟨share, hshare, rfl, hpartition⟩ := howner
  obtain ⟨share', hshare', rfl, hpartition'⟩ := howner'
  rw [hshares] at hshare'
  rw [hassigned] at hshare hshare'
  exact shareLoop_disjoint hshare hshare' hpartition hpartition'

/-- The point of the run where an accepted `validate_commit` stands. -/
def Accepts (coordinator : GroupCoordinator) (before : List GroupOp)
    (group topic memberId : Bytes) (generationId partition : ℕ) (now : ℤ) : Prop :=
  ∃ result, ((coordinator.applyAll before).validateCommit group topic memberId generationId
    partition now).2 = .ok result

/-- Two accepted commits, the second later than the first. -/
theorem accepts_same_member {before later : List GroupOp} {memberId memberId' : Bytes}
    {generationId partition : ℕ} {now now' : ℤ}
    (hbefore : ∀ op ∈ before, op.Within group topic partitionCount)
    (hlater : ∀ op ∈ later, op.Within group topic partitionCount)
    (hcount : (coordinator.groupState group topic partitionCount).partitionCount =
      partitionCount)
    (hassigned : (coordinator.groupState group topic partitionCount).Assigned)
    (hstarted : coordinator.generationsStarted group topic
      (before ++ .validateCommit group topic memberId generationId partition now :: (later ++
        [.validateCommit group topic memberId' generationId partition now'])) < 2 ^ 64)
    (hfirst : coordinator.Accepts before group topic memberId generationId partition now)
    (hsecond : coordinator.Accepts
      (before ++ .validateCommit group topic memberId generationId partition now :: later)
      group topic memberId' generationId partition now') :
    memberId = memberId' := by
  obtain ⟨result, hfirst⟩ := hfirst
  obtain ⟨result', hsecond⟩ := hsecond
  set op := GroupOp.validateCommit group topic memberId generationId partition now
  set op' := GroupOp.validateCommit group topic memberId' generationId partition now'
  have howns := owns_of_validateCommit partitionCount hfirst
  have howns' := owns_of_validateCommit partitionCount hsecond
  have hwithin : ∀ {ops : List GroupOp} {last : GroupOp}, last.Within group topic partitionCount →
      (∀ other ∈ ops, other.Within group topic partitionCount) →
        ∀ other ∈ ops ++ [last], other.Within group topic partitionCount := by
    intro ops last hlast hops other hother
    rcases List.mem_append.mp hother with hother | hother
    · exact hops other hother
    · exact List.mem_singleton.mp hother ▸ hlast
  have hstart := evolvesBy_applyAll (hwithin
    (show op.Within group topic partitionCount from trivial) hbefore) hcount
  have hrest := evolvesBy_applyAll (hwithin
    (show op'.Within group topic partitionCount from trivial) hlater)
    (hstart.partitionCount.trans hcount)
  have hmid : coordinator.applyAll (before ++ [op]) =
      ((coordinator.applyAll before).validateCommit group topic memberId generationId partition
        now).1 := applyAll_append _ _ _
  have hend : (coordinator.applyAll (before ++ [op])).applyAll (later ++ [op']) =
      ((coordinator.applyAll (before ++ op :: later)).validateCommit group topic memberId'
        generationId partition now').1 := by
    rw [← applyAll_append, ← List.append_assoc, applyAll_append _ (before ++ [op] ++ later),
      List.append_assoc, List.singleton_append]
    rfl
  have hroom : (coordinator.applyAll (before ++ [op])).generationsStarted group topic
      (later ++ [op']) < 2 ^ 64 := by
    rw [← List.singleton_append, ← List.append_assoc, generationsStarted_append] at hstarted
    exact (Nat.le_add_left _ _).trans_lt hstarted
  refine owner_unique (hstart.assigned hassigned) hrest hroom ?_ (hmid ▸ howns.2)
    (hend ▸ howns'.2)
  apply UInt64.toNat_inj.mp
  rw [hend, howns'.1, hmid, howns.1]

/-- The id never falls and rises with every change of the members, and two commits
that are accepted for one partition in one generation are of one member. -/
structure Fenced (start : GroupCoordinator) (group topic : Bytes) (ops : List GroupOp) :
    Prop where
  forward : ∀ before op after, ops = before ++ op :: after →
    (start.applyAll before).generationOf group topic ≤
        ((start.applyAll before).apply op).generationOf group topic ∧
      ((start.applyAll before).memberIds group topic ≠
          ((start.applyAll before).apply op).memberIds group topic →
        (start.applyAll before).generationOf group topic <
          ((start.applyAll before).apply op).generationOf group topic)
  exclusive : ∀ before after before' after' memberId memberId' generationId partition now now',
    ops = before ++ .validateCommit group topic memberId generationId partition now :: after →
    ops = before' ++ .validateCommit group topic memberId' generationId partition now' :: after' →
    start.Accepts before group topic memberId generationId partition now →
    start.Accepts before' group topic memberId' generationId partition now' →
    memberId = memberId'

/-- Generation fencing, for the operations on a topic between two `remove_topic`
calls, as long as fewer than 2^64 generations are started. -/
theorem generation_fencing (coordinator : GroupCoordinator) (group topic : Bytes)
    (partitionCount : ℕ) (ops : List GroupOp)
    (hops : ∀ op ∈ ops, op.Within group topic partitionCount)
    (hstarted : (coordinator.removeTopic topic).generationsStarted group topic ops < 2 ^ 64) :
    (coordinator.removeTopic topic).Fenced group topic ops := by
  set start := coordinator.removeTopic topic
  have hstart : start.groupState group topic partitionCount =
      { partitionCount := partitionCount } := groupState_removeTopic coordinator group topic _
  have hcount : (start.groupState group topic partitionCount).partitionCount =
      partitionCount := by rw [hstart]
  have hassigned : (start.groupState group topic partitionCount).Assigned := by
    rw [hstart]
    exact assigned_empty partitionCount
  have hzero : (start.groupState group topic partitionCount).generationId.toNat = 0 := by
    rw [hstart]
    rfl
  constructor
  · intro before op after hsplit
    have hbefore := evolvesBy_applyAll
      (fun op' (hop' : op' ∈ before) ↦ hops op' (by simp [hsplit, hop'])) hcount
    have hstep := evolvesBy_apply (hops op (by simp [hsplit]))
      (hbefore.partitionCount.trans hcount)
    -- The id counts the generations from the start of the run on.
    have hroom : start.generationsStarted group topic before +
        (start.applyAll before).startedBy group topic op < 2 ^ 64 := by
      rw [hsplit, generationsStarted_append, generationsStarted] at hstarted
      omega
    have hcurrent := hbefore.toNat (by omega)
    have hnext := hstep.toNat (by omega)
    simp only [generationOf_eq _ group topic partitionCount,
      memberIds_eq _ group topic partitionCount]
    refine ⟨by omega, fun hchanged ↦ ?_⟩
    have hpositive := hstep.changed hchanged
    omega
  · intro before after before' after' memberId memberId' generationId partition now now' hsplit
      hsplit' hfirst hsecond
    have hmem : ∀ {op front back}, ops = front ++ op :: back →
        (∀ o ∈ front, o.Within group topic partitionCount) ∧
          ∀ o ∈ back, o.Within group topic partitionCount := by
      intro op front back h
      exact ⟨fun o ho ↦ hops o (by simp [h, ho]), fun o ho ↦ hops o (by simp [h, ho])⟩
    have hroom : ∀ {op op' front middle back}, ops = front ++ op :: (middle ++ op' :: back) →
        start.generationsStarted group topic (front ++ op :: (middle ++ [op'])) < 2 ^ 64 := by
      intro op op' front middle back h
      rw [h, show front ++ op :: (middle ++ op' :: back) =
        front ++ op :: (middle ++ [op']) ++ back by simp, generationsStarted_append] at hstarted
      exact (Nat.le_add_right _ _).trans_lt hstarted
    rcases List.append_eq_append_iff.mp (hsplit.symm.trans hsplit') with
      ⟨later, hbefore, hrest⟩ | ⟨later, hbefore, hrest⟩
    · cases later with
      | nil => exact (GroupOp.validateCommit.inj (List.cons.inj hrest).1).2.2.1
      | cons op later =>
          obtain ⟨rfl, hafter⟩ := List.cons.inj hrest
          rw [hbefore] at hsecond hsplit'
          exact accepts_same_member (hmem hsplit).1
            (fun o ho ↦ (hmem hsplit).2 o (hafter ▸ List.mem_append_left _ ho)) hcount hassigned
              (hroom (hafter ▸ hsplit)) hfirst hsecond
    · cases later with
      | nil => exact (GroupOp.validateCommit.inj (List.cons.inj hrest).1).2.2.1.symm
      | cons op later =>
          obtain ⟨rfl, hafter⟩ := List.cons.inj hrest
          rw [hbefore] at hfirst hsplit
          exact (accepts_same_member (hmem hsplit').1
            (fun o ho ↦ (hmem hsplit').2 o (hafter ▸ List.mem_append_left _ ho)) hcount
              hassigned (hroom (hafter ▸ hsplit')) hsecond hfirst).symm

/-- Two members join, the first commits, and later the second tries the same
partition. -/
def twoMemberRun : List GroupOp :=
  [.join [103] [116] [97] 1000 2 0, .join [103] [116] [98] 1000 2 5,
    .validateCommit [103] [116] [97] 2 0 10, .heartbeat [103] [116] [98] 2 20,
    .validateCommit [103] [116] [98] 2 0 30]

theorem generation_fencing_twoMembers :
    let start := ({} : GroupCoordinator).removeTopic [116]
    0 < (start.apply (.join [103] [116] [97] 1000 2 0)).generationOf [103] [116] ∧
      start.Accepts (twoMemberRun.take 2) [103] [116] [97] 2 0 10 ∧
      ¬ start.Accepts (twoMemberRun.take 4) [103] [116] [98] 2 0 30 := by
  have hfencing := generation_fencing {} [103] [116] 2 twoMemberRun (by decide)
    (by decide)
  let accepted : GroupResult :=
    { group := [103], topic := [116], memberId := [97], generationId := 2, assignment := [0] }
  have hfirst : (({} : GroupCoordinator).removeTopic [116]).Accepts (twoMemberRun.take 2) [103]
      [116] [97] 2 0 10 := ⟨accepted, by decide⟩
  refine ⟨(hfencing.1 [] _ _ rfl).2 (by decide), hfirst, fun hsecond ↦ ?_⟩
  have hsame := hfencing.2 (twoMemberRun.take 2) _ (twoMemberRun.take 4) [] _ _ 2 0 10 30 rfl rfl
    hfirst hsecond
  exact absurd hsame (by decide)

/-! ### Where the counter wraps -/

/-- A member joins, and leaves in the generation that its join has started. -/
def stay (memberId : Bytes) (generationId : ℕ) (now : ℤ) : List GroupOp :=
  [.join [103] [116] memberId 1 2 now, .leave [103] [116] memberId generationId now]

/-- One stay after the other, the first of them in the generation `first`. -/
def stays (memberId : Bytes) (first : ℕ) (now : ℤ) (count : ℕ) : List GroupOp :=
  (List.range count).flatMap fun i ↦ stay memberId ((first + 2 * i) % 2 ^ 64) now

theorem stays_succ (memberId : Bytes) (first : ℕ) (now : ℤ) (count : ℕ) :
    stays memberId first now (count + 1) =
      stays memberId first now count ++ stay memberId ((first + 2 * count) % 2 ^ 64) now := by
  rw [stays, List.range_succ, List.flatMap_append, List.flatMap_singleton]
  rfl

theorem mem_stays {memberId : Bytes} {first count : ℕ} {now : ℤ} {op : GroupOp}
    (hop : op ∈ stays memberId first now count) :
    op = .join [103] [116] memberId 1 2 now ∨
      ∃ generationId, op = .leave [103] [116] memberId generationId now := by
  obtain ⟨i, -, hop⟩ := List.mem_flatMap.mp hop
  exact (List.mem_cons.mp hop).imp_right fun hop ↦ ⟨_, List.mem_singleton.mp hop⟩

/-- A group whose members do not change when a member comes and goes. -/
structure Settled (state : GroupState) (memberId : Bytes) (first : ℕ) (now : ℤ) : Prop where
  group : state.group ≠ []
  count : state.partitionCount = 2
  joined : ((state.joinedBy memberId now).members.find? memberId).isSome = true
  first : (state.joinedBy memberId now).generationId.toNat = first
  stayed : state.stayed memberId now = state.later 2

theorem find?_stay {memberId : Bytes} {state : GroupState} {now : ℤ} (hid : memberId ≠ [])
    (hfind : coordinator.groups.find? (groupKey [103] [116]) = some state)
    (hgroup : state.group ≠ []) (hcount : state.partitionCount = 2)
    (hjoined : ((state.joinedBy memberId now).members.find? memberId).isSome = true) :
    (coordinator.applyAll (stay memberId (state.joinedBy memberId now).generationId.toNat
        now)).groups.find? (groupKey [103] [116]) = some (state.stayed memberId now) := by
  have hjoin := find?_join hid hfind hgroup hcount 1 now
  exact find?_leave hjoin hjoined

/-- Each stay starts two generations. -/
theorem find?_stays {memberId : Bytes} {state : GroupState} {first : ℕ} {now : ℤ}
    (h : Settled state memberId first now) (hid : memberId ≠ [])
    (hfind : coordinator.groups.find? (groupKey [103] [116]) = some state) (count : ℕ) :
    (coordinator.applyAll (stays memberId first now count)).groups.find? (groupKey [103] [116]) =
      some (state.later (.ofNat (2 * count))) := by
  induction count with
  | zero =>
      have hzero : state.later (.ofNat (2 * 0)) = state := by
        rw [GroupState.later, show UInt64.ofNat (2 * 0) = 0 from rfl, UInt64.add_zero]
      rw [hzero]
      exact hfind
  | succ count ih =>
      have hjoined := GroupState.joinedBy_later state (.ofNat (2 * count)) memberId now
      have hgeneration : ((state.later (.ofNat (2 * count))).joinedBy memberId
          now).generationId.toNat = (first + 2 * count) % 2 ^ 64 := by
        rw [hjoined, GroupState.later, UInt64.toNat_add, h.first, UInt64.toNat_ofNat',
          Nat.add_mod_mod]
      have hstay := find?_stay hid ih h.group h.count (by rw [hjoined]; exact h.joined)
      rw [hgeneration] at hstay
      rw [stays_succ, applyAll_append, hstay, GroupState.stayed_later, h.stayed, GroupState.later,
        GroupState.later, GroupState.later, UInt64.add_assoc, UInt64.add_comm 2, Nat.mul_succ,
        UInt64.ofNat_add]
      rfl

/-- A member that comes and goes, in a group that is new. -/
def firstStays (count : ℕ) : List GroupOp := stay [97] 1 0 ++ stays [97] 3 0 count

theorem generationOf_firstStays (count : ℕ) :
    ((({} : GroupCoordinator).removeTopic [116]).applyAll (firstStays count)).generationOf [103]
      [116] = (2 + 2 * count) % 2 ^ 64 := by
  set empty : GroupState :=
    { group := [103], topic := [116], partitionCount := 2, generationId := 2 } with hempty
  have hfirst : ((({} : GroupCoordinator).removeTopic [116]).applyAll
      (stay [97] 1 0)).groups.find? (groupKey [103] [116]) = some empty := by decide
  have hsettled : Settled empty [97] 3 0 :=
    ⟨by decide, rfl, by decide, by decide, by decide⟩
  have hlast := find?_stays hsettled (List.cons_ne_nil _ _) hfirst count
  rw [firstStays, applyAll_append, generationOf, hlast, Option.map_some, Option.getD_some,
    GroupState.later, UInt64.toNat_add, UInt64.toNat_ofNat', Nat.add_mod_mod]
  rfl

/-- A stay that takes the id back to a smaller one. -/
theorem not_fenced_of_stays {count : ℕ}
    (hwraps : (2 + 2 * (count + 1)) % 2 ^ 64 < (2 + 2 * count) % 2 ^ 64) :
    ¬ (({} : GroupCoordinator).removeTopic [116]).Fenced [103] [116] (firstStays (count + 1)) := by
  intro h
  set generationId := (3 + 2 * count) % 2 ^ 64 with hid
  have hsplit : firstStays (count + 1) = firstStays count ++ stay [97] generationId 0 := by
    rw [firstStays, stays_succ, ← List.append_assoc, ← hid, firstStays]
  have hjoin := (h.forward (firstStays count) _ [.leave [103] [116] [97] generationId 0] hsplit).1
  have hleave := (h.forward (firstStays count ++ [.join [103] [116] [97] 1 2 0])
    (.leave [103] [116] [97] generationId 0) [] (by rw [hsplit, List.append_assoc]; rfl)).1
  have hlast := generationOf_firstStays (count + 1)
  rw [hsplit, applyAll_append] at hlast
  rw [applyAll_append] at hleave
  have hfalls := hjoin.trans (hleave.trans hlast.le)
  rw [generationOf_firstStays] at hfalls
  exact absurd hfalls hwraps.not_ge

/-- With the stay number 2^63 the id is 0 again. -/
theorem not_fenced_stays :
    (∀ op ∈ firstStays (2 ^ 63 - 1), op.Within [103] [116] 2) ∧
      ¬ (({} : GroupCoordinator).removeTopic [116]).Fenced [103] [116]
        (firstStays (2 ^ 63 - 1)) := by
  obtain ⟨count, hcount⟩ : ∃ count, 2 ^ 63 - 1 = count + 1 := ⟨2 ^ 63 - 2, by norm_num⟩
  rw [hcount]
  refine ⟨fun op hop ↦ ?_, not_fenced_of_stays (by omega)⟩
  rcases List.mem_append.mp hop with hop | hop
  · clear * - hop
    revert op
    decide
  · rcases mem_stays hop with rfl | ⟨generationId, rfl⟩
    · exact fun _ _ ↦ rfl
    · trivial

end GroupCoordinator

end BoltStream.Broker
