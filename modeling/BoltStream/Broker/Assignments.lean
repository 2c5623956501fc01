import BoltStream.Broker.GroupFencing

/-!
# How the partitions are shared

Whatever operations have led to a group, its members hold consecutive ranges that
make up all partitions, the larger ones first.  What a member is told by `sync` is
what `validate_commit` asks for, as long as the generation lasts and its number has
not come back.
-/

namespace BoltStream.Broker

open BoltStream.Lib BoltStream.Protocol

/-! ## Shares -/

/-- Ranges that follow each other and cover the partitions, as even as they can
be, with the larger ones first. -/
structure EvenShares (partitionCount : ℕ) (assignments : List (List ℕ)) : Prop where
  covers : assignments.flatten = List.range partitionCount
  consecutive : ∀ assignment ∈ assignments, ∃ first,
    assignment = List.range' first assignment.length
  even : (assignments.map List.length).Pairwise fun earlier later ↦
    later ≤ earlier ∧ earlier ≤ later + 1

/-- The places before the remainder get one partition more. -/
theorem flatten_shareLoop (base remainder : ℕ) (ids : List Bytes) : ∀ index nextPartition,
    ((shareLoop base remainder index nextPartition ids).map Prod.snd).flatten =
      List.range' nextPartition (base * ids.length + min (remainder - index) ids.length) := by
  induction ids with
  | nil =>
      intro index nextPartition
      simp [shareLoop]
  | cons id ids ih =>
      intro index nextPartition
      rw [shareLoop, List.map_cons, List.flatten_cons, ih, List.range'_append_1]
      congr 1
      rw [List.length_cons, Nat.mul_succ]
      split_ifs <;> omega

theorem length_shareLoop {base remainder : ℕ} {ids : List Bytes} {share : Bytes × List ℕ} :
    ∀ {index nextPartition : ℕ}, share ∈ shareLoop base remainder index nextPartition ids →
      (∃ first, share.2 = List.range' first share.2.length) ∧ base ≤ share.2.length ∧
        share.2.length ≤ base + 1 ∧ (remainder ≤ index → share.2.length = base) := by
  induction ids with
  | nil => exact fun h ↦ absurd h List.not_mem_nil
  | cons id ids ih =>
      intro index nextPartition h
      rw [shareLoop] at h
      rcases List.mem_cons.mp h with rfl | h
      · refine ⟨⟨nextPartition, by simp⟩, ?_⟩
        simp only [List.length_range']
        split_ifs <;> omega
      · obtain ⟨hrange, hge, hle, hbase⟩ := ih h
        exact ⟨hrange, hge, hle, fun hindex ↦ hbase (by omega)⟩

theorem even_shareLoop (base remainder : ℕ) (ids : List Bytes) : ∀ index nextPartition,
    (((shareLoop base remainder index nextPartition ids).map Prod.snd).map List.length).Pairwise
      fun earlier later ↦ later ≤ earlier ∧ earlier ≤ later + 1 := by
  induction ids with
  | nil => exact fun _ _ ↦ List.Pairwise.nil
  | cons id ids ih =>
      intro index nextPartition
      rw [shareLoop, List.map_cons, List.map_cons, List.pairwise_cons]
      refine ⟨fun later hlater ↦ ?_, ih _ _⟩
      rw [List.map_map] at hlater
      obtain ⟨share, hshare, rfl⟩ := List.mem_map.mp hlater
      obtain ⟨-, hge, hle, hbase⟩ := length_shareLoop hshare
      simp only [Function.comp_apply, List.length_range']
      split_ifs with hindex
      · omega
      · have heq := hbase (by omega)
        omega

theorem evenShares_sharePartitions {ids : List Bytes} (hids : ids ≠ []) (partitionCount : ℕ) :
    EvenShares partitionCount ((sharePartitions ids partitionCount).map Prod.snd) := by
  have hlength : 0 < ids.length := List.length_pos_iff.mpr hids
  refine ⟨?_, fun assignment hassignment ↦ ?_, even_shareLoop _ _ _ _ _⟩
  · rw [sharePartitions, flatten_shareLoop, List.range_eq_range']
    congr 1
    have hmod := Nat.mod_lt partitionCount hlength
    have hdiv := Nat.div_add_mod' partitionCount ids.length
    rw [Nat.sub_zero, Nat.min_eq_left hmod.le]
    exact hdiv
  · obtain ⟨share, hshare, rfl⟩ := List.mem_map.mp hassignment
    exact (length_shareLoop hshare).1

/-- The assignments in the order of the member ids. -/
def GroupState.assignments (state : GroupState) : List (List ℕ) :=
  state.members.entries.map fun entry ↦ entry.2.assignment

theorem GroupState.Assigned.evenShares {state : GroupState} (h : state.Assigned)
    (hmembers : state.members.entries ≠ []) :
    EvenShares state.partitionCount state.assignments := by
  have hassignments : state.assignments = state.shares.map Prod.snd := by
    rw [assignments, shares, List.map_map]
    rfl
  rw [hassignments, h]
  exact evenShares_sharePartitions (fun hnil ↦ hmembers (List.map_eq_nil_iff.mp hnil)) _

/-! ## Runs -/

/-- A join of the group names the topic's partition count. -/
def GroupOp.NamesCount (group topic : Bytes) (partitionCount : ℕ) : GroupOp → Prop
  | .join group' topic' _ _ partitionCount' _ =>
      group' = group → topic' = topic → partitionCount' = partitionCount
  | _ => True

theorem GroupOp.NamesCount.within {group topic : Bytes} {partitionCount : ℕ} {op : GroupOp}
    (h : op.NamesCount group topic partitionCount) (hkept : op ≠ .removeTopic topic) :
    op.Within group topic partitionCount := by
  cases op with
  | join => exact h
  | removeTopic topic' => exact fun heq ↦ hkept (by rw [heq])
  | _ => trivial

instance (group topic : Bytes) (partitionCount : ℕ) :
    DecidablePred (GroupOp.NamesCount group topic partitionCount)
  | .join group' topic' _ _ partitionCount' _ =>
      inferInstanceAs (Decidable (group' = group → topic' = topic →
        partitionCount' = partitionCount))
  | .sync .. => .isTrue trivial
  | .heartbeat .. => .isTrue trivial
  | .leave .. => .isTrue trivial
  | .expire .. => .isTrue trivial
  | .validateCommit .. => .isTrue trivial
  | .hasActiveMembers .. => .isTrue trivial
  | .activeMemberCount .. => .isTrue trivial
  | .topicHasActiveMembers .. => .isTrue trivial
  | .removeTopic _ => .isTrue trivial

namespace GroupCoordinator

open GroupState

variable {coordinator : GroupCoordinator} {group topic : Bytes} {partitionCount : ℕ}

/-- The group is shared out with its topic's partition count. -/
structure Shared (coordinator : GroupCoordinator) (group topic : Bytes) (partitionCount : ℕ) :
    Prop where
  count : (coordinator.groupState group topic partitionCount).partitionCount = partitionCount
  assigned : (coordinator.groupState group topic partitionCount).Assigned

theorem shared_initial (group topic : Bytes) (partitionCount : ℕ) :
    ({} : GroupCoordinator).Shared group topic partitionCount :=
  ⟨rfl, assigned_empty partitionCount⟩

theorem Shared.apply (h : coordinator.Shared group topic partitionCount) {op : GroupOp}
    (hop : op.NamesCount group topic partitionCount) :
    (coordinator.apply op).Shared group topic partitionCount := by
  by_cases hremoved : op = .removeTopic topic
  · subst hremoved
    have hempty := groupState_removeTopic coordinator group topic partitionCount
    rw [← show coordinator.apply (.removeTopic topic) = coordinator.removeTopic topic from rfl]
      at hempty
    exact ⟨by rw [hempty], by rw [hempty]; exact assigned_empty _⟩
  · have hevolves := evolves_apply (hop.within hremoved) h.count
    exact ⟨hevolves.partitionCount.trans h.count, hevolves.assigned h.assigned⟩

theorem Shared.applyAll (h : coordinator.Shared group topic partitionCount) {ops : List GroupOp}
    (hops : ∀ op ∈ ops, op.NamesCount group topic partitionCount) :
    (coordinator.applyAll ops).Shared group topic partitionCount := by
  induction ops generalizing coordinator with
  | nil => exact h
  | cons op ops ih =>
      exact ih (h.apply (hops op List.mem_cons_self)) fun op' hop' ↦
        hops op' (List.mem_cons_of_mem op hop')

/-! ## What a commit must own -/

theorem groupState_expire (coordinator : GroupCoordinator) (group topic : Bytes)
    (partitionCount : ℕ) (now : ℤ) :
    (coordinator.expire group topic now).1.groupState group topic partitionCount =
      match coordinator.groups.find? (groupKey group topic) with
      | none => { partitionCount := partitionCount }
      | some state => (state.expireAndBump now).1 := by
  rw [expire]
  cases hfind : coordinator.groups.find? (groupKey group topic) with
  | none => simp only [groupState, hfind, Option.getD_none]
  | some state => simp only [groupState_setGroup_self]

/-- A commit is accepted from the member of the current generation that owns the
partition, once the expired members are gone. -/
theorem validateCommit_ok_iff {memberId : Bytes} {generationId partition : ℕ} {now : ℤ}
    (partitionCount : ℕ) :
    (∃ result, (coordinator.validateCommit group topic memberId generationId partition now).2 =
        .ok result) ↔
      let state := (coordinator.expire group topic now).1.groupState group topic partitionCount
      state.generationId.toNat = generationId ∧
        ∃ member, state.members.find? memberId = some member ∧ partition ∈ member.assignment := by
  rw [groupState_expire, validateCommit, onGroup]
  cases coordinator.groups.find? (groupKey group topic) with
  | none => simp
  | some state =>
      simp only [currentMember]
      cases (state.expireAndBump now).1.members.find? memberId with
      | none => simp [Except.map]
      | some member =>
          by_cases hgeneration : generationId = (state.expireAndBump now).1.generationId.toNat
          · by_cases howns : partition ∈ member.assignment
            · simp [hgeneration, howns, ownsPartition, Except.map]
            · simp [hgeneration, howns, ownsPartition, Except.map]
          · simp [hgeneration, Ne.symm hgeneration, Except.map]

/-- What a member is told by `sync` is its share. -/
theorem share_of_sync {memberId : Bytes} {generationId : ℕ} {now : ℤ} {result : GroupResult}
    (partitionCount : ℕ)
    (h : (coordinator.sync group topic memberId generationId now).2 = .ok result) :
    let state := (coordinator.sync group topic memberId generationId now).1.groupState group topic
      partitionCount
    state.generationId.toNat = generationId ∧ (memberId, result.assignment) ∈ state.shares := by
  rw [sync, onGroup] at h ⊢
  cases hfind : coordinator.groups.find? (groupKey group topic) with
  | none =>
      rw [hfind] at h
      cases h
  | some state =>
      simp only [hfind, groupState_setGroup_self] at h ⊢
      rw [renewMember] at h ⊢
      split at h
      · cases h
      · next member hmember =>
          obtain ⟨hfound, hgeneration⟩ := find?_of_currentMember hmember
          rw [← Except.ok.inj h]
          simp only
          refine ⟨hgeneration.symm, ?_⟩
          have hshares : ((state.expireAndBump now).1.touch memberId member now).shares =
              (state.expireAndBump now).1.shares := shares_insert hfound rfl
          rw [hshares]
          exact mem_shares hfound

theorem exists_member_of_share {state : GroupState} {memberId : Bytes} {assignment : List ℕ}
    (h : (memberId, assignment) ∈ state.shares) :
    ∃ member, state.members.find? memberId = some member ∧ member.assignment = assignment := by
  obtain ⟨entry, hentry, heq⟩ := List.mem_map.mp h
  obtain ⟨rfl, rfl⟩ := Prod.mk.inj heq
  exact ⟨entry.2, SortedMap.find?_of_mem hentry, rfl⟩

/-- A commit starts a generation if it finds members to expire. -/
theorem startedBy_validateCommit (coordinator : GroupCoordinator) (group topic memberId : Bytes)
    (generationId partition : ℕ) (now : ℤ) :
    coordinator.startedBy group topic
        (.validateCommit group topic memberId generationId partition now) =
      coordinator.startedBy group topic (.expire group topic now) := by
  have hgeneration : (coordinator.validateCommit group topic memberId generationId partition
      now).1.generationOf group topic =
        (coordinator.expire group topic now).1.generationOf group topic := by
    rw [generationOf_eq _ _ _ 0, generationOf_eq _ _ _ 0, groupState_expire, validateCommit,
      onGroup]
    cases hfind : coordinator.groups.find? (groupKey group topic) with
    | none => simp only [groupState, hfind, Option.getD_none]
    | some state =>
        simp only [groupState_setGroup_self]
        split
        · rfl
        · split_ifs <;> rfl
  rw [startedBy, startedBy, if_neg GroupOp.noConfusion, if_neg GroupOp.noConfusion]
  exact congrArg (fun generation ↦ (generation + _) % _) hgeneration

/-- As long as the generation lasts, `validate_commit` accepts from a member that
has synced exactly the partitions it was told. -/
theorem accepts_iff_synced {memberId : Bytes} {generationId partition : ℕ} {now now' : ℤ}
    {result : GroupResult} (h : coordinator.Shared group topic partitionCount)
    (hsync : (coordinator.sync group topic memberId generationId now).2 = .ok result)
    {later : List GroupOp} (hlater : ∀ op ∈ later, op.Within group topic partitionCount)
    (hstarted : (coordinator.sync group topic memberId generationId now).1.generationsStarted
      group topic (later ++ [.validateCommit group topic memberId generationId partition now']) <
        2 ^ 64) :
    let synced := (coordinator.sync group topic memberId generationId now).1
    synced.Accepts later group topic memberId generationId partition now' ↔
      ((synced.applyAll later).expire group topic now').1.generationOf group topic =
          generationId ∧ partition ∈ result.assignment := by
  intro synced
  have hsynced : synced.Shared group topic partitionCount :=
    h.apply (show (GroupOp.sync group topic memberId generationId now).NamesCount group topic
      partitionCount from trivial)
  obtain ⟨hgeneration, hshare⟩ := share_of_sync partitionCount hsync
  -- The state in which the commit is judged evolves from the one behind the sync.
  have hexpire : ∀ op ∈ later ++ [.expire group topic now'],
      op.Within group topic partitionCount := by
    intro op hop
    rcases List.mem_append.mp hop with hop | hop
    · exact hlater op hop
    · rw [List.mem_singleton.mp hop]
      trivial
  have hroom : synced.generationsStarted group topic (later ++ [.expire group topic now']) <
      2 ^ 64 := by
    rw [generationsStarted_append, generationsStarted, startedBy_validateCommit] at hstarted
    rwa [generationsStarted_append, generationsStarted]
  have hevolves := evolvesBy_applyAll hexpire hsynced.count
  have hlast : synced.applyAll (later ++ [.expire group topic now']) =
      ((synced.applyAll later).expire group topic now').1 := applyAll_append _ _ _
  rw [hlast] at hevolves
  rw [Accepts, validateCommit_ok_iff partitionCount, generationOf_eq _ _ _ partitionCount]
  refine and_congr_right fun hcurrent ↦ ?_
  have hshares := shares_eq_of_generation hsynced.assigned hevolves hroom
    (UInt64.toNat_inj.mp (hgeneration.trans hcurrent.symm))
  obtain ⟨member, hmember, hassignment⟩ := exists_member_of_share (hshares ▸ hshare)
  constructor
  · rintro ⟨member', hmember', hpartition⟩
    obtain rfl := Option.some.inj (hmember.symm.trans hmember')
    exact hassignment ▸ hpartition
  · intro hpartition
    exact ⟨member, hmember, hassignment ▸ hpartition⟩

/-- In every state that the operations reach with one partition count, the members
of a group share the partitions evenly, and a successful `sync` names what
`validate_commit` accepts while its generation lasts, as long as fewer than 2^64
generations are started in between. -/
theorem assignments_share_evenly (group topic : Bytes) (partitionCount : UInt16)
    (ops : List GroupOp)
    (hops : ∀ op ∈ ops, op.NamesCount group topic partitionCount.toNat) :
    let coordinator := ({} : GroupCoordinator).applyAll ops
    (∀ state, coordinator.groups.find? (groupKey group topic) = some state →
      state.members.entries ≠ [] → EvenShares partitionCount.toNat state.assignments) ∧
    ∀ memberId generationId now result,
      (coordinator.sync group topic memberId generationId now).2 = .ok result →
      ∀ later : List GroupOp,
        (∀ op ∈ later, op.NamesCount group topic partitionCount.toNat ∧ op ≠ .removeTopic topic) →
        ∀ partition now',
          let synced := (coordinator.sync group topic memberId generationId now).1
          synced.generationsStarted group topic (later ++
              [.validateCommit group topic memberId generationId partition now']) < 2 ^ 64 →
            (synced.Accepts later group topic memberId generationId partition now' ↔
              ((synced.applyAll later).expire group topic now').1.generationOf group topic =
                  generationId ∧ partition ∈ result.assignment) := by
  intro coordinator
  have hshared : coordinator.Shared group topic partitionCount.toNat :=
    (shared_initial group topic partitionCount.toNat).applyAll hops
  refine ⟨fun state hstate hmembers ↦ ?_, fun memberId generationId now result hsync later hlater
    partition now' hstarted ↦ accepts_iff_synced hshared hsync (fun op hop ↦ ?_) hstarted⟩
  · have hcurrent : coordinator.groupState group topic partitionCount.toNat = state := by
      rw [groupState, hstate, Option.getD_some]
    have heven := (hcurrent ▸ hshared.assigned).evenShares hmembers
    rwa [show state.partitionCount = partitionCount.toNat from hcurrent ▸ hshared.count] at heven
  · obtain ⟨hnames, hkept⟩ := hlater op hop
    exact hnames.within hkept

/-- Two members share three partitions. -/
def twoJoins : List GroupOp :=
  [.join [103] [116] [97] 1000 3 0, .join [103] [116] [98] 1000 3 5]

theorem assignments_share_evenly_twoJoins :
    EvenShares 3 [[0, 1], [2]] ∧
      ((({} : GroupCoordinator).applyAll twoJoins).sync [103] [116] [97] 2 10).1.Accepts []
        [103] [116] [97] 2 1 20 := by
  have heven := assignments_share_evenly [103] [116] 3 twoJoins (by decide)
  have hstate : ∃ state, (({} : GroupCoordinator).applyAll twoJoins).groups.find?
      (groupKey [103] [116]) = some state ∧ state.members.entries ≠ [] ∧
        state.assignments = [[0, 1], [2]] := ⟨_, rfl, by decide⟩
  obtain ⟨state, hfind, hmembers, hassignments⟩ := hstate
  refine ⟨hassignments ▸ heven.1 state hfind hmembers, ?_⟩
  let told : GroupResult :=
    { group := [103], topic := [116], memberId := [97], generationId := 2, assignment := [0, 1] }
  exact (heven.2 [97] 2 10 told (by decide) [] (by simp) 1 20 (by decide)).mpr
    (by decide)

/-- A member that is alone syncs, and two more join. -/
def crowded : GroupCoordinator :=
  ((({} : GroupCoordinator).applyAll [.join [103] [116] [97] 1000 2 0]).sync [103] [116] [97] 1
    0).1.applyAll [.join [103] [116] [99] 1000 2 0, .join [103] [116] [100] 1000 2 0]

theorem settled_crowded : Settled (crowded.groupState [103] [116] 2) [98] 4 0 :=
  ⟨by decide, by decide, by decide, by decide, by decide⟩

/-- After the stays the generation has number 1 again, but other members. -/
theorem not_accepts_stays {count : ℕ} (hcount : (3 + 2 * count) % 2 ^ 64 = 1) :
    ((crowded.applyAll (stays [98] 4 0 count)).expire [103] [116] 0).1.generationOf [103]
        [116] = 1 ∧
      ¬ crowded.Accepts (stays [98] 4 0 count) [103] [116] [97] 1 1 0 := by
  have hfind : crowded.groups.find? (groupKey [103] [116]) =
      some (crowded.groupState [103] [116] 2) := by decide
  have hlast := find?_stays settled_crowded (List.cons_ne_nil 98 []) hfind count
  -- Nobody is there to expire.
  have hexpired : ((crowded.groupState [103] [116] 2).expireAndBump 0).1 =
      crowded.groupState [103] [116] 2 := by decide
  have hexpire := groupState_expire (crowded.applyAll (stays [98] 4 0 count)) [103] [116] 2 0
  rw [hlast] at hexpire
  dsimp only at hexpire
  rw [expireAndBump_later, hexpired] at hexpire
  refine ⟨?_, fun haccepts ↦ ?_⟩
  · have hthree : (crowded.groupState [103] [116] 2).generationId = 3 := by decide
    rw [generationOf_eq _ _ _ 2, hexpire, later, hthree, UInt64.toNat_add, UInt64.toNat_ofNat',
      Nat.add_mod_mod]
    exact hcount
  · obtain ⟨-, member, hmember, hpartition⟩ := (validateCommit_ok_iff 2).mp haccepts
    rw [hexpire, members_later] at hmember
    have hfirst : ((crowded.groupState [103] [116] 2).members.find? [97]).map
        MemberState.assignment = some [0] := by decide
    rw [hmember] at hfirst
    rw [Option.some.inj hfirst] at hpartition
    exact absurd hpartition (by decide)

/-- What a member was told in generation 1 is not accepted when the number comes
back. -/
theorem told_share_refused :
    let coordinator := ({} : GroupCoordinator).applyAll [.join [103] [116] [97] 1000 2 0]
    let told : GroupResult :=
      { group := [103], topic := [116], memberId := [97], generationId := 1
        assignment := [0, 1] }
    let later := [.join [103] [116] [99] 1000 2 0, .join [103] [116] [100] 1000 2 0] ++
      stays [98] 4 0 (2 ^ 63 - 1)
    let synced := (coordinator.sync [103] [116] [97] 1 0).1
    (coordinator.sync [103] [116] [97] 1 0).2 = .ok told ∧
      (∀ op ∈ later, op.NamesCount [103] [116] 2 ∧ op ≠ .removeTopic [116]) ∧
      ¬ (synced.Accepts later [103] [116] [97] 1 1 0 ↔
        ((synced.applyAll later).expire [103] [116] 0).1.generationOf [103] [116] = 1 ∧
          1 ∈ told.assignment) := by
  obtain ⟨count, hcount⟩ : ∃ count, 2 ^ 63 - 1 = count := ⟨_, rfl⟩
  rw [hcount]
  intro coordinator told later synced
  obtain ⟨hcurrent, hrefused⟩ := not_accepts_stays (show (3 + 2 * count) % 2 ^ 64 = 1 by omega)
  refine ⟨by decide, fun op hop ↦ ?_, fun h ↦ ?_⟩
  · rcases List.mem_append.mp hop with hop | hop
    · clear * - hop
      revert op
      decide
    · rcases mem_stays hop with rfl | ⟨generationId, rfl⟩
      · exact ⟨fun _ _ ↦ rfl, GroupOp.noConfusion⟩
      · exact ⟨trivial, GroupOp.noConfusion⟩
  · have hlater : synced.applyAll later = crowded.applyAll (stays [98] 4 0 count) :=
      applyAll_append _ _ _
    rw [Accepts, hlater] at h
    exact hrefused (h.mpr ⟨hcurrent, by decide⟩)

end GroupCoordinator

end BoltStream.Broker
