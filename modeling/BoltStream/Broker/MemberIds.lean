import BoltStream.Broker.Expiry

/-!
# The ids the broker hands out

A join without an id is given the next one of a counter of 64 bits.  The counter
starts over with each process and is not checked against the members, while a
client may bring any id of its own.  An id it brings before the counter has come
to it is handed out a second time.
-/

namespace BoltStream.Broker

open BoltStream.Lib BoltStream.Protocol

/-- What `next_member_id()` prints for a value of the counter. -/
def printedId (n : ℕ) : Bytes :=
  [109, 101, 109, 98, 101, 114, 45] ++ paddedDecimal 12 n

theorem printedId_injective : Function.Injective printedId := by
  intro m n h
  have hdigits : paddedDecimal 12 m = paddedDecimal 12 n := List.append_cancel_left h
  rw [← decimalValue_paddedDecimal 12 m, hdigits, decimalValue_paddedDecimal]

theorem memberId_recomputeAssignment (state : GroupState) (id : Bytes) :
    (state.recomputeAssignment.members.find? id).map MemberState.memberId =
      (state.members.find? id).map MemberState.memberId := by
  have hcleared : ((state.members.mapValues fun _ member ↦
      { member with assignment := [] }).find? id).map MemberState.memberId =
        (state.members.find? id).map MemberState.memberId := by
    rw [SortedMap.find?_mapValues, Option.map_map]
    rfl
  rw [GroupState.recomputeAssignment]
  split_ifs
  · exact hcleared
  · refine Eq.trans ?_ hcleared
    exact SortedMap.map_find?_mapAccum MemberState.memberId _ (fun _ _ _ ↦ rfl) _ _ _

/-- A new member is entered under its id. -/
theorem memberId_enrol {state : GroupState} {id : Bytes} (h : state.members.find? id = none)
    (sessionTimeoutMs : ℕ) (now : ℤ) :
    ((state.enrol id sessionTimeoutMs now).members.find? id).map MemberState.memberId =
      some id := by
  have hmembers : (state.enrol id sessionTimeoutMs now).members.find? id =
      some { ((({ state with
        members := SortedMap.insert state.members id (MemberState.mk id 0 0 []) }
        : GroupState).bumpGeneration.members.find? id).getD {}) with
          sessionTimeoutMs := sessionTimeoutMs
          lastHeartbeat := now } := by
    rw [GroupState.enrol, h]
    exact SortedMap.find?_insert_self _ _ _
  have hentered : (({ state with
      members := SortedMap.insert state.members id (MemberState.mk id 0 0 []) }
        : GroupState).bumpGeneration.members.find? id).map MemberState.memberId = some id := by
    rw [GroupState.bumpGeneration, memberId_recomputeAssignment]
    exact congrArg _ (SortedMap.find?_insert_self _ _ _)
  obtain ⟨member, hmember, rfl⟩ := Option.map_eq_some_iff.mp hentered
  rw [hmembers, hmember]
  rfl

/-- The operation is a join that asks the broker for an id. -/
def GroupOp.asksForId : GroupOp → Bool
  | .join _ _ memberId _ _ _ => memberId.isEmpty
  | _ => false

namespace GroupCoordinator

variable {coordinator : GroupCoordinator} {group topic : Bytes}

theorem joinedId_nil :
    coordinator.joinedId [] = printedId coordinator.nextMemberId.toNat := rfl

/-- The members of a group whose sessions have not timed out. -/
def presentIds (coordinator : GroupCoordinator) (group topic : Bytes) (now : ℤ) : List Bytes :=
  (coordinator.expire group topic now).1.memberIds group topic

theorem mem_presentIds {id : Bytes} {now : ℤ} :
    id ∈ coordinator.presentIds group topic now ↔
      coordinator.liveVitals group topic id now ≠ none := by
  rw [presentIds, mem_memberIds_iff_vitals, vitals_expire]

theorem presentIds_subset (now : ℤ) :
    coordinator.presentIds group topic now ⊆ coordinator.memberIds group topic := by
  intro id hid
  rw [mem_presentIds, liveVitals] at hid
  rw [mem_memberIds_iff_vitals]
  intro hnone
  rw [hnone] at hid
  exact hid rfl

/-- A join makes a member exactly if no present one has the id. -/
theorem memberJoined_join (id : Bytes) (sessionTimeoutMs partitionCount : ℕ) (now : ℤ) :
    (coordinator.join group topic id sessionTimeoutMs partitionCount now).2.memberJoined = true ↔
      coordinator.joinedId id ∉ coordinator.presentIds group topic now := by
  have hvitals : (((coordinator.joinedGroup group topic partitionCount).expireAndBump now).1.vitals
      (coordinator.joinedId id)) = coordinator.liveVitals group topic
        (coordinator.joinedId id) now := by
    rw [GroupState.vitals_expireAndBump, vitals_joinedGroup]
    rfl
  rw [mem_presentIds, not_not, ← hvitals, GroupState.vitals, Option.map_eq_none_iff]
  exact Option.isNone_iff_eq_none

/-- A new member is told the id it was entered under. -/
theorem memberId_join {id : Bytes} {sessionTimeoutMs partitionCount : ℕ} {now : ℤ}
    (h : (coordinator.join group topic id sessionTimeoutMs partitionCount now).2.memberJoined =
      true) :
    (coordinator.join group topic id sessionTimeoutMs partitionCount now).2.memberId =
      coordinator.joinedId id := by
  have hnone : ((coordinator.joinedGroup group topic partitionCount).expireAndBump
      now).1.members.find? (coordinator.joinedId id) = none := Option.isNone_iff_eq_none.mp h
  exact congrArg (Option.getD · []) (memberId_enrol hnone sessionTimeoutMs now)

/-! ## The counter -/

theorem nextMemberId_onGroup (now : ℤ)
    (body : GroupState → GroupState × Except GroupCoordinatorError GroupResult) :
    (coordinator.onGroup group topic now body).1.nextMemberId = coordinator.nextMemberId := by
  rw [onGroup]
  split <;> rfl

/-- Only a join that asks for an id moves the counter. -/
theorem nextMemberId_apply (coordinator : GroupCoordinator) (op : GroupOp) :
    (coordinator.apply op).nextMemberId =
      coordinator.nextMemberId + if op.asksForId then 1 else 0 := by
  cases op with
  | join group topic memberId sessionTimeoutMs partitionCount now =>
      rw [apply, join_fst]
      cases memberId with
      | nil => rfl
      | cons => exact (UInt64.add_zero _).symm
  | sync => exact (nextMemberId_onGroup _ _).trans (UInt64.add_zero _).symm
  | heartbeat => exact (nextMemberId_onGroup _ _).trans (UInt64.add_zero _).symm
  | leave => exact (nextMemberId_onGroup _ _).trans (UInt64.add_zero _).symm
  | validateCommit => exact (nextMemberId_onGroup _ _).trans (UInt64.add_zero _).symm
  | expire =>
      rw [apply, expire]
      split <;> exact (UInt64.add_zero _).symm
  | hasActiveMembers =>
      rw [apply, hasActiveMembers]
      split <;> exact (UInt64.add_zero _).symm
  | activeMemberCount =>
      rw [apply, activeMemberCount]
      split <;> exact (UInt64.add_zero _).symm
  | topicHasActiveMembers => exact (UInt64.add_zero _).symm
  | removeTopic => exact (UInt64.add_zero _).symm

/-- How many ids the broker hands out in a run. -/
def idsAssigned (ops : List GroupOp) : ℕ := ops.countP GroupOp.asksForId

theorem idsAssigned_append (ops ops' : List GroupOp) :
    idsAssigned (ops ++ ops') = idsAssigned ops + idsAssigned ops' := List.countP_append

theorem nextMemberId_applyAll (coordinator : GroupCoordinator) (ops : List GroupOp) :
    (coordinator.applyAll ops).nextMemberId =
      coordinator.nextMemberId + .ofNat (idsAssigned ops) := by
  induction ops generalizing coordinator with
  | nil => exact (UInt64.add_zero _).symm
  | cons op ops ih =>
      refine (ih (coordinator.apply op)).trans ?_
      rw [nextMemberId_apply, UInt64.add_assoc, idsAssigned, idsAssigned, List.countP_cons,
        Nat.add_comm, UInt64.ofNat_add]
      split_ifs <;> rfl

/-- The counter stands behind the ids that were handed out, until it wraps. -/
theorem toNat_nextMemberId {ops : List GroupOp} (hroom : idsAssigned ops + 1 < 2 ^ 64) :
    (({} : GroupCoordinator).applyAll ops).nextMemberId.toNat = idsAssigned ops + 1 := by
  rw [nextMemberId_applyAll, UInt64.toNat_add, UInt64.toNat_ofNat', Nat.add_mod_mod]
  change (1 + idsAssigned ops) % 2 ^ 64 = _
  omega

/-- No member of any group has an id that the counter has yet to hand out. -/
def CounterAhead (coordinator : GroupCoordinator) : Prop :=
  ∀ group topic n, coordinator.nextMemberId.toNat ≤ n → n < 2 ^ 64 →
    printedId n ∉ coordinator.memberIds group topic

/-- A client brings no id that the counter has yet to hand out. -/
def KeepsAhead (coordinator : GroupCoordinator) : GroupOp → Prop
  | .join _ _ memberId _ _ _ =>
      ∀ n, coordinator.nextMemberId.toNat ≤ n → n < 2 ^ 64 → memberId ≠ printedId n
  | _ => True

/-- After a join the members are those from before and the one that joined. -/
theorem memberIds_join {id memberId : Bytes} {sessionTimeoutMs partitionCount : ℕ} {now : ℤ}
    (h : memberId ∈ (coordinator.join group topic id sessionTimeoutMs
      partitionCount now).1.memberIds
      group topic) :
    memberId = coordinator.joinedId id ∨ memberId ∈ coordinator.memberIds group topic := by
  rw [mem_memberIds_iff_vitals, vitals_join] at h
  split_ifs at h with hid
  · exact Or.inl hid.symm
  · exact Or.inr (presentIds_subset now (mem_presentIds.mpr h))

theorem CounterAhead.apply (h : coordinator.CounterAhead) {op : GroupOp}
    (hop : coordinator.KeepsAhead op)
    (hnext : (coordinator.apply op).nextMemberId.toNat =
      coordinator.nextMemberId.toNat + if op.asksForId then 1 else 0) :
    (coordinator.apply op).CounterAhead := by
  intro group topic n hn hlt hmem
  have hle : coordinator.nextMemberId.toNat ≤ n :=
    (Nat.le_add_right _ _).trans (hnext.symm.trans_le hn)
  by_cases hjoins : op.Joins group topic
  · cases op with
    | join group' topic' memberId sessionTimeoutMs partitionCount now =>
        obtain ⟨rfl, rfl⟩ := hjoins
        rcases memberIds_join hmem with hid | hid
        · cases memberId with
          | nil =>
              -- The counter has moved on from the id it gave.
              have hsame : n = coordinator.nextMemberId.toNat := printedId_injective hid
              rw [hnext, hsame] at hn
              exact absurd hn (Nat.not_succ_le_self _)
          | cons byte bytes => exact hop n hle hlt hid.symm
        · exact h _ _ n hle hlt hid
    | _ => exact hjoins
  · exact h _ _ n hle hlt (memberIds_apply hjoins hmem)

/-- No operation of the run brings an id ahead of the counter. -/
def RunKeepsAhead (ops : List GroupOp) : Prop :=
  ∀ before op after, ops = before ++ op :: after →
    (({} : GroupCoordinator).applyAll before).KeepsAhead op

theorem counterAhead_applyAll {ops : List GroupOp} (h : RunKeepsAhead ops)
    (hroom : idsAssigned ops + 1 < 2 ^ 64) :
    (({} : GroupCoordinator).applyAll ops).CounterAhead := by
  induction ops using List.reverseRecOn with
  | nil => exact fun group topic n _ _ ↦ List.not_mem_nil
  | append_singleton ops op ih =>
      have hbefore : RunKeepsAhead ops := by
        intro before other after hsplit
        exact h before other (after ++ [op]) (by rw [hsplit]; simp)
      have hnext := toNat_nextMemberId hroom
      have hassigned := idsAssigned_append ops [op]
      rw [applyAll_append] at hnext ⊢
      refine (ih hbefore (by omega)).apply (h ops op [] rfl) ?_
      rw [toNat_nextMemberId (by omega)]
      refine hnext.trans ?_
      rw [hassigned, idsAssigned, idsAssigned, List.countP_singleton]
      omega

/-! ## Fresh ids -/

/-- Every join that asks for an id makes a new member, under an id that no present
member of the group has and that no join before it was given. -/
def FreshIds (ops : List GroupOp) : Prop :=
  ∀ before group topic sessionTimeoutMs partitionCount now after,
    ops = before ++ .join group topic [] sessionTimeoutMs partitionCount now :: after →
      let coordinator := ({} : GroupCoordinator).applyAll before
      let joined := coordinator.join group topic [] sessionTimeoutMs partitionCount now
      joined.2.memberJoined = true ∧
        joined.2.memberId ∉ coordinator.presentIds group topic now ∧
        joined.2.memberId ∈ joined.1.memberIds group topic ∧
        ∀ earlier group' topic' sessionTimeoutMs' partitionCount' now' between,
          before = earlier ++
              .join group' topic' [] sessionTimeoutMs' partitionCount' now' :: between →
            ((({} : GroupCoordinator).applyAll earlier).join group' topic' [] sessionTimeoutMs'
              partitionCount' now').2.memberId ≠ joined.2.memberId

theorem memberJoined_of_counterAhead (h : coordinator.CounterAhead) (group topic : Bytes)
    (sessionTimeoutMs partitionCount : ℕ) (now : ℤ) :
    (coordinator.join group topic [] sessionTimeoutMs partitionCount now).2.memberJoined = true :=
  (memberJoined_join [] sessionTimeoutMs partitionCount now).mpr fun hmem ↦
    h group topic _ le_rfl coordinator.nextMemberId.toNat_lt (presentIds_subset now hmem)

/-- As long as clients bring no id that the counter has yet to hand out and fewer than
2^64 ids are handed out, the ids that the broker assigns are fresh. -/
theorem assigned_ids_fresh (ops : List GroupOp) (hahead : RunKeepsAhead ops)
    (hassigned : idsAssigned ops < 2 ^ 64) : FreshIds ops := by
  intro before group topic sessionTimeoutMs partitionCount now after hsplit coordinator joined
  have hfront : ∀ front op back, before = front ++ op :: back → RunKeepsAhead front := by
    intro front op back hbefore other step rest hrest
    exact hahead other step (rest ++ op :: back ++
      .join group topic [] sessionTimeoutMs partitionCount now :: after)
        (by rw [hsplit, hbefore, hrest]; simp)
  have hbefore : RunKeepsAhead before := by
    intro other step rest hrest
    exact hahead other step (rest ++
      .join group topic [] sessionTimeoutMs partitionCount now :: after)
        (by rw [hsplit, hrest]; simp)
  have hroom : idsAssigned before + 1 < 2 ^ 64 := by
    rw [hsplit, idsAssigned_append, idsAssigned, idsAssigned, List.countP_cons_of_pos rfl]
      at hassigned
    rw [idsAssigned]
    omega
  have hcounter : coordinator.CounterAhead := counterAhead_applyAll hbefore hroom
  have hjoined : joined.2.memberJoined = true :=
    memberJoined_of_counterAhead hcounter group topic sessionTimeoutMs partitionCount now
  have hid : joined.2.memberId = printedId coordinator.nextMemberId.toNat := memberId_join hjoined
  refine ⟨hjoined, ?_, ?_, ?_⟩
  · rw [hid]
    exact (memberJoined_join [] sessionTimeoutMs partitionCount now).mp hjoined
  · rw [hid, mem_memberIds_iff_vitals, vitals_join, joinedId_nil, if_pos rfl]
    exact Option.some_ne_none _
  · intro earlier group' topic' sessionTimeoutMs' partitionCount' now' between hearlier heq
    have hcount : idsAssigned earlier + 1 ≤ idsAssigned before := by
      rw [hearlier, idsAssigned_append, idsAssigned, idsAssigned, List.countP_cons_of_pos rfl]
      omega
    have hother : (({} : GroupCoordinator).applyAll earlier).CounterAhead :=
      counterAhead_applyAll (hfront earlier _ between hearlier) (by omega)
    rw [memberId_join (memberJoined_of_counterAhead hother group' topic' sessionTimeoutMs'
      partitionCount' now'), hid, joinedId_nil] at heq
    have hsame := printedId_injective heq
    rw [toNat_nextMemberId (by omega), toNat_nextMemberId hroom] at hsame
    omega

/-- Joins of another group leave the member alone. -/
theorem vitals_applyAll_replicate {group' : Bytes} (hgroup : group' ≠ group)
    (topic memberId : Bytes) (coordinator : GroupCoordinator) (count : ℕ) :
    (coordinator.applyAll (List.replicate count (.join group' topic [] 1 1 0))).vitals group topic
      memberId = coordinator.vitals group topic memberId := by
  induction count generalizing coordinator with
  | zero => rfl
  | succ count ih =>
      have hoff : ¬ (GroupOp.join group' topic [] 1 1 0).On group topic := fun h ↦ hgroup h.1
      exact (ih (coordinator.apply (.join group' topic [] 1 1 0))).trans
        (vitals_apply_off coordinator memberId hoff (by simp) none).1

/-- The condition leaves out no run that is safe however it goes on: after a join with
an id ahead of the counter the same id can be handed out. -/
theorem exists_not_freshIds (before : List GroupOp) (group topic : Bytes)
    (sessionTimeoutMs partitionCount : ℕ) (now : ℤ) (hpositive : 0 < sessionTimeoutMs) (n : ℕ)
    (hn : (({} : GroupCoordinator).applyAll before).nextMemberId.toNat ≤ n) (hlt : n < 2 ^ 64) :
    ∃ after, ¬ FreshIds (before ++
      .join group topic (printedId n) sessionTimeoutMs partitionCount now :: after) := by
  set coordinator := ({} : GroupCoordinator).applyAll before with hcoordinator
  set joining := GroupOp.join group topic (printedId n) sessionTimeoutMs partitionCount now
    with hjoining
  set others := List.replicate (n - coordinator.nextMemberId.toNat)
    (GroupOp.join (0 :: group) topic [] 1 1 0) with hothers
  refine ⟨others ++ [.join group topic [] sessionTimeoutMs partitionCount now], fun h ↦ ?_⟩
  have hjoined := (h (before ++ joining :: others) group topic sessionTimeoutMs
    partitionCount now []
    (by simp)).1
  have hlater : ({} : GroupCoordinator).applyAll (before ++ joining :: others) =
      (coordinator.apply joining).applyAll others := by
    simp only [applyAll, List.foldl_append, List.foldl_cons, hcoordinator]
  have hid : coordinator.joinedId (printedId n) = printedId n := rfl
  have hvitals := vitals_applyAll_replicate (List.cons_ne_self 0 group) topic (printedId n)
    (coordinator.apply joining) (n - coordinator.nextMemberId.toNat)
  rw [← hothers] at hvitals
  have hnext : ((coordinator.apply joining).applyAll others).nextMemberId.toNat = n := by
    have hcount : idsAssigned others = n - coordinator.nextMemberId.toNat := by
      rw [idsAssigned, hothers, List.countP_replicate]
      rfl
    have hkept : (coordinator.apply joining).nextMemberId = coordinator.nextMemberId :=
      (nextMemberId_apply coordinator joining).trans (UInt64.add_zero _)
    rw [nextMemberId_applyAll, hcount, hkept, UInt64.toNat_add, UInt64.toNat_ofNat']
    omega
  rw [hjoining, apply, vitals_join, if_pos hid] at hvitals
  rw [hlater, memberJoined_join, mem_presentIds, joinedId_nil, hnext, liveVitals, hjoining, apply,
    hvitals] at hjoined
  refine hjoined ?_
  have hlive : (⟨sessionTimeoutMs, now⟩ : Sighting).live now = true := by
    simp [Sighting.live, hpositive]
  rw [Option.filter_some, if_pos hlive]
  exact Option.some_ne_none _

/-- A consumer that comes back with the id it had, and one that asks for an id. -/
def rejoinedMember : List GroupOp :=
  [.join [103] [116] (printedId 1) 1000 2 0, .join [103] [116] [] 1000 2 1]

theorem assigned_ids_fresh_twoJoins :
    FreshIds [.join [103] [116] [97] 1000 2 0, .join [103] [116] [] 1000 2 1] := by
  refine assigned_ids_fresh _ (fun before op after hsplit ↦ ?_) (by decide)
  rcases before with _ | ⟨first, _ | ⟨second, before⟩⟩
  · obtain ⟨rfl, -⟩ := List.cons.inj hsplit
    exact fun n _ _ h ↦ by simp [printedId] at h
  · obtain ⟨-, hrest⟩ := List.cons.inj hsplit
    obtain ⟨rfl, -⟩ := List.cons.inj hrest
    exact fun n _ _ h ↦ by simp [printedId] at h
  · exact absurd (congrArg List.length hsplit) (by simp)

/-- The second is entered as the first. -/
theorem not_freshIds_rejoinedMember : ¬ FreshIds rejoinedMember := by
  intro h
  have hjoined := (h [.join [103] [116] (printedId 1) 1000 2 0] [103] [116] 1000 2 1 [] rfl).1
  revert hjoined
  decide

end GroupCoordinator

end BoltStream.Broker
