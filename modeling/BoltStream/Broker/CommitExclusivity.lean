import BoltStream.Broker.RequestLocks

/-!
# Offset commits exclude each other

The mutex of a topic is held across the check in the coordinator and the write in
the offset store.  What the coordinator does without that mutex only expires or
removes members.
-/

namespace BoltStream.Broker

open BoltStream.Lib BoltStream.Protocol BoltStream.Storage

/-- A join, a leave or a commit on the topic. -/
def Effect.Conflicts {T : Type*} (topic : Bytes) : Effect T → Prop
  | .joined _ _ topic' _ => topic' = topic
  | .left _ topic' _ => topic' = topic
  | .committed _ _ topic' _ _ => topic' = topic
  | _ => False

namespace RequestState

variable {T : Type*} {s t u : RequestState T}

/-- `validate_commit` has accepted the request, and nothing on its topic has
happened since. -/
def AcceptedLast (s : RequestState T) (thread : T) (request : Request) : Prop :=
  ∃ before after, s.effects = before ++ .accepted thread request.group request.topic
      request.memberId request.generationId request.partition :: after ∧
    ∀ effect ∈ after, ¬ effect.Conflicts request.topic

/-- The group has no member whose session is alive. -/
def NoUnexpiredMember (coordinator : GroupCoordinator) (group topic : Bytes) (now : ℤ) : Prop :=
  ∀ state, coordinator.groups.find? (groupKey group topic) = some state →
    ∀ entry ∈ state.members.entries, entry.2.timedOut now = true

/-! ## What a section does -/

/-- What a section of the coordinator adds to the effects. -/
theorem coordinate_effects (s : RequestState T) {thread : T} {task : Task}
    {topic : Option (TopicState T)} {now : ℤ} {sort : Section} {effects : List (Effect T)}
    (h : (s.coordinate thread task topic now sort).2 = .ok effects) :
    ∀ effect ∈ effects, ∀ name, effect.Conflicts name →
      RequestKind.needsLock sort = true ∧ name = task.request.topic := by
  have hsilent : ∀ {called : Except BrokerError GroupResult} {added : List (Effect T)},
      (called.map fun _ ↦ added) = .ok effects → effects = added := by
    intro called added hcalled
    cases called with
    | error error => cases hcalled
    | ok result => exact (Except.ok.inj hcalled).symm
  have hnil : effects = [] → ∀ effect ∈ effects, ∀ name, effect.Conflicts name →
      RequestKind.needsLock sort = true ∧ name = task.request.topic := by
    rintro rfl effect heffect
    cases heffect
  cases sort with
  | requireNoMembers =>
      simp only [coordinate] at h
      split_ifs at h
      exact hnil (Except.ok.inj h).symm
  | requireNoTopicMembers =>
      simp only [coordinate] at h
      split_ifs at h
      exact hnil (Except.ok.inj h).symm
  | sync => exact hnil (hsilent h)
  | heartbeat => exact hnil (hsilent h)
  | join =>
      obtain rfl := Except.ok.inj h
      rintro effect heffect name hconflict
      rw [List.mem_singleton.mp heffect] at hconflict
      exact ⟨rfl, hconflict.symm⟩
  | leave =>
      obtain rfl := hsilent h
      rintro effect heffect name hconflict
      rw [List.mem_singleton.mp heffect] at hconflict
      exact ⟨rfl, hconflict.symm⟩
  | validateCommit =>
      obtain rfl := hsilent h
      rintro effect heffect name hconflict
      rw [List.mem_singleton.mp heffect] at hconflict
      exact hconflict.elim
  | _ => exact hnil (Except.ok.inj h).symm

/-- The coordinator is called once, and a join is of the request's own group. -/
theorem coordinate_apply (s : RequestState T) (thread : T) (task : Task)
    (topic : Option (TopicState T)) (now : ℤ) (sort : Section) :
    (s.coordinate thread task topic now sort).1 = s.coordinator ∨
      ∃ op, (s.coordinate thread task topic now sort).1 = s.coordinator.apply op ∧
        ∀ group name, op.Joins group name → sort = .join ∧ name = task.request.topic := by
  cases sort with
  | expire =>
      exact Or.inr ⟨.expire task.request.group task.request.topic now, rfl,
        by simp [GroupOp.Joins]⟩
  | requireNoMembers =>
      exact Or.inr ⟨.hasActiveMembers task.request.group task.request.topic now, rfl,
        by simp [GroupOp.Joins]⟩
  | requireNoTopicMembers =>
      exact Or.inr ⟨.topicHasActiveMembers task.request.topic now, rfl, by simp [GroupOp.Joins]⟩
  | countMembers =>
      exact Or.inr ⟨.activeMemberCount task.request.group task.request.topic now, rfl,
        by simp [GroupOp.Joins]⟩
  | join =>
      exact Or.inr ⟨.join task.request.group task.request.topic task.request.memberId
        task.request.sessionTimeoutMs ((topic.map TopicState.partitionCount).getD 0) now, rfl,
        fun group name hjoins ↦ ⟨rfl, hjoins.2.symm⟩⟩
  | sync =>
      exact Or.inr ⟨.sync task.request.group task.request.topic task.request.memberId
        task.request.generationId now, rfl, by simp [GroupOp.Joins]⟩
  | heartbeat =>
      exact Or.inr ⟨.heartbeat task.request.group task.request.topic task.request.memberId
        task.request.generationId now, rfl, by simp [GroupOp.Joins]⟩
  | leave =>
      exact Or.inr ⟨.leave task.request.group task.request.topic task.request.memberId
        task.request.generationId now, rfl, by simp [GroupOp.Joins]⟩
  | validateCommit =>
      exact Or.inr ⟨.validateCommit task.request.group task.request.topic task.request.memberId
        task.request.generationId task.request.partition now, rfl, by simp [GroupOp.Joins]⟩
  | _ => exact Or.inl rfl

/-- What a section does to groups and offsets. -/
structure SectionData (s u : RequestState T) (task : Task) (sort : Section) : Prop where
  effects : ∃ added, u.effects = s.effects ++ added ∧ ∀ effect ∈ added, ∀ name,
    effect.Conflicts name → RequestKind.needsLock sort = true ∧ name = task.request.topic
  coordinator : u.coordinator = s.coordinator ∨ ∃ op, u.coordinator = s.coordinator.apply op ∧
    ∀ group name, op.Joins group name → sort = .join ∧ name = task.request.topic
  offsets : u.offsets = s.offsets ∨ sort = .commit ∨ sort = .removeOffsets

/-- A section that does nothing to groups and offsets. -/
theorem SectionData.of_eq {task : Task} {sort : Section} (heffects : u.effects = s.effects)
    (hcoordinator : u.coordinator = s.coordinator) (hoffsets : u.offsets = s.offsets) :
    s.SectionData u task sort :=
  ⟨⟨[], by rw [heffects, List.append_nil], by simp⟩, Or.inl hcoordinator, Or.inl hoffsets⟩

theorem sectionData {thread : T} {task : Task} {env : SectionEnv} {sort : Section}
    {outcome : Except BrokerError Task}
    (h : s.perform thread task env sort = some (u, outcome)) : s.SectionData u task sort := by
  by_cases hcall : callsCoordinator sort = true
  · rw [perform_call hcall] at h
    obtain ⟨rfl, -⟩ := Prod.mk.inj (Option.some.inj h)
    refine ⟨⟨_, rfl, ?_⟩, coordinate_apply s thread task _ env.now sort, Or.inl rfl⟩
    cases hcalled : (s.coordinate thread task (task.topic.bind s.states) env.now sort).2 with
    | error error => simp [Except.toOption]
    | ok effects => exact coordinate_effects s hcalled
  cases sort with
  | commit =>
      simp only [RequestState.perform] at h
      split at h
      · obtain ⟨rfl, -⟩ := Prod.mk.inj (Option.some.inj h)
        exact ⟨⟨[], by simp, by simp⟩, Or.inl rfl, Or.inr (Or.inl rfl)⟩
      · obtain ⟨rfl, -⟩ := Prod.mk.inj (Option.some.inj h)
        refine ⟨⟨_, rfl, fun effect heffect name hconflict ↦ ?_⟩, Or.inl rfl,
          Or.inr (Or.inl rfl)⟩
        rw [List.mem_singleton.mp heffect] at hconflict
        exact ⟨rfl, hconflict.symm⟩
  | removeFiles =>
      obtain ⟨rfl, -⟩ := Prod.mk.inj (Option.some.inj h)
      exact ⟨⟨_, rfl, by simp [Effect.Conflicts]⟩, Or.inl rfl, Or.inl rfl⟩
  | removeOffsets =>
      obtain ⟨rfl, -⟩ := Prod.mk.inj (Option.some.inj h)
      exact ⟨⟨_, rfl, by simp [Effect.Conflicts]⟩, Or.inl rfl, Or.inr (Or.inr rfl)⟩
  | removeGroups =>
      obtain ⟨rfl, -⟩ := Prod.mk.inj (Option.some.inj h)
      exact ⟨⟨_, rfl, by simp [Effect.Conflicts]⟩,
        Or.inr ⟨.removeTopic task.request.topic, rfl, by simp [GroupOp.Joins]⟩, Or.inl rfl⟩
  | openTopic =>
      rw [RequestState.perform, RequestState.openTopic] at h
      split at h
      · split_ifs at h <;> obtain ⟨rfl, -⟩ := Prod.mk.inj (Option.some.inj h) <;>
          exact SectionData.of_eq rfl rfl rfl
      · obtain ⟨rfl, -⟩ := Prod.mk.inj (Option.some.inj h)
        exact ⟨⟨_, rfl, by simp [Effect.Conflicts]⟩, Or.inl rfl, Or.inl rfl⟩
  | releaseTopic =>
      simp only [RequestState.perform, RequestState.releaseTopic] at h
      split at h
      · obtain ⟨rfl, -⟩ := Prod.mk.inj (Option.some.inj h)
        exact SectionData.of_eq rfl rfl rfl
      · obtain ⟨topic, -, h⟩ := Option.bind_eq_some_iff.mp h
        have hop : ∀ group name, (GroupOp.topicHasActiveMembers task.request.topic env.now).Joins
            group name → Section.releaseTopic = .join ∧ name = task.request.topic := by
          simp [GroupOp.Joins]
        split_ifs at h
        · obtain ⟨rfl, -⟩ := Prod.mk.inj (Option.some.inj h)
          exact ⟨⟨[], by simp, by simp⟩, Or.inr ⟨_, rfl, hop⟩, Or.inl rfl⟩
        · obtain ⟨rfl, -⟩ := Prod.mk.inj (Option.some.inj h)
          exact ⟨⟨[], by simp [RequestState.setTopic], by simp⟩, Or.inr ⟨_, rfl, hop⟩, Or.inl rfl⟩
  | lockTopic =>
      obtain ⟨topic, -, h⟩ := Option.bind_eq_some_iff.mp h
      split_ifs at h <;> obtain ⟨rfl, -⟩ := Prod.mk.inj (Option.some.inj h) <;>
        exact SectionData.of_eq rfl rfl rfl
  | findPartition =>
      obtain ⟨topic, -, hdone⟩ := Option.map_eq_some_iff.mp h
      obtain ⟨rfl, -⟩ := Prod.mk.inj hdone
      exact SectionData.of_eq rfl rfl rfl
  | drain =>
      obtain ⟨topic, -, h⟩ := Option.bind_eq_some_iff.mp h
      split_ifs at h
      obtain ⟨rfl, -⟩ := Prod.mk.inj (Option.some.inj h)
      exact SectionData.of_eq rfl rfl rfl
  | enqueue =>
      obtain ⟨topic, -, h⟩ := Option.bind_eq_some_iff.mp h
      split_ifs at h <;> obtain ⟨rfl, -⟩ := Prod.mk.inj (Option.some.inj h) <;>
        exact SectionData.of_eq rfl rfl rfl
  | validateGroup | validateTopic | validateCount | findTopic | checkRange | readOffsets =>
      obtain ⟨rfl, -⟩ := Prod.mk.inj (Option.some.inj h)
      exact SectionData.of_eq rfl rfl rfl
  | _ => exact absurd rfl hcall

/-! ## The invariant -/

structure Orderly (s : RequestState T) : Prop where
  tracked : s.Tracked
  /-- A legacy commit or a reset behind its check: the group is empty. -/
  fenced : ∀ thread task, s.threads thread = some task →
    task.request.kind.fencedAt task.sections = true →
    s.coordinator.memberIds task.request.group task.request.topic = []
  accepted : ∀ thread task, s.threads thread = some task →
    task.request.kind.acceptedAt task.sections = true → s.AcceptedLast thread task.request

theorem AcceptedLast.append {thread : T} {request : Request} {added : List (Effect T)}
    (h : s.AcceptedLast thread request) (heffects : u.effects = s.effects ++ added)
    (hadded : ∀ effect ∈ added, ¬ effect.Conflicts request.topic) :
    u.AcceptedLast thread request := by
  obtain ⟨before, after, hsplit, hquiet⟩ := h
  refine ⟨before, after ++ added, ?_, fun effect heffect ↦ ?_⟩
  · rw [heffects, hsplit, List.append_assoc, List.cons_append]
  · exact (List.mem_append.mp heffect).elim (hquiet effect) (hadded effect)

theorem memberIds_eq_nil_of_subset {coordinator coordinator' : GroupCoordinator}
    {group topic : Bytes} (h : coordinator.memberIds group topic = [])
    (hsub : coordinator'.memberIds group topic ⊆ coordinator.memberIds group topic) :
    coordinator'.memberIds group topic = [] :=
  List.eq_nil_iff_forall_not_mem.mpr fun id hid ↦ by
    have hmem := hsub hid
    rw [h] at hmem
    cases hmem

variable [DecidableEq T]

omit [DecidableEq T] in
/-- The request that advances does not disturb another one behind its check. -/
theorem Orderly.others (h : s.Orderly) {thread other : T} {env : SectionEnv} {task found : Task}
    {sort : Section} {rest : List Section} {outcome : Except BrokerError Task}
    (hadvances : s.Advances thread env t task sort rest u outcome) (hne : other ≠ thread)
    (hother : s.threads other = some found) :
    (found.request.kind.fencedAt found.sections = true →
      u.coordinator.memberIds found.request.group found.request.topic = []) ∧
    (found.request.kind.acceptedAt found.sections = true →
      u.AcceptedLast other found.request) := by
  obtain ⟨⟨added, heffects, hadded⟩, hcoordinator, -⟩ := sectionData hadvances.perform
  obtain ⟨hsuffix, hlocked⟩ := h.tracked.placed other found hother
  -- Two requests that need the mutex of one topic are the same.
  have hexclusive : found.request.kind.lockedAt found.sections = true →
      RequestKind.needsLock sort = true → task.request.topic ≠ found.request.topic := by
    intro hheld hneeds htopic
    have hlockedTask := h.tracked.locked_of_needsLock hadvances.running hadvances.sections hneeds
    exact hne (h.tracked.consistent.exclusive hadvances.running hother hlockedTask
      (hlocked.trans hheld) htopic).symm
  refine ⟨fun hfenced ↦ ?_, fun haccepted ↦ ?_⟩
  · have hnil := h.fenced other found hother hfenced
    rcases hcoordinator with hsame | ⟨op, happly, hjoins⟩
    · rw [hsame]
      exact hnil
    · rw [happly]
      refine memberIds_eq_nil_of_subset hnil (GroupCoordinator.memberIds_apply fun hjoin ↦ ?_)
      obtain ⟨rfl, htopic⟩ := hjoins _ _ hjoin
      exact hexclusive (RequestKind.lockedAt_of_fencedAt hsuffix hfenced) rfl htopic.symm
  · refine (h.accepted other found hother haccepted).append heffects
      fun effect heffect hconflict ↦ ?_
    obtain ⟨hneeds, htopic⟩ := hadded effect heffect _ hconflict
    exact hexclusive (RequestKind.lockedAt_of_acceptedAt hsuffix haccepted) hneeds htopic.symm

omit [DecidableEq T] in
/-- The request that advances gets behind its own check. -/
theorem Orderly.own (h : s.Orderly) {thread : T} {env : SectionEnv} {task task' : Task}
    {sort : Section} {rest : List Section}
    (hadvances : s.Advances thread env t task sort rest u (.ok task')) (hne : rest ≠ []) :
    (task'.request.kind.fencedAt task'.sections = true →
      u.coordinator.memberIds task'.request.group task'.request.topic = []) ∧
    (task'.request.kind.acceptedAt task'.sections = true →
      u.AcceptedLast thread task'.request) := by
  obtain ⟨hrequest, hrest, -⟩ := hadvances.performed.request task' rfl
  obtain ⟨-, hcoordinator, -⟩ := sectionData hadvances.perform
  have hsuffix := (h.tracked.placed thread task hadvances.running).suffix
  rw [hadvances.sections] at hsuffix
  have hperform := hadvances.perform
  dsimp only at hrequest hrest
  rw [hrequest, hrest]
  refine ⟨fun hfenced ↦ ?_, fun haccepted ↦ ?_⟩
  · rcases RequestKind.fencedAt_cases hsuffix hfenced with rfl | ⟨hbefore, hjoin⟩
    · rw [perform_call rfl] at hperform
      obtain ⟨rfl, houtcome⟩ := Prod.mk.inj (Option.some.inj hperform)
      refine GroupCoordinator.memberIds_eq_nil_of_hasActiveMembers ?_
      by_contra hactive
      rw [Bool.not_eq_false] at hactive
      simp only [coordinate, hactive, if_true] at houtcome
      cases houtcome
    · have hnil := h.fenced thread task hadvances.running (hadvances.sections ▸ hbefore)
      rcases hcoordinator with hsame | ⟨op, happly, hjoins⟩
      · rw [hsame]
        exact hnil
      · rw [happly]
        exact memberIds_eq_nil_of_subset hnil
          (GroupCoordinator.memberIds_apply fun hj ↦ hjoin (hjoins _ _ hj).1)
  · obtain rfl := RequestKind.acceptedAt_cases hsuffix haccepted hne
    rw [perform_call rfl] at hperform
    obtain ⟨rfl, houtcome⟩ := Prod.mk.inj (Option.some.inj hperform)
    simp only [coordinate] at houtcome
    generalize hvalid : (s.coordinator.validateCommit _ _ _ _ _ env.now).2 = validated at houtcome
    cases validated with
    | error error => cases houtcome
    | ok result =>
        refine ⟨s.effects, [], ?_, by simp⟩
        simp only [coordinate, hvalid]
        rfl

theorem Orderly.step (h : s.Orderly) {event : RequestEvent T} (hstep : s.step event = some t) :
    t.Orderly := by
  cases event with
  | start thread request =>
      obtain ⟨-, rfl, htracked⟩ := h.tracked.start hstep
      have hnew : ∀ other found, (s.setTask thread
          (some { request := request, sections := request.kind.sections })).threads other =
            some found → s.threads other = some found ∨
          found.request.kind.fencedAt found.sections = false ∧
            found.request.kind.acceptedAt found.sections = false := by
        intro other found hother
        by_cases hsame : other = thread
        · subst hsame
          simp only [RequestState.setTask, Function.update_self, Option.some.injEq] at hother
          subst hother
          exact Or.inr (RequestKind.sections_tails (fun kind rest ↦ rest = kind.sections →
            kind.fencedAt rest = false ∧ kind.acceptedAt rest = false) (by decide)
            (List.suffix_refl _) rfl)
        · exact Or.inl (by simpa [RequestState.setTask, hsame] using hother)
      refine ⟨htracked, fun other found hother hfenced ↦ ?_, fun other found hother haccepted ↦ ?_⟩
      · rcases hnew other found hother with hother | ⟨hfalse, -⟩
        · exact h.fenced other found hother hfenced
        · rw [hfalse] at hfenced
          cases hfenced
      · rcases hnew other found hother with hother | ⟨-, hfalse⟩
        · exact h.accepted other found hother haccepted
        · rw [hfalse] at haccepted
          cases haccepted
  | advance thread env =>
      obtain ⟨task, sort, rest, u, outcome, hadvances, htracked⟩ := h.tracked.advance hstep
      obtain ⟨hcoordinator, -, heffects, -⟩ := hadvances.sameData
      have hbehind : ∀ other found, t.threads other = some found →
          (found.request.kind.fencedAt found.sections = true →
            u.coordinator.memberIds found.request.group found.request.topic = []) ∧
          (found.request.kind.acceptedAt found.sections = true →
            u.AcceptedLast other found.request) := by
        intro other found hother
        by_cases hsame : other = thread
        · subst hsame
          obtain ⟨rfl, hne⟩ := hadvances.next found hother
          exact h.own hadvances hne
        · rw [hadvances.others other hsame] at hother
          exact h.others hadvances hsame hother
      refine ⟨htracked, fun other found hother hfenced ↦ ?_, fun other found hother haccepted ↦ ?_⟩
      · rw [hcoordinator]
        exact (hbehind other found hother).1 hfenced
      · obtain ⟨before, after, hsplit, hquiet⟩ := (hbehind other found hother).2 haccepted
        exact ⟨before, after, heffects.trans hsplit, hquiet⟩
  | append incarnation job =>
      obtain ⟨topic, pending, -, -, hrun, -, hthreads, hcoordinator, -, htracked⟩ :=
        h.tracked.append hstep
      have heffects : ∃ added, t.effects = s.effects ++ added ∧
          ∀ effect ∈ added, ∀ name, ¬ effect.Conflicts name := by
        rw [hrun, RequestState.runAppend]
        split
        · exact ⟨[], (List.append_nil _).symm, by simp⟩
        · split
          · exact ⟨[], (List.append_nil _).symm, by simp⟩
          · exact ⟨_, rfl, by simp [Effect.Conflicts]⟩
      obtain ⟨added, heffects, hadded⟩ := heffects
      refine ⟨htracked, fun other found hother hfenced ↦ ?_, fun other found hother haccepted ↦ ?_⟩
      · rw [hthreads] at hother
        rw [hcoordinator]
        exact h.fenced other found hother hfenced
      · rw [hthreads] at hother
        exact (h.accepted other found hother haccepted).append heffects fun effect heffect ↦
          hadded effect heffect _

theorem run_orderly {maxTopicPartitions : ℕ} {offsets : OffsetStore}
    {events : List (RequestEvent T)}
    (hrun : run RequestState.step (initial maxTopicPartitions offsets) events = some s) :
    s.Orderly := by
  refine run_invariant (fun _ _ ↦ True) Orderly ?_ (along_of_forall (fun _ _ _ ↦ trivial) _) hrun
    ⟨tracked_initial maxTopicPartitions offsets, fun _ _ htask ↦ by (cases htask),
      fun _ _ htask ↦ by (cases htask)⟩
  rintro s event t - hstep h
  exact h.step hstep

/-! ## Exclusive writes -/

omit [DecidableEq T] in
theorem noUnexpiredMember_of_nil {coordinator : GroupCoordinator} {group topic : Bytes}
    (h : coordinator.memberIds group topic = []) (now : ℤ) :
    NoUnexpiredMember coordinator group topic now := by
  intro state hstate entry hentry
  rw [GroupCoordinator.memberIds_of_find? hstate, SortedMap.keys, List.map_eq_nil_iff] at h
  rw [h] at hentry
  cases hentry

/-- What a step that changes the offset store is: the removal of a topic's offsets
by its deletion, or the write of one request.  A legacy commit or a reset writes when
no member is alive, a coordinated commit when it was accepted and nothing on the
topic has happened since. -/
def ExclusiveWrite (s : RequestState T) (event : RequestEvent T) (t : RequestState T) : Prop :=
  ∃ thread env task sort rest, event = .advance thread env ∧ s.threads thread = some task ∧
    task.sections = sort :: rest ∧
    (sort = .removeOffsets ∧ task.request.kind = .deleteTopic ∨
      sort = .commit ∧
      t.offsets = (s.offsets.commit task.request.group task.request.topic
        task.request.partition task.target env.commitFault).1 ∧
      ((task.request.kind = .commitOffset ∨ task.request.kind = .resetGroupOffset) ∧
          (∀ now, NoUnexpiredMember s.coordinator task.request.group task.request.topic now) ∨
        task.request.kind = .commitGroupOffset ∧ s.AcceptedLast thread task.request))

/-- In every interleaving of requests, the offset store changes by exclusive writes
only. -/
theorem commits_exclusive (maxTopicPartitions : ℕ) (offsets : OffsetStore)
    (events : List (RequestEvent T)) (s : RequestState T)
    (hrun : run RequestState.step (initial maxTopicPartitions offsets) events = some s)
    (event : RequestEvent T) (t : RequestState T) (hstep : s.step event = some t)
    (hwrites : t.offsets ≠ s.offsets) : s.ExclusiveWrite event t := by
  have h := run_orderly hrun
  cases event with
  | start thread request =>
      obtain ⟨-, rfl, -⟩ := h.tracked.start hstep
      exact absurd rfl hwrites
  | append incarnation job =>
      obtain ⟨-, -, -, -, -, -, -, -, hsame, -⟩ := h.tracked.append hstep
      exact absurd hsame hwrites
  | advance thread env =>
      obtain ⟨task, sort, rest, u, outcome, hadvances, -⟩ := h.tracked.advance hstep
      have hoffsets := hadvances.sameData.2.1
      have hsuffix := (h.tracked.placed thread task hadvances.running).suffix
      rw [hadvances.sections] at hsuffix
      refine ⟨thread, env, task, sort, rest, rfl, hadvances.running, hadvances.sections, ?_⟩
      rcases (sectionData hadvances.perform).offsets with hsame | rfl | rfl
      · exact absurd (hoffsets.trans hsame) hwrites
      · have hwritten : u.offsets = (s.offsets.commit task.request.group task.request.topic
            task.request.partition task.target env.commitFault).1 := by
          have hperform := hadvances.perform
          simp only [RequestState.perform] at hperform
          split at hperform <;>
            obtain ⟨rfl, -⟩ := Prod.mk.inj (Option.some.inj hperform) <;> rfl
        refine Or.inr ⟨rfl, hoffsets.trans hwritten, ?_⟩
        rcases RequestKind.commit_place hsuffix with hfenced | ⟨hkind, haccepted⟩
        · refine Or.inl ⟨(of_decide_eq_true hfenced).1, noUnexpiredMember_of_nil
            (h.fenced thread task hadvances.running ?_)⟩
          rw [hadvances.sections]
          exact hfenced
        · refine Or.inr ⟨hkind, h.accepted thread task hadvances.running ?_⟩
          rw [hadvances.sections]
          exact haccepted
      · refine Or.inl ⟨rfl, ?_⟩
        exact RequestKind.sections_tails (fun kind rest ↦ rest.head? = some .removeOffsets →
          kind = .deleteTopic) (by decide) hsuffix rfl

/-- A request of one thread, up to its last section. -/
def requestRun (thread : ℕ) (request : Request) (sections : ℕ) : List (RequestEvent ℕ) :=
  .start thread request :: List.replicate sections (.advance thread { now := 0 })

/-- A topic, a member, and the member's commit up to the write. -/
def coordinatedCommit : List (RequestEvent ℕ) :=
  requestRun 0 { kind := .createTopic, topic := [116], partitionCount := 1 } 3 ++
    requestRun 1 { kind := .joinGroup, topic := [116], group := [103], memberId := [109]
                   sessionTimeoutMs := 1000 } 4 ++
    requestRun 2 { kind := .commitGroupOffset, topic := [116], group := [103]
                   memberId := [109], generationId := 1 } 7

theorem commits_exclusive_coordinated :
    ∃ s t, run RequestState.step (initial 8 {}) coordinatedCommit = some s ∧
      s.step (.advance 2 { now := 0 }) = some t ∧ t.offsets ≠ s.offsets ∧
      s.ExclusiveWrite (.advance 2 { now := 0 }) t := by
  have hwrites : ((run RequestState.step (initial 8 {}) coordinatedCommit).bind fun s ↦
      (s.step (.advance 2 { now := 0 })).map fun t ↦ decide (t.offsets ≠ s.offsets)) =
        some true := by
    decide
  obtain ⟨s, hrun, hwrites⟩ := Option.bind_eq_some_iff.mp hwrites
  obtain ⟨t, hstep, hwrites⟩ := Option.map_eq_some_iff.mp hwrites
  exact ⟨s, t, hrun, hstep, of_decide_eq_true hwrites, commits_exclusive 8 {} coordinatedCommit s
    hrun _ t hstep (of_decide_eq_true hwrites)⟩

end RequestState

end BoltStream.Broker
