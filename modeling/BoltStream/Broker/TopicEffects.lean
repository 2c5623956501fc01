import BoltStream.Broker.CommitExclusivity
import BoltStream.Broker.MemberIds
import BoltStream.Storage.OffsetRemoval

/-!
# What a topic has got

Records, offsets and members come in through one topic state; the removals of a
deletion go by the name of the topic.  This says for each section what it adds to the
effects, and what it leaves of topics, files and groups.
-/

namespace BoltStream.Broker

open BoltStream.Lib BoltStream.Protocol BoltStream.Storage

namespace GroupCoordinator

variable {coordinator : GroupCoordinator} {group topic : Bytes}

/-- A topic without active members has no members at all. -/
theorem memberIds_eq_nil_of_topicHasActiveMembers {now : ℤ}
    (h : (coordinator.topicHasActiveMembers topic now).2 = false) (group : Bytes) :
    (coordinator.topicHasActiveMembers topic now).1.memberIds group topic = [] := by
  rw [memberIds]
  cases hfind : (coordinator.topicHasActiveMembers topic now).1.groups.find?
      (groupKey group topic) with
  | none => rfl
  | some state =>
      have hnone := List.any_eq_false.mp h _ (SortedMap.mem_of_find? hfind)
      have hempty : state.members.entries = [] := by simpa [groupKey] using hnone
      rw [Option.map_some, Option.getD_some, SortedMap.keys, hempty, List.map_nil]

/-- A join enters at most the id that it answers. -/
theorem mem_memberIds_join {memberId id : Bytes} {sessionTimeoutMs partitionCount : ℕ} {now : ℤ}
    (h : id ∈ (coordinator.join group topic memberId sessionTimeoutMs partitionCount
      now).1.memberIds group topic) :
    id ∈ coordinator.memberIds group topic ∨
      id = (coordinator.join group topic memberId sessionTimeoutMs partitionCount
        now).2.memberId := by
  rcases memberIds_join h with rfl | hid
  · by_cases hjoined : (coordinator.join group topic memberId sessionTimeoutMs partitionCount
        now).2.memberJoined = true
    · exact Or.inr (memberId_join hjoined).symm
    · rw [memberJoined_join, not_not] at hjoined
      exact Or.inl (presentIds_subset now hjoined)
  · exact Or.inl hid

end GroupCoordinator

/-! ## Effects -/

namespace Effect

variable {T : Type*}

/-- It was done through the topic state, or made it. -/
def Of (incarnation : ℕ) : Effect T → Prop
  | .created i _ => i = incarnation
  | .joined i _ _ _ => i = incarnation
  | .committed i _ _ _ _ => i = incarnation
  | .acknowledged i _ _ => i = incarnation
  | _ => False

/-- The topic state that a later removal takes this from. -/
def source : Section → Effect T → Option ℕ
  | .removeFiles, .created i _ => some i
  | .removeOffsets, .committed i _ _ _ _ => some i
  | .removeGroups, .joined i _ _ _ => some i
  | _, _ => none

/-- A removal takes it from the topic state if it comes later. -/
def TakenBy (incarnation : ℕ) (sort : Section) (effect : Effect T) : Prop :=
  effect.source sort = some incarnation

instance decidableTakenBy (incarnation : ℕ) (sort : Section) (effect : Effect T) :
    Decidable (effect.TakenBy incarnation sort) :=
  inferInstanceAs (Decidable (effect.source sort = some incarnation))

/-- The removal of a deletion by this name. -/
def Removes (topic : Bytes) : Section → Effect T → Prop
  | .removeFiles, .filesRemoved _ name => name = topic
  | .removeOffsets, .offsetsRemoved _ name => name = topic
  | .removeGroups, .groupsRemoved _ name => name = topic
  | _, _ => False

def recordOn (incarnation partition : ℕ) : Effect T → Option ProduceRequest
  | .acknowledged i k request =>
      if i = incarnation ∧ k = partition then some request else none
  | _ => none

def offsetThrough (incarnation : ℕ) (group topic : Bytes) (partition : ℕ) :
    Effect T → Option ℕ
  | .committed i g name k offset =>
      if i = incarnation ∧ g = group ∧ name = topic ∧ k = partition then some offset else none
  | _ => none

/-- What a section adds to the effects. -/
def AddedBy (created : ℕ) (task : Task) : Section → Effect T → Prop
  | .openTopic, effect => effect = .created created task.request.topic
  | .join, effect => ∃ id,
      effect = .joined (task.topic.getD 0) task.request.group task.request.topic id
  | .leave, effect => effect = .left task.request.group task.request.topic task.request.memberId
  | .validateCommit, effect => ∃ thread, effect = .accepted thread task.request.group
      task.request.topic task.request.memberId task.request.generationId task.request.partition
  | .commit, effect => effect = .committed (task.topic.getD 0) task.request.group
      task.request.topic task.request.partition task.target
  | .removeFiles, effect => effect = .filesRemoved (task.topic.getD 0) task.request.topic
  | .removeOffsets, effect => effect = .offsetsRemoved (task.topic.getD 0) task.request.topic
  | .removeGroups, effect => effect = .groupsRemoved (task.topic.getD 0) task.request.topic
  | _, _ => False

variable {created incarnation partition : ℕ} {task : Task} {sort : Section} {effect : Effect T}
  {group topic : Bytes}

theorem TakenBy.of (h : effect.TakenBy incarnation sort) : effect.Of incarnation := by
  cases effect <;> cases sort <;> first | exact Option.some.inj h | cases h

theorem recordOn_eq_none (h : ¬effect.Of incarnation) :
    effect.recordOn incarnation partition = none := by
  cases effect with
  | acknowledged i k request => exact if_neg fun heq ↦ h heq.1
  | _ => rfl

theorem offsetThrough_eq_none (h : ¬effect.TakenBy incarnation .removeOffsets) :
    effect.offsetThrough incarnation group topic partition = none := by
  cases effect with
  | committed i g name k offset => exact if_neg fun heq ↦ h (congrArg some heq.1)
  | _ => rfl

/-- No section acknowledges a record. -/
theorem AddedBy.recordOn (h : effect.AddedBy created task sort) :
    effect.recordOn incarnation partition = none := by
  cases effect with
  | acknowledged i k request => cases sort <;> simp [AddedBy] at h
  | _ => rfl

theorem AddedBy.offsetThrough (h : effect.AddedBy created task sort) (hsort : sort ≠ .commit) :
    effect.offsetThrough incarnation group topic partition = none := by
  cases effect with
  | committed i g name k offset => cases sort <;> simp [AddedBy] at h hsort
  | _ => rfl

/-- What a section adds is about the topic state it works on, or about a new one. -/
theorem AddedBy.of (h : effect.AddedBy created task sort) (hof : effect.Of incarnation) :
    sort = .openTopic ∧ incarnation = created ∨
      RequestKind.needsLock sort = true ∧ incarnation = task.topic.getD 0 := by
  cases sort with
  | openTopic =>
      obtain rfl := h
      exact Or.inl ⟨rfl, hof.symm⟩
  | join =>
      obtain ⟨id, rfl⟩ := h
      exact Or.inr ⟨rfl, hof.symm⟩
  | commit =>
      obtain rfl := h
      exact Or.inr ⟨rfl, hof.symm⟩
  | validateCommit =>
      obtain ⟨thread, rfl⟩ := h
      exact hof.elim
  | leave | removeFiles | removeOffsets | removeGroups =>
      obtain rfl := h
      exact hof.elim
  | _ => exact h.elim

theorem AddedBy.removes (h : effect.AddedBy created task sort) {sort' : Section}
    (hremoves : effect.Removes topic sort') : sort' = sort ∧ topic = task.request.topic := by
  cases sort with
  | join =>
      obtain ⟨id, rfl⟩ := h
      cases sort' <;> exact hremoves.elim
  | validateCommit =>
      obtain ⟨thread, rfl⟩ := h
      cases sort' <;> exact hremoves.elim
  | removeFiles | removeOffsets | removeGroups =>
      obtain rfl := h
      cases sort' <;> first | exact ⟨rfl, hremoves.symm⟩ | exact hremoves.elim
  | openTopic | leave | commit =>
      obtain rfl := h
      cases sort' <;> exact hremoves.elim
  | _ => exact h.elim

end Effect

namespace RequestState

variable {T : Type*} {s t u : RequestState T}

/-- A section adds one effect at most. -/
theorem coordinate_addedBy (s : RequestState T) {thread : T} {task : Task}
    {topic : Option (TopicState T)} {now : ℤ} {sort : Section} {effects : List (Effect T)}
    (h : (s.coordinate thread task topic now sort).2 = .ok effects) :
    ∃ added : Option (Effect T), effects = added.toList ∧
      ∀ effect ∈ added, effect.AddedBy s.created task sort := by
  have hmap : ∀ {called : Except BrokerError GroupResult} {added : List (Effect T)},
      (called.map fun _ ↦ added) = .ok effects → effects = added := by
    intro called added hcalled
    cases called with
    | error error => cases hcalled
    | ok result => exact (Except.ok.inj hcalled).symm
  have hnone : effects = [] → ∃ added : Option (Effect T), effects = added.toList ∧
      ∀ effect ∈ added, effect.AddedBy s.created task sort :=
    fun heffects ↦ ⟨none, heffects, by simp⟩
  cases sort with
  | requireNoMembers | requireNoTopicMembers =>
      simp only [coordinate] at h
      split_ifs at h
      exact hnone (Except.ok.inj h).symm
  | sync | heartbeat => exact hnone (hmap h)
  | join => exact ⟨some _, (Except.ok.inj h).symm, fun _ heffect ↦
      Option.mem_some_iff.mp heffect ▸ ⟨_, rfl⟩⟩
  | leave => exact ⟨some _, hmap h, fun _ heffect ↦ (Option.mem_some_iff.mp heffect).symm⟩
  | validateCommit => exact ⟨some _, hmap h, fun _ heffect ↦
      Option.mem_some_iff.mp heffect ▸ ⟨thread, rfl⟩⟩
  | _ => exact hnone (Except.ok.inj h).symm

theorem perform_effects {thread : T} {task : Task} {env : SectionEnv} {sort : Section}
    {outcome : Except BrokerError Task}
    (h : s.perform thread task env sort = some (u, outcome)) :
    ∃ added : Option (Effect T), u.effects = s.effects ++ added.toList ∧
      ∀ effect ∈ added, effect.AddedBy s.created task sort := by
  have hnone : ∀ {v : RequestState T}, v.effects = s.effects →
      ∃ added : Option (Effect T), v.effects = s.effects ++ added.toList ∧
        ∀ effect ∈ added, effect.AddedBy s.created task sort :=
    fun heffects ↦ ⟨none, by simpa using heffects, by simp⟩
  have hsome : ∀ {v : RequestState T} (effect : Effect T), v.effects = s.effects ++ [effect] →
      effect.AddedBy s.created task sort →
      ∃ added : Option (Effect T), v.effects = s.effects ++ added.toList ∧
        ∀ effect ∈ added, effect.AddedBy s.created task sort :=
    fun effect heffects hadded ↦ ⟨some effect, heffects, fun _ hmem ↦
      Option.mem_some_iff.mp hmem ▸ hadded⟩
  by_cases hcall : callsCoordinator sort = true
  · rw [perform_call hcall] at h
    obtain ⟨rfl, -⟩ := Prod.mk.inj (Option.some.inj h)
    cases hcalled : (s.coordinate thread task (task.topic.bind s.states) env.now sort).2 with
    | error error => exact hnone (by simp [Except.toOption])
    | ok effects =>
        obtain ⟨added, rfl, hadded⟩ := coordinate_addedBy s hcalled
        exact ⟨added, rfl, hadded⟩
  cases sort with
  | commit =>
      simp only [RequestState.perform] at h
      split at h <;> obtain ⟨rfl, -⟩ := Prod.mk.inj (Option.some.inj h)
      · exact hnone rfl
      · exact hsome _ rfl rfl
  | removeFiles | removeOffsets | removeGroups =>
      obtain ⟨rfl, -⟩ := Prod.mk.inj (Option.some.inj h)
      exact hsome _ rfl rfl
  | openTopic =>
      rw [RequestState.perform, RequestState.openTopic] at h
      split at h
      · split_ifs at h <;> obtain ⟨rfl, -⟩ := Prod.mk.inj (Option.some.inj h) <;> exact hnone rfl
      · obtain ⟨rfl, -⟩ := Prod.mk.inj (Option.some.inj h)
        exact hsome _ rfl rfl
  | releaseTopic =>
      simp only [RequestState.perform, RequestState.releaseTopic] at h
      split at h
      · obtain ⟨rfl, -⟩ := Prod.mk.inj (Option.some.inj h)
        exact hnone rfl
      · obtain ⟨topic, -, h⟩ := Option.bind_eq_some_iff.mp h
        split_ifs at h <;> obtain ⟨rfl, -⟩ := Prod.mk.inj (Option.some.inj h) <;> exact hnone rfl
  | lockTopic | drain | enqueue =>
      obtain ⟨topic, -, h⟩ := Option.bind_eq_some_iff.mp h
      split_ifs at h <;> obtain ⟨rfl, -⟩ := Prod.mk.inj (Option.some.inj h) <;> exact hnone rfl
  | findPartition =>
      obtain ⟨topic, -, hdone⟩ := Option.map_eq_some_iff.mp h
      obtain ⟨rfl, -⟩ := Prod.mk.inj hdone
      exact hnone rfl
  | validateGroup | validateTopic | validateCount | findTopic | checkRange | readOffsets =>
      obtain ⟨rfl, -⟩ := Prod.mk.inj (Option.some.inj h)
      exact hnone rfl
  | _ => exact absurd rfl hcall

/-! ## Topics and files -/

/-- `create_topic` has made the topic. -/
structure Opens (s u : RequestState T) (name : Bytes) (partitionCount : ℕ) : Prop where
  missing : s.topics name = none
  topics : u.topics = Function.update s.topics name (some s.created)
  states : u.states = Function.update s.states s.created
    (some { name := name, partitionCount := partitionCount })
  created : u.created = s.created + 1
  files : u.files = Function.update s.files name
    (some (openPartitions (s.files name) partitionCount))
  effects : u.effects = s.effects ++ [.created s.created name]

theorem perform_openTopic {thread : T} {task : Task} {env : SectionEnv}
    {outcome : Except BrokerError Task}
    (h : s.perform thread task env .openTopic = some (u, outcome)) :
    u = s ∨ s.Opens u task.request.topic task.request.partitionCount := by
  rw [RequestState.perform, RequestState.openTopic] at h
  split at h
  · split_ifs at h <;> exact Or.inl (Prod.mk.inj (Option.some.inj h)).1.symm
  · next hmissing =>
      obtain ⟨rfl, -⟩ := Prod.mk.inj (Option.some.inj h)
      exact Or.inr ⟨hmissing, rfl, rfl, rfl, rfl, rfl⟩

/-- `delete_topic` has given up the name. -/
structure Releases (s u : RequestState T) (name : Bytes) (incarnation : ℕ) : Prop where
  found : s.topics name = some incarnation
  topics : u.topics = Function.update s.topics name none
  states : ∃ topic, s.states incarnation = some topic ∧
    u.states = Function.update s.states incarnation (some { topic with deleting := true })
  members : ∀ group, u.coordinator.memberIds group name = []

theorem perform_releaseTopic {thread : T} {task : Task} {env : SectionEnv}
    {outcome : Except BrokerError Task}
    (h : s.perform thread task env .releaseTopic = some (u, outcome)) :
    u.topics = s.topics ∧ u.states = s.states ∧ (∃ error, outcome = .error error) ∨
      ∃ incarnation, s.Releases u task.request.topic incarnation ∧
        outcome = .ok { task with topic := some incarnation } := by
  simp only [RequestState.perform, RequestState.releaseTopic] at h
  split at h
  · obtain ⟨rfl, rfl⟩ := Prod.mk.inj (Option.some.inj h)
    exact Or.inl ⟨rfl, rfl, _, rfl⟩
  · next incarnation hfound =>
      obtain ⟨topic, hstate, h⟩ := Option.bind_eq_some_iff.mp h
      split_ifs at h with hheld hactive
      · obtain ⟨rfl, rfl⟩ := Prod.mk.inj (Option.some.inj h)
        exact Or.inl ⟨rfl, rfl, _, rfl⟩
      · obtain ⟨rfl, rfl⟩ := Prod.mk.inj (Option.some.inj h)
        refine Or.inr ⟨incarnation, ⟨hfound, rfl, ⟨topic, hstate, rfl⟩, fun group ↦ ?_⟩, rfl⟩
        exact GroupCoordinator.memberIds_eq_nil_of_topicHasActiveMembers
          (Bool.eq_false_of_not_eq_true hactive) group

/-- What a section leaves of topics and files. -/
structure Leaves (s u : RequestState T) (task : Task) (sort : Section) : Prop where
  topics : sort ≠ .openTopic → sort ≠ .releaseTopic → u.topics = s.topics
  created : sort ≠ .openTopic → u.created = s.created
  files : sort ≠ .openTopic → sort ≠ .removeFiles → u.files = s.files
  counts : sort ≠ .openTopic → ∀ incarnation,
    (u.states incarnation).map TopicState.partitionCount =
      (s.states incarnation).map TopicState.partitionCount
  pending : sort ≠ .openTopic → sort ≠ .releaseTopic → ∀ incarnation topic',
    u.states incarnation = some topic' → ∃ topic, s.states incarnation = some topic ∧
      topic'.name = topic.name ∧ topic'.deleting = topic.deleting ∧
      (topic'.pending = topic.pending ∨ sort = .enqueue ∧ incarnation = task.topic.getD 0)

theorem Leaves.of_eq {task : Task} {sort : Section} (htopics : u.topics = s.topics)
    (hcreated : u.created = s.created) (hfiles : u.files = s.files)
    (hstates : u.states = s.states) : s.Leaves u task sort :=
  ⟨fun _ _ ↦ htopics, fun _ ↦ hcreated, fun _ _ ↦ hfiles, fun _ _ ↦ by rw [hstates],
    fun _ _ _ topic' htopic' ↦ ⟨topic', hstates ▸ htopic', rfl, rfl, Or.inl rfl⟩⟩

/-- A topic state has another holder or more append jobs. -/
theorem Leaves.setTopic {task : Task} {sort : Section} {topic topic' : TopicState T}
    (hstate : task.topic.bind s.states = some topic) (hname : topic'.name = topic.name)
    (hcount : topic'.partitionCount = topic.partitionCount)
    (hdeleting : topic'.deleting = topic.deleting)
    (hpending : topic'.pending = topic.pending ∨ sort = .enqueue) :
    s.Leaves (s.setTopic (task.topic.getD 0) topic') task sort := by
  obtain ⟨i, hi, hstate⟩ := Option.bind_eq_some_iff.mp hstate
  rw [hi, Option.getD_some]
  refine ⟨fun _ _ ↦ rfl, fun _ ↦ rfl, fun _ _ ↦ rfl, fun _ j ↦ ?_, fun _ _ j found hfound ↦ ?_⟩
  · by_cases hj : j = i
    · subst hj
      simp [RequestState.setTopic, hstate, hcount]
    · simp [RequestState.setTopic, hj]
  · by_cases hj : j = i
    · subst hj
      simp only [RequestState.setTopic, Function.update_self, Option.some.injEq] at hfound
      subst hfound
      exact ⟨topic, hstate, hname, hdeleting,
        hpending.imp_right fun hsort ↦ ⟨hsort, by rw [hi, Option.getD_some]⟩⟩
    · exact ⟨found, by simpa [RequestState.setTopic, hj] using hfound, rfl, rfl, Or.inl rfl⟩

theorem perform_leaves {thread : T} {task : Task} {env : SectionEnv} {sort : Section}
    {outcome : Except BrokerError Task}
    (h : s.perform thread task env sort = some (u, outcome)) : s.Leaves u task sort := by
  by_cases hcall : callsCoordinator sort = true
  · rw [perform_call hcall] at h
    obtain ⟨rfl, -⟩ := Prod.mk.inj (Option.some.inj h)
    exact Leaves.of_eq rfl rfl rfl rfl
  cases sort with
  | openTopic => constructor <;> intro hsort <;> exact absurd rfl hsort
  | removeFiles =>
      obtain ⟨rfl, -⟩ := Prod.mk.inj (Option.some.inj h)
      exact ⟨fun _ _ ↦ rfl, fun _ ↦ rfl, fun _ hsort ↦ absurd rfl hsort, fun _ _ ↦ rfl,
        fun _ _ _ topic' htopic' ↦ ⟨topic', htopic', rfl, rfl, Or.inl rfl⟩⟩
  | releaseTopic =>
      simp only [RequestState.perform, RequestState.releaseTopic] at h
      split at h
      · obtain ⟨rfl, -⟩ := Prod.mk.inj (Option.some.inj h)
        exact Leaves.of_eq rfl rfl rfl rfl
      · next incarnation hfound =>
          obtain ⟨topic, hstate, h⟩ := Option.bind_eq_some_iff.mp h
          split_ifs at h
          · obtain ⟨rfl, -⟩ := Prod.mk.inj (Option.some.inj h)
            exact Leaves.of_eq rfl rfl rfl rfl
          · obtain ⟨rfl, -⟩ := Prod.mk.inj (Option.some.inj h)
            refine ⟨fun _ hsort ↦ absurd rfl hsort, fun _ ↦ rfl, fun _ _ ↦ rfl, fun _ i ↦ ?_,
              fun _ hsort ↦ absurd rfl hsort⟩
            by_cases hi : i = incarnation
            · subst hi
              simp [RequestState.setTopic, hstate]
            · simp [RequestState.setTopic, hi]
  | lockTopic =>
      obtain ⟨topic, hstate, h⟩ := Option.bind_eq_some_iff.mp h
      split_ifs at h <;> obtain ⟨rfl, -⟩ := Prod.mk.inj (Option.some.inj h)
      · exact Leaves.of_eq rfl rfl rfl rfl
      · exact Leaves.setTopic hstate rfl rfl rfl (Or.inl rfl)
  | enqueue =>
      obtain ⟨topic, hstate, h⟩ := Option.bind_eq_some_iff.mp h
      split_ifs at h <;> obtain ⟨rfl, -⟩ := Prod.mk.inj (Option.some.inj h)
      · exact Leaves.of_eq rfl rfl rfl rfl
      · exact Leaves.setTopic hstate rfl rfl rfl (Or.inr rfl)
  | drain =>
      obtain ⟨topic, -, h⟩ := Option.bind_eq_some_iff.mp h
      split_ifs at h
      obtain ⟨rfl, -⟩ := Prod.mk.inj (Option.some.inj h)
      exact Leaves.of_eq rfl rfl rfl rfl
  | commit =>
      simp only [RequestState.perform] at h
      split at h <;> obtain ⟨rfl, -⟩ := Prod.mk.inj (Option.some.inj h) <;>
        exact Leaves.of_eq rfl rfl rfl rfl
  | findPartition =>
      obtain ⟨topic, -, hdone⟩ := Option.map_eq_some_iff.mp h
      obtain ⟨rfl, -⟩ := Prod.mk.inj hdone
      exact Leaves.of_eq rfl rfl rfl rfl
  | validateGroup | validateTopic | validateCount | findTopic | checkRange | readOffsets
  | removeOffsets | removeGroups =>
      obtain ⟨rfl, -⟩ := Prod.mk.inj (Option.some.inj h)
      exact Leaves.of_eq rfl rfl rfl rfl
  | _ => exact absurd rfl hcall

end RequestState

end BoltStream.Broker
