import BoltStream.Broker.TopicEffects

/-!
# Topics that are deleted and created again

A deletion gives up the name of its topic first, and then removes the directory, the
offsets and the groups by that name.  As long as no removal comes upon something of a
topic that has taken the name again, every topic has what was done through its own
topic state and nothing else.
-/

namespace BoltStream.Broker

open BoltStream.Lib BoltStream.Protocol BoltStream.Storage

namespace RequestState

variable {T : Type*} {s t u : RequestState T}

/-! ## What a topic should have -/

/-- The records that were acknowledged on a partition of a topic state. -/
def acknowledgedOn (s : RequestState T) (incarnation partition : ℕ) : List ProduceRequest :=
  s.effects.filterMap (Effect.recordOn incarnation partition)

/-- The offset that was last committed through a topic state. -/
def committedThrough (s : RequestState T) (incarnation : ℕ) (group topic : Bytes)
    (partition : ℕ) : Option ℕ :=
  (s.effects.filterMap (Effect.offsetThrough incarnation group topic partition)).getLast?

/-- A topic has its manifest and its partition directories with the records of its
own topic state; without a topic there is nothing. -/
def ownFiles (s : RequestState T) (name : Bytes) : Option TopicFiles :=
  (s.topics name).bind fun incarnation ↦
    ((s.states incarnation).map TopicState.partitionCount).map fun partitionCount ↦
      { partitionCount := partitionCount
        partitions := fun partition ↦
          if partition < partitionCount then
            some ((s.acknowledgedOn incarnation partition).map (FileRecord.mk incarnation))
          else none }

def ownOffset (s : RequestState T) (group name : Bytes) (partition : ℕ) : Option ℕ :=
  (s.topics name).bind fun incarnation ↦ s.committedThrough incarnation group name partition

/-- No removal by the name came after something that it takes from the topic state. -/
def KeepsEntries (s : RequestState T) (name : Bytes) (incarnation : ℕ) : Prop :=
  s.effects.Pairwise fun effect removal ↦
    ∀ sort, removal.Removes name sort → ¬effect.TakenBy incarnation sort

/-- The incarnations of a topic do not interfere. -/
structure Apart (s : RequestState T) : Prop where
  files : ∀ name, s.files name = s.ownFiles name
  offsets : ∀ group name partition,
    s.offsets.committed group name partition = s.ownOffset group name partition
  members : ∀ group name, ∀ id ∈ s.coordinator.memberIds group name,
    ∃ incarnation, s.topics name = some incarnation ∧
      .joined incarnation group name id ∈ s.effects
  kept : ∀ name incarnation, s.topics name = some incarnation → s.KeepsEntries name incarnation

/-- A broker without requests, in which the topics are apart.  Append jobs may be
left, but of its topics only. -/
structure AtRest (s : RequestState T) : Prop where
  idle : ∀ thread, s.threads thread = none
  apart : s.Apart
  tracked : s.Tracked
  jobs : ∀ incarnation topic, s.states incarnation = some topic → topic.pending ≠ [] →
    topic.deleting = false
  made : ∀ name incarnation, s.topics name = some incarnation →
    .created incarnation name ∈ s.effects
  history : ∀ effect ∈ s.effects, ∀ incarnation, effect.Of incarnation →
    incarnation < s.created

theorem atRest_initial (maxTopicPartitions : ℕ) :
    (initial maxTopicPartitions {} : RequestState T).AtRest := by
  refine ⟨fun _ ↦ rfl, ⟨fun _ ↦ rfl, fun _ _ _ ↦ rfl, fun _ _ _ hid ↦ ?_, fun _ _ h ↦ ?_⟩,
    tracked_initial maxTopicPartitions {}, fun _ _ h ↦ ?_, fun _ _ h ↦ ?_, fun _ h ↦ ?_⟩
  · cases hid
  · cases h
  · cases h
  · cases h
  · cases h

/-! ## Deletions under way -/

/-- The request is a deletion that has given up the name. -/
def Deletes (task : Task) (name : Bytes) : Prop :=
  task.request.kind = .deleteTopic ∧ task.request.topic = name ∧ .releaseTopic ∉ task.sections

/-- A deletion that has given up the name is still to do this. -/
def Awaits (s : RequestState T) (name : Bytes) (sort : Section) : Prop :=
  ∃ thread task, s.threads thread = some task ∧ Deletes task name ∧ sort ∈ task.sections

/-- The deletion of the topic state waits for its append jobs. -/
def Drains (s : RequestState T) (name : Bytes) (incarnation : ℕ) : Prop :=
  ∃ thread task, s.threads thread = some task ∧ Deletes task name ∧ .drain ∈ task.sections ∧
    task.topic = some incarnation

/-- A removal comes upon nothing of a topic that has taken the name again. -/
def FindsNothingNew (s : RequestState T) : RequestEvent T → Prop
  | .advance thread _ => ∀ task ∈ s.threads thread, ∀ sort ∈ task.sections.head?,
      ∀ incarnation ∈ s.topics task.request.topic, ∀ effect ∈ s.effects,
        ¬effect.TakenBy incarnation sort
  | _ => True

instance decidableFindsNothingNew (s : RequestState T) :
    ∀ event : RequestEvent T, Decidable (s.FindsNothingNew event)
  | .advance thread _ => inferInstanceAs (Decidable (∀ task ∈ s.threads thread,
      ∀ sort ∈ task.sections.head?, ∀ incarnation ∈ s.topics task.request.topic,
        ∀ effect ∈ s.effects, ¬effect.TakenBy incarnation sort))
  | .start .. => .isTrue trivial
  | .append .. => .isTrue trivial

theorem place_deletion {rest : List Section} (h : rest <:+ RequestKind.sections .deleteTopic)
    (hreleased : .releaseTopic ∉ rest) {sort : Section} (hsort : sort ∈ rest) :
    sort ∈ [Section.drain, .removeFiles, .removeOffsets, .removeGroups] ∧
      (sort = .drain → .removeFiles ∈ rest) := by
  have hplace := RequestKind.sections_tails (fun kind rest ↦ kind = .deleteTopic →
    .releaseTopic ∉ rest → ∀ sort ∈ rest,
      sort ∈ [Section.drain, .removeFiles, .removeOffsets, .removeGroups] ∧
        (sort = .drain → .removeFiles ∈ rest)) (by decide) h
  exact hplace rfl hreleased sort hsort

theorem place_release {kind : RequestKind} {rest : List Section}
    (h : .releaseTopic :: rest <:+ kind.sections) :
    kind = .deleteTopic ∧ rest = [.drain, .removeFiles, .removeOffsets, .removeGroups] := by
  have hplace := RequestKind.sections_tails (fun kind rest ↦ rest.head? = some .releaseTopic →
    kind = .deleteTopic ∧ rest.tail = [.drain, .removeFiles, .removeOffsets, .removeGroups])
      (by decide) h
  exact hplace rfl

theorem Drains.awaits (h : s.Tracked) {name : Bytes} {incarnation : ℕ}
    (hdrains : s.Drains name incarnation) : s.Awaits name .removeFiles := by
  obtain ⟨thread, task, htask, ⟨hkind, hname, hreleased⟩, hdrain, -⟩ := hdrains
  refine ⟨thread, task, htask, ⟨hkind, hname, hreleased⟩, ?_⟩
  have hsuffix := (h.placed thread task htask).suffix
  rw [hkind] at hsuffix
  exact (place_deletion hsuffix hreleased hdrain).2 rfl

/-- The sections of a deletion that has given up the name do not fail. -/
theorem perform_deletion {thread : T} {task : Task} {env : SectionEnv} {sort : Section}
    {outcome : Except BrokerError Task}
    (hsort : sort ∈ [Section.drain, .removeFiles, .removeOffsets, .removeGroups])
    (h : s.perform thread task env sort = some (u, outcome)) : outcome = .ok task := by
  cases sort with
  | drain =>
      obtain ⟨topic, -, h⟩ := Option.bind_eq_some_iff.mp h
      split_ifs at h
      exact (Prod.mk.inj (Option.some.inj h)).2.symm
  | removeFiles | removeOffsets | removeGroups =>
      exact (Prod.mk.inj (Option.some.inj h)).2.symm
  | _ => simp at hsort

namespace Advances

variable {thread : T} {env : SectionEnv} {task : Task} {sort : Section} {rest : List Section}
  {outcome : Except BrokerError Task} {name : Bytes}

theorem suffix (h : s.Advances thread env t task sort rest u outcome) (hs : s.Tracked) :
    sort :: rest <:+ task.request.kind.sections :=
  h.sections ▸ (hs.placed thread task h.running).suffix

theorem nothingNew (h : s.Advances thread env t task sort rest u outcome)
    (hnew : s.FindsNothingNew (.advance thread env)) {incarnation : ℕ}
    (htopic : s.topics task.request.topic = some incarnation) {effect : Effect T}
    (heffect : effect ∈ s.effects) : ¬effect.TakenBy incarnation sort := by
  have hhead : sort ∈ task.sections.head? := by
    rw [h.sections]
    rfl
  exact hnew task h.running sort hhead incarnation htopic effect heffect

/-- A deletion under way goes on until it is done with its sections. -/
theorem deletion (h : s.Advances thread env t task sort rest u outcome) (hs : s.Tracked)
    {other : T} {found : Task} {sort' : Section} (hother : s.threads other = some found)
    (hdeletes : Deletes found name) (hmem : sort' ∈ found.sections)
    (hne : other = thread → sort' ≠ sort) :
    ∃ found', t.threads other = some found' ∧ Deletes found' name ∧ sort' ∈ found'.sections ∧
      found'.topic = found.topic := by
  by_cases hsame : other = thread
  · subst hsame
    obtain rfl := Option.some.inj (h.running.symm.trans hother)
    obtain ⟨hkind, hname, hreleased⟩ := hdeletes
    have hsuffix := (hs.placed other task hother).suffix
    rw [hkind] at hsuffix
    have hrest : sort' ∈ rest := by
      rw [h.sections] at hmem
      exact (List.mem_cons.mp hmem).resolve_left (hne rfl)
    have hsort : sort ∈ task.sections := by
      rw [h.sections]
      exact List.mem_cons_self
    have hok := perform_deletion (place_deletion hsuffix hreleased hsort).1 h.perform
    cases hthreads : t.threads other with
    | none =>
        exfalso
        rcases h.ended hthreads with ⟨error, herror⟩ | hnil
        · rw [hok] at herror
          cases herror
        · rw [hnil] at hrest
          cases hrest
    | some found' =>
        obtain ⟨hfound, -⟩ := h.next found' hthreads
        rw [hok] at hfound
        obtain rfl := Except.ok.inj hfound
        refine ⟨_, rfl, ⟨hkind, hname, fun hrelease ↦ hreleased ?_⟩, hrest, rfl⟩
        rw [h.sections]
        exact List.mem_cons_of_mem sort hrelease
  · exact ⟨found, (h.others other hsame).trans hother, hdeletes, hmem, rfl⟩

theorem awaits (h : s.Advances thread env t task sort rest u outcome) (hs : s.Tracked)
    {sort' : Section} (hawaits : s.Awaits name sort') :
    t.Awaits name sort' ∨ sort = sort' ∧ task.request.topic = name := by
  obtain ⟨other, found, hother, hdeletes, hmem⟩ := hawaits
  by_cases hown : other = thread ∧ sort' = sort
  · obtain ⟨rfl, rfl⟩ := hown
    obtain rfl := Option.some.inj (h.running.symm.trans hother)
    exact Or.inr ⟨rfl, hdeletes.2.1⟩
  · obtain ⟨found', hfound', hdeletes', hmem', -⟩ :=
      h.deletion hs hother hdeletes hmem fun hsame heq ↦ hown ⟨hsame, heq⟩
    exact Or.inl ⟨other, found', hfound', hdeletes', hmem'⟩

/-- A deletion that gives up the name is going to do the rest. -/
theorem released (h : s.Advances thread env t task .releaseTopic rest u outcome) (hs : s.Tracked)
    {incarnation : ℕ}
    (hok : outcome = .ok { task with sections := rest, topic := some incarnation }) :
    ∃ found, t.threads thread = some found ∧ Deletes found task.request.topic ∧
      found.sections = [.drain, .removeFiles, .removeOffsets, .removeGroups] ∧
      found.topic = some incarnation := by
  obtain ⟨hkind, hrest⟩ := place_release (h.suffix hs)
  cases hthreads : t.threads thread with
  | none =>
      exfalso
      rcases h.ended hthreads with ⟨error, herror⟩ | hnil
      · rw [hok] at herror
        cases herror
      · rw [hnil] at hrest
        cases hrest
  | some found =>
      obtain ⟨hfound, -⟩ := h.next found hthreads
      rw [hok] at hfound
      obtain rfl := Except.ok.inj hfound
      refine ⟨_, rfl, ⟨hkind, rfl, ?_⟩, hrest, rfl⟩
      dsimp only
      rw [hrest]
      decide

end Advances

/-! ## What a section does to what a topic should have -/

section Own

variable {thread : T} {task : Task} {env : SectionEnv} {sort : Section}
  {outcome : Except BrokerError Task} {name : Bytes}

theorem acknowledgedOn_append {added : Option (Effect T)} {incarnation partition : ℕ}
    (heffects : u.effects = s.effects ++ added.toList)
    (hadded : ∀ effect ∈ added, effect.recordOn incarnation partition = none) :
    u.acknowledgedOn incarnation partition = s.acknowledgedOn incarnation partition := by
  rw [acknowledgedOn, acknowledgedOn, heffects, List.filterMap_append]
  cases added with
  | none => simp
  | some effect => simp [hadded effect rfl]

theorem committedThrough_append {added : Option (Effect T)} {incarnation partition : ℕ}
    {group : Bytes} (heffects : u.effects = s.effects ++ added.toList)
    (hadded : ∀ effect ∈ added, effect.offsetThrough incarnation group name partition = none) :
    u.committedThrough incarnation group name partition =
      s.committedThrough incarnation group name partition := by
  rw [committedThrough, committedThrough, heffects, List.filterMap_append]
  cases added with
  | none => simp
  | some effect => simp [hadded effect rfl]

theorem committedThrough_eq_none {incarnation partition : ℕ} {group : Bytes}
    (h : ∀ effect ∈ s.effects, ¬effect.TakenBy incarnation .removeOffsets) :
    s.committedThrough incarnation group name partition = none := by
  have hnil : s.effects.filterMap (Effect.offsetThrough incarnation group name partition) = [] :=
    List.filterMap_eq_nil_iff.mpr fun effect heffect ↦
      Effect.offsetThrough_eq_none (h effect heffect)
  rw [committedThrough, hnil]
  rfl

theorem acknowledgedOn_eq_nil {incarnation partition : ℕ}
    (h : ∀ effect ∈ s.effects, ¬effect.Of incarnation) :
    s.acknowledgedOn incarnation partition = [] :=
  List.filterMap_eq_nil_iff.mpr fun effect heffect ↦ Effect.recordOn_eq_none (h effect heffect)

theorem ownFiles_congr (htopics : u.topics name = s.topics name)
    (hown : ∀ incarnation, s.topics name = some incarnation →
      (u.states incarnation).map TopicState.partitionCount =
        (s.states incarnation).map TopicState.partitionCount ∧
      ∀ partition, u.acknowledgedOn incarnation partition =
        s.acknowledgedOn incarnation partition) :
    u.ownFiles name = s.ownFiles name := by
  rw [ownFiles, ownFiles, htopics]
  cases htopic : s.topics name with
  | none => rfl
  | some incarnation =>
      obtain ⟨hcount, hrecords⟩ := hown incarnation htopic
      simp only [Option.bind_some, hcount, hrecords]

theorem ownFiles_eq_none (h : s.topics name = none) : s.ownFiles name = none := by
  rw [ownFiles, h, Option.bind_none]

theorem ownOffset_eq_none (h : s.topics name = none) (group : Bytes) (partition : ℕ) :
    s.ownOffset group name partition = none := by
  rw [ownOffset, h, Option.bind_none]

/-- A name keeps its topic state, or is taken by a new one, or is given up. -/
theorem perform_topic (h : s.perform thread task env sort = some (u, outcome)) (name : Bytes) :
    u.topics name = s.topics name ∨
      sort = .openTopic ∧ task.request.topic = name ∧
        s.Opens u name task.request.partitionCount ∨
      sort = .releaseTopic ∧ task.request.topic = name ∧ ∃ incarnation,
        s.Releases u name incarnation ∧
          outcome = .ok { task with topic := some incarnation } := by
  by_cases hopen : sort = .openTopic
  · subst hopen
    rcases perform_openTopic h with rfl | hopens
    · exact Or.inl rfl
    · by_cases hname : task.request.topic = name
      · exact Or.inr (Or.inl ⟨rfl, hname, hname ▸ hopens⟩)
      · rw [hopens.topics]
        exact Or.inl (Function.update_of_ne (Ne.symm hname) _ _)
  · by_cases hrelease : sort = .releaseTopic
    · subst hrelease
      rcases perform_releaseTopic h with ⟨htopics, -, -⟩ | ⟨incarnation, hreleases, hok⟩
      · exact Or.inl (congrFun htopics name)
      · by_cases hname : task.request.topic = name
        · exact Or.inr (Or.inr ⟨rfl, hname, incarnation, hname ▸ hreleases, hok⟩)
        · rw [hreleases.topics]
          exact Or.inl (Function.update_of_ne (Ne.symm hname) _ _)
    · exact Or.inl (congrFun ((perform_leaves h).topics hopen hrelease) name)

/-- The files of a topic that goes on should be what they were. -/
theorem perform_ownFiles (h : s.perform thread task env sort = some (u, outcome))
    (hs : s.Consistent) (htopic : u.topics name = s.topics name) :
    u.ownFiles name = s.ownFiles name := by
  obtain ⟨added, heffects, hadded⟩ := perform_effects h
  refine ownFiles_congr htopic fun incarnation hfound ↦ ⟨?_, fun partition ↦
    acknowledgedOn_append heffects fun effect heffect ↦ (hadded effect heffect).recordOn⟩
  by_cases hopen : sort = .openTopic
  · subst hopen
    rcases perform_openTopic h with rfl | hopens
    · rfl
    · obtain ⟨topic, hstate, -⟩ := hs.known name incarnation hfound
      have hne : incarnation ≠ s.created := by
        rintro rfl
        rw [hs.fresh s.created le_rfl] at hstate
        cases hstate
      rw [hopens.states, Function.update_of_ne hne]
  · exact (perform_leaves h).counts hopen incarnation

theorem perform_files (h : s.perform thread task env sort = some (u, outcome))
    (htopic : u.topics name = s.topics name)
    (hremove : ¬(sort = .removeFiles ∧ task.request.topic = name)) :
    u.files name = s.files name := by
  by_cases hopen : sort = .openTopic
  · subst hopen
    rcases perform_openTopic h with rfl | hopens
    · rfl
    · have hne : name ≠ task.request.topic := by
        rintro rfl
        rw [hopens.missing, hopens.topics, Function.update_self] at htopic
        cases htopic
      rw [hopens.files, Function.update_of_ne hne]
  · by_cases hsort : sort = .removeFiles
    · subst hsort
      obtain ⟨rfl, -⟩ := Prod.mk.inj (Option.some.inj h)
      exact Function.update_of_ne (fun heq ↦ hremove ⟨rfl, heq.symm⟩) _ _
    · exact congrFun ((perform_leaves h).files hopen hsort) name

/-- A new topic finds no files, and has no records. -/
theorem Opens.files_eq {partitionCount : ℕ} (h : s.Opens u name partitionCount)
    (hnone : s.files name = none) (hnew : ∀ effect ∈ s.effects, ¬effect.Of s.created) :
    u.files name = u.ownFiles name := by
  have hrecords : ∀ partition, u.acknowledgedOn s.created partition = [] := by
    intro partition
    have heffects : u.effects = s.effects ++ (some (Effect.created s.created name)).toList :=
      h.effects
    rw [acknowledgedOn_append heffects fun effect heq ↦ (Option.mem_some_iff.mp heq) ▸ rfl]
    exact acknowledgedOn_eq_nil hnew
  rw [h.files, Function.update_self, hnone, ownFiles, h.topics, Function.update_self, h.states,
    Option.bind_some, Function.update_self]
  simp [openPartitions, hrecords]

/-- No offset was committed through a new topic state. -/
theorem Opens.ownOffset {partitionCount : ℕ} (h : s.Opens u name partitionCount)
    (hnew : ∀ effect ∈ s.effects, ¬effect.Of s.created) (group : Bytes) (partition : ℕ) :
    u.ownOffset group name partition = none := by
  rw [RequestState.ownOffset, h.topics, Function.update_self, Option.bind_some]
  refine committedThrough_eq_none fun effect heffect htaken ↦ ?_
  rw [h.effects, List.mem_append, List.mem_singleton] at heffect
  rcases heffect with hold | rfl
  · exact hnew effect hold htaken.of
  · cases htaken

/-- The offsets of a topic that goes on should be what they were, but for a commit. -/
theorem perform_ownOffset (h : s.perform thread task env sort = some (u, outcome))
    (htopic : u.topics name = s.topics name) (hsort : sort ≠ .commit) (group : Bytes)
    (partition : ℕ) : u.ownOffset group name partition = s.ownOffset group name partition := by
  obtain ⟨added, heffects, hadded⟩ := perform_effects h
  rw [ownOffset, ownOffset, htopic]
  refine congrArg _ (funext fun incarnation ↦ ?_)
  exact committedThrough_append heffects fun effect heffect ↦
    (hadded effect heffect).offsetThrough hsort

/-- A commit through the current topic state. -/
theorem perform_commit (h : s.perform thread task env .commit = some (u, outcome))
    (hcurrent : s.topics task.request.topic = some (task.topic.getD 0))
    (hown : ∀ group partition,
      s.offsets.committed group name partition = s.ownOffset group name partition)
    (group : Bytes) (partition : ℕ) :
    u.offsets.committed group name partition = u.ownOffset group name partition := by
  simp only [RequestState.perform] at h
  split at h
  · next message hfailed =>
      obtain ⟨rfl, -⟩ := Prod.mk.inj (Option.some.inj h)
      rw [OffsetStore.committed, OffsetStore.committed_commit_error hfailed]
      exact hown group partition
  · next hwritten =>
      obtain ⟨rfl, -⟩ := Prod.mk.inj (Option.some.inj h)
      rw [OffsetStore.committed_commit_ok hwritten, hown]
      by_cases hname : name = task.request.topic
      · subst hname
        simp only [ownOffset, hcurrent, Option.bind_some, committedThrough, List.filterMap_append]
        by_cases hkey : group = task.request.group ∧ partition = task.request.partition
        · obtain ⟨rfl, rfl⟩ := hkey
          simp [Effect.offsetThrough]
        · rw [if_neg fun heq ↦ hkey ⟨heq.1, heq.2.2⟩]
          have hother : ¬(task.request.group = group ∧ task.request.partition = partition) :=
            fun heq ↦ hkey ⟨heq.1.symm, heq.2.symm⟩
          simp [Effect.offsetThrough, hother]
      · rw [if_neg fun heq ↦ hname heq.2.1, ownOffset, ownOffset]
        refine congrArg _ (funext fun incarnation ↦ ?_)
        have hadded : ∀ effect ∈ some (Effect.committed (T := T) (task.topic.getD 0)
            task.request.group task.request.topic task.request.partition task.target),
            effect.offsetThrough incarnation group name partition = none := by
          rintro effect heffect
          rw [← Option.mem_some_iff.mp heffect]
          exact if_neg fun heq ↦ hname heq.2.2.1.symm
        exact (committedThrough_append rfl hadded).symm

end Own

/-! ## The invariant -/

/-- What a name has is its topic's own, unless a deletion is going to remove it. -/
structure Tidy (s : RequestState T) : Prop where
  tracked : s.Tracked
  files : ∀ name, ¬s.Awaits name .removeFiles → s.files name = s.ownFiles name
  offsets : ∀ name, ¬s.Awaits name .removeOffsets → ∀ group partition,
    s.offsets.committed group name partition = s.ownOffset group name partition
  members : ∀ group name, ∀ id ∈ s.coordinator.memberIds group name,
    ∃ incarnation, s.topics name = some incarnation ∧
      .joined incarnation group name id ∈ s.effects
  kept : ∀ name incarnation, s.topics name = some incarnation → s.KeepsEntries name incarnation
  jobs : ∀ incarnation topic, s.states incarnation = some topic → topic.pending ≠ [] →
    topic.deleting = false ∨ s.Drains topic.name incarnation
  made : ∀ name incarnation, s.topics name = some incarnation →
    .created incarnation name ∈ s.effects
  history : ∀ effect ∈ s.effects, ∀ incarnation, effect.Of incarnation →
    incarnation < s.created

theorem AtRest.tidy (h : s.AtRest) : s.Tidy :=
  { tracked := h.tracked
    files := fun name _ ↦ h.apart.files name
    offsets := fun name _ group partition ↦ h.apart.offsets group name partition
    members := h.apart.members
    kept := h.apart.kept
    jobs := fun incarnation topic hstate hpending ↦
      Or.inl (h.jobs incarnation topic hstate hpending)
    made := h.made
    history := h.history }

theorem Tidy.atRest (h : s.Tidy) (hidle : ∀ thread, s.threads thread = none) : s.AtRest := by
  have hawaits : ∀ name sort, ¬s.Awaits name sort := by
    rintro name sort ⟨thread, task, htask, -⟩
    rw [hidle] at htask
    cases htask
  refine ⟨hidle, ⟨fun name ↦ h.files name (hawaits name _), fun group name partition ↦
    h.offsets name (hawaits name _) group partition, h.members, h.kept⟩, h.tracked,
    fun incarnation topic hstate hpending ↦ ?_, h.made, h.history⟩
  rcases h.jobs incarnation topic hstate hpending with hlive | hdrains
  · exact hlive
  · exact absurd (hdrains.awaits h.tracked) (hawaits _ _)

theorem Tidy.notNew (h : s.Tidy) : ∀ effect ∈ s.effects, ¬effect.Of s.created :=
  fun effect heffect hof ↦ lt_irrefl _ (h.history effect heffect _ hof)

/-- The threads do not matter to what a topic should have. -/
theorem SameData.ownFiles (h : u.SameData t) (ht : t.Consistent) (name : Bytes) :
    t.ownFiles name = u.ownFiles name := by
  obtain ⟨-, -, heffects, -, htopics, hstates⟩ := h
  refine ownFiles_congr (congrFun htopics name) fun incarnation hfound ↦ ⟨?_, fun partition ↦ ?_⟩
  · obtain ⟨topic, hstate, -⟩ := ht.known name incarnation (htopics ▸ hfound)
    obtain ⟨holder, hstate'⟩ := hstates incarnation topic hstate
    rw [hstate, hstate']
    rfl
  · rw [acknowledgedOn, heffects]
    rfl

theorem SameData.ownOffset (h : u.SameData t) (group name : Bytes) (partition : ℕ) :
    t.ownOffset group name partition = u.ownOffset group name partition := by
  obtain ⟨-, -, heffects, -, htopics, -⟩ := h
  simp only [RequestState.ownOffset, committedThrough, heffects, htopics]

section Step

variable {thread : T} {env : SectionEnv} {task : Task} {sort : Section} {rest : List Section}
  {outcome : Except BrokerError Task} {name : Bytes}

/-- A request inside a topic state works on the current one. -/
theorem Tracked.current_of_needsLock (h : s.Tracked) (htask : s.threads thread = some task)
    (hsections : task.sections = sort :: rest) (hsort : RequestKind.needsLock sort = true) :
    ∃ incarnation topic, task.topic = some incarnation ∧ s.states incarnation = some topic ∧
      topic.deleting = false ∧ s.topics task.request.topic = some incarnation := by
  obtain ⟨incarnation, topic, hfound, hstate, hname, hdeleting, -⟩ :=
    h.consistent.locked thread task htask (h.locked_of_needsLock htask hsections hsort)
  exact ⟨incarnation, topic, hfound, hstate, hdeleting,
    hname ▸ h.consistent.current incarnation topic hstate hdeleting⟩

theorem Tidy.files_advance (h : s.Tidy)
    (hadvances : s.Advances thread env t task sort rest u outcome)
    (ht : t.Tracked) (hnew : s.FindsNothingNew (.advance thread env))
    (hawaits : ¬t.Awaits name .removeFiles) : t.files name = t.ownFiles name := by
  have hfiles := congrFun hadvances.sameData.2.2.2.1 name
  rw [hfiles, hadvances.sameData.ownFiles ht.consistent name]
  have hbefore : ¬(sort = .removeFiles ∧ task.request.topic = name) →
      s.files name = s.ownFiles name := fun hother ↦ h.files name fun hs ↦
    (hadvances.awaits h.tracked hs).elim hawaits hother
  rcases perform_topic hadvances.perform name with hsame | ⟨rfl, hname, hopens⟩ |
    ⟨rfl, hname, incarnation, -, hok⟩
  · by_cases hremove : sort = .removeFiles ∧ task.request.topic = name
    · obtain ⟨rfl, rfl⟩ := hremove
      have hnone : s.topics task.request.topic = none := by
        by_contra hne
        obtain ⟨incarnation, hfound⟩ := Option.ne_none_iff_exists'.mp hne
        exact hadvances.nothingNew hnew hfound (h.made _ _ hfound) rfl
      rw [ownFiles_eq_none (hsame.trans hnone)]
      have hperform := hadvances.perform
      obtain ⟨rfl, -⟩ := Prod.mk.inj (Option.some.inj hperform)
      exact Function.update_self _ _ _
    · rw [perform_files hadvances.perform hsame hremove,
        perform_ownFiles hadvances.perform h.tracked.consistent hsame, hbefore hremove]
  · refine hopens.files_eq ?_ h.notNew
    rw [hbefore (by simp), ownFiles_eq_none hopens.missing]
  · obtain ⟨found, hfound, hdeletes, hsections, -⟩ := hadvances.released h.tracked hok
    exact absurd ⟨thread, found, hfound, hname ▸ hdeletes, by simp [hsections]⟩ hawaits

theorem Tidy.offsets_advance (h : s.Tidy)
    (hadvances : s.Advances thread env t task sort rest u outcome)
    (hnew : s.FindsNothingNew (.advance thread env)) (hawaits : ¬t.Awaits name .removeOffsets)
    (group : Bytes) (partition : ℕ) :
    t.offsets.committed group name partition = t.ownOffset group name partition := by
  rw [hadvances.sameData.2.1, hadvances.sameData.ownOffset]
  have hbefore : ¬(sort = .removeOffsets ∧ task.request.topic = name) → ∀ group partition,
      s.offsets.committed group name partition = s.ownOffset group name partition :=
    fun hother ↦ h.offsets name fun hs ↦ (hadvances.awaits h.tracked hs).elim hawaits hother
  have hdata := (sectionData hadvances.perform).offsets
  rcases perform_topic hadvances.perform name with hsame | ⟨rfl, hname, hopens⟩ |
    ⟨rfl, hname, incarnation, -, hok⟩
  · by_cases hremove : sort = .removeOffsets ∧ task.request.topic = name
    · obtain ⟨rfl, rfl⟩ := hremove
      rw [perform_ownOffset hadvances.perform hsame (by simp)]
      have hperform := hadvances.perform
      obtain ⟨rfl, -⟩ := Prod.mk.inj (Option.some.inj hperform)
      dsimp only
      rw [OffsetStore.committed_removeTopic, if_pos rfl]
      cases hfound : s.topics task.request.topic with
      | none => exact (ownOffset_eq_none hfound group partition).symm
      | some incarnation =>
          rw [ownOffset, hfound, Option.bind_some]
          exact (committedThrough_eq_none fun effect heffect ↦
            hadvances.nothingNew hnew hfound heffect).symm
    · by_cases hcommit : sort = .commit
      · subst hcommit
        obtain ⟨incarnation, topic, htopic, -, -, hcurrent⟩ :=
          h.tracked.current_of_needsLock hadvances.running hadvances.sections rfl
        refine perform_commit hadvances.perform ?_ (hbefore hremove) group partition
        dsimp only
        rw [hcurrent, htopic, Option.getD_some]
      · rw [perform_ownOffset hadvances.perform hsame hcommit, ← hbefore hremove]
        rcases hdata with hoffsets | hsort | rfl
        · rw [hoffsets]
        · exact absurd hsort hcommit
        · have hperform := hadvances.perform
          obtain ⟨rfl, -⟩ := Prod.mk.inj (Option.some.inj hperform)
          dsimp only
          rw [OffsetStore.committed_removeTopic, if_neg fun heq ↦ hremove ⟨rfl, heq.symm⟩]
  · have hoffsets : u.offsets = s.offsets := hdata.resolve_right (by simp)
    rw [hopens.ownOffset h.notNew, hoffsets, hbefore (by simp)]
    exact ownOffset_eq_none hopens.missing group partition
  · obtain ⟨found, hfound, hdeletes, hsections, -⟩ := hadvances.released h.tracked hok
    exact absurd ⟨thread, found, hfound, hname ▸ hdeletes, by simp [hsections]⟩ hawaits

/-- What has happened has happened. -/
theorem Advances.effects_subset (h : s.Advances thread env t task sort rest u outcome) :
    s.effects ⊆ t.effects := by
  obtain ⟨added, heffects, -⟩ := perform_effects h.perform
  rw [h.sameData.2.2.1, heffects]
  exact List.subset_append_left _ _

/-- A member is new by a join through the current topic state only. -/
theorem Advances.members (h : s.Advances thread env t task sort rest u outcome) (hs : s.Tracked)
    {group id : Bytes} (hid : id ∈ t.coordinator.memberIds group name) :
    id ∈ s.coordinator.memberIds group name ∨
      ∃ incarnation, s.topics name = some incarnation ∧
        .joined incarnation group name id ∈ t.effects := by
  rw [h.sameData.1] at hid
  by_cases hjoin : sort = .join
  · subst hjoin
    obtain ⟨incarnation, topic, htopic, -, -, hcurrent⟩ :=
      hs.current_of_needsLock h.running h.sections rfl
    have hperform := h.perform
    rw [perform_call rfl] at hperform
    obtain ⟨rfl, -⟩ := Prod.mk.inj (Option.some.inj hperform)
    by_cases hkey : task.request.group = group ∧ task.request.topic = name
    · obtain ⟨rfl, rfl⟩ := hkey
      rcases GroupCoordinator.mem_memberIds_join hid with hold | hjoined
      · exact Or.inl hold
      · refine Or.inr ⟨incarnation, hcurrent, ?_⟩
        rw [h.sameData.2.2.1]
        refine List.mem_append_right _ (List.mem_singleton.mpr ?_)
        rw [hjoined, htopic]
        rfl
    · have hother : ¬(GroupOp.join task.request.group task.request.topic task.request.memberId
          task.request.sessionTimeoutMs (((task.topic.bind s.states).map
            TopicState.partitionCount).getD 0) env.now).Joins group name := hkey
      exact Or.inl (GroupCoordinator.memberIds_apply hother hid)
  · rcases (sectionData h.perform).coordinator with hsame | ⟨op, happly, hjoins⟩
    · exact Or.inl (hsame ▸ hid)
    · rw [happly] at hid
      exact Or.inl (GroupCoordinator.memberIds_apply (fun hj ↦ hjoin (hjoins _ _ hj).1) hid)

theorem Tidy.members_advance (h : s.Tidy)
    (hadvances : s.Advances thread env t task sort rest u outcome) {group id : Bytes}
    (hid : id ∈ t.coordinator.memberIds group name) :
    ∃ incarnation, t.topics name = some incarnation ∧
      .joined incarnation group name id ∈ t.effects := by
  have htopics := congrFun hadvances.sameData.2.2.2.2.1 name
  have hbefore : ∃ incarnation, s.topics name = some incarnation ∧
      .joined incarnation group name id ∈ t.effects := by
    rcases hadvances.members h.tracked hid with hold | ⟨incarnation, hfound, hjoined⟩
    · obtain ⟨incarnation, hfound, hjoined⟩ := h.members group name id hold
      exact ⟨incarnation, hfound, hadvances.effects_subset hjoined⟩
    · exact ⟨incarnation, hfound, hjoined⟩
  obtain ⟨incarnation, hfound, hjoined⟩ := hbefore
  rcases perform_topic hadvances.perform name with hsame | ⟨-, -, hopens⟩ |
    ⟨-, -, _, hreleases, -⟩
  · exact ⟨incarnation, htopics.trans (hsame.trans hfound), hjoined⟩
  · rw [hopens.missing] at hfound
    cases hfound
  · rw [hadvances.sameData.1, hreleases.members] at hid
    cases hid

theorem Tidy.kept_advance (h : s.Tidy)
    (hadvances : s.Advances thread env t task sort rest u outcome)
    (hnew : s.FindsNothingNew (.advance thread env)) {incarnation : ℕ}
    (hfound : t.topics name = some incarnation) : t.KeepsEntries name incarnation := by
  obtain ⟨added, heffects, hadded⟩ := perform_effects hadvances.perform
  rw [hadvances.sameData.2.2.2.2.1] at hfound
  have hbefore : s.KeepsEntries name incarnation ∧ ∀ effect ∈ s.effects, ∀ removal ∈ added,
      ∀ sort, removal.Removes name sort → ¬effect.TakenBy incarnation sort := by
    rcases perform_topic hadvances.perform name with hsame | ⟨-, -, hopens⟩ |
      ⟨-, -, _, hreleases, -⟩
    · rw [hsame] at hfound
      refine ⟨h.kept name incarnation hfound, ?_⟩
      intro effect heffect removal hremoval sort' hremoves
      obtain ⟨rfl, rfl⟩ := (hadded removal hremoval).removes hremoves
      exact hadvances.nothingNew hnew hfound heffect
    · rw [hopens.topics, Function.update_self, Option.some.injEq] at hfound
      subst hfound
      refine ⟨List.Pairwise.imp_of_mem ?_ (List.pairwise_of_forall fun _ _ ↦ trivial), ?_⟩
      · intro effect removal heffect _ _ sort' _ htaken
        exact h.notNew effect heffect htaken.of
      · exact fun effect heffect removal _ sort' _ htaken ↦ h.notNew effect heffect htaken.of
    · rw [hreleases.topics, Function.update_self] at hfound
      cases hfound
  rw [KeepsEntries, hadvances.sameData.2.2.1, heffects, List.pairwise_append]
  refine ⟨hbefore.1, ?_, fun effect heffect removal hremoval ↦
    hbefore.2 effect heffect removal (Option.mem_toList.mp hremoval)⟩
  cases added with
  | none => exact List.Pairwise.nil
  | some effect => exact List.pairwise_singleton _ _

theorem Tidy.made_advance (h : s.Tidy)
    (hadvances : s.Advances thread env t task sort rest u outcome) {incarnation : ℕ}
    (hfound : t.topics name = some incarnation) : .created incarnation name ∈ t.effects := by
  rw [hadvances.sameData.2.2.2.2.1] at hfound
  rcases perform_topic hadvances.perform name with hsame | ⟨-, -, hopens⟩ |
    ⟨-, -, _, hreleases, -⟩
  · exact hadvances.effects_subset (h.made name incarnation (hsame ▸ hfound))
  · rw [hopens.topics, Function.update_self, Option.some.injEq] at hfound
    rw [hadvances.sameData.2.2.1, hopens.effects, hfound]
    exact List.mem_append_right _ List.mem_cons_self
  · rw [hreleases.topics, Function.update_self] at hfound
    cases hfound

theorem Tidy.jobs_advance (h : s.Tidy)
    (hadvances : s.Advances thread env t task sort rest u outcome) {incarnation : ℕ}
    {topic : TopicState T} (hstate : t.states incarnation = some topic)
    (hpending : topic.pending ≠ []) :
    topic.deleting = false ∨ t.Drains topic.name incarnation := by
  obtain ⟨holder, hstate⟩ := hadvances.sameData.2.2.2.2.2 incarnation topic hstate
  -- A deletion that waits goes on waiting, unless this was the wait for no jobs.
  have hkept : ∀ old, s.states incarnation = some old → old.pending = topic.pending →
      old.deleting = topic.deleting → old.name = topic.name →
        topic.deleting = false ∨ t.Drains topic.name incarnation := by
    intro old hold hpending' hdeleting hname
    rcases h.jobs incarnation old hold (hpending' ▸ hpending) with hlive |
      ⟨other, found, hother, hdeletes, hdrain, hfound⟩
    · exact Or.inl (hdeleting ▸ hlive)
    · have hwaits : other = thread → Section.drain ≠ sort := by
        rintro rfl rfl
        obtain rfl := Option.some.inj (hadvances.running.symm.trans hother)
        obtain ⟨waiting, hwaiting, hperform⟩ := Option.bind_eq_some_iff.mp hadvances.perform
        rw [hfound, Option.bind_some, hold] at hwaiting
        obtain rfl := Option.some.inj hwaiting
        rw [if_neg (hpending' ▸ hpending)] at hperform
        cases hperform
      obtain ⟨found', hother', hdeletes', hdrain', hfound'⟩ :=
        hadvances.deletion h.tracked hother hdeletes hdrain hwaits
      exact Or.inr ⟨other, found', hother', hname ▸ hdeletes', hdrain', hfound'.trans hfound⟩
  by_cases hopen : sort = .openTopic
  · subst hopen
    rcases perform_openTopic hadvances.perform with hsame | hopens
    · rw [hsame] at hstate
      exact hkept _ hstate rfl rfl rfl
    · rw [hopens.states] at hstate
      by_cases hnew : incarnation = s.created
      · rw [hnew, Function.update_self, Option.some.injEq] at hstate
        rw [← congrArg TopicState.pending hstate] at hpending
        exact absurd rfl hpending
      · rw [Function.update_of_ne hnew] at hstate
        exact hkept _ hstate rfl rfl rfl
  by_cases hrelease : sort = .releaseTopic
  · subst hrelease
    rcases perform_releaseTopic hadvances.perform with ⟨-, hstates, -⟩ | ⟨i, hreleases, hok⟩
    · rw [hstates] at hstate
      exact hkept _ hstate rfl rfl rfl
    · obtain ⟨old, hold, hstates⟩ := hreleases.states
      rw [hstates] at hstate
      by_cases hi : incarnation = i
      · subst hi
        rw [Function.update_self, Option.some.injEq] at hstate
        obtain ⟨known, hknown, hname, -⟩ := h.tracked.consistent.known _ _ hreleases.found
        obtain rfl := Option.some.inj (hold.symm.trans hknown)
        obtain ⟨found, hfound, hdeletes, hsections, htopic⟩ := hadvances.released h.tracked hok
        refine Or.inr ⟨thread, found, hfound, ?_, by simp [hsections], htopic⟩
        rw [← congrArg TopicState.name hstate]
        exact hname ▸ hdeletes
      · rw [Function.update_of_ne hi] at hstate
        exact hkept _ hstate rfl rfl rfl
  obtain ⟨old, hold, hname, hdeleting, hjobs⟩ :=
    (perform_leaves hadvances.perform).pending hopen hrelease incarnation _ hstate
  rcases hjobs with hjobs | ⟨rfl, hown⟩
  · exact hkept old hold hjobs.symm hdeleting.symm hname.symm
  · obtain ⟨i, current, htopic, hcurrent, hlive, -⟩ :=
      h.tracked.current_of_needsLock hadvances.running hadvances.sections rfl
    dsimp only at hown
    rw [htopic, Option.getD_some] at hown
    subst hown
    obtain rfl := Option.some.inj (hold.symm.trans hcurrent)
    exact Or.inl (hdeleting.trans hlive)

theorem perform_created (h : s.perform thread task env sort = some (u, outcome)) :
    s.created ≤ u.created ∧ (sort = .openTopic → ∀ effect ∈ u.effects, effect ∈ s.effects ∨
      ∀ incarnation, effect.Of incarnation → incarnation < u.created) := by
  by_cases hopen : sort = .openTopic
  · subst hopen
    rcases perform_openTopic h with rfl | hopens
    · exact ⟨le_rfl, fun _ effect heffect ↦ Or.inl heffect⟩
    · refine ⟨hopens.created ▸ Nat.le_succ _, fun _ effect heffect ↦ ?_⟩
      rw [hopens.effects, List.mem_append, List.mem_singleton] at heffect
      refine heffect.imp_right ?_
      rintro rfl incarnation hof
      rw [hopens.created, ← hof]
      exact Nat.lt_succ_self _
  · exact ⟨((perform_leaves h).created hopen).ge, fun hsort ↦ absurd hsort hopen⟩

variable [DecidableEq T]

theorem created_advance (hstep : s.step (.advance thread env) = some t)
    (hadvances : s.Advances thread env t task sort rest u outcome) : t.created = u.created := by
  have hfinish : ∀ (v : RequestState T) (ended : Task), (v.finish thread ended).created =
      v.created := by
    intro v ended
    unfold RequestState.finish
    dsimp only
    split <;> rfl
  simp only [RequestState.step, hadvances.running, hadvances.sections, hadvances.perform,
    Option.map_some, Option.some.injEq] at hstep
  subst hstep
  cases outcome with
  | error error => exact hfinish u task
  | ok task' =>
      dsimp only
      split_ifs
      · exact hfinish u task'
      · rfl

theorem Tidy.history_advance (h : s.Tidy) (hstep : s.step (.advance thread env) = some t)
    (hadvances : s.Advances thread env t task sort rest u outcome) {effect : Effect T}
    (heffect : effect ∈ t.effects) {incarnation : ℕ} (hof : effect.Of incarnation) :
    incarnation < t.created := by
  obtain ⟨hle, hopened⟩ := perform_created hadvances.perform
  obtain ⟨added, heffects, hadded⟩ := perform_effects hadvances.perform
  rw [hadvances.sameData.2.2.1] at heffect
  rw [created_advance hstep hadvances]
  have hold : effect ∈ s.effects → incarnation < u.created := fun hmem ↦
    (h.history effect hmem incarnation hof).trans_le hle
  by_cases hmem : effect ∈ s.effects
  · exact hold hmem
  have hnew : effect ∈ added := by
    rw [heffects, List.mem_append] at heffect
    exact Option.mem_toList.mp (heffect.resolve_left hmem)
  rcases (hadded effect hnew).of hof with ⟨hopen, -⟩ | ⟨hneeds, rfl⟩
  · exact (hopened hopen effect heffect).elim hold fun hlt ↦ hlt incarnation hof
  · obtain ⟨i, topic, htopic, hstate, -⟩ :=
      h.tracked.current_of_needsLock hadvances.running hadvances.sections hneeds
    refine lt_of_lt_of_le ?_ hle
    by_contra hge
    dsimp only at hge
    rw [htopic, Option.getD_some] at hge
    rw [h.tracked.consistent.fresh i (not_lt.mp hge)] at hstate
    cases hstate

theorem Tidy.advance (h : s.Tidy) (hnew : s.FindsNothingNew (.advance thread env))
    (hstep : s.step (.advance thread env) = some t) : t.Tidy := by
  obtain ⟨task, sort, rest, u, outcome, hadvances, ht⟩ := h.tracked.advance hstep
  exact
    { tracked := ht
      files := fun _ hawaits ↦ h.files_advance hadvances ht hnew hawaits
      offsets := fun _ hawaits ↦ h.offsets_advance hadvances hnew hawaits
      members := fun _ _ _ hid ↦ h.members_advance hadvances hid
      kept := fun _ _ hfound ↦ h.kept_advance hadvances hnew hfound
      jobs := fun _ _ hstate hpending ↦ h.jobs_advance hadvances hstate hpending
      made := fun _ _ hfound ↦ h.made_advance hadvances hfound
      history := fun _ heffect _ hof ↦ h.history_advance hstep hadvances heffect hof }

omit [DecidableEq T] in
/-- Deletions under way are as before. -/
theorem Tidy.congr (h : s.Tidy) (ht : t.Tracked) (htopics : t.topics = s.topics)
    (hstates : t.states = s.states) (hcreated : t.created = s.created)
    (hcoordinator : t.coordinator = s.coordinator) (hoffsets : t.offsets = s.offsets)
    (hfiles : t.files = s.files) (heffects : t.effects = s.effects)
    (hawaits : ∀ name sort, s.Awaits name sort → t.Awaits name sort)
    (hdrains : ∀ name incarnation, s.Drains name incarnation → t.Drains name incarnation) :
    t.Tidy := by
  refine ⟨ht, fun name hno ↦ ?_, fun name hno group partition ↦ ?_, ?_, ?_,
    fun incarnation topic hstate hpending ↦ ?_, ?_, ?_⟩
  · rw [hfiles, h.files name (mt (hawaits name _) hno)]
    simp only [ownFiles, acknowledgedOn, htopics, hstates, heffects]
  · rw [hoffsets, h.offsets name (mt (hawaits name _) hno)]
    simp only [ownOffset, committedThrough, htopics, heffects]
  · rw [hcoordinator, htopics, heffects]
    exact h.members
  · unfold KeepsEntries
    rw [htopics, heffects]
    exact h.kept
  · rw [hstates] at hstate
    exact (h.jobs incarnation topic hstate hpending).imp_right (hdrains _ _)
  · rw [htopics, heffects]
    exact h.made
  · rw [heffects, hcreated]
    exact h.history

theorem Tidy.start {request : Request} (h : s.Tidy)
    (hstep : s.step (.start thread request) = some t) : t.Tidy := by
  obtain ⟨hnone, rfl, ht⟩ := h.tracked.start hstep
  have hkept : ∀ {other : T} {found : Task}, s.threads other = some found →
      (s.setTask thread (some { request := request, sections := request.kind.sections })).threads
        other = some found := by
    intro other found hother
    have hne : other ≠ thread := by
      rintro rfl
      rw [hnone] at hother
      cases hother
    simpa [RequestState.setTask, hne] using hother
  refine h.congr ht rfl rfl rfl rfl rfl rfl rfl ?_ ?_
  · rintro name sort' ⟨other, found, hother, hrest⟩
    exact ⟨other, found, hkept hother, hrest⟩
  · rintro name incarnation ⟨other, found, hother, hrest⟩
    exact ⟨other, found, hkept hother, hrest⟩

end Step

/-! ## Append jobs -/

section Append

variable {incarnation partition : ℕ} {topic topic' : TopicState T} {request : ProduceRequest}
  {name : Bytes}

/-- An append job that finds its directory writes its record and acknowledges it. -/
theorem runAppend_cases (s : RequestState T) (incarnation : ℕ) (topic : TopicState T)
    (partition : ℕ) (request : ProduceRequest) :
    s.runAppend incarnation topic partition request = s ∨
      ∃ files records, s.files topic.name = some files ∧
        files.partitions partition = some records ∧
        s.runAppend incarnation topic partition request =
          { s with
            files := Function.update s.files topic.name
              (some { files with
                partitions := Function.update files.partitions partition
                  (some (records ++ [⟨incarnation, request⟩])) })
            effects := s.effects ++ [.acknowledged incarnation partition request] } := by
  rw [runAppend]
  split
  · exact Or.inl rfl
  · next files hfiles =>
      split
      · exact Or.inl rfl
      · next records hrecords => exact Or.inr ⟨files, records, hfiles, hrecords, rfl⟩

theorem ownFiles_setTopic (hstate : s.states incarnation = some topic)
    (hcount : topic'.partitionCount = topic.partitionCount) (name : Bytes) :
    (s.setTopic incarnation topic').ownFiles name = s.ownFiles name := by
  refine ownFiles_congr rfl fun i _ ↦ ⟨?_, fun _ ↦ rfl⟩
  by_cases hi : i = incarnation
  · subst hi
    simp [RequestState.setTopic, hstate, hcount]
  · simp [RequestState.setTopic, hi]

/-- The record of an append job is the next one of its topic state. -/
theorem ownFiles_runAppend (hs : s.Consistent) (hstate : s.states incarnation = some topic')
    (hsame : topic'.name = topic.name) (hlive : name = topic.name → topic'.deleting = false)
    (hfiles : s.files name = s.ownFiles name) :
    (s.runAppend incarnation topic partition request).files name =
      (s.runAppend incarnation topic partition request).ownFiles name := by
  rcases runAppend_cases s incarnation topic partition request with hnothing |
    ⟨files, records, hfound, hrecords, happended⟩
  · rw [hnothing]
    exact hfiles
  rw [happended]
  by_cases hname : name = topic.name
  · subst hname
    have hcurrent := hs.current incarnation topic' hstate (hlive rfl)
    rw [hsame] at hcurrent
    have hown : s.ownFiles topic.name = some
        { partitionCount := topic'.partitionCount
          partitions := fun partition ↦
            if partition < topic'.partitionCount then
              some ((s.acknowledgedOn incarnation partition).map (FileRecord.mk incarnation))
            else none } := by
      rw [ownFiles, hcurrent, Option.bind_some, hstate]
      rfl
    rw [hfound, hown, Option.some.injEq] at hfiles
    subst hfiles
    dsimp only at hrecords
    split_ifs at hrecords with hpartition
    obtain rfl := Option.some.inj hrecords
    simp only [Function.update_self, ownFiles, hcurrent, Option.bind_some, hstate, Option.map_some,
      Option.some.injEq, TopicFiles.mk.injEq, true_and]
    funext k
    by_cases hk : k = partition
    · subst hk
      rw [Function.update_self, if_pos hpartition, acknowledgedOn, acknowledgedOn,
        List.filterMap_append]
      simp [Effect.recordOn]
    · rw [Function.update_of_ne hk, acknowledgedOn, acknowledgedOn, List.filterMap_append]
      simp [Effect.recordOn, Ne.symm hk]
  · have hadded : ∀ i k, s.topics name = some i → ∀ effect ∈ some (Effect.acknowledged (T := T)
        incarnation partition request), effect.recordOn i k = none := by
      rintro i k hi effect heffect
      rw [← Option.mem_some_iff.mp heffect]
      refine if_neg fun heq ↦ hname ?_
      obtain ⟨found, hfound', hfoundName, -⟩ := hs.known name i hi
      rw [← heq.1, hstate] at hfound'
      rw [← hfoundName, ← Option.some.inj hfound', hsame]
    dsimp only
    rw [Function.update_of_ne hname, hfiles]
    symm
    exact ownFiles_congr rfl fun i hi ↦ ⟨rfl, fun k ↦ acknowledgedOn_append rfl (hadded i k hi)⟩

variable [DecidableEq T]

theorem Tidy.append {job : ℕ} (h : s.Tidy) (hstep : s.step (.append incarnation job) = some t) :
    t.Tidy := by
  obtain ⟨topic, pending, hstate, hjob, hrun, htopics, hthreads, hcoordinator, hoffsets, ht⟩ :=
    h.tracked.append hstep
  set erased : RequestState T :=
    s.setTopic incarnation { topic with pending := topic.pending.eraseIdx job } with herased
  have hconsistent : erased.Consistent :=
    h.tracked.consistent.setTopic hstate rfl rfl fun _ _ _ _ _ ↦ rfl
  have hpending : topic.pending ≠ [] := by
    rintro hnil
    rw [hnil] at hjob
    cases hjob
  obtain ⟨added, heffects, hadded⟩ : ∃ added : Option (Effect T),
      t.effects = s.effects ++ added.toList ∧
        ∀ effect ∈ added, effect = .acknowledged incarnation pending.1 pending.2 := by
    rcases runAppend_cases erased incarnation topic pending.1 pending.2 with hsame |
      ⟨files, records, -, -, happended⟩
    · exact ⟨none, by rw [hrun, hsame]; exact (List.append_nil _).symm, by simp⟩
    · exact ⟨some _, by rw [hrun, happended]; rfl, fun _ heffect ↦
        (Option.mem_some_iff.mp heffect).symm⟩
  have hsubset : s.effects ⊆ t.effects := heffects ▸ List.subset_append_left _ _
  have hstates : t.states = erased.states ∧ t.created = s.created := by
    rcases runAppend_cases erased incarnation topic pending.1 pending.2 with hsame |
      ⟨files, records, -, -, happended⟩
    · rw [hrun, hsame]
      exact ⟨rfl, rfl⟩
    · rw [hrun, happended]
      exact ⟨rfl, rfl⟩
  have hawaits : ∀ {name sort}, s.Awaits name sort → t.Awaits name sort := by
    rintro name sort ⟨thread, task, htask, hrest⟩
    exact ⟨thread, task, hthreads ▸ htask, hrest⟩
  refine ⟨ht, fun name hno ↦ ?_, fun name hno group partition ↦ ?_, fun group name id hid ↦ ?_,
    fun name i hi ↦ ?_, fun i found hfound hleft ↦ ?_, fun name i hi ↦ ?_,
    fun effect heffect i hof ↦ ?_⟩
  · rw [hrun]
    refine ownFiles_runAppend hconsistent (Function.update_self _ _ _) rfl (fun hname ↦ ?_) ?_
    · rcases h.jobs incarnation topic hstate hpending with hlive | hdrains
      · exact hlive
      · exact absurd (hawaits (hname ▸ hdrains.awaits h.tracked)) hno
    · have hown : erased.ownFiles name = s.ownFiles name := ownFiles_setTopic hstate (by rfl) name
      rw [hown]
      exact h.files name (mt hawaits hno)
  · rw [hoffsets, h.offsets name (mt hawaits hno), ownOffset, ownOffset, htopics]
    refine congrArg _ (funext fun i ↦
      (committedThrough_append heffects fun effect heffect ↦ ?_).symm)
    rw [hadded effect heffect]
    rfl
  · obtain ⟨i, hi, hjoined⟩ := h.members group name id (hcoordinator ▸ hid)
    exact ⟨i, htopics ▸ hi, hsubset hjoined⟩
  · rw [KeepsEntries, heffects, List.pairwise_append]
    refine ⟨h.kept name i (htopics ▸ hi), ?_, fun effect _ removal hremoval sort hremoves ↦ ?_⟩
    · cases added with
      | none => exact List.Pairwise.nil
      | some effect => exact List.pairwise_singleton _ _
    · rw [hadded removal (Option.mem_toList.mp hremoval)] at hremoves
      cases sort <;> exact hremoves.elim
  · rw [hstates.1] at hfound
    have hdrains : ∀ {name}, s.Drains name i → t.Drains name i := by
      rintro name ⟨thread, task, htask, hrest⟩
      exact ⟨thread, task, hthreads ▸ htask, hrest⟩
    by_cases hi : i = incarnation
    · subst hi
      simp only [herased, RequestState.setTopic, Function.update_self, Option.some.injEq] at hfound
      subst hfound
      exact (h.jobs i topic hstate hpending).imp_right hdrains
    · simp only [herased, RequestState.setTopic, Function.update_of_ne hi] at hfound
      exact (h.jobs i found hfound hleft).imp_right hdrains
  · exact hsubset (h.made name i (htopics ▸ hi))
  · rw [hstates.2]
    rw [heffects, List.mem_append, Option.mem_toList] at heffect
    rcases heffect with hold | hnew
    · exact h.history effect hold i hof
    · rw [hadded effect hnew] at hof
      by_contra hge
      obtain rfl : incarnation = i := hof
      rw [h.tracked.consistent.fresh incarnation (not_lt.mp hge)] at hstate
      cases hstate

end Append

/-! ## Runs -/

section Runs

variable [DecidableEq T]

theorem Tidy.step {event : RequestEvent T} (h : s.Tidy) (hnew : s.FindsNothingNew event)
    (hstep : s.step event = some t) : t.Tidy := by
  cases event with
  | start thread request => exact h.start hstep
  | advance thread env => exact h.advance hnew hstep
  | append incarnation job => exact h.append hstep

/-- In every interleaving of requests whose removals come upon nothing of a topic that
has taken the name again, the topics are apart once all requests have ended. -/
theorem recreated_topics_apart (s : RequestState T) (hrest : s.AtRest)
    (events : List (RequestEvent T)) (hnew : Along RequestState.step FindsNothingNew s events)
    (t : RequestState T) (hrun : run RequestState.step s events = some t)
    (hidle : ∀ thread, t.threads thread = none) : t.AtRest := by
  refine Tidy.atRest ?_ hidle
  refine run_invariant FindsNothingNew Tidy ?_ hnew hrun hrest.tidy
  intro s event t hok hstep h
  exact h.step hok hstep

end Runs

/-- A request of a thread, with its first sections one after the other. -/
def performed (thread : Bool) (request : Request) (sections : ℕ) : List (RequestEvent Bool) :=
  .start thread request :: List.replicate sections (.advance thread { now := 0 })

def recreation : Request := { kind := .createTopic, topic := [116], partitionCount := 1 }

/-- The topic is created again when its deletion has come to its end. -/
def createdAfterDeletion : List (RequestEvent Bool) :=
  performed false recreation 3 ++
    performed false { kind := .produce, topic := [116], message := [118] } 3 ++ [.append 0 0] ++
    performed true { kind := .deleteTopic, topic := [116] } 7 ++
    performed false recreation 3 ++
    performed true { kind := .joinGroup, topic := [116], group := [103], memberId := [109]
                     sessionTimeoutMs := 1000 } 4

theorem recreated_topics_apart_afterDeletion :
    ∃ t, run RequestState.step (initial 8 {}) createdAfterDeletion = some t ∧
      t.topics [116] = some 1 ∧ t.AtRest := by
  have hends : ((run RequestState.step (initial 8 {}) createdAfterDeletion).map fun t ↦
      decide ((∀ thread, t.threads thread = none) ∧ t.topics [116] = some 1)) = some true := by
    decide
  obtain ⟨t, hrun, hends⟩ := Option.map_eq_some_iff.mp hends
  obtain ⟨hidle, htopic⟩ := of_decide_eq_true hends
  exact ⟨t, hrun, htopic, recreated_topics_apart (initial 8 {}) (atRest_initial 8)
    createdAfterDeletion (by decide) t hrun hidle⟩

/-- The topic is created again when its deletion has given up the name only. -/
def createdWithinDeletion : List (RequestEvent Bool) :=
  performed false recreation 3 ++ performed true { kind := .deleteTopic, topic := [116] } 3 ++
    performed false recreation 3 ++ List.replicate 4 (.advance true { now := 0 })

/-- Without the condition a topic can lose its directory. -/
theorem not_apart_createdWithinDeletion :
    ∃ t, run RequestState.step (initial 8 {}) createdWithinDeletion = some t ∧
      (∀ thread, t.threads thread = none) ∧ ¬t.Apart := by
  have hends : ((run RequestState.step (initial 8 {}) createdWithinDeletion).map fun t ↦
      decide ((∀ thread, t.threads thread = none) ∧ (t.files [116]).isSome = false ∧
        (t.ownFiles [116]).isSome = true)) = some true := by
    decide
  obtain ⟨t, hrun, hends⟩ := Option.map_eq_some_iff.mp hends
  obtain ⟨hidle, hfiles, hown⟩ := of_decide_eq_true hends
  refine ⟨t, hrun, hidle, fun hapart ↦ ?_⟩
  rw [hapart.files, hown] at hfiles
  cases hfiles

end RequestState

end BoltStream.Broker
