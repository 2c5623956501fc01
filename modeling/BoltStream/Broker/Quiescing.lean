import BoltStream.Broker.Runtime

/-!
# A deleted topic comes to rest

Once `deleting` is set nobody gets inside a topic state, so no job is added to its
partitions; a partition that is seen idle then stays idle, and the loop of
`wait_for_topic_appends_to_drain` may look at one after the other.
-/

namespace BoltStream.Broker

open BoltStream.Lib BoltStream.Protocol BoltStream.Storage

/-! ## The append queue -/

namespace QueueState

variable {P W : Type*} [Fintype W] {config : QueueConfig} {s s' : QueueState P W} {p : P}
  {partition : PartitionState}

theorem Accounts.withLog {phase : WorkerPhase} (h : Accounts config partition phase)
    (log : PartitionLog) : Accounts config { partition with log := log } phase := by
  cases phase <;> exact h

theorem QueueInv.withLogs (h : QueueInv config s) (logs : P → PartitionLog) :
    QueueInv config (s.withLogs logs) := by
  refine ⟨h.single, fun t ht ↦ ?_, h.held, fun q hq ↦ ?_, h.depth, ?_⟩
  · obtain ⟨hactive, haccounts⟩ := h.accounts t ht
    exact ⟨hactive, haccounts.withLog _⟩
  · obtain ⟨hpending, happended, hcompleted⟩ := h.settled q hq
    exact ⟨hpending, happended, hcompleted⟩
  · obtain ⟨hstopped, hexited, halive⟩ := h.lifecycle
    exact ⟨hstopped, hexited, halive⟩

variable [DecidableEq P]

omit [Fintype W] in
@[simp] theorem setPartition_self (s : QueueState P W) (p : P) (partition : PartitionState) :
    (s.setPartition p partition).partitions p = partition := by
  simp [setPartition]

omit [Fintype W] in
theorem setPartition_of_ne (s : QueueState P W) {p q : P} (h : q ≠ p)
    (partition : PartitionState) : (s.setPartition p partition).partitions q = s.partitions q := by
  simp [setPartition, h]

/-- A partition that nobody handles stays so. -/
theorem QueueInv.setIdle (h : QueueInv config s) (hidle : (s.partitions p).appendActive = false)
    (hidle' : partition.appendActive = false) (hsettled : Settled partition) :
    QueueInv config (s.setPartition p partition) := by
  have hother : ∀ q, ((s.setPartition p partition).partitions q).appendActive = true → q ≠ p := by
    rintro q hq rfl
    rw [setPartition_self, hidle'] at hq
    cases hq
  refine ⟨h.single, fun t ht ↦ ?_, fun q hq ↦ ?_, fun q hq ↦ ?_, fun q hq ↦ ?_, ?_⟩
  · have hne : t.1 ≠ p := by
      rintro rfl
      rw [(h.accounts t ht).1] at hidle
      cases hidle
    rw [setPartition_of_ne s hne]
    exact h.accounts t ht
  · have hne := hother q hq
    rw [setPartition_of_ne s hne] at hq
    exact h.held q hq
  · by_cases heq : q = p
    · rw [heq, setPartition_self]
      exact hsettled
    · rw [setPartition_of_ne s heq] at hq ⊢
      exact h.settled q hq
  · have hne := hother q hq
    rw [setPartition_of_ne s hne] at hq ⊢
    exact h.depth q hq
  · obtain ⟨hstopped, hexited, halive⟩ := h.lifecycle
    exact ⟨hstopped, hexited, halive⟩

variable [DecidableEq W] {w : W} {env : AppendEnv}

omit [Fintype W] in
/-- A worker changes the partition it handles, and activates none. -/
theorem workerStep_partitions (hstep : s.workerStep config w env = some s') :
    s'.partitions = s.partitions ∨
      ∃ q phase partition, s.workers w = .handling q phase ∧
        s'.partitions = Function.update s.partitions q partition := by
  unfold workerStep at hstep
  cases hworker : s.workers w with
  | waiting =>
      rw [hworker] at hstep
      cases hready : s.readyAppends with
      | nil =>
          simp only [hready] at hstep
          split_ifs at hstep
          obtain rfl := Option.some.inj hstep
          exact Or.inl rfl
      | cons ready rest =>
          simp only [hready] at hstep
          obtain rfl := Option.some.inj hstep
          exact Or.inl rfl
  | handling q phase =>
      cases phase with
      | popped job =>
          simp only [hworker] at hstep
          obtain rfl := Option.some.inj hstep
          exact Or.inr ⟨q, _, _, rfl, rfl⟩
      | batched jobs =>
          simp only [hworker] at hstep
          obtain rfl := Option.some.inj hstep
          exact Or.inr ⟨q, _, _, rfl, rfl⟩
      | ran jobs results =>
          simp only [hworker] at hstep
          obtain rfl := Option.some.inj hstep
          exact Or.inr ⟨q, _, _, rfl, rfl⟩
      | posted =>
          simp only [hworker] at hstep
          cases hpending : (s.partitions q).pendingAppends with
          | nil =>
              simp only [hpending] at hstep
              obtain rfl := Option.some.inj hstep
              exact Or.inr ⟨q, _, _, rfl, rfl⟩
          | cons next rest =>
              simp only [hpending] at hstep
              obtain rfl := Option.some.inj hstep
              exact Or.inr ⟨q, _, _, rfl, rfl⟩
      | handing next =>
          simp only [hworker] at hstep
          obtain rfl := Option.some.inj hstep
          exact Or.inl rfl
  | exited =>
      rw [hworker] at hstep
      cases hstep

/-- Workers leave idle partitions alone. -/
theorem QueueInv.workerStep_idle (h : QueueInv config s)
    (hstep : s.workerStep config w env = some s')
    (hidle : (s.partitions p).appendActive = false) : s'.partitions p = s.partitions p := by
  rcases workerStep_partitions hstep with heq | ⟨q, phase, partition, hworker, heq⟩
  · rw [heq]
  · have hne : p ≠ q := by
      rintro rfl
      have hbusy := (h.accounts _ (mem_tokens hworker)).1
      rw [hidle] at hbusy
      cases hbusy
    rw [heq, Function.update_of_ne hne]

omit [Fintype W] in
theorem step_tryEnqueueAppend {job : AppendJob}
    (hstep : s.step config (.tryEnqueueAppend p job) = some s') :
    ∃ partition, s'.partitions = Function.update s.partitions p partition := by
  rw [step] at hstep
  split_ifs at hstep
  dsimp only at hstep
  split at hstep
  · obtain rfl := Option.some.inj hstep
    exact ⟨_, rfl⟩
  · obtain rfl := Option.some.inj hstep
    exact ⟨_, rfl⟩

/-- A client that is about to schedule a partition has its token. -/
theorem QueueInv.active_of_scheduleAppend (h : QueueInv config s) {client : ℕ} {any : QueueConfig}
    (hstep : s.step any (.scheduleAppend client) = some s') :
    s'.partitions = s.partitions ∧ ∃ q, (s.partitions q).appendActive = true := by
  obtain ⟨ready, hready, rfl⟩ := Option.map_eq_some_iff.mp hstep
  refine ⟨rfl, ready.1, ?_⟩
  have hmem : queuedToken ready ∈ s.tokens := by
    rw [tokens, places, Multiset.mem_add, Multiset.mem_add]
    exact Or.inl (Or.inl (List.mem_map_of_mem (List.mem_of_getElem? hready)))
  exact (h.accounts _ hmem).1

/-- A worker starts every batch with one job, also when none is allowed. -/
def fullBatches (config : QueueConfig) : QueueConfig :=
  if config.appendBatchRecords = 0 then { config with appendBatchRecords := 1 } else config

theorem one_le_fullBatches (config : QueueConfig) :
    1 ≤ (fullBatches config).appendBatchRecords.toNat := by
  rw [fullBatches]
  split_ifs with hzero
  · exact le_rfl
  · apply Nat.one_le_iff_ne_zero.mpr
    intro heq
    exact hzero (UInt32.toNat_inj.mp heq)

omit [Fintype W] in
theorem workerStep_fullBatches (config : QueueConfig) (s : QueueState P W) (w : W)
    (env : AppendEnv) :
    s.workerStep (fullBatches config) w env = s.workerStep config w env := by
  rw [fullBatches]
  split_ifs with hzero
  · unfold workerStep
    rw [hzero]
    rfl
  · rfl

omit [Fintype W] in
theorem step_tryEnqueueAppend_fullBatches (config : QueueConfig) (s : QueueState P W)
    (job : AppendJob) :
    s.step (fullBatches config) (.tryEnqueueAppend p job) =
      s.step config (.tryEnqueueAppend p job) := by
  rw [fullBatches]
  split_ifs <;> rfl

end QueueState

/-! ## Topic states under requests -/

namespace RequestState

variable {T : Type*} {s t u : RequestState T} {thread : T}

/-- A topic state before and after something that `thread` does: it stays deleted, and
whoever else is inside stays inside. -/
structure TopicKept (thread : T) (topic topic' : TopicState T) : Prop where
  count : topic'.partitionCount = topic.partitionCount
  deleting : topic.deleting = true → topic'.deleting = true
  held : ∀ other, other ≠ thread → topic.holder = some other →
    topic'.holder = some other ∧ topic'.deleting = topic.deleting

def Keeps (thread : T) (s t : RequestState T) : Prop :=
  ∀ incarnation topic, s.states incarnation = some topic →
    ∃ topic', t.states incarnation = some topic' ∧ TopicKept thread topic topic'

theorem TopicKept.refl (thread : T) (topic : TopicState T) : TopicKept thread topic topic :=
  ⟨rfl, id, fun _ _ hheld ↦ ⟨hheld, rfl⟩⟩

theorem TopicKept.trans {a b c : TopicState T} (hab : TopicKept thread a b)
    (hbc : TopicKept thread b c) : TopicKept thread a c := by
  refine ⟨hbc.count.trans hab.count, fun h ↦ hbc.deleting (hab.deleting h),
    fun other hne hheld ↦ ?_⟩
  obtain ⟨hheld', hdeleting⟩ := hab.held other hne hheld
  obtain ⟨hheld'', hdeleting'⟩ := hbc.held other hne hheld'
  exact ⟨hheld'', hdeleting'.trans hdeleting⟩

theorem Keeps.of_states_eq (h : t.states = s.states) : s.Keeps thread t := by
  intro i topic hstate
  exact ⟨topic, by rw [h, hstate], .refl thread topic⟩

theorem Keeps.trans (hst : s.Keeps thread t) (htu : t.Keeps thread u) : s.Keeps thread u := by
  intro i topic hstate
  obtain ⟨topic', hstate', hkept⟩ := hst i topic hstate
  obtain ⟨topic'', hstate'', hkept'⟩ := htu i topic' hstate'
  exact ⟨topic'', hstate'', hkept.trans hkept'⟩

theorem keeps_setTopic {incarnation : ℕ} {topic topic' : TopicState T}
    (hstate : s.states incarnation = some topic) (hkept : TopicKept thread topic topic') :
    s.Keeps thread (s.setTopic incarnation topic') := by
  intro i found hfound
  by_cases hi : i = incarnation
  · subst hi
    obtain rfl := Option.some.inj (hstate.symm.trans hfound)
    exact ⟨topic', by simp [setTopic], hkept⟩
  · exact ⟨found, by simpa [setTopic, hi] using hfound, .refl thread found⟩

theorem setTopic_self {incarnation : ℕ} {topic : TopicState T}
    (hstate : s.states incarnation = some topic) : s.setTopic incarnation topic = s := by
  rw [setTopic, ← hstate, Function.update_eq_self]

/-- Nobody else loses a mutex that is given back or free. -/
theorem topicKept_of_holder {topic topic' : TopicState T}
    (hcount : topic'.partitionCount = topic.partitionCount)
    (hdeleting : topic.deleting = true → topic'.deleting = true)
    (hholder : topic.holder = none ∨ topic.holder = some thread) :
    TopicKept thread topic topic' := by
  refine ⟨hcount, hdeleting, fun other hne hheld ↦ ?_⟩
  rcases hholder with hnone | hown
  · rw [hnone] at hheld
    cases hheld
  · rw [hown] at hheld
    exact absurd (Option.some.inj hheld).symm hne

theorem keeps_openTopic (h : s.Consistent) (task : Task) :
    s.Keeps thread (s.openTopic task).1 := by
  intro i topic hstate
  refine ⟨topic, ?_, .refl thread topic⟩
  rw [openTopic]
  cases s.topics task.request.topic with
  | some incarnation =>
      dsimp only
      split_ifs <;> exact hstate
  | none =>
      have hne : i ≠ s.created := fun heq ↦ by
        rw [heq, h.fresh s.created le_rfl] at hstate
        cases hstate
      exact (Function.update_of_ne hne _ _).trans hstate

theorem keeps_releaseTopic (thread : T) {task : Task} {now : ℤ} {outcome : Except BrokerError Task}
    (h : s.releaseTopic task now = some (u, outcome)) :
    s.Keeps thread u ∧ ∀ task', outcome = .ok task' → ∃ incarnation topic,
      task'.topic = some incarnation ∧ u.states incarnation = some topic ∧
        topic.deleting = true := by
  simp only [releaseTopic] at h
  cases htopic : s.topics task.request.topic with
  | none =>
      rw [htopic] at h
      obtain ⟨rfl, rfl⟩ := Prod.mk.inj (Option.some.inj h)
      exact ⟨.of_states_eq rfl, fun task' hok ↦ by cases hok⟩
  | some incarnation =>
      rw [htopic] at h
      obtain ⟨topic, hstate, h⟩ := Option.bind_eq_some_iff.mp h
      split_ifs at h with hheld hactive
      · obtain ⟨rfl, rfl⟩ := Prod.mk.inj (Option.some.inj h)
        exact ⟨.of_states_eq rfl, fun task' hok ↦ by cases hok⟩
      · obtain ⟨rfl, rfl⟩ := Prod.mk.inj (Option.some.inj h)
        have hfree : topic.holder = none := by simpa using hheld
        refine ⟨?_, fun task' hok ↦ ?_⟩
        · exact (keeps_setTopic hstate (topicKept_of_holder rfl (fun _ ↦ rfl) (Or.inl hfree)) :
            s.Keeps thread (s.setTopic incarnation { topic with deleting := true }))
        · rw [← Except.ok.inj hok]
          exact ⟨incarnation, { topic with deleting := true }, rfl,
            Function.update_self _ _ _, rfl⟩

theorem keeps_perform (h : s.Consistent) {task : Task} {env : SectionEnv} {sort : Section}
    {outcome : Except BrokerError Task}
    (hperform : s.perform thread task env sort = some (u, outcome)) : s.Keeps thread u := by
  have hstate : ∀ {topic : TopicState T}, task.topic.bind s.states = some topic →
      s.states (task.topic.getD 0) = some topic := by
    intro topic hbind
    obtain ⟨i, hi, hfound⟩ := Option.bind_eq_some_iff.mp hbind
    rw [hi, Option.getD_some, hfound]
  by_cases hcall : callsCoordinator sort = true
  · rw [perform_call hcall] at hperform
    obtain ⟨rfl, -⟩ := Prod.mk.inj (Option.some.inj hperform)
    exact .of_states_eq rfl
  cases sort with
  | validateGroup | validateTopic | validateCount | findTopic | checkRange | readOffsets
  | removeFiles | removeOffsets | removeGroups =>
      obtain ⟨rfl, -⟩ := Prod.mk.inj (Option.some.inj hperform)
      exact .of_states_eq rfl
  | lockTopic =>
      obtain ⟨topic, hbind, hperform⟩ := Option.bind_eq_some_iff.mp hperform
      split_ifs at hperform with hheld hdeleting
      · obtain ⟨rfl, -⟩ := Prod.mk.inj (Option.some.inj hperform)
        exact .of_states_eq rfl
      · obtain ⟨rfl, -⟩ := Prod.mk.inj (Option.some.inj hperform)
        have hfree : topic.holder = none := by simpa using hheld
        exact keeps_setTopic (hstate hbind) (topicKept_of_holder rfl id (Or.inl hfree))
  | findPartition =>
      obtain ⟨topic, -, hdone⟩ := Option.map_eq_some_iff.mp hperform
      obtain ⟨rfl, -⟩ := Prod.mk.inj hdone
      exact .of_states_eq rfl
  | commit =>
      simp only [perform] at hperform
      split at hperform
      · obtain ⟨rfl, -⟩ := Prod.mk.inj (Option.some.inj hperform)
        exact .of_states_eq rfl
      · obtain ⟨rfl, -⟩ := Prod.mk.inj (Option.some.inj hperform)
        exact .of_states_eq rfl
  | releaseTopic => exact (keeps_releaseTopic thread hperform).1
  | drain =>
      obtain ⟨topic, -, hperform⟩ := Option.bind_eq_some_iff.mp hperform
      split_ifs at hperform
      obtain ⟨rfl, -⟩ := Prod.mk.inj (Option.some.inj hperform)
      exact .of_states_eq rfl
  | openTopic =>
      rw [perform] at hperform
      have hopened : (s.openTopic task).1 = u := by rw [Option.some.inj hperform]
      exact hopened ▸ keeps_openTopic h task
  | enqueue =>
      obtain ⟨topic, hbind, hperform⟩ := Option.bind_eq_some_iff.mp hperform
      split_ifs at hperform with hpartition hfull
      · obtain ⟨rfl, -⟩ := Prod.mk.inj (Option.some.inj hperform)
        exact .of_states_eq rfl
      · obtain ⟨rfl, -⟩ := Prod.mk.inj (Option.some.inj hperform)
        exact keeps_setTopic (hstate hbind) ⟨rfl, id, fun _ _ hheld ↦ ⟨hheld, rfl⟩⟩
  | expire | requireNoMembers | requireNoTopicMembers | join | sync | heartbeat | leave
  | validateCommit | countMembers => exact absurd rfl hcall

variable [DecidableEq T]

theorem keeps_finish {task : Task} (hlocked : s.LockHeld thread task) :
    s.Keeps thread (s.finish thread task) := by
  unfold finish
  dsimp only
  split
  · rename_i topic hl hstate
    obtain ⟨i, held, hi, hheld, -, -, hholder⟩ := hlocked hl
    rw [hi, Option.bind_some] at hstate
    obtain rfl := Option.some.inj (hheld.symm.trans hstate)
    rw [hi, Option.getD_some]
    exact keeps_setTopic (s := s.setTask thread none) hheld
      (topicKept_of_holder rfl id (Or.inr hholder))
  · exact .of_states_eq rfl

/-- After a section the request ends or goes on. -/
theorem keeps_after {env : SectionEnv} {task : Task} {sort : Section} {rest : List Section}
    {outcome : Except BrokerError Task} (h : s.Advances thread env t task sort rest u outcome)
    (hstep : s.step (.advance thread env) = some t) : u.Keeps thread t := by
  have hlocked : u.LockHeld thread task :=
    h.performed.consistent.locked thread task (h.performed.threads ▸ h.running)
  simp only [step, h.running, h.sections, h.perform, Option.map_some, Option.some.injEq] at hstep
  cases outcome with
  | error error =>
      obtain rfl := hstep
      exact keeps_finish hlocked
  | ok task' =>
      dsimp only at hstep
      split_ifs at hstep
      · obtain rfl := hstep
        exact keeps_finish (h.performed.lockHeld task' rfl)
      · obtain rfl := hstep
        exact .of_states_eq rfl

theorem Tracked.keeps (h : s.Tracked) {env : SectionEnv}
    (hstep : s.step (.advance thread env) = some t) : s.Keeps thread t := by
  obtain ⟨task, sort, rest, u, outcome, hadvances, -⟩ := h.advance hstep
  exact (keeps_perform h.consistent hadvances.perform).trans (keeps_after hadvances hstep)

theorem Tracked.finish (h : s.Tracked) {task : Task} (htask : s.threads thread = some task) :
    (s.finish thread task).Tracked :=
  (h.finishAfter h.consistent rfl (h.consistent.locked thread task htask)).1

omit [DecidableEq T] in
/-- The mutex of a topic state that no request holds changes hands. -/
theorem Tracked.setHolder (h : s.Tracked) {incarnation : ℕ} {topic : TopicState T}
    (hstate : s.states incarnation = some topic)
    (hfree : ∀ other, topic.holder = some other → s.threads other = none) (holder : Option T) :
    (s.setTopic incarnation { topic with holder := holder }).Tracked := by
  refine ⟨h.consistent.setTopic hstate rfl rfl fun other task htask hlocked hi ↦ ?_, h.placed⟩
  obtain ⟨j, held, hj, hheld, -, -, hholder⟩ := h.consistent.locked other task htask hlocked
  obtain rfl := Option.some.inj (hi.symm.trans hj)
  obtain rfl := Option.some.inj (hstate.symm.trans hheld)
  rw [hfree other hholder] at htask
  cases htask

end RequestState

/-! ## What a step keeps -/

namespace RuntimeState

variable {T W : Type*} {config : QueueConfig} {s t u : RuntimeState T W} {thread : T}

/-- `append_active` is not set. -/
def Idle (s : RuntimeState T W) (p : ℕ × ℕ) : Prop := (s.queue.partitions p).appendActive = false

/-- Topic states stay and stay deleted.  The idle partitions of a deleted one are left
alone, and so is the whole topic state when all of them are idle. -/
structure Kept (s t : RuntimeState T W) : Prop where
  topics : ∀ incarnation topic, s.requests.states incarnation = some topic →
    ∃ topic', t.requests.states incarnation = some topic' ∧
      topic'.partitionCount = topic.partitionCount ∧
        (topic.deleting = true → topic'.deleting = true)
  partitions : ∀ incarnation topic k, s.requests.states incarnation = some topic →
    topic.deleting = true → s.Idle (incarnation, k) →
      t.queue.partitions (incarnation, k) = s.queue.partitions (incarnation, k)
  uses : ∃ added, t.uses = s.uses ++ added ∧ ∀ use ∈ added, ∀ topic,
    s.requests.states use.1 = some topic → topic.deleting = true → ∃ k, ¬s.Idle (use.1, k)

theorem topics_of_keeps (h : s.requests.Keeps thread t.requests) (incarnation : ℕ)
    (topic : TopicState T) (hstate : s.requests.states incarnation = some topic) :
    ∃ topic', t.requests.states incarnation = some topic' ∧
      topic'.partitionCount = topic.partitionCount ∧
        (topic.deleting = true → topic'.deleting = true) := by
  obtain ⟨topic', hstate', hkept⟩ := h incarnation topic hstate
  exact ⟨topic', hstate', hkept.count, hkept.deleting⟩

theorem Kept.of_eq (hstates : t.requests.states = s.requests.states)
    (hpartitions : t.queue.partitions = s.queue.partitions) (huses : t.uses = s.uses) :
    Kept s t := by
  refine ⟨fun i topic hstate ↦ ⟨topic, by rw [hstates, hstate], rfl, id⟩,
    fun i topic k _ _ _ ↦ by rw [hpartitions], [], by rw [huses, List.append_nil], nofun⟩

theorem Kept.idle (h : Kept s t) {incarnation k : ℕ} {topic : TopicState T}
    (hstate : s.requests.states incarnation = some topic) (hdeleting : topic.deleting = true)
    (hidle : s.Idle (incarnation, k)) : t.Idle (incarnation, k) := by
  rw [Idle, h.partitions incarnation topic k hstate hdeleting hidle]
  exact hidle

theorem Kept.trans (hst : Kept s t) (htu : Kept t u) : Kept s u := by
  refine ⟨fun i topic hstate ↦ ?_, fun i topic k hstate hdeleting hidle ↦ ?_, ?_⟩
  · obtain ⟨topic', hstate', hcount, hkept⟩ := hst.topics i topic hstate
    obtain ⟨topic'', hstate'', hcount', hkept'⟩ := htu.topics i topic' hstate'
    exact ⟨topic'', hstate'', hcount'.trans hcount, fun h ↦ hkept' (hkept h)⟩
  · obtain ⟨topic', hstate', -, hkept⟩ := hst.topics i topic hstate
    rw [htu.partitions i topic' k hstate' (hkept hdeleting) (hst.idle hstate hdeleting hidle)]
    exact hst.partitions i topic k hstate hdeleting hidle
  · obtain ⟨added, huses, hadded⟩ := hst.uses
    obtain ⟨added', huses', hadded'⟩ := htu.uses
    refine ⟨added ++ added', by rw [huses', huses, List.append_assoc],
      fun use huse topic hstate hdeleting ↦ ?_⟩
    rcases List.mem_append.mp huse with huse | huse
    · exact hadded use huse topic hstate hdeleting
    · obtain ⟨topic', hstate', -, hkept⟩ := hst.topics use.1 topic hstate
      obtain ⟨k, hbusy⟩ := hadded' use huse topic' hstate' (hkept hdeleting)
      exact ⟨k, fun hidle ↦ hbusy (hst.idle hstate hdeleting hidle)⟩

/-- Work on a topic state that is not deleted. -/
theorem Kept.of_live (hkeeps : s.requests.Keeps thread t.requests) {incarnation : ℕ}
    (hlive : ∀ topic, s.requests.states incarnation = some topic → topic.deleting = false)
    (hpartitions : ∀ p : ℕ × ℕ, p.1 ≠ incarnation → p.1 < s.requests.created →
      t.queue.partitions p = s.queue.partitions p)
    (hcreated : ∀ i topic, s.requests.states i = some topic → i < s.requests.created)
    (huses : ∃ added, t.uses = s.uses ++ added ∧ ∀ use ∈ added, use.1 = incarnation) :
    Kept s t := by
  have hother : ∀ i topic, s.requests.states i = some topic → topic.deleting = true →
      i ≠ incarnation := by
    rintro i topic hstate hdeleting rfl
    rw [hlive topic hstate] at hdeleting
    cases hdeleting
  obtain ⟨added, huses, hadded⟩ := huses
  refine ⟨topics_of_keeps hkeeps, fun i topic k hstate hdeleting _ ↦ ?_, added, huses,
    fun use huse topic hstate hdeleting ↦ ?_⟩
  · exact hpartitions (i, k) (hother i topic hstate hdeleting) (hcreated i topic hstate)
  · exact absurd (hadded use huse) (hother use.1 topic hstate hdeleting)

/-! ## The invariant -/

structure Sound [Fintype W] (config : QueueConfig) (s : RuntimeState T W) : Prop where
  tracked : s.requests.Tracked
  queue : QueueState.QueueInv (QueueState.fullBatches config) s.queue
  alone : ∀ thread task, s.logTasks thread = some task → s.requests.threads thread = none
  inside : ∀ thread task incarnation, s.logTasks thread = some task →
    task.inside = some incarnation → ∃ topic, s.requests.states incarnation = some topic ∧
      topic.deleting = false ∧ topic.holder = some thread
  active : ∀ p, ¬s.Idle p → Nonempty W ∧ ∃ topic, s.requests.states p.1 = some topic ∧
    p.2 < topic.partitionCount
  /-- A deletion that waits has marked its topic state. -/
  draining : ∀ thread task rest, s.requests.threads thread = some task →
    task.sections = .drain :: rest → ∃ incarnation topic, task.topic = some incarnation ∧
      s.requests.states incarnation = some topic ∧ topic.deleting = true
  /-- What it has seen idle is idle. -/
  scanned : ∀ thread, s.scanned thread ≠ 0 → ∃ task rest incarnation,
    s.requests.threads thread = some task ∧ task.sections = .drain :: rest ∧
      task.topic = some incarnation ∧ ∀ k < s.scanned thread, s.Idle (incarnation, k)
  drained : ∀ incarnation ∈ s.drained, ∃ topic, s.requests.states incarnation = some topic ∧
    topic.deleting = true ∧ ∀ k < topic.partitionCount, s.Idle (incarnation, k)

variable [Fintype W]

theorem Sound.created (h : Sound config s) (incarnation : ℕ) (topic : TopicState T)
    (hstate : s.requests.states incarnation = some topic) :
    incarnation < s.requests.created := by
  by_contra hle
  rw [h.tracked.consistent.fresh incarnation (by omega)] at hstate
  cases hstate

/-- Deletions that wait, in a step of someone else. -/
theorem Sound.keep (h : Sound config s) (hkept : Kept s t) (htracked : t.requests.Tracked)
    (hqueue : QueueState.QueueInv (QueueState.fullBatches config) t.queue)
    (halone : ∀ thread task, t.logTasks thread = some task → t.requests.threads thread = none)
    (hinside : ∀ thread task incarnation, t.logTasks thread = some task →
      task.inside = some incarnation → ∃ topic, t.requests.states incarnation = some topic ∧
        topic.deleting = false ∧ topic.holder = some thread)
    (hactive : ∀ p, ¬t.Idle p → ¬s.Idle p ∨ Nonempty W ∧
      ∃ topic, t.requests.states p.1 = some topic ∧ p.2 < topic.partitionCount)
    (hdraining : ∀ thread task rest, t.requests.threads thread = some task →
      task.sections = .drain :: rest → s.requests.threads thread = some task ∨
        ∃ incarnation topic, task.topic = some incarnation ∧
          t.requests.states incarnation = some topic ∧ topic.deleting = true)
    (hscanned : ∀ thread, t.scanned thread ≠ 0 → t.scanned thread = s.scanned thread ∧
      t.requests.threads thread = s.requests.threads thread)
    (hdrained : t.drained = s.drained) : Sound config t := by
  refine ⟨htracked, hqueue, halone, hinside, fun p hp ↦ ?_, fun thread task rest htask hrest ↦ ?_,
    fun thread hne ↦ ?_, fun i hi ↦ ?_⟩
  · rcases hactive p hp with hbusy | hfound
    · obtain ⟨hworkers, topic, hstate, hlt⟩ := h.active p hbusy
      obtain ⟨topic', hstate', hcount, -⟩ := hkept.topics p.1 topic hstate
      exact ⟨hworkers, topic', hstate', hcount ▸ hlt⟩
    · exact hfound
  · rcases hdraining thread task rest htask hrest with hold | hfound
    · obtain ⟨i, topic, hi, hstate, hdeleting⟩ := h.draining thread task rest hold hrest
      obtain ⟨topic', hstate', -, hkeep⟩ := hkept.topics i topic hstate
      exact ⟨i, topic', hi, hstate', hkeep hdeleting⟩
    · exact hfound
  · obtain ⟨hsame, hthreads⟩ := hscanned thread hne
    rw [hsame] at hne
    obtain ⟨task, rest, i, htask, hrest, hi, hidle⟩ := h.scanned thread hne
    refine ⟨task, rest, i, hthreads.trans htask, hrest, hi, fun k hk ↦ ?_⟩
    obtain ⟨j, topic, hj, hstate, hdeleting⟩ := h.draining thread task rest htask hrest
    obtain rfl := Option.some.inj (hi.symm.trans hj)
    exact hkept.idle hstate hdeleting (hidle k (hsame ▸ hk))
  · rw [hdrained] at hi
    obtain ⟨topic, hstate, hdeleting, hidle⟩ := h.drained i hi
    obtain ⟨topic', hstate', hcount, hkeep⟩ := hkept.topics i topic hstate
    refine ⟨topic', hstate', hkeep hdeleting, fun k hk ↦ ?_⟩
    exact hkept.idle hstate hdeleting (hidle k (hcount ▸ hk))

/-- The tasks inside topic states stay inside while a request goes on. -/
theorem Sound.inside_keeps (h : Sound config s) (hkeeps : s.requests.Keeps thread t.requests)
    (hfree : s.logTasks thread = none) (hlogTasks : t.logTasks = s.logTasks) (other : T)
    (task : LogTask) (incarnation : ℕ) (htask : t.logTasks other = some task)
    (hinside : task.inside = some incarnation) :
    ∃ topic, t.requests.states incarnation = some topic ∧ topic.deleting = false ∧
      topic.holder = some other := by
  rw [hlogTasks] at htask
  have hne : other ≠ thread := by
    rintro rfl
    rw [hfree] at htask
    cases htask
  obtain ⟨topic, hstate, hdeleting, hholder⟩ := h.inside other task incarnation htask hinside
  obtain ⟨topic', hstate', hkept⟩ := hkeeps incarnation topic hstate
  obtain ⟨hholder', hdeleting'⟩ := hkept.held other hne hholder
  exact ⟨topic', hstate', hdeleting'.trans hdeleting, hholder'⟩

theorem Sound.scanned_eq_zero (h : Sound config s) (hhead : ∀ task rest,
    s.requests.threads thread = some task → task.sections ≠ .drain :: rest) :
    s.scanned thread = 0 := by
  by_contra hne
  obtain ⟨task, rest, i, htask, hrest, -⟩ := h.scanned thread hne
  exact hhead task rest htask hrest

theorem Sound.logTask_eq_none (h : Sound config s) {task : Task}
    (htask : s.requests.threads thread = some task) : s.logTasks thread = none := by
  cases hlog : s.logTasks thread with
  | none => rfl
  | some logTask =>
      rw [h.alone thread logTask hlog] at htask
      cases htask

/-! ## Requests -/

/-- A request that is not waiting for appends goes on. -/
theorem Sound.request (h : Sound config s) (hkept : Kept s t) (htracked : t.requests.Tracked)
    (hqueue : QueueState.QueueInv (QueueState.fullBatches config) t.queue)
    (hkeeps : s.requests.Keeps thread t.requests) (hfree : s.logTasks thread = none)
    (hlogTasks : t.logTasks = s.logTasks)
    (hothers : ∀ other, other ≠ thread → t.requests.threads other = s.requests.threads other)
    (hactive : ∀ p, ¬t.Idle p → ¬s.Idle p ∨ Nonempty W ∧
      ∃ topic, t.requests.states p.1 = some topic ∧ p.2 < topic.partitionCount)
    (hown : ∀ task rest, t.requests.threads thread = some task → task.sections = .drain :: rest →
      ∃ incarnation topic, task.topic = some incarnation ∧
        t.requests.states incarnation = some topic ∧ topic.deleting = true)
    (hscanned : t.scanned = s.scanned) (hzero : s.scanned thread = 0)
    (hdrained : t.drained = s.drained) : Sound config t := by
  refine h.keep hkept htracked hqueue (fun other task htask ↦ ?_)
    (h.inside_keeps hkeeps hfree hlogTasks) hactive (fun other task rest htask hrest ↦ ?_)
    (fun other hne ↦ ?_) hdrained
  · have hne : other ≠ thread := by
      rintro rfl
      rw [hlogTasks, hfree] at htask
      cases htask
    rw [hothers other hne]
    exact h.alone other task (hlogTasks ▸ htask)
  · by_cases heq : other = thread
    · subst heq
      exact Or.inr (hown task rest htask hrest)
    · exact Or.inl (hothers other heq ▸ htask)
  · rw [hscanned] at hne ⊢
    have heq : other ≠ thread := by
      rintro rfl
      exact hne hzero
    exact ⟨rfl, hothers other heq⟩

variable [DecidableEq T]

theorem Sound.start (h : Sound config s) {request : Request} {requests : RequestState T}
    (hfree : s.free thread = true)
    (hstep : s.requests.step (.start thread request) = some requests) :
    Kept s { s with requests := requests } ∧ Sound config { s with requests := requests } := by
  obtain ⟨hnone, hrequests, htracked⟩ := h.tracked.start hstep
  have hstates : requests.states = s.requests.states := by
    rw [hrequests]
    rfl
  have hkept : Kept s { s with requests := requests } := .of_eq hstates rfl rfl
  have hlog : s.logTasks thread = none := by
    rw [free, Bool.and_eq_true] at hfree
    simpa using hfree.2
  refine ⟨hkept, h.request hkept htracked h.queue (.of_states_eq hstates) hlog rfl
    (fun other hne ↦ ?_) (fun p hp ↦ Or.inl hp) (fun task rest htask hrest ↦ ?_) rfl
    (h.scanned_eq_zero fun task rest htask ↦ ?_) rfl⟩
  · simp [hrequests, RequestState.setTask, hne]
  · simp only [hrequests, RequestState.setTask, Function.update_self, Option.some.injEq] at htask
    subst htask
    dsimp only at hrest
    cases hkind : request.kind <;> rw [hkind] at hrest <;> cases hrest
  · rw [hnone] at htask
    cases htask

/-- Only the section that marks a topic state comes before the waiting. -/
theorem sort_of_drain {kind : RequestKind} {sort : Section} {rest : List Section}
    (hrest : sort :: .drain :: rest <:+ kind.sections) : sort = .releaseTopic := by
  have hplace := RequestKind.sections_tails (fun kind rest ↦ ∀ sort ∈ rest.head?,
    rest.tail.head? = some .drain → sort = .releaseTopic) (by decide) hrest
  exact hplace sort rfl rfl

/-- A request that waits after its step has just marked its topic state. -/
theorem Sound.draining_advance (h : Sound config s) {env : SectionEnv} {task : Task}
    {sort : Section} {rest : List Section} {u requests : RequestState T}
    {outcome : Except BrokerError Task}
    (hadvances : s.requests.Advances thread env requests task sort rest u outcome)
    (hstep : s.requests.step (.advance thread env) = some requests) {task' : Task}
    {rest' : List Section} (htask' : requests.threads thread = some task')
    (hrest' : task'.sections = .drain :: rest') :
    ∃ incarnation topic, task'.topic = some incarnation ∧
      requests.states incarnation = some topic ∧ topic.deleting = true := by
  obtain ⟨rfl, -⟩ := hadvances.next task' htask'
  obtain ⟨hrequest, hsections, -⟩ := hadvances.performed.request task' rfl
  have hsuffix := (h.tracked.placed thread task hadvances.running).suffix
  have hrest : rest = .drain :: rest' := hsections.symm.trans hrest'
  rw [hadvances.sections, hrest] at hsuffix
  have hperform := hadvances.perform
  rw [sort_of_drain hsuffix] at hperform
  obtain ⟨i, topic, hi, hstate, hdeleting⟩ :=
    (RequestState.keeps_releaseTopic thread hperform).2 task' rfl
  obtain ⟨topic', hstate', hkept⟩ := RequestState.keeps_after hadvances hstep i topic hstate
  exact ⟨i, topic', hi, hstate', hkept.deleting hdeleting⟩

theorem Sound.advanceRequest (h : Sound config s) {task : Task} {sort : Section}
    {rest : List Section} {env : RuntimeEnv} (htask : s.requests.threads thread = some task)
    (hsections : task.sections = sort :: rest) (hsort : sort ≠ .drain)
    (hstep : s.advanceRequest thread task sort env = some t) : Kept s t ∧ Sound config t := by
  obtain ⟨requests, hrequests, rfl⟩ := Option.map_eq_some_iff.mp hstep
  obtain ⟨task', sort', rest', u, outcome, hadvances, htracked⟩ := h.tracked.advance hrequests
  have hkeeps := h.tracked.keeps hrequests
  obtain rfl := Option.some.inj (htask.symm.trans hadvances.running)
  have hkept : Kept s { s with
      requests := requests
      queue := s.queue.withLogs fun p ↦
        if s.requests.created ≤ p.1 ∧ p.1 < requests.created then env.opened p.2
        else s.queue.log p
      uses := s.uses ++ sectionUse task sort } := by
    refine ⟨topics_of_keeps hkeeps, fun i topic k hstate _ _ ↦ ?_, _, rfl,
      fun use huse topic hstate hdeleting ↦ ?_⟩
    · have hlt := h.created i topic hstate
      have hold : ¬(s.requests.created ≤ i ∧ i < requests.created) := by omega
      simp only [QueueState.withLogs, if_neg hold]
      rfl
    · -- A section that uses its topic state is under its mutex.
      exfalso
      have hlocked : RequestKind.needsLock sort = true ∧ use.1 = task.topic.getD 0 := by
        cases sort <;> simp_all [sectionUse, RequestKind.needsLock]
      obtain ⟨i, held, hi, hheld, -, hlive, -⟩ := h.tracked.consistent.locked thread task htask
        (h.tracked.locked_of_needsLock htask hsections hlocked.1)
      rw [hlocked.2, hi, Option.getD_some] at hstate
      obtain rfl := Option.some.inj (hheld.symm.trans hstate)
      rw [hlive] at hdeleting
      cases hdeleting
  refine ⟨hkept, h.request hkept htracked (h.queue.withLogs _) hkeeps (h.logTask_eq_none htask) rfl
    hadvances.others (fun p hp ↦ Or.inl hp)
    (fun task' rest' ↦ h.draining_advance hadvances hrequests) rfl
    (h.scanned_eq_zero fun task' rest' htask' ↦ ?_) rfl⟩
  obtain rfl := Option.some.inj (htask.symm.trans htask')
  rw [hsections]
  intro heq
  exact hsort (List.cons.inj heq).1

omit [Fintype W] in
theorem finishProduce_eq (s : RuntimeState T W) (thread : T) (task : Task) (incarnation : ℕ)
    (topic : TopicState T) :
    ∃ next, s.finishProduce thread task incarnation topic =
      { s.finishRequest thread task with nextRoundRobinPartition := next } := by
  rw [finishProduce]
  dsimp only
  split_ifs
  · exact ⟨_, rfl⟩
  · exact ⟨_, rfl⟩

/-- A step of `async_produce` under the mutex of its topic, which it may give back. -/
theorem Sound.produced (h : Sound config s) {task : Task} {rest : List Section} {incarnation : ℕ}
    {topic : TopicState T} (htask : s.requests.threads thread = some task)
    (hsections : task.sections = .enqueue :: rest) (hi : task.topic = some incarnation)
    (hstate : s.requests.states incarnation = some topic)
    (hrequests : t.requests = s.requests ∨ t.requests = s.requests.finish thread task)
    (hqueue : QueueState.QueueInv (QueueState.fullBatches config) t.queue)
    (hpartitions : ∀ p : ℕ × ℕ, p.1 ≠ incarnation →
      t.queue.partitions p = s.queue.partitions p)
    (huses : ∃ added, t.uses = s.uses ++ added ∧ ∀ use ∈ added, use.1 = incarnation)
    (hactive : ∀ p, ¬t.Idle p → ¬s.Idle p ∨ Nonempty W ∧ p.1 = incarnation ∧
      p.2 < topic.partitionCount)
    (hlogTasks : t.logTasks = s.logTasks) (hscanned : t.scanned = s.scanned)
    (hdrained : t.drained = s.drained) : Kept s t ∧ Sound config t := by
  have hlocked : task.locked = true :=
    h.tracked.locked_of_needsLock htask hsections (by decide)
  have hheld := h.tracked.consistent.locked thread task htask
  have hkeeps : s.requests.Keeps thread t.requests := by
    rcases hrequests with heq | heq
    · rw [heq]
      exact .of_states_eq rfl
    · rw [heq]
      exact RequestState.keeps_finish hheld
  have htracked : t.requests.Tracked := by
    rcases hrequests with heq | heq
    · rw [heq]
      exact h.tracked
    · rw [heq]
      exact h.tracked.finish htask
  have hlive : ∀ found, s.requests.states incarnation = some found → found.deleting = false := by
    intro found hfound
    obtain ⟨j, held, hj, hstate', -, hdeleting, -⟩ := hheld hlocked
    obtain rfl := Option.some.inj (hi.symm.trans hj)
    rw [Option.some.inj (hfound.symm.trans hstate')]
    exact hdeleting
  have hkept : Kept s t :=
    .of_live hkeeps hlive (fun p hp _ ↦ hpartitions p hp) h.created huses
  have hown : ∀ task' rest', t.requests.threads thread = some task' →
      task'.sections ≠ .drain :: rest' := by
    intro task' rest' htask' hrest'
    rcases hrequests with heq | heq
    · rw [heq, htask] at htask'
      rw [← Option.some.inj htask', hsections] at hrest'
      cases hrest'
    · rw [heq, RequestState.finish_threads, Function.update_self] at htask'
      cases htask'
  refine ⟨hkept, h.request hkept htracked hqueue hkeeps (h.logTask_eq_none htask) hlogTasks
    (fun other hne ↦ ?_) (fun p hp ↦ ?_)
    (fun task' rest' htask' hrest' ↦ absurd hrest' (hown task' rest' htask')) hscanned
    (h.scanned_eq_zero fun task' rest' htask' hrest' ↦ ?_) hdrained⟩
  · rcases hrequests with heq | heq
    · rw [heq]
    · rw [heq, RequestState.finish_threads, Function.update_of_ne hne]
  · rcases hactive p hp with hbusy | ⟨hworkers, hp, hlt⟩
    · exact Or.inl hbusy
    · obtain ⟨topic', hstate', hkept'⟩ := hkeeps incarnation topic hstate
      exact Or.inr ⟨hworkers, topic', hp ▸ hstate', hkept'.count ▸ hlt⟩
  · rw [htask] at htask'
    rw [← Option.some.inj htask', hsections] at hrest'
    cases hrest'

variable [DecidableEq W]

omit [DecidableEq T] [DecidableEq W] in
/-- Without workers a job is carried out at once. -/
theorem Sound.appendInline (h : Sound config s) {p : ℕ × ℕ} (hidle : s.Idle p) (job : AppendJob)
    (env : AppendEnv) :
    QueueState.QueueInv (QueueState.fullBatches config) (s.appendInline config p job env).queue ∧
      (s.appendInline config p job env).Idle p ∧
      (∀ q, q ≠ p → (s.appendInline config p job env).queue.partitions q =
        s.queue.partitions q) ∧
      (s.appendInline config p job env).uses = s.uses ++ [(p.1, .append p.2)] := by
  obtain ⟨hpending, happended, hcompleted⟩ := h.queue.settled p hidle
  refine ⟨h.queue.setIdle hidle hidle ⟨hpending, ?_, ?_⟩, ?_, fun q hq ↦ ?_, rfl⟩
  · dsimp only
    rw [happended]
  · dsimp only
    rw [List.map_append, hcompleted, List.map_fst_zip]
    rw [QueueState.length_results (List.cons_ne_nil _ _)]
    exact le_rfl
  · rw [Idle, RuntimeState.appendInline, QueueState.setPartition_self]
    exact hidle
  · exact QueueState.setPartition_of_ne _ hq _

section Produce

variable {task : Task} {rest : List Section} {incarnation : ℕ} {topic : TopicState T}

/-- The second section of `try_enqueue_append`. -/
theorem Sound.produceScheduled (h : Sound config s)
    (htask : s.requests.threads thread = some task) (hsections : task.sections = .enqueue :: rest)
    (hi : task.topic = some incarnation) (hstate : s.requests.states incarnation = some topic)
    {client : ℕ} {queue : QueueState (ℕ × ℕ) W}
    (hqueue : s.queue.step config (.scheduleAppend client) = some queue) :
    Kept s ((({ s with queue := queue } : RuntimeState T W).setScheduling thread
        none).finishProduce thread task incarnation topic) ∧
      Sound config ((({ s with queue := queue } : RuntimeState T W).setScheduling thread
        none).finishProduce thread task incarnation topic) := by
  obtain ⟨hpartitions, q, hq⟩ := h.queue.active_of_scheduleAppend hqueue
  obtain ⟨⟨w⟩, -⟩ := h.active q (by simp [Idle, hq])
  obtain ⟨next, heq⟩ := finishProduce_eq
    (({ s with queue := queue } : RuntimeState T W).setScheduling thread none) thread task
    incarnation topic
  rw [heq]
  refine h.produced htask hsections hi hstate (Or.inr rfl) (h.queue.schedule hqueue w)
    (fun p _ ↦ congrFun hpartitions p) ⟨[], (List.append_nil _).symm, nofun⟩ (fun p hp ↦ ?_)
    rfl rfl rfl
  rw [Idle] at hp ⊢
  exact Or.inl (congrFun hpartitions p ▸ hp)

omit [DecidableEq W] in
/-- Without workers the request carries out its own job. -/
theorem Sound.produceInline [IsEmpty W] (h : Sound config s)
    (htask : s.requests.threads thread = some task) (hsections : task.sections = .enqueue :: rest)
    (hi : task.topic = some incarnation) (hstate : s.requests.states incarnation = some topic)
    (k : ℕ) (job : AppendJob) (env : AppendEnv) :
    Kept s ((s.appendInline config (incarnation, k) job env).finishProduce thread task
        incarnation topic) ∧
      Sound config ((s.appendInline config (incarnation, k) job env).finishProduce thread task
        incarnation topic) := by
  have hidle : s.Idle (incarnation, k) := by
    by_contra hbusy
    obtain ⟨⟨w⟩, -⟩ := h.active _ hbusy
    exact isEmptyElim w
  obtain ⟨hqueue, hidle', hother, huses⟩ := h.appendInline hidle job env
  obtain ⟨next, heq⟩ := finishProduce_eq (s.appendInline config (incarnation, k) job env) thread
    task incarnation topic
  rw [heq]
  refine h.produced htask hsections hi hstate (Or.inr rfl) hqueue (fun p hp ↦ ?_)
    ⟨_, huses, by simp⟩ (fun p hp ↦ ?_) rfl rfl rfl
  · apply hother
    rintro rfl
    exact hp rfl
  · by_cases hp' : p = (incarnation, k)
    · exact absurd (hp' ▸ hidle') hp
    · rw [Idle] at hp ⊢
      exact Or.inl (hother p hp' ▸ hp)

/-- What holds when the job is offered to the queue. -/
theorem Sound.produceQueued [Nonempty W] (h : Sound config s)
    (htask : s.requests.threads thread = some task) (hsections : task.sections = .enqueue :: rest)
    (hi : task.topic = some incarnation) (hstate : s.requests.states incarnation = some topic)
    {k : ℕ} (hk : k < topic.partitionCount) {job : AppendJob} {queue : QueueState (ℕ × ℕ) W}
    (hqueue : s.queue.step config (.tryEnqueueAppend (incarnation, k) job) = some queue)
    (hrequests : t.requests = s.requests ∨ t.requests = s.requests.finish thread task)
    (htqueue : t.queue = queue) (huses : t.uses = s.uses) (hlogTasks : t.logTasks = s.logTasks)
    (hscanned : t.scanned = s.scanned) (hdrained : t.drained = s.drained) :
    Kept s t ∧ Sound config t := by
  obtain ⟨changed, hpartitions⟩ := QueueState.step_tryEnqueueAppend hqueue
  rw [← QueueState.step_tryEnqueueAppend_fullBatches] at hqueue
  have hother : ∀ p, p ≠ (incarnation, k) → queue.partitions p = s.queue.partitions p := by
    intro p hne
    rw [hpartitions, Function.update_of_ne hne]
  refine h.produced htask hsections hi hstate hrequests (htqueue ▸ h.queue.enqueue hqueue)
    (fun p hp ↦ ?_) ⟨[], by rw [huses, List.append_nil], nofun⟩ (fun p hp ↦ ?_) hlogTasks
    hscanned hdrained
  · rw [htqueue]
    apply hother
    rintro rfl
    exact hp rfl
  · by_cases hp' : p = (incarnation, k)
    · exact Or.inr ⟨inferInstance, hp' ▸ rfl, hp' ▸ hk⟩
    · rw [Idle, htqueue, hother p hp'] at hp
      exact Or.inl hp

theorem Sound.produce (h : Sound config s) {env : RuntimeEnv}
    (htask : s.requests.threads thread = some task) (hsections : task.sections = .enqueue :: rest)
    (hi : task.topic = some incarnation) (hstate : s.requests.states incarnation = some topic)
    (hstep : s.produce config thread task incarnation topic env = some t) :
    Kept s t ∧ Sound config t := by
  rw [RuntimeState.produce] at hstep
  dsimp only at hstep
  set partition := if task.request.key = [] then s.nextRoundRobinPartition incarnation
    else keyHashPartition task.request.key topic.partitionCount
  cases hscheduling : s.scheduling thread with
  | some p =>
      rw [hscheduling] at hstep
      obtain ⟨queue, hqueue, rfl⟩ := Option.map_eq_some_iff.mp hstep
      exact h.produceScheduled htask hsections hi hstate hqueue
  | none =>
      rw [hscheduling] at hstep
      dsimp only at hstep
      by_cases hrange : partition ≥ topic.partitionCount
      · rw [if_pos hrange] at hstep
        obtain rfl := Option.some.inj hstep
        exact h.produced htask hsections hi hstate (Or.inr rfl) h.queue (fun _ _ ↦ rfl)
          ⟨[], (List.append_nil _).symm, nofun⟩ (fun p hp ↦ Or.inl hp) rfl rfl rfl
      rw [if_neg hrange] at hstep
      by_cases hcard : Fintype.card W = 0
      · rw [if_pos hcard] at hstep
        obtain rfl := Option.some.inj hstep
        have : IsEmpty W := Fintype.card_eq_zero_iff.mp hcard
        exact h.produceInline htask hsections hi hstate partition _ env.append
      · rw [if_neg hcard] at hstep
        obtain ⟨queue, hqueue, rfl⟩ := Option.map_eq_some_iff.mp hstep
        have : Nonempty W := Fintype.card_pos_iff.mp (Nat.pos_of_ne_zero hcard)
        have hk : partition < topic.partitionCount := not_le.mp hrange
        split_ifs
        · exact h.produceQueued htask hsections hi hstate hk hqueue (Or.inr rfl) rfl rfl rfl rfl
            rfl
        · exact h.produceQueued htask hsections hi hstate hk hqueue (Or.inl rfl) rfl rfl rfl rfl
            rfl
        · obtain ⟨next, heq⟩ :=
            finishProduce_eq { s with queue := queue } thread task incarnation topic
          rw [heq]
          exact h.produceQueued htask hsections hi hstate hk hqueue (Or.inr rfl) rfl rfl rfl rfl
            rfl

end Produce

/-! ## Waiting for appends -/

omit [DecidableEq W] in
theorem Sound.setScanned (h : Sound config s) {count : ℕ} (hcount : count ≠ 0 →
    ∃ task rest incarnation, s.requests.threads thread = some task ∧
      task.sections = .drain :: rest ∧ task.topic = some incarnation ∧
        ∀ k < count, s.Idle (incarnation, k)) : Sound config (s.setScanned thread count) := by
  refine ⟨h.tracked, h.queue, h.alone, h.inside, h.active, h.draining, fun other hne ↦ ?_,
    h.drained⟩
  by_cases heq : other = thread
  · subst heq
    simp only [RuntimeState.setScanned, Function.update_self] at hne ⊢
    exact hcount hne
  · simp only [RuntimeState.setScanned, Function.update_of_ne heq] at hne ⊢
    exact h.scanned other hne

omit [DecidableEq W] in
theorem Sound.drain (h : Sound config s) {task : Task} {rest : List Section} {incarnation : ℕ}
    {topic : TopicState T} {env : SectionEnv} (htask : s.requests.threads thread = some task)
    (hsections : task.sections = .drain :: rest) (hi : task.topic = some incarnation)
    (hstate : s.requests.states incarnation = some topic)
    (hstep : s.drain thread incarnation topic env = some t) : Kept s t ∧ Sound config t := by
  have hseen : ∀ k < s.scanned thread, s.Idle (incarnation, k) := by
    intro k hk
    obtain ⟨task', rest', j, htask', -, hj, hidle⟩ := h.scanned thread (by omega)
    obtain rfl := Option.some.inj (htask.symm.trans htask')
    obtain rfl := Option.some.inj (hi.symm.trans hj)
    exact hidle k hk
  have hdeleting : topic.deleting = true := by
    obtain ⟨j, topic', hj, hstate', hdeleting⟩ := h.draining thread task rest htask hsections
    obtain rfl := Option.some.inj (hi.symm.trans hj)
    rw [Option.some.inj (hstate.symm.trans hstate')]
    exact hdeleting
  rw [RuntimeState.drain] at hstep
  by_cases hmore : s.scanned thread < topic.partitionCount
  · rw [if_pos hmore] at hstep
    dsimp only at hstep
    split_ifs at hstep with hbusy
    · obtain rfl := Option.some.inj hstep
      exact ⟨.of_eq rfl rfl rfl, h.setScanned fun hne ↦ absurd rfl hne⟩
    · obtain rfl := Option.some.inj hstep
      refine ⟨.of_eq rfl rfl rfl, h.setScanned fun _ ↦ ⟨task, rest, incarnation, htask, hsections,
        hi, fun k hk ↦ ?_⟩⟩
      rcases Nat.lt_succ_iff_lt_or_eq.mp hk with hlt | rfl
      · exact hseen k hlt
      · rw [not_or, Bool.not_eq_true] at hbusy
        exact hbusy.1
  · rw [if_neg hmore] at hstep
    obtain ⟨requests, hrequests, rfl⟩ := Option.map_eq_some_iff.mp hstep
    obtain ⟨task', sort, rest', u, outcome, hadvances, htracked⟩ := h.tracked.advance hrequests
    have hkeeps := h.tracked.keeps hrequests
    have hzero : Sound config (s.setScanned thread 0) := h.setScanned fun hne ↦ absurd rfl hne
    have hkept : Kept s { s.setScanned thread 0 with
        requests := requests, drained := s.drained ++ [incarnation] } :=
      ⟨topics_of_keeps hkeeps, fun _ _ _ _ _ _ ↦ rfl, [], (List.append_nil _).symm, nofun⟩
    have hsound : Sound config { s.setScanned thread 0 with requests := requests } := by
      refine hzero.request ⟨topics_of_keeps hkeeps, fun _ _ _ _ _ _ ↦ rfl, [],
        (List.append_nil _).symm, nofun⟩ htracked h.queue hkeeps (h.logTask_eq_none htask) rfl
        hadvances.others (fun p hp ↦ Or.inl hp)
        (fun task' rest' ↦ h.draining_advance hadvances hrequests) rfl ?_ rfl
      simp [RuntimeState.setScanned]
    refine ⟨hkept, hsound.tracked, hsound.queue, hsound.alone, hsound.inside, hsound.active,
      hsound.draining, hsound.scanned, fun j hj ↦ ?_⟩
    rcases List.mem_append.mp hj with hj | hj
    · exact hsound.drained j hj
    · obtain rfl := List.mem_singleton.mp hj
      obtain ⟨topic', hstate', hcount, hdeleting'⟩ := hkept.topics j topic hstate
      refine ⟨topic', hstate', hdeleting' hdeleting, fun k hk ↦ ?_⟩
      exact hkept.idle hstate hdeleting (hseen k (by omega))

/-! ## Workers -/

omit [DecidableEq T] in
theorem Sound.work (h : Sound config s) {w : W} {env : AppendEnv} {queue : QueueState (ℕ × ℕ) W}
    (hstep : s.queue.workerStep config w env = some queue) :
    Kept s { s with queue := queue, uses := s.uses ++ s.workUse w } ∧
      Sound config { s with queue := queue, uses := s.uses ++ s.workUse w } := by
  rw [← QueueState.workerStep_fullBatches] at hstep
  have hidle : ∀ p, s.Idle p → queue.partitions p = s.queue.partitions p :=
    fun p hp ↦ h.queue.workerStep_idle hstep hp
  have hkept : Kept s { s with queue := queue, uses := s.uses ++ s.workUse w } := by
    refine ⟨fun i topic hstate ↦ ⟨topic, hstate, rfl, id⟩,
      fun i _ k _ _ hp ↦ hidle (i, k) hp, _, rfl,
      fun use huse _ _ _ ↦ ?_⟩
    rw [workUse] at huse
    split at huse
    · rename_i p jobs hworker
      obtain rfl := List.mem_singleton.mp huse
      have hactive := (h.queue.accounts _ (QueueState.mem_tokens hworker)).1
      exact ⟨p.2, by simp [Idle, hactive]⟩
    · cases huse
  refine ⟨hkept, h.keep hkept h.tracked
    (h.queue.work (QueueState.one_le_fullBatches config) hstep) h.alone h.inside (fun p hp ↦ ?_)
    (fun _ _ _ htask _ ↦ Or.inl htask) (fun _ _ ↦ ⟨rfl, rfl⟩) rfl⟩
  refine Or.inl fun hs ↦ hp ?_
  rw [Idle, hidle p hs]
  exact hs

/-! ## `produce_batch` and `run_retention` -/

omit [DecidableEq T] [DecidableEq W] in
/-- A thread without a request takes a step. -/
theorem Sound.logTask (h : Sound config s) (hfree : s.requests.threads thread = none)
    (hkept : Kept s t) (hkeeps : s.requests.Keeps thread t.requests)
    (htracked : t.requests.Tracked) (hthreads : t.requests.threads = s.requests.threads)
    (hqueue : QueueState.QueueInv (QueueState.fullBatches config) t.queue)
    (hidle : ∀ p, s.Idle p → t.Idle p) (hscanned : t.scanned = s.scanned)
    (hdrained : t.drained = s.drained)
    (hothers : ∀ other, other ≠ thread → t.logTasks other = s.logTasks other)
    (hown : ∀ task incarnation, t.logTasks thread = some task → task.inside = some incarnation →
      ∃ topic, t.requests.states incarnation = some topic ∧ topic.deleting = false ∧
        topic.holder = some thread) : Sound config t := by
  refine h.keep hkept htracked hqueue (fun other task htask ↦ ?_)
    (fun other task i htask hinside ↦ ?_) (fun p hp ↦ Or.inl fun hs ↦ hp (hidle p hs))
    (fun other task rest htask _ ↦ Or.inl (hthreads ▸ htask))
    (fun other _ ↦ ⟨by rw [hscanned], by rw [hthreads]⟩) hdrained
  · rw [hthreads]
    by_cases heq : other = thread
    · rw [heq, hfree]
    · exact h.alone other task (hothers other heq ▸ htask)
  · by_cases heq : other = thread
    · subst heq
      exact hown task i htask hinside
    · rw [hothers other heq] at htask
      obtain ⟨topic, hstate, hdeleting, hholder⟩ := h.inside other task i htask hinside
      obtain ⟨topic', hstate', hkept'⟩ := hkeeps i topic hstate
      obtain ⟨hholder', hdeleting'⟩ := hkept'.held other heq hholder
      exact ⟨topic', hstate', hdeleting'.trans hdeleting, hholder'⟩

omit [DecidableEq W] in
/-- A task that is not inside a topic state goes on. -/
theorem Sound.setLogTask (h : Sound config s) (hfree : s.requests.threads thread = none)
    {task : Option LogTask} (htask : task.bind LogTask.inside = none) :
    Kept s (s.setLogTask thread task) ∧ Sound config (s.setLogTask thread task) := by
  have hkept : Kept s (s.setLogTask thread task) := .of_eq rfl rfl rfl
  refine ⟨hkept, h.logTask hfree hkept (.of_states_eq rfl) h.tracked rfl h.queue (fun _ ↦ id) rfl
    rfl (fun other hne ↦ ?_) fun found i hfound hinside ↦ ?_⟩
  · simp [RuntimeState.setLogTask, hne]
  · simp only [RuntimeState.setLogTask, Function.update_self] at hfound
    rw [hfound, Option.bind_some, hinside] at htask
    cases htask

omit [DecidableEq W] in
/-- A task works on a topic state that is not deleted, and takes or gives back its
mutex. -/
theorem Sound.moveInside (h : Sound config s) (hfree : s.requests.threads thread = none)
    {incarnation : ℕ} {topic : TopicState T} (hstate : s.requests.states incarnation = some topic)
    (hlive : topic.deleting = false) (hholder : topic.holder = none ∨ topic.holder = some thread)
    {holder : Option T} {logs : ℕ × ℕ → PartitionLog} {added : List (ℕ × TopicUse)}
    {task : Option LogTask}
    (hrequests : t.requests = s.requests.setTopic incarnation { topic with holder := holder })
    (hqueue : t.queue = s.queue.withLogs logs) (huses : t.uses = s.uses ++ added)
    (hlogTasks : t.logTasks = Function.update s.logTasks thread task)
    (hscanned : t.scanned = s.scanned) (hdrained : t.drained = s.drained)
    (hlogs : ∀ p : ℕ × ℕ, p.1 ≠ incarnation → logs p = s.queue.log p)
    (hadded : ∀ use ∈ added, use.1 = incarnation)
    (htask : ∀ i, task.bind LogTask.inside = some i → i = incarnation ∧ holder = some thread) :
    Kept s t ∧ Sound config t := by
  have hkeeps : s.requests.Keeps thread t.requests := by
    rw [hrequests]
    exact RequestState.keeps_setTopic hstate (RequestState.topicKept_of_holder rfl id hholder)
  have htracked : t.requests.Tracked := by
    rw [hrequests]
    refine h.tracked.setHolder hstate (fun other hother ↦ ?_) holder
    rcases hholder with hnone | hown
    · rw [hnone] at hother
      cases hother
    · rw [hown] at hother
      rw [← Option.some.inj hother, hfree]
  have hkept : Kept s t := by
    refine .of_live hkeeps (fun found hfound ↦ ?_) (fun p hp _ ↦ ?_) h.created
      ⟨added, huses, hadded⟩
    · rw [Option.some.inj (hfound.symm.trans hstate)]
      exact hlive
    · rw [hqueue, QueueState.withLogs]
      simp only [hlogs p hp]
      rfl
  refine ⟨hkept, h.logTask hfree hkept hkeeps htracked (by rw [hrequests]; rfl)
    (hqueue ▸ h.queue.withLogs logs) (fun p hp ↦ ?_) hscanned hdrained (fun other hne ↦ ?_)
    fun found i hfound hinside ↦ ?_⟩
  · rw [Idle, hqueue]
    exact hp
  · rw [hlogTasks, Function.update_of_ne hne]
  · rw [hlogTasks, Function.update_self] at hfound
    obtain ⟨rfl, rfl⟩ := htask i (by rw [hfound, Option.bind_some, hinside])
    rw [hrequests]
    exact ⟨_, Function.update_self _ _ _, hlive, rfl⟩

omit [DecidableEq W] in
theorem Sound.enter (h : Sound config s) (hfree : s.requests.threads thread = none)
    {incarnation : ℕ} {inside outside : Option LogTask}
    (hinside : ∀ i, inside.bind LogTask.inside = some i → i = incarnation)
    (houtside : outside.bind LogTask.inside = none)
    (hstep : s.enter thread incarnation inside outside = some t) : Kept s t ∧ Sound config t := by
  obtain ⟨topic, hstate, hstep⟩ := Option.bind_eq_some_iff.mp hstep
  split_ifs at hstep with hheld hdeleting
  · obtain rfl := Option.some.inj hstep
    exact h.setLogTask hfree houtside
  · obtain rfl := Option.some.inj hstep
    have hnone : topic.holder = none := by simpa using hheld
    exact h.moveInside hfree hstate (by simpa using hdeleting) (Or.inl hnone) rfl rfl
      (List.append_nil _).symm rfl rfl rfl (fun _ _ ↦ rfl) nofun
      fun i hi ↦ ⟨hinside i hi, rfl⟩

omit [DecidableEq W] in
theorem Sound.advanceLogTask (h : Sound config s) {Z : Compression.Zstd} {env : LogEnv}
    {task : LogTask} (htask : s.logTasks thread = some task)
    (hstep : s.advanceLogTask Z config thread env task = some t) : Kept s t ∧ Sound config t := by
  have hfree := h.alone thread task htask
  -- Logs of other topic states are left alone.
  have hlogs : ∀ (i k : ℕ) (log : PartitionLog) (p : ℕ × ℕ), p.1 ≠ i →
      Function.update s.queue.log (i, k) log p = s.queue.log p := by
    intro i k log p hp
    apply Function.update_of_ne
    rintro rfl
    exact hp rfl
  cases task with
  | batchFound request records i =>
      refine h.enter hfree (fun j hj ↦ ?_) rfl hstep
      exact (Option.some.inj hj).symm
  | batchLocked request records i =>
      obtain ⟨topic, hstate, rfl⟩ := Option.map_eq_some_iff.mp hstep
      obtain ⟨topic', hstate', hlive, hholder⟩ := h.inside thread _ i htask rfl
      obtain rfl := Option.some.inj (hstate.symm.trans hstate')
      dsimp only
      split_ifs
      · exact h.moveInside hfree hstate hlive (Or.inr hholder) rfl rfl (List.append_nil _).symm rfl
          rfl rfl (fun _ _ ↦ rfl) nofun nofun
      · exact h.moveInside hfree hstate hlive (Or.inr hholder) rfl rfl rfl rfl rfl rfl
          (hlogs i request.partition _) (by simp) nofun
  | retaining topics =>
      cases topics with
      | nil =>
          obtain rfl := Option.some.inj hstep
          exact h.setLogTask hfree rfl
      | cons i topics =>
          refine h.enter hfree (fun j hj ↦ ?_) rfl hstep
          exact (Option.some.inj hj).symm
  | retainingTopic i next topics =>
      obtain ⟨topic, hstate, rfl⟩ := Option.map_eq_some_iff.mp hstep
      obtain ⟨topic', hstate', hlive, hholder⟩ := h.inside thread _ i htask rfl
      obtain rfl := Option.some.inj (hstate.symm.trans hstate')
      dsimp only
      split_ifs
      · split
        · exact h.moveInside hfree hstate hlive (Or.inr hholder) rfl rfl rfl rfl rfl rfl
            (hlogs i next _) (by simp) nofun
        · refine h.moveInside hfree hstate hlive (Or.inr hholder) ?_ rfl rfl rfl rfl rfl
            (hlogs i next _) (by simp) fun j hj ↦ ⟨(Option.some.inj hj).symm, hholder⟩
          exact (RequestState.setTopic_self hstate).symm
      · exact h.moveInside hfree hstate hlive (Or.inr hholder) rfl rfl (List.append_nil _).symm rfl
          rfl rfl (fun _ _ ↦ rfl) nofun nofun

/-! ## Runs -/

theorem Sound.step (h : Sound config s) {Z : Compression.Zstd} {event : RuntimeEvent T W}
    (hstep : s.step Z config event = some t) : Kept s t ∧ Sound config t := by
  have hnone : ∀ {thread}, s.free thread = true → s.requests.threads thread = none := by
    intro thread hfree
    rw [free, Bool.and_eq_true] at hfree
    simpa using hfree.1
  cases event with
  | start thread request =>
      rw [RuntimeState.step] at hstep
      split_ifs at hstep with hfree
      obtain ⟨requests, hrequests, rfl⟩ := Option.map_eq_some_iff.mp hstep
      exact h.start hfree hrequests
  | advance thread env =>
      obtain ⟨task, htask, hstep⟩ := Option.bind_eq_some_iff.mp hstep
      cases hsections : task.sections with
      | nil =>
          rw [hsections] at hstep
          cases hstep
      | cons sort rest =>
          rw [hsections] at hstep
          cases sort with
          | enqueue =>
              obtain ⟨i, hi, hstep⟩ := Option.bind_eq_some_iff.mp hstep
              obtain ⟨topic, hstate, hstep⟩ := Option.bind_eq_some_iff.mp hstep
              exact h.produce htask hsections hi hstate hstep
          | drain =>
              obtain ⟨i, hi, hstep⟩ := Option.bind_eq_some_iff.mp hstep
              obtain ⟨topic, hstate, hstep⟩ := Option.bind_eq_some_iff.mp hstep
              exact h.drain htask hsections hi hstate hstep
          | _ => exact h.advanceRequest htask hsections (by simp) hstep
  | work w env =>
      obtain ⟨queue, hqueue, rfl⟩ := Option.map_eq_some_iff.mp hstep
      exact h.work hqueue
  | produceBatch thread request records =>
      rw [RuntimeState.step] at hstep
      split_ifs at hstep with hfree
      split at hstep
      · obtain rfl := Option.some.inj hstep
        exact ⟨.of_eq rfl rfl rfl, h⟩
      · obtain rfl := Option.some.inj hstep
        exact h.setLogTask (hnone hfree) rfl
  | runRetention thread topicFilter =>
      simp only [RuntimeState.step] at hstep
      split_ifs at hstep with hfree
      · obtain rfl := Option.some.inj hstep
        exact ⟨.of_eq rfl rfl rfl, h⟩
      · obtain rfl := Option.some.inj hstep
        exact h.setLogTask (hnone hfree) rfl
  | advanceLogTask thread env =>
      obtain ⟨task, htask, hstep⟩ := Option.bind_eq_some_iff.mp hstep
      exact h.advanceLogTask htask hstep

omit [DecidableEq T] [DecidableEq W] in
theorem sound_loaded (config : QueueConfig) (maxTopicPartitions : ℕ) (offsets : OffsetStore)
    (topics : List (Bytes × ℕ)) (logs : ℕ × ℕ → PartitionLog) :
    Sound config (loaded maxTopicPartitions offsets topics logs : RuntimeState T W) := by
  have hload : ∀ r : RequestState T, r.Tracked ∧ (∀ thread, r.threads thread = none) →
      (topics.foldl loadTopic r).Tracked ∧
        ∀ thread, (topics.foldl loadTopic r).threads thread = none := by
    induction topics with
    | nil => exact fun r h ↦ h
    | cons topic topics ih =>
        rintro r ⟨htracked, hthreads⟩
        rw [List.foldl_cons]
        have hsame : (loadTopic r topic).threads = r.threads := by
          rw [loadTopic, RequestState.openTopic]
          dsimp only
          split
          · split_ifs <;> rfl
          · rfl
        refine ih (loadTopic r topic) ⟨⟨htracked.consistent.openTopic _,
          fun thread task htask ↦ ?_⟩,
          fun thread ↦ by rw [hsame, hthreads]⟩
        rw [hsame, hthreads] at htask
        cases htask
  obtain ⟨htracked, hthreads⟩ := hload _
    ⟨RequestState.tracked_initial maxTopicPartitions offsets, fun _ ↦ rfl⟩
  refine ⟨htracked, QueueState.QueueInv.initial _ logs, fun thread task htask ↦ hthreads thread,
    fun thread task i htask ↦ ?_, fun p hp ↦ absurd rfl hp, fun thread task rest htask ↦ ?_,
    fun thread hne ↦ absurd rfl hne, fun incarnation hdrained ↦ absurd hdrained List.not_mem_nil⟩
  · cases htask
  · rw [show (loaded maxTopicPartitions offsets topics logs : RuntimeState T W).requests.threads
      thread = none from hthreads thread] at htask
    cases htask

theorem Sound.run (h : Sound config s) {Z : Compression.Zstd} {events : List (RuntimeEvent T W)}
    (hrun : Lib.run (RuntimeState.step Z config) s events = some t) :
    Kept s t ∧ Sound config t := by
  induction events generalizing s with
  | nil =>
      obtain rfl := Option.some.inj hrun
      exact ⟨.of_eq rfl rfl rfl, h⟩
  | cons event events ih =>
      obtain ⟨u, hstep, hrest⟩ := run_cons hrun
      obtain ⟨hkept, hsound⟩ := h.step hstep
      obtain ⟨hkept', hsound'⟩ := ih hsound hrest
      exact ⟨hkept.trans hkept', hsound'⟩

/-- The uses of a topic state. -/
def usesOf (s : RuntimeState T W) (incarnation : ℕ) : List TopicUse :=
  (s.uses.filter fun use ↦ use.1 = incarnation).map Prod.snd

/-- A deletion that has waited for the appends has brought its topic state to rest:
whatever happens later, nothing is appended to it, no retention is applied to it, no
offset is committed and no group is joined through it, and every job that it has
accepted was appended and completed. -/
theorem deletion_quiesces (Z : Compression.Zstd) (config : QueueConfig) (maxTopicPartitions : ℕ)
    (offsets : OffsetStore) (topics : List (Bytes × ℕ)) (logs : ℕ × ℕ → PartitionLog)
    {before after : List (RuntimeEvent T W)} {s t : RuntimeState T W}
    (hbefore : Lib.run (RuntimeState.step Z config)
      (loaded maxTopicPartitions offsets topics logs) before = some s)
    (hafter : Lib.run (RuntimeState.step Z config) s after = some t) {incarnation : ℕ}
    (hdrained : incarnation ∈ s.drained) :
    t.usesOf incarnation = s.usesOf incarnation ∧
      ∀ k, t.queue.partitions (incarnation, k) = s.queue.partitions (incarnation, k) ∧
        (s.queue.partitions (incarnation, k)).appendActive = false ∧
        QueueState.Settled (s.queue.partitions (incarnation, k)) := by
  obtain ⟨-, hsound⟩ := (sound_loaded config maxTopicPartitions offsets topics logs).run hbefore
  obtain ⟨hkept, -⟩ := hsound.run hafter
  obtain ⟨topic, hstate, hdeleting, hidle⟩ := hsound.drained incarnation hdrained
  have hall : ∀ k, s.Idle (incarnation, k) := by
    intro k
    by_contra hbusy
    obtain ⟨-, topic', hstate', hlt⟩ := hsound.active (incarnation, k) hbusy
    obtain rfl := Option.some.inj (hstate.symm.trans hstate')
    exact hbusy (hidle k hlt)
  refine ⟨?_, fun k ↦ ⟨hkept.partitions incarnation topic k hstate hdeleting (hall k), hall k,
    hsound.queue.settled (incarnation, k) (hall k)⟩⟩
  obtain ⟨added, huses, hadded⟩ := hkept.uses
  have hnone : added.filter (fun use ↦ use.1 = incarnation) = [] := by
    rw [List.filter_eq_nil_iff]
    intro use huse heq
    obtain rfl := of_decide_eq_true heq
    obtain ⟨k, hbusy⟩ := hadded use huse topic hstate hdeleting
    exact hbusy (hall k)
  rw [usesOf, usesOf, huses, List.filter_append, hnone, List.append_nil]

def stillEnv : RuntimeEnv :=
  ⟨{ now := 0 }, QueueState.quietEnv, 1, fun _ ↦ PartitionLog.emptyLog singleRecordSegments⟩

def advances (thread : ℕ) (sections : ℕ) : List (RuntimeEvent ℕ (Fin 1)) :=
  List.replicate sections (.advance thread stillEnv)

/-- A deletion meets a producer that has its job accepted, and waits for the worker.
A third request has found the topic state before. -/
def deletionMeetsProducer : List (RuntimeEvent ℕ (Fin 1)) :=
  .start 2 { kind := .joinGroup, topic := [116], group := [103] } :: advances 2 2 ++
    .start 0 { kind := .produce, topic := [116], message := [98] } :: advances 0 3 ++
    .start 1 { kind := .deleteTopic, topic := [116] } :: advances 1 2 ++ advances 0 1 ++
    advances 1 2 ++ List.replicate 5 (.work 0 QueueState.quietEnv) ++ advances 1 2

theorem deletion_quiesces_stale :
    ∃ s t, Lib.run (RuntimeState.step Compression.noZstd ⟨1, 1, ⟨0, 0⟩⟩)
        (loaded 8 {} [([116], 1)] fun _ ↦ PartitionLog.emptyLog singleRecordSegments)
        deletionMeetsProducer = some s ∧
      Lib.run (RuntimeState.step Compression.noZstd ⟨1, 1, ⟨0, 0⟩⟩) s
        (advances 2 1 ++ advances 1 3) =
        some t ∧
      s.drained = [0] ∧ s.usesOf 0 = [.append 0] ∧ t.usesOf 0 = s.usesOf 0 ∧
      ∀ k, t.queue.partitions (0, k) = s.queue.partitions (0, k) ∧
        (s.queue.partitions (0, k)).appendActive = false ∧
        QueueState.Settled (s.queue.partitions (0, k)) := by
  have hchecks : ((Lib.run (RuntimeState.step Compression.noZstd ⟨1, 1, ⟨0, 0⟩⟩)
      (loaded 8 {} [([116], 1)] fun _ ↦ PartitionLog.emptyLog singleRecordSegments)
      deletionMeetsProducer).bind fun s ↦
        (Lib.run (RuntimeState.step Compression.noZstd ⟨1, 1, ⟨0, 0⟩⟩) s
          (advances 2 1 ++ advances 1 3)).map fun _ ↦ (s.drained, s.usesOf 0)) =
        some ([0], [.append 0]) := by
    decide
  obtain ⟨s, hbefore, hchecks⟩ := Option.bind_eq_some_iff.mp hchecks
  obtain ⟨t, hafter, hchecks⟩ := Option.map_eq_some_iff.mp hchecks
  obtain ⟨hdrained, huses⟩ := Prod.mk.inj hchecks
  exact ⟨s, t, hbefore, hafter, hdrained, huses,
    deletion_quiesces Compression.noZstd _ 8 {} _ _ hbefore
    hafter (hdrained ▸ List.mem_singleton_self 0)⟩

end RuntimeState

end BoltStream.Broker
