import BoltStream.Broker.GroupMembers
import BoltStream.Broker.Requests

/-!
# Requests inside a topic

A topic state that is being deleted lets no request in, and it is not deleted
while a request is inside.  So of all topic states of one name only the current one
has a request inside, and never more than one.
-/

namespace BoltStream.Broker

open BoltStream.Lib BoltStream.Protocol BoltStream.Storage

/-! ## Places in a request -/

namespace RequestKind

/-- A request of this kind with these sections left holds the mutex of its topic. -/
def lockedAt (kind : RequestKind) (rest : List Section) : Bool :=
  decide (.lockTopic ∈ kind.sections ∧ .lockTopic ∉ rest)

/-- A legacy commit or a reset that has found no members under the mutex. -/
def fencedAt (kind : RequestKind) (rest : List Section) : Bool :=
  decide ((kind = .commitOffset ∨ kind = .resetGroupOffset) ∧ .lockTopic ∉ rest ∧
    .requireNoMembers ∉ rest)

/-- A coordinated commit that was accepted. -/
def acceptedAt (kind : RequestKind) (rest : List Section) : Bool :=
  decide (kind = .commitGroupOffset ∧ .validateCommit ∉ rest)

/-- What holds at every place of every kind of request. -/
theorem sections_tails (P : RequestKind → List Section → Prop)
    (h : ∀ kind ∈ [commitOffset, resetGroupOffset, commitGroupOffset, joinGroup, syncGroup,
      heartbeatGroup, leaveGroup, describeGroup, deleteTopic, createTopic, produce],
      ∀ rest ∈ kind.sections.tails, P kind rest)
    {kind : RequestKind} {rest : List Section} (hrest : rest <:+ kind.sections) : P kind rest := by
  refine h kind ?_ rest ((List.mem_tails rest kind.sections).mpr hrest)
  cases kind <;> simp

/-- Sections that need the mutex of the topic. -/
def needsLock (sort : Section) : Bool :=
  decide (sort ∈ [Section.join, .leave, .validateCommit, .commit, .enqueue])

theorem lockedAt_of_needsLock {kind : RequestKind} {sort : Section} {rest : List Section}
    (hrest : sort :: rest <:+ kind.sections) (hsort : needsLock sort = true) :
    kind.lockedAt (sort :: rest) = true := by
  have hplace := sections_tails (fun kind rest ↦
    ∀ sort ∈ rest.head?, needsLock sort = true → kind.lockedAt rest = true) (by decide) hrest
  exact hplace sort rfl hsort

theorem lockedAt_of_fencedAt {kind : RequestKind} {rest : List Section}
    (hrest : rest <:+ kind.sections) (h : kind.fencedAt rest = true) :
    kind.lockedAt rest = true :=
  sections_tails (fun kind rest ↦ kind.fencedAt rest = true → kind.lockedAt rest = true)
    (by decide) hrest h

theorem lockedAt_of_acceptedAt {kind : RequestKind} {rest : List Section}
    (hrest : rest <:+ kind.sections) (h : kind.acceptedAt rest = true) :
    kind.lockedAt rest = true :=
  sections_tails (fun kind rest ↦ kind.acceptedAt rest = true → kind.lockedAt rest = true)
    (by decide) hrest h

/-- Only the check brings a request to a fenced place. -/
theorem fencedAt_cases {kind : RequestKind} {sort : Section} {rest : List Section}
    (hrest : sort :: rest <:+ kind.sections) (h : kind.fencedAt rest = true) :
    sort = .requireNoMembers ∨ kind.fencedAt (sort :: rest) = true ∧ sort ≠ .join := by
  have hplace := sections_tails (fun kind rest ↦ ∀ sort ∈ rest.head?,
    kind.fencedAt rest.tail = true →
      sort = .requireNoMembers ∨ kind.fencedAt rest = true ∧ sort ≠ .join) (by decide) hrest
  exact hplace sort rfl h

theorem acceptedAt_cases {kind : RequestKind} {sort : Section} {rest : List Section}
    (hrest : sort :: rest <:+ kind.sections) (h : kind.acceptedAt rest = true) (hne : rest ≠ []) :
    sort = .validateCommit := by
  have hplace := sections_tails (fun kind rest ↦ ∀ sort ∈ rest.head?,
    kind.acceptedAt rest.tail = true → rest.tail ≠ [] → sort = .validateCommit)
      (by decide) hrest
  exact hplace sort rfl h hne

theorem commit_place {kind : RequestKind} {rest : List Section}
    (hrest : .commit :: rest <:+ kind.sections) :
    kind.fencedAt (.commit :: rest) = true ∨
      kind = .commitGroupOffset ∧ kind.acceptedAt (.commit :: rest) = true := by
  have hplace := sections_tails (fun kind rest ↦ rest.head? = some .commit →
    kind.fencedAt rest = true ∨ kind = .commitGroupOffset ∧ kind.acceptedAt rest = true)
      (by decide) hrest
  exact hplace rfl

theorem lockedAt_cons (kind : RequestKind) {sort : Section} (rest : List Section)
    (hsort : sort ≠ .lockTopic) : kind.lockedAt rest = kind.lockedAt (sort :: rest) := by
  simp [lockedAt, hsort.symm]

theorem lockedAt_lockTopic {kind : RequestKind} {rest : List Section}
    (hrest : .lockTopic :: rest <:+ kind.sections) :
    kind.lockedAt rest = true ∧ kind.lockedAt (.lockTopic :: rest) = false := by
  have hplace := sections_tails (fun kind rest ↦ rest.head? = some .lockTopic →
    kind.lockedAt rest.tail = true ∧ kind.lockedAt rest = false) (by decide) hrest
  exact hplace rfl

end RequestKind

namespace RequestState

variable {T : Type*} {s t : RequestState T}

/-! ## Topic states -/

/-- The request is inside the topic state it has found. -/
def LockHeld (s : RequestState T) (thread : T) (task : Task) : Prop :=
  task.locked = true → ∃ incarnation topic, task.topic = some incarnation ∧
    s.states incarnation = some topic ∧ topic.name = task.request.topic ∧
    topic.deleting = false ∧ topic.holder = some thread

structure Consistent (s : RequestState T) : Prop where
  /-- A topic state that is not being deleted is the one found by its name. -/
  current : ∀ incarnation topic, s.states incarnation = some topic → topic.deleting = false →
    s.topics topic.name = some incarnation
  known : ∀ name incarnation, s.topics name = some incarnation →
    ∃ topic, s.states incarnation = some topic ∧ topic.name = name ∧ topic.deleting = false
  fresh : ∀ incarnation, s.created ≤ incarnation → s.states incarnation = none
  found : ∀ thread task incarnation, s.threads thread = some task →
    task.topic = some incarnation →
    ∃ topic, s.states incarnation = some topic ∧ topic.name = task.request.topic
  locked : ∀ thread task, s.threads thread = some task → s.LockHeld thread task

/-- Two requests inside topic states of one name are the same. -/
theorem Consistent.exclusive (h : s.Consistent) {thread other : T} {task task' : Task}
    (htask : s.threads thread = some task) (htask' : s.threads other = some task')
    (hlocked : task.locked = true) (hlocked' : task'.locked = true)
    (htopic : task.request.topic = task'.request.topic) : thread = other := by
  obtain ⟨i, topic, -, hstate, hname, hdeleting, hholder⟩ := h.locked thread task htask hlocked
  obtain ⟨j, topic', -, hstate', hname', hdeleting', hholder'⟩ :=
    h.locked other task' htask' hlocked'
  have hi := h.current i topic hstate hdeleting
  have hj := h.current j topic' hstate' hdeleting'
  rw [hname, htopic, ← hname', hj] at hi
  obtain rfl := Option.some.inj hi
  rw [hstate] at hstate'
  obtain rfl := Option.some.inj hstate'
  exact Option.some.inj (hholder.symm.trans hholder')

/-- Topics and requests are as before. -/
theorem Consistent.congr (h : s.Consistent) (htopics : t.topics = s.topics)
    (hstates : t.states = s.states) (hcreated : t.created = s.created)
    (hthreads : t.threads = s.threads) : t.Consistent := by
  refine ⟨?_, ?_, ?_, ?_, ?_⟩
  · rw [htopics, hstates]
    exact h.current
  · rw [htopics, hstates]
    exact h.known
  · rw [hcreated, hstates]
    exact h.fresh
  · rw [hthreads, hstates]
    exact h.found
  · rw [hthreads]
    intro thread task htask hlocked
    rw [hstates]
    exact h.locked thread task htask hlocked

/-- A topic state changes, but not its name, and not under a request inside it. -/
theorem Consistent.setTopic (h : s.Consistent) {incarnation : ℕ} {topic topic' : TopicState T}
    (hstate : s.states incarnation = some topic) (hname : topic'.name = topic.name)
    (hdeleting : topic'.deleting = topic.deleting)
    (hholder : ∀ thread task, s.threads thread = some task → task.locked = true →
      task.topic = some incarnation → topic'.holder = topic.holder) :
    (s.setTopic incarnation topic').Consistent := by
  have hother : ∀ {i found}, (s.setTopic incarnation topic').states i = some found →
      i ≠ incarnation → s.states i = some found := by
    intro i found hfound hne
    simpa [RequestState.setTopic, hne] using hfound
  have hself : (s.setTopic incarnation topic').states incarnation = some topic' := by
    simp [RequestState.setTopic]
  have hkept : ∀ {i found}, s.states i = some found →
      ∃ found', (s.setTopic incarnation topic').states i = some found' ∧
        found'.name = found.name ∧ found'.deleting = found.deleting := by
    intro i found hfound
    by_cases hi : i = incarnation
    · subst hi
      obtain rfl := Option.some.inj (hstate.symm.trans hfound)
      exact ⟨topic', hself, hname, hdeleting⟩
    · exact ⟨found, by simpa [RequestState.setTopic, hi] using hfound, rfl, rfl⟩
  refine ⟨fun i found hfound hcurrent ↦ ?_, fun name i hi ↦ ?_, fun i hi ↦ ?_,
    fun thread task i htask hi ↦ ?_, fun thread task htask hlocked ↦ ?_⟩
  · by_cases hi : i = incarnation
    · subst hi
      obtain rfl := Option.some.inj (hself.symm.trans hfound)
      rw [hname]
      exact h.current i topic hstate (hdeleting ▸ hcurrent)
    · exact h.current i found (hother hfound hi) hcurrent
  · obtain ⟨found, hfound, hfoundName, hfoundDeleting⟩ := h.known name i hi
    obtain ⟨found', hfound', hname', hdeleting'⟩ := hkept hfound
    exact ⟨found', hfound', hname'.trans hfoundName, hdeleting'.trans hfoundDeleting⟩
  · have hnone := h.fresh i hi
    have hne : i ≠ incarnation := fun heq ↦ by rw [heq, hstate] at hnone; cases hnone
    simpa [RequestState.setTopic, hne] using hnone
  · obtain ⟨found, hfound, hfoundName⟩ := h.found thread task i htask hi
    obtain ⟨found', hfound', hname', -⟩ := hkept hfound
    exact ⟨found', hfound', hname'.trans hfoundName⟩
  · obtain ⟨i, found, hi, hfound, hfoundName, hfoundDeleting, hfoundHolder⟩ :=
      h.locked thread task htask hlocked
    by_cases hsame : i = incarnation
    · subst hsame
      obtain rfl := Option.some.inj (hstate.symm.trans hfound)
      exact ⟨i, topic', hi, hself, hname.trans hfoundName, hdeleting.trans hfoundDeleting,
        (hholder thread task htask hlocked hi).trans hfoundHolder⟩
    · exact ⟨i, found, hi, by simpa [RequestState.setTopic, hsame] using hfound, hfoundName,
        hfoundDeleting, hfoundHolder⟩

/-! ## Sections and topic states -/

/-- What a section does to topic states and to its own request. -/
structure Performed (s : RequestState T) (thread : T) (task : Task) (sort : Section)
    (t : RequestState T) (outcome : Except BrokerError Task) : Prop where
  consistent : t.Consistent
  threads : t.threads = s.threads
  request : ∀ task', outcome = .ok task' → task'.request = task.request ∧
    task'.sections = task.sections ∧ task'.locked = (task.locked || decide (sort = .lockTopic))
  found : ∀ task', outcome = .ok task' → ∀ incarnation, task'.topic = some incarnation →
    ∃ topic, t.states incarnation = some topic ∧ topic.name = task.request.topic
  lockHeld : ∀ task', outcome = .ok task' → t.LockHeld thread task'

/-- A section that leaves topic states alone, and of its request sets only the offset. -/
theorem Performed.of_eq (h : s.Consistent) {thread : T} {old : Task} {rest : List Section}
    {sort : Section} {outcome : Except BrokerError Task} (hold : s.threads thread = some old)
    (htopics : t.topics = s.topics) (hstates : t.states = s.states)
    (hcreated : t.created = s.created) (hthreads : t.threads = s.threads)
    (hsort : sort ≠ .lockTopic)
    (houtcome : ∀ task', outcome = .ok task' →
      task' = { old with sections := rest, target := task'.target }) :
    s.Performed thread { old with sections := rest } sort t outcome := by
  refine ⟨h.congr htopics hstates hcreated hthreads, hthreads, fun task' hok ↦ ?_,
    fun task' hok i hi ↦ ?_, fun task' hok hlocked ↦ ?_⟩
  · rw [houtcome task' hok]
    exact ⟨rfl, rfl, by rw [decide_eq_false hsort, Bool.or_false]⟩
  · rw [houtcome task' hok] at hi
    rw [hstates]
    exact h.found thread old i hold hi
  · rw [houtcome task' hok] at hlocked ⊢
    rw [hstates]
    exact h.locked thread old hold hlocked

/-- The topic states after the section of `create_topic`. -/
theorem Consistent.openTopic (h : s.Consistent) (task : Task) :
    (s.openTopic task).1.Consistent := by
  rw [RequestState.openTopic]
  cases htopic : s.topics task.request.topic with
  | some incarnation =>
      dsimp only
      split_ifs <;> exact h
  | none =>
      dsimp only
      have hnew : s.states s.created = none := h.fresh s.created le_rfl
      have hstates : ∀ {i found}, s.states i = some found → i ≠ s.created := by
        rintro i found hfound rfl
        rw [hnew] at hfound
        cases hfound
      refine ⟨fun i found hfound hcurrent ↦ ?_, fun name i hi ↦ ?_, fun i hi ↦ ?_,
        fun other found i hother hi ↦ ?_, fun other found hother hlocked ↦ ?_⟩
      · by_cases hi : i = s.created
        · subst hi
          simp only [Function.update_self, Option.some.injEq] at hfound
          subst hfound
          exact Function.update_self _ _ _
        · simp only [Function.update_of_ne hi] at hfound
          have hname := h.current i found hfound hcurrent
          have hne : found.name ≠ task.request.topic := fun heq ↦ by
            rw [heq, htopic] at hname
            cases hname
          exact (Function.update_of_ne hne _ _).trans hname
      · by_cases hname : name = task.request.topic
        · subst hname
          simp only [Function.update_self, Option.some.injEq] at hi
          subst hi
          exact ⟨_, Function.update_self _ _ _, rfl, rfl⟩
        · simp only [Function.update_of_ne hname] at hi
          obtain ⟨found, hfound, hrest⟩ := h.known name i hi
          exact ⟨found, (Function.update_of_ne (hstates hfound) _ _).trans hfound, hrest⟩
      · have hle : s.created + 1 ≤ i := hi
        exact (Function.update_of_ne (by omega) _ _).trans (h.fresh i (by omega))
      · obtain ⟨topic, hfound, hname⟩ := h.found other found i hother hi
        exact ⟨topic, (Function.update_of_ne (hstates hfound) _ _).trans hfound, hname⟩
      · obtain ⟨i, topic, hi, hfound, hrest⟩ := h.locked other found hother hlocked
        exact ⟨i, topic, hi, (Function.update_of_ne (hstates hfound) _ _).trans hfound, hrest⟩

/-- The topic states after the section of `delete_topic`. -/
theorem Consistent.releaseTopic (h : s.Consistent) {name : Bytes} {incarnation : ℕ}
    {topic : TopicState T} (htopic : s.topics name = some incarnation)
    (hstate : s.states incarnation = some topic) (hfree : topic.holder = none)
    (coordinator : GroupCoordinator) :
    Consistent
      { RequestState.setTopic { s with coordinator := coordinator } incarnation
          { topic with deleting := true } with
        topics := Function.update s.topics name none } := by
  obtain ⟨topic', hstate', hname, -⟩ := h.known name incarnation htopic
  obtain rfl := Option.some.inj (hstate.symm.trans hstate')
  refine ⟨fun i found hfound hcurrent ↦ ?_, fun other i hi ↦ ?_, fun i hi ↦ ?_,
    fun thread task i htask hi ↦ ?_, fun thread task htask hlocked ↦ ?_⟩
  · by_cases hsame : i = incarnation
    · subst hsame
      simp only [RequestState.setTopic, Function.update_self, Option.some.injEq] at hfound
      rw [← hfound] at hcurrent
      cases hcurrent
    · simp only [RequestState.setTopic, Function.update_of_ne hsame] at hfound
      have hother := h.current i found hfound hcurrent
      have hne : found.name ≠ name := fun heq ↦ by
        rw [heq, htopic] at hother
        exact hsame (Option.some.inj hother).symm
      exact (Function.update_of_ne hne _ _).trans hother
  · have hne : other ≠ name := fun heq ↦ by
      simp [heq] at hi
    simp only [Function.update_of_ne hne] at hi
    obtain ⟨found, hfound, hrest⟩ := h.known other i hi
    have hsame : i ≠ incarnation := fun heq ↦ by
      rw [heq, hstate] at hfound
      obtain rfl := Option.some.inj hfound
      exact hne (hrest.1.symm.trans hname)
    exact ⟨found, by simpa [RequestState.setTopic, hsame] using hfound, hrest⟩
  · have hnone := h.fresh i hi
    have hne : i ≠ incarnation := fun heq ↦ by
      rw [heq, hstate] at hnone
      cases hnone
    simpa [RequestState.setTopic, hne] using hnone
  · obtain ⟨found, hfound, hfoundName⟩ := h.found thread task i htask hi
    by_cases hsame : i = incarnation
    · subst hsame
      obtain rfl := Option.some.inj (hstate.symm.trans hfound)
      exact ⟨{ topic with deleting := true }, by simp [RequestState.setTopic], hfoundName⟩
    · exact ⟨found, by simpa [RequestState.setTopic, hsame] using hfound, hfoundName⟩
  · obtain ⟨i, found, hi, hfound, hfoundName, hfoundDeleting, hholder⟩ :=
      h.locked thread task htask hlocked
    have hsame : i ≠ incarnation := fun heq ↦ by
      rw [heq, hstate] at hfound
      obtain rfl := Option.some.inj hfound
      rw [hfree] at hholder
      cases hholder
    exact ⟨i, found, hi, by simpa [RequestState.setTopic, hsame] using hfound, hfoundName,
      hfoundDeleting, hholder⟩

/-- A request gets inside a topic state. -/
theorem Consistent.lockTopic (h : s.Consistent) {thread : T} {incarnation : ℕ}
    {topic : TopicState T} (hstate : s.states incarnation = some topic)
    (hfree : topic.holder = none) :
    (s.setTopic incarnation { topic with holder := some thread }).Consistent := by
  refine h.setTopic hstate rfl rfl fun other found hother hlocked hi ↦ ?_
  obtain ⟨j, held, hj, hheld, -, -, hholder⟩ := h.locked other found hother hlocked
  rw [hi] at hj
  obtain rfl := Option.some.inj hj
  obtain rfl := Option.some.inj (hstate.symm.trans hheld)
  rw [hfree] at hholder
  cases hholder

/-- Sections that call the coordinator. -/
def callsCoordinator (sort : Section) : Bool :=
  decide (sort ∈ [Section.expire, .requireNoMembers, .requireNoTopicMembers, .join, .sync,
    .heartbeat, .leave, .validateCommit, .countMembers])

theorem perform_call {thread : T} {task : Task} {env : SectionEnv} {sort : Section}
    (h : callsCoordinator sort = true) :
    s.perform thread task env sort =
      some ({ s with
          coordinator := (s.coordinate thread task (task.topic.bind s.states) env.now sort).1
          effects := s.effects ++ (s.coordinate thread task (task.topic.bind s.states) env.now
            sort).2.toOption.getD [] },
        (s.coordinate thread task (task.topic.bind s.states) env.now sort).2.map fun _ ↦ task) := by
  cases sort <;> first | rfl | cases h

section Sections

variable {thread : T} {old : Task} {rest : List Section} {env : SectionEnv} {sort : Section}
  {outcome : Except BrokerError Task}

/-- The topic state that a request has found has its name. -/
theorem Consistent.found_of_bind (h : s.Consistent) (hold : s.threads thread = some old)
    {topic : TopicState T} (hbind : old.topic.bind s.states = some topic) :
    ∃ incarnation, old.topic = some incarnation ∧ s.states incarnation = some topic ∧
      topic.name = old.request.topic := by
  obtain ⟨i, hi, hstate⟩ := Option.bind_eq_some_iff.mp hbind
  obtain ⟨topic', hstate', hname⟩ := h.found thread old i hold hi
  exact ⟨i, hi, hstate, (Option.some.inj (hstate.symm.trans hstate')) ▸ hname⟩

theorem Consistent.performed_call (h : s.Consistent) (hold : s.threads thread = some old)
    (hcall : callsCoordinator sort = true)
    (hperform : s.perform thread { old with sections := rest } env sort = some (t, outcome)) :
    s.Performed thread { old with sections := rest } sort t outcome := by
  rw [perform_call hcall] at hperform
  obtain ⟨rfl, rfl⟩ := Prod.mk.inj (Option.some.inj hperform)
  refine .of_eq h hold rfl rfl rfl rfl (by rintro rfl; cases hcall) fun task' hok ↦ ?_
  cases hcalled : (s.coordinate thread { old with sections := rest }
      (old.topic.bind s.states) env.now sort).2 with
  | error error =>
      rw [hcalled] at hok
      cases hok
  | ok effects =>
      rw [hcalled] at hok
      rw [← Except.ok.inj hok]

theorem Consistent.performed_findTopic (h : s.Consistent) (hold : s.threads thread = some old)
    (hunlocked : old.locked = false)
    (hperform : s.perform thread { old with sections := rest } env .findTopic =
      some (t, outcome)) :
    s.Performed thread { old with sections := rest } .findTopic t outcome := by
  obtain ⟨rfl, rfl⟩ := Prod.mk.inj (Option.some.inj hperform)
  cases htopic : s.topics old.request.topic with
  | none => exact .of_eq h hold rfl rfl rfl rfl (by simp) fun task' hok ↦ by cases hok
  | some incarnation =>
      refine ⟨h, rfl, fun task' hok ↦ ?_, fun task' hok i hi ↦ ?_, fun task' hok hl ↦ ?_⟩
      · rw [← Except.ok.inj hok]
        exact ⟨rfl, rfl, by simp⟩
      · rw [← Except.ok.inj hok] at hi
        obtain rfl := Option.some.inj hi
        obtain ⟨topic, hstate, hname, -⟩ := h.known _ _ htopic
        exact ⟨topic, hstate, hname⟩
      · rw [← Except.ok.inj hok, hunlocked] at hl
        cases hl

theorem Consistent.performed_lockTopic (h : s.Consistent) (hold : s.threads thread = some old)
    (hperform : s.perform thread { old with sections := rest } env .lockTopic =
      some (t, outcome)) :
    s.Performed thread { old with sections := rest } .lockTopic t outcome := by
  obtain ⟨topic, hbind, hperform⟩ := Option.bind_eq_some_iff.mp hperform
  obtain ⟨i, hi, hstate, hname⟩ := h.found_of_bind hold hbind
  split_ifs at hperform with hheld hdeleting
  · obtain ⟨rfl, rfl⟩ := Prod.mk.inj (Option.some.inj hperform)
    exact ⟨h, rfl, fun task' hok ↦ by (cases hok), fun task' hok ↦ by (cases hok),
      fun task' hok ↦ by (cases hok)⟩
  · obtain ⟨rfl, rfl⟩ := Prod.mk.inj (Option.some.inj hperform)
    have hfree : topic.holder = none := by simpa using hheld
    have hget : old.topic.getD 0 = i := by rw [hi, Option.getD_some]
    dsimp only
    rw [hget]
    refine ⟨h.lockTopic hstate hfree, rfl, fun task' hok ↦ ?_, fun task' hok j hj ↦ ?_,
      fun task' hok _ ↦ ?_⟩
    · rw [← Except.ok.inj hok]
      exact ⟨rfl, rfl, by simp⟩
    · rw [← Except.ok.inj hok] at hj
      obtain rfl := Option.some.inj (hi.symm.trans hj)
      exact ⟨_, Function.update_self _ _ _, hname⟩
    · rw [← Except.ok.inj hok]
      exact ⟨i, _, hi, Function.update_self _ _ _, hname, by simpa using hdeleting, rfl⟩

theorem Consistent.performed_releaseTopic (h : s.Consistent)
    (hold : s.threads thread = some old) (hunlocked : old.locked = false)
    (hperform : s.perform thread { old with sections := rest } env .releaseTopic =
      some (t, outcome)) :
    s.Performed thread { old with sections := rest } .releaseTopic t outcome := by
  simp only [RequestState.perform, RequestState.releaseTopic] at hperform
  cases htopic : s.topics old.request.topic with
  | none =>
      rw [htopic] at hperform
      obtain ⟨rfl, rfl⟩ := Prod.mk.inj (Option.some.inj hperform)
      exact .of_eq h hold rfl rfl rfl rfl (by simp) fun task' hok ↦ by cases hok
  | some incarnation =>
      rw [htopic] at hperform
      obtain ⟨topic, hstate, hperform⟩ := Option.bind_eq_some_iff.mp hperform
      split_ifs at hperform with hheld hactive
      · obtain ⟨rfl, rfl⟩ := Prod.mk.inj (Option.some.inj hperform)
        exact .of_eq h hold rfl rfl rfl rfl (by simp) fun task' hok ↦ by cases hok
      · obtain ⟨rfl, rfl⟩ := Prod.mk.inj (Option.some.inj hperform)
        have hfree : topic.holder = none := by simpa using hheld
        obtain ⟨topic', hstate', hname, -⟩ := h.known _ _ htopic
        obtain rfl := Option.some.inj (hstate.symm.trans hstate')
        refine ⟨h.releaseTopic htopic hstate hfree _, rfl, fun task' hok ↦ ?_,
          fun task' hok i hi ↦ ?_, fun task' hok hl ↦ ?_⟩
        · rw [← Except.ok.inj hok]
          exact ⟨rfl, rfl, by simp⟩
        · rw [← Except.ok.inj hok] at hi
          obtain rfl := Option.some.inj hi
          exact ⟨_, Function.update_self _ _ _, hname⟩
        · rw [← Except.ok.inj hok, hunlocked] at hl
          cases hl

/-- Topic states that there are stay when a topic is opened. -/
theorem Consistent.states_openTopic (h : s.Consistent) (task : Task) {incarnation : ℕ}
    {topic : TopicState T} (hstate : s.states incarnation = some topic) :
    (s.openTopic task).1.states incarnation = some topic := by
  rw [RequestState.openTopic]
  cases s.topics task.request.topic with
  | some found =>
      dsimp only
      split_ifs <;> exact hstate
  | none =>
      have hne : incarnation ≠ s.created := by
        rintro rfl
        rw [h.fresh s.created le_rfl] at hstate
        cases hstate
      exact (Function.update_of_ne hne _ _).trans hstate

theorem openTopic_ok {task task' : Task} (h : (s.openTopic task).2 = .ok task') :
    task' = task := by
  rw [RequestState.openTopic] at h
  cases htopic : s.topics task.request.topic with
  | some incarnation =>
      simp only [htopic] at h
      split_ifs at h
      exact (Except.ok.inj h).symm
  | none =>
      simp only [htopic] at h
      exact (Except.ok.inj h).symm

theorem threads_openTopic (s : RequestState T) (task : Task) :
    (s.openTopic task).1.threads = s.threads := by
  rw [RequestState.openTopic]
  cases s.topics task.request.topic with
  | some incarnation =>
      dsimp only
      split_ifs <;> rfl
  | none => rfl

theorem Consistent.performed_openTopic (h : s.Consistent) (hold : s.threads thread = some old)
    (hperform : s.perform thread { old with sections := rest } env .openTopic =
      some (t, outcome)) :
    s.Performed thread { old with sections := rest } .openTopic t outcome := by
  obtain ⟨rfl, rfl⟩ := Prod.mk.injEq .. ▸ Option.some.inj hperform
  refine ⟨h.openTopic _, threads_openTopic s _, fun task' hok ↦ ?_, fun task' hok i hi ↦ ?_,
    fun task' hok hl ↦ ?_⟩
  · rw [openTopic_ok hok]
    exact ⟨rfl, rfl, by simp⟩
  · rw [openTopic_ok hok] at hi
    obtain ⟨topic, hstate, hname⟩ := h.found thread old i hold hi
    exact ⟨topic, h.states_openTopic _ hstate, hname⟩
  · rw [openTopic_ok hok] at hl ⊢
    obtain ⟨i, topic, hi, hstate, hrest⟩ := h.locked thread old hold hl
    exact ⟨i, topic, hi, h.states_openTopic _ hstate, hrest⟩

theorem Consistent.performed_enqueue (h : s.Consistent) (hold : s.threads thread = some old)
    (hperform : s.perform thread { old with sections := rest } env .enqueue =
      some (t, outcome)) :
    s.Performed thread { old with sections := rest } .enqueue t outcome := by
  obtain ⟨topic, hbind, hperform⟩ := Option.bind_eq_some_iff.mp hperform
  obtain ⟨incarnation, hi, hstate, -⟩ := h.found_of_bind hold hbind
  split_ifs at hperform with hpartition hfull
  · obtain ⟨rfl, rfl⟩ := Prod.mk.inj (Option.some.inj hperform)
    exact .of_eq h hold rfl rfl rfl rfl (by simp) fun task' hok ↦ by cases hok
  · obtain ⟨rfl, rfl⟩ := Prod.mk.inj (Option.some.inj hperform)
    have hget : old.topic.getD 0 = incarnation := by rw [hi, Option.getD_some]
    dsimp only
    rw [hget]
    set queued : TopicState T := { topic with
      pending := topic.pending ++ [(env.partition,
        ⟨old.request.topic, old.request.key, old.request.message⟩)] }
    have hset : (s.setTopic incarnation queued).Consistent :=
      h.setTopic hstate rfl rfl fun _ _ _ _ _ ↦ rfl
    refine ⟨hset, rfl, fun task' hok ↦ ?_, fun task' hok j hj ↦ ?_, fun task' hok hl ↦ ?_⟩
    · rw [← Except.ok.inj hok]
      exact ⟨rfl, rfl, by simp⟩
    · rw [← Except.ok.inj hok] at hj
      exact hset.found thread old j hold hj
    · rw [← Except.ok.inj hok] at hl ⊢
      exact hset.locked thread old hold hl

/-- Sections that only read, or write something else than topic states. -/
def leavesTopics (sort : Section) : Bool :=
  decide (sort ∈ [Section.validateGroup, .validateTopic, .validateCount, .findPartition,
    .checkRange, .readOffsets, .commit, .drain, .removeFiles, .removeOffsets, .removeGroups])

theorem perform_leavesTopics (hsort : leavesTopics sort = true) {task : Task}
    (hperform : s.perform thread task env sort = some (t, outcome)) :
    t.topics = s.topics ∧ t.states = s.states ∧ t.created = s.created ∧
      t.threads = s.threads ∧
      ∀ task', outcome = .ok task' → task' = { task with target := task'.target } := by
  have hchecked : ∀ {P : Prop} [Decidable P] {error : BrokerError} {task' : Task},
      (if P then .ok task else .error error : Except BrokerError Task) = .ok task' →
        task' = { task with target := task'.target } := by
    intro P _ error task' hok
    split_ifs at hok
    rw [← Except.ok.inj hok]
  have hdone : ∀ {task' : Task}, (.ok task : Except BrokerError Task) = .ok task' →
      task' = { task with target := task'.target } := by
    intro task' hok
    rw [← Except.ok.inj hok]
  cases sort with
  | validateGroup | validateTopic =>
      obtain ⟨rfl, rfl⟩ := Prod.mk.inj (Option.some.inj hperform)
      exact ⟨rfl, rfl, rfl, rfl, fun task' hok ↦ hchecked hok⟩
  | validateCount =>
      obtain ⟨rfl, rfl⟩ := Prod.mk.inj (Option.some.inj hperform)
      exact ⟨rfl, rfl, rfl, rfl, fun task' hok ↦ hchecked ((ite_not _ _ _).trans hok)⟩
  | findPartition =>
      obtain ⟨topic, -, hdone⟩ := Option.map_eq_some_iff.mp hperform
      obtain ⟨rfl, rfl⟩ := Prod.mk.inj hdone
      exact ⟨rfl, rfl, rfl, rfl, fun task' hok ↦ hchecked ((ite_not _ _ _).trans hok)⟩
  | checkRange =>
      obtain ⟨rfl, rfl⟩ := Prod.mk.inj (Option.some.inj hperform)
      refine ⟨rfl, rfl, rfl, rfl, fun task' hok ↦ ?_⟩
      obtain ⟨target, -, rfl⟩ := map_eq_ok hok
      rfl
  | commit =>
      simp only [RequestState.perform] at hperform
      split at hperform
      · obtain ⟨rfl, rfl⟩ := Prod.mk.inj (Option.some.inj hperform)
        exact ⟨rfl, rfl, rfl, rfl, fun task' hok ↦ by cases hok⟩
      · obtain ⟨rfl, rfl⟩ := Prod.mk.inj (Option.some.inj hperform)
        exact ⟨rfl, rfl, rfl, rfl, fun task' hok ↦ hdone hok⟩
  | drain =>
      obtain ⟨topic, -, hperform⟩ := Option.bind_eq_some_iff.mp hperform
      split_ifs at hperform
      obtain ⟨rfl, rfl⟩ := Prod.mk.inj (Option.some.inj hperform)
      exact ⟨rfl, rfl, rfl, rfl, fun task' hok ↦ hdone hok⟩
  | readOffsets | removeFiles | removeOffsets | removeGroups =>
      obtain ⟨rfl, rfl⟩ := Prod.mk.inj (Option.some.inj hperform)
      exact ⟨rfl, rfl, rfl, rfl, fun task' hok ↦ hdone hok⟩
  | _ => cases hsort

/-- Every section keeps the topic states consistent. -/
theorem Consistent.perform (h : s.Consistent) (hold : s.threads thread = some old)
    (hunlocked : sort = .findTopic ∨ sort = .lockTopic ∨ sort = .releaseTopic →
      old.locked = false)
    (hperform : s.perform thread { old with sections := rest } env sort = some (t, outcome)) :
    s.Performed thread { old with sections := rest } sort t outcome := by
  by_cases hcall : callsCoordinator sort = true
  · exact h.performed_call hold hcall hperform
  by_cases hleaves : leavesTopics sort = true
  · obtain ⟨htopics, hstates, hcreated, hthreads, houtcome⟩ :=
      perform_leavesTopics hleaves hperform
    exact .of_eq h hold htopics hstates hcreated hthreads (by rintro rfl; cases hleaves) houtcome
  cases sort with
  | findTopic => exact h.performed_findTopic hold (hunlocked (Or.inl rfl)) hperform
  | lockTopic => exact h.performed_lockTopic hold hperform
  | releaseTopic =>
      exact h.performed_releaseTopic hold (hunlocked (Or.inr (Or.inr rfl))) hperform
  | openTopic => exact h.performed_openTopic hold hperform
  | enqueue => exact h.performed_enqueue hold hperform
  | _ => first | exact absurd rfl hcall | exact absurd rfl hleaves

end Sections

/-! ## Steps -/

variable [DecidableEq T]

theorem Consistent.setTask (h : s.Consistent) {thread : T} {task : Task}
    (hfound : ∀ incarnation, task.topic = some incarnation →
      ∃ topic, s.states incarnation = some topic ∧ topic.name = task.request.topic)
    (hlocked : s.LockHeld thread task) : (s.setTask thread (some task)).Consistent := by
  have hcases : ∀ other found, (s.setTask thread (some task)).threads other = some found →
      other = thread ∧ found = task ∨ s.threads other = some found := by
    intro other found hother
    by_cases hsame : other = thread
    · subst hsame
      exact Or.inl ⟨rfl, by simpa [RequestState.setTask, eq_comm] using hother⟩
    · exact Or.inr (by simpa [RequestState.setTask, hsame] using hother)
  refine ⟨h.current, h.known, h.fresh, fun other found i hother hi ↦ ?_,
    fun other found hother ↦ ?_⟩
  · rcases hcases other found hother with ⟨-, rfl⟩ | hother
    · exact hfound i hi
    · exact h.found other found i hother hi
  · rcases hcases other found hother with ⟨rfl, rfl⟩ | hother
    · exact hlocked
    · exact h.locked other found hother

/-- The end of a request lets the next one in. -/
theorem Consistent.finish (h : s.Consistent) {thread : T} {task : Task}
    (hlocked : s.LockHeld thread task) : (s.finish thread task).Consistent := by
  have hcleared : (s.setTask thread none).Consistent := by
    have hthreads : ∀ other found, (s.setTask thread none).threads other = some found →
        other ≠ thread ∧ s.threads other = some found := by
      intro other found hother
      by_cases hsame : other = thread
      · simp [RequestState.setTask, hsame] at hother
      · exact ⟨hsame, by simpa [RequestState.setTask, hsame] using hother⟩
    exact ⟨h.current, h.known, h.fresh,
      fun other found i hother hi ↦ h.found other found i (hthreads other found hother).2 hi,
      fun other found hother ↦ h.locked other found (hthreads other found hother).2⟩
  unfold RequestState.finish
  dsimp only
  split
  · rename_i topic hl hstate
    obtain ⟨i, held, hi, hheld, -, -, hholder⟩ := hlocked hl
    rw [hi, Option.bind_some] at hstate
    rw [hi, Option.getD_some]
    refine hcleared.setTopic hstate rfl rfl fun other found hother hfound hfoundTopic ↦ ?_
    -- Nobody else is inside this topic state.
    exfalso
    have hne : other ≠ thread := by
      rintro rfl
      simp [RequestState.setTask] at hother
    obtain ⟨j, held', hj, hheld', -, -, hholder'⟩ := hcleared.locked other found hother hfound
    rw [hfoundTopic] at hj
    obtain rfl := Option.some.inj hj
    have hsame : held = held' := Option.some.inj (hheld.symm.trans hheld')
    rw [← hsame, hholder] at hholder'
    exact hne (Option.some.inj hholder').symm
  · exact hcleared

/-- A request is at one of its places, and inside its topic from `lockTopic` on. -/
structure Placed (task : Task) : Prop where
  suffix : task.sections <:+ task.request.kind.sections
  locked : task.locked = task.request.kind.lockedAt task.sections

structure Tracked (s : RequestState T) : Prop where
  consistent : s.Consistent
  placed : ∀ thread task, s.threads thread = some task → Placed task

omit [DecidableEq T] in
/-- A request at a section that needs the mutex holds it. -/
theorem Tracked.locked_of_needsLock (h : s.Tracked) {thread : T} {task : Task} {sort : Section}
    {rest : List Section} (htask : s.threads thread = some task)
    (hsections : task.sections = sort :: rest) (hsort : RequestKind.needsLock sort = true) :
    task.locked = true := by
  obtain ⟨hsuffix, hlocked⟩ := h.placed thread task htask
  rw [hsections] at hsuffix hlocked
  rw [hlocked]
  exact RequestKind.lockedAt_of_needsLock hsuffix hsort

theorem finish_threads (s : RequestState T) (thread : T) (task : Task) :
    (s.finish thread task).threads = Function.update s.threads thread none := by
  unfold RequestState.finish
  dsimp only
  split <;> rfl

/-- What is not about threads and mutexes is as the last section has left it. -/
def SameData (s t : RequestState T) : Prop :=
  t.coordinator = s.coordinator ∧ t.offsets = s.offsets ∧ t.effects = s.effects ∧
    t.files = s.files ∧ t.topics = s.topics ∧
    ∀ incarnation topic, t.states incarnation = some topic → ∃ holder,
      s.states incarnation = some { topic with holder := holder }

theorem sameData_finish (s : RequestState T) (thread : T) (task : Task) :
    s.SameData (s.finish thread task) := by
  unfold RequestState.finish
  dsimp only
  split
  · rename_i topic hl hstate
    obtain ⟨i, hi, hstate⟩ := Option.bind_eq_some_iff.mp hstate
    refine ⟨rfl, rfl, rfl, rfl, rfl, fun j found hfound ↦ ?_⟩
    rw [hi, Option.getD_some] at hfound
    by_cases hj : j = i
    · subst hj
      simp only [RequestState.setTopic, Function.update_self, Option.some.injEq] at hfound
      subst hfound
      exact ⟨topic.holder, hstate⟩
    · simp only [RequestState.setTopic, Function.update_of_ne hj] at hfound
      exact ⟨found.holder, hfound⟩
  · exact ⟨rfl, rfl, rfl, rfl, rfl, fun j found hfound ↦ ⟨found.holder, hfound⟩⟩

/-- A section was carried out, and the request has gone on or ended. -/
structure Advances (s : RequestState T) (thread : T) (env : SectionEnv) (t : RequestState T)
    (task : Task) (sort : Section) (rest : List Section) (u : RequestState T)
    (outcome : Except BrokerError Task) : Prop where
  running : s.threads thread = some task
  sections : task.sections = sort :: rest
  perform : s.perform thread { task with sections := rest } env sort = some (u, outcome)
  performed : s.Performed thread { task with sections := rest } sort u outcome
  sameData : u.SameData t
  others : ∀ other, other ≠ thread → t.threads other = s.threads other
  next : ∀ task', t.threads thread = some task' → outcome = .ok task' ∧ rest ≠ []
  ended : t.threads thread = none → (∃ error, outcome = .error error) ∨ rest = []

theorem Placed.unlocked {task : Task} {sort : Section} {rest : List Section} (h : Placed task)
    (hsections : task.sections = sort :: rest)
    (hsort : sort = .findTopic ∨ sort = .lockTopic ∨ sort = .releaseTopic) :
    task.locked = false := by
  have hplace := RequestKind.sections_tails (fun kind rest ↦ ∀ sort ∈ rest.head?,
    sort = .findTopic ∨ sort = .lockTopic ∨ sort = .releaseTopic →
      kind.lockedAt rest = false) (by decide) h.suffix
  rw [h.locked]
  exact hplace sort (by rw [hsections]; rfl) hsort

/-- The place behind a section. -/
theorem Placed.next {task task' : Task} {sort : Section} {rest : List Section} (h : Placed task)
    (hsections : task.sections = sort :: rest) (hrequest : task'.request = task.request)
    (hrest : task'.sections = rest)
    (hlocked : task'.locked = (task.locked || decide (sort = .lockTopic))) : Placed task' := by
  obtain ⟨hsuffix, hbefore⟩ := h
  rw [hsections] at hsuffix hbefore
  constructor
  · rw [hrequest, hrest]
    exact (List.suffix_cons sort rest).trans hsuffix
  · rw [hlocked, hrequest, hrest, hbefore]
    by_cases hsort : sort = .lockTopic
    · subst hsort
      obtain ⟨hafter, -⟩ := RequestKind.lockedAt_lockTopic hsuffix
      simp [hafter]
    · rw [RequestKind.lockedAt_cons _ rest hsort]
      simp [hsort]

/-- A request ends after its section. -/
theorem Tracked.finishAfter (h : s.Tracked) {u : RequestState T} (hconsistent : u.Consistent)
    (hthreads : u.threads = s.threads) {thread : T} {ended : Task}
    (hended : u.LockHeld thread ended) :
    (u.finish thread ended).Tracked ∧
      (∀ other, other ≠ thread → (u.finish thread ended).threads other = s.threads other) ∧
      (u.finish thread ended).threads thread = none := by
  refine ⟨⟨hconsistent.finish hended, fun other found hother ↦ ?_⟩, fun other hne ↦ ?_, ?_⟩
  · rw [finish_threads] at hother
    have hne : other ≠ thread := by
      rintro rfl
      simp at hother
    rw [Function.update_of_ne hne, hthreads] at hother
    exact h.placed other found hother
  · rw [finish_threads, Function.update_of_ne hne, hthreads]
  · rw [finish_threads, Function.update_self]

/-- A request goes on after its section. -/
theorem Tracked.goOn (h : s.Tracked) {thread : T} {task task' : Task} {sort : Section}
    {rest : List Section} {u : RequestState T} (htask : s.threads thread = some task)
    (hsections : task.sections = sort :: rest)
    (hperformed : s.Performed thread { task with sections := rest } sort u (.ok task')) :
    (u.setTask thread (some task')).Tracked ∧
      (∀ other, other ≠ thread →
        (u.setTask thread (some task')).threads other = s.threads other) ∧
      (u.setTask thread (some task')).threads thread = some task' := by
  obtain ⟨hrequest, hrest, hlocked⟩ := hperformed.request task' rfl
  have hself : (u.setTask thread (some task')).threads thread = some task' := by
    simp [RequestState.setTask]
  have hothers : ∀ other, other ≠ thread →
      (u.setTask thread (some task')).threads other = s.threads other := by
    intro other hne
    simp [RequestState.setTask, hne, hperformed.threads]
  refine ⟨⟨?_, fun other found hother ↦ ?_⟩, hothers, hself⟩
  · refine hperformed.consistent.setTask (fun i hi ↦ ?_) (hperformed.lockHeld task' rfl)
    rw [hrequest]
    exact hperformed.found task' rfl i hi
  · by_cases hne : other = thread
    · subst hne
      obtain rfl := Option.some.inj (hself.symm.trans hother)
      exact (h.placed other task htask).next hsections hrequest hrest hlocked
    · rw [hothers other hne] at hother
      exact h.placed other found hother

theorem Tracked.advance (h : s.Tracked) {thread : T} {env : SectionEnv}
    (hstep : s.step (.advance thread env) = some t) :
    ∃ task sort rest u outcome, s.Advances thread env t task sort rest u outcome ∧ t.Tracked := by
  simp only [RequestState.step] at hstep
  split at hstep
  · cases hstep
  rename_i task htask
  split at hstep
  · cases hstep
  rename_i sort rest hsections
  obtain ⟨⟨u, outcome⟩, hperform, hstep⟩ := Option.map_eq_some_iff.mp hstep
  have hperformed : s.Performed thread { task with sections := rest } sort u outcome :=
    h.consistent.perform htask (fun hsort ↦ (h.placed thread task htask).unlocked hsections hsort)
      hperform
  cases outcome with
  | error error =>
      obtain rfl := hstep
      obtain ⟨htracked, hothers, hnone⟩ := h.finishAfter hperformed.consistent hperformed.threads
        (hperformed.consistent.locked thread task (hperformed.threads ▸ htask))
      refine ⟨task, sort, rest, u, .error error, ⟨htask, hsections, hperform, hperformed,
        sameData_finish u thread task, hothers, fun task' htask' ↦ ?_, fun _ ↦
          Or.inl ⟨error, rfl⟩⟩, htracked⟩
      rw [hnone] at htask'
      cases htask'
  | ok task' =>
      obtain ⟨-, hrest, -⟩ := hperformed.request task' rfl
      dsimp only at hstep hrest
      rw [hrest] at hstep
      split_ifs at hstep with hnil
      · obtain rfl := hstep
        obtain ⟨htracked, hothers, hnone⟩ := h.finishAfter hperformed.consistent hperformed.threads
          (hperformed.lockHeld task' rfl)
        refine ⟨task, sort, rest, u, .ok task', ⟨htask, hsections, hperform, hperformed,
          sameData_finish u thread task', hothers, fun other hother ↦ ?_, fun _ ↦ Or.inr hnil⟩,
          htracked⟩
        rw [hnone] at hother
        cases hother
      · obtain rfl := hstep
        obtain ⟨htracked, hothers, hself⟩ := h.goOn htask hsections hperformed
        refine ⟨task, sort, rest, u, .ok task', ⟨htask, hsections, hperform, hperformed,
          ⟨rfl, rfl, rfl, rfl, rfl, fun i found hfound ↦ ⟨found.holder, hfound⟩⟩, hothers,
          fun other hother ↦ ?_, fun hnone ↦ ?_⟩, htracked⟩
        · obtain rfl := Option.some.inj (hself.symm.trans hother)
          exact ⟨rfl, hnil⟩
        · rw [hself] at hnone
          cases hnone

theorem Tracked.start (h : s.Tracked) {thread : T} {request : Request}
    (hstep : s.step (.start thread request) = some t) :
    s.threads thread = none ∧ t = s.setTask thread
      (some { request := request, sections := request.kind.sections }) ∧ t.Tracked := by
  simp only [RequestState.step] at hstep
  split at hstep
  · rename_i hnone
    obtain rfl := Option.some.inj hstep
    refine ⟨hnone, rfl, h.consistent.setTask (fun i hi ↦ by cases hi) (fun hl ↦ by cases hl),
      fun other found hother ↦ ?_⟩
    by_cases hne : other = thread
    · subst hne
      simp only [RequestState.setTask, Function.update_self, Option.some.injEq] at hother
      subst hother
      exact ⟨List.suffix_refl _, RequestKind.sections_tails
        (fun kind rest ↦ rest = kind.sections → false = kind.lockedAt rest) (by decide)
        (List.suffix_refl _) rfl⟩
    · exact h.placed other found (by simpa [RequestState.setTask, hne] using hother)
  · cases hstep

/-- An append job leaves everything alone but the job, the files and the effects. -/
theorem Tracked.append (h : s.Tracked) {incarnation job : ℕ}
    (hstep : s.step (.append incarnation job) = some t) :
    ∃ topic pending, s.states incarnation = some topic ∧ topic.pending[job]? = some pending ∧
      t = (s.setTopic incarnation { topic with pending := topic.pending.eraseIdx job }).runAppend
        incarnation topic pending.1 pending.2 ∧
      t.topics = s.topics ∧ t.threads = s.threads ∧ t.coordinator = s.coordinator ∧
      t.offsets = s.offsets ∧ t.Tracked := by
  obtain ⟨topic, hstate, hstep⟩ := Option.bind_eq_some_iff.mp hstep
  obtain ⟨pending, hpending, rfl⟩ := Option.map_eq_some_iff.mp hstep
  have hset : (s.setTopic incarnation
      { topic with pending := topic.pending.eraseIdx job }).Consistent :=
    h.consistent.setTopic hstate rfl rfl fun _ _ _ _ _ ↦ rfl
  refine ⟨topic, pending, hstate, hpending, rfl, ?_⟩
  unfold RequestState.runAppend
  split
  · exact ⟨rfl, rfl, rfl, rfl, hset, h.placed⟩
  · split
    · exact ⟨rfl, rfl, rfl, rfl, hset, h.placed⟩
    · exact ⟨rfl, rfl, rfl, rfl, hset.congr rfl rfl rfl rfl, h.placed⟩

omit [DecidableEq T] in
theorem tracked_initial (maxTopicPartitions : ℕ) (offsets : OffsetStore) :
    (initial maxTopicPartitions offsets : RequestState T).Tracked := by
  refine ⟨⟨?_, ?_, ?_, ?_, ?_⟩, ?_⟩
  · rintro incarnation topic hstate
    cases hstate
  · rintro name incarnation htopic
    cases htopic
  · exact fun incarnation _ ↦ rfl
  · rintro thread task incarnation htask
    cases htask
  · rintro thread task htask
    cases htask
  · rintro thread task htask
    cases htask

end RequestState

end BoltStream.Broker
