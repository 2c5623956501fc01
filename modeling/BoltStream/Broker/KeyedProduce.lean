import Mathlib.Data.Int.CardIntervalMod
import BoltStream.Broker.AnsweredOffsets

/-!
# Keys and partitions

A produce request with a key goes to the partition that the hash of the key picks;
requests without a key are dealt to the partitions in turn.  The turn passes on under
the mutex of the topic, after the job is accepted, so it survives whatever other
requests, workers and deletions do in between.
-/

namespace BoltStream.Broker

open BoltStream.Lib BoltStream.Protocol BoltStream.Storage

/-! ## Dealing in turn -/

/-- How many of `total` jobs the partition `k` of `n` gets when they are dealt in turn. -/
def dealt (n total k : ℕ) : ℕ := Nat.count (· ≡ k [MOD n]) total

theorem dealt_zero (n k : ℕ) : dealt n 0 k = 0 := Nat.count_zero _

theorem dealt_succ {n total next k : ℕ} (hnext : next ≡ total [MOD n]) (hlt : next < n)
    (hk : k < n) : dealt n (total + 1) k = dealt n total k + if k = next then 1 else 0 := by
  rw [dealt, Nat.count_succ, dealt]
  congr 1
  have hturn : total ≡ k [MOD n] ↔ k = next := by
    constructor
    · intro h
      exact (Nat.ModEq.eq_of_lt_of_lt (hnext.trans h) hlt hk).symm
    · rintro rfl
      exact hnext.symm
  simp only [hturn]

/-- Dealing in turn favours no partition. -/
theorem dealt_le_succ {n : ℕ} (total : ℕ) {k k' : ℕ} (hk : k < n) :
    dealt n total k ≤ dealt n total k' + 1 := by
  have hn : 0 < n := by omega
  rw [dealt, dealt, Nat.count_modEq_card total hn, Nat.count_modEq_card total hn]
  split_ifs <;> omega

namespace RuntimeState

variable {T W : Type*}

/-- The jobs without a key that a partition has accepted. -/
def unkeyed (s : RuntimeState T W) (p : ℕ × ℕ) : ℕ :=
  (s.queue.partitions p).accepted.countP fun job ↦ job.request.key = []

/-- No log of the broker comes to the end of the offsets, not even with the largest
batch. -/
def HasRoom (s : RuntimeState T W) : Prop :=
  ∀ incarnation < s.requests.created, ∀ topic ∈ s.requests.states incarnation,
    ∀ k < topic.partitionCount, (s.queue.log (incarnation, k)).nextOffset + 2 ^ 32 ≤ 2 ^ 64

instance decidableHasRoom (s : RuntimeState T W) : Decidable s.HasRoom :=
  inferInstanceAs (Decidable (∀ incarnation < s.requests.created,
    ∀ topic ∈ s.requests.states incarnation, ∀ k < topic.partitionCount,
      (s.queue.log (incarnation, k)).nextOffset + 2 ^ 32 ≤ 2 ^ 64))

variable {config : QueueConfig} {s t : RuntimeState T W} {thread : T}

/-- A request without a key whose job is accepted has not passed on the turn yet. -/
def Owes (s : RuntimeState T W) (incarnation : ℕ) : Prop :=
  ∃ thread task p, s.requests.threads thread = some task ∧ task.topic = some incarnation ∧
    task.request.key = [] ∧ s.scheduling thread = some p

/-- The jobs without a key of a topic state are dealt in turn to its partitions, and the
next turn is known. -/
def DealtTo (s : RuntimeState T W) (incarnation n : ℕ) : Prop :=
  ∃ total, (s.Owes incarnation → s.nextRoundRobinPartition incarnation + 1 ≡ total [MOD n]) ∧
    (¬s.Owes incarnation → s.nextRoundRobinPartition incarnation ≡ total [MOD n]) ∧
    ∀ k < n, s.unkeyed (incarnation, k) = Broker.dealt n total k

theorem DealtTo.congr {incarnation n : ℕ} (h : s.DealtTo incarnation n)
    (howes : t.Owes incarnation ↔ s.Owes incarnation)
    (hnext : t.nextRoundRobinPartition incarnation = s.nextRoundRobinPartition incarnation)
    (hcounts : ∀ k, t.unkeyed (incarnation, k) = s.unkeyed (incarnation, k)) :
    t.DealtTo incarnation n := by
  simp only [DealtTo, howes, hnext, hcounts]
  exact h

structure Dealt (s : RuntimeState T W) : Prop where
  offsets : s.queue.OffsetsInOrder
  /-- A topic state has nothing before it is made. -/
  fresh : ∀ incarnation, s.requests.states incarnation = none →
    s.nextRoundRobinPartition incarnation = 0 ∧
      ∀ k, (s.queue.partitions (incarnation, k)).accepted = []
  placed : ∀ incarnation topic k, s.requests.states incarnation = some topic →
    ∀ job ∈ (s.queue.partitions (incarnation, k)).accepted, k < topic.partitionCount ∧
      (job.request.key ≠ [] → k = keyHashPartition job.request.key topic.partitionCount)
  scheduled : ∀ thread p, s.scheduling thread = some p → ∃ task rest,
    s.requests.threads thread = some task ∧ task.sections = .enqueue :: rest ∧
      task.topic = some p.1
  dealt : ∀ incarnation topic, s.requests.states incarnation = some topic →
    s.DealtTo incarnation topic.partitionCount

/-- Topic states stay, with their partitions. -/
def SameTopics (s t : RuntimeState T W) : Prop :=
  ∀ incarnation topic, s.requests.states incarnation = some topic →
    ∃ topic', t.requests.states incarnation = some topic' ∧
      topic'.partitionCount = topic.partitionCount

theorem SameTopics.count (h : SameTopics s t) {incarnation : ℕ} {topic topic' : TopicState T}
    (hstate : s.requests.states incarnation = some topic)
    (hstate' : t.requests.states incarnation = some topic') :
    topic'.partitionCount = topic.partitionCount := by
  obtain ⟨found, hfound, hcount⟩ := h incarnation topic hstate
  rw [Option.some.inj (hstate'.symm.trans hfound)]
  exact hcount

/-- No job is accepted, and no request that owes the turn goes on. -/
theorem Dealt.keep (h : Dealt s) (htracked : s.requests.Tracked) (htopics : SameTopics s t)
    (hoffsets : t.queue.OffsetsInOrder)
    (haccepted : ∀ p, (t.queue.partitions p).accepted = (s.queue.partitions p).accepted)
    (hnext : t.nextRoundRobinPartition = s.nextRoundRobinPartition)
    (hscheduling : t.scheduling = s.scheduling)
    (hthreads : ∀ thread p, s.scheduling thread = some p →
      t.requests.threads thread = s.requests.threads thread) : Dealt t := by
  have hnone : ∀ i, t.requests.states i = none → s.requests.states i = none := by
    intro i hi
    by_contra hsome
    obtain ⟨topic, hstate⟩ := Option.ne_none_iff_exists'.mp hsome
    obtain ⟨topic', hstate', -⟩ := htopics i topic hstate
    rw [hi] at hstate'
    cases hstate'
  have howes : ∀ i, t.Owes i ↔ s.Owes i := by
    intro i
    constructor
    · rintro ⟨thread, task, p, htask, hi, hkey, hp⟩
      rw [hscheduling] at hp
      exact ⟨thread, task, p, hthreads thread p hp ▸ htask, hi, hkey, hp⟩
    · rintro ⟨thread, task, p, htask, hi, hkey, hp⟩
      exact ⟨thread, task, p, (hthreads thread p hp).trans htask, hi, hkey, hscheduling ▸ hp⟩
  refine ⟨hoffsets, fun i hi ↦ ?_, fun i topic' k hstate' job hjob ↦ ?_, fun thread p hp ↦ ?_,
    fun i topic' hstate' ↦ ?_⟩
  · obtain ⟨hzero, hnil⟩ := h.fresh i (hnone i hi)
    exact ⟨hnext ▸ hzero, fun k ↦ (haccepted _).trans (hnil k)⟩
  · rw [haccepted] at hjob
    cases hstate : s.requests.states i with
    | none =>
        rw [(h.fresh i hstate).2 k] at hjob
        cases hjob
    | some topic =>
        rw [htopics.count hstate hstate']
        exact h.placed i topic k hstate job hjob
  · rw [hscheduling] at hp
    obtain ⟨task, rest, htask, hsections, hi⟩ := h.scheduled thread p hp
    exact ⟨task, rest, (hthreads thread p hp).trans htask, hsections, hi⟩
  · have hcounts : ∀ k, t.unkeyed (i, k) = s.unkeyed (i, k) := fun k ↦ by
      rw [unkeyed, haccepted, unkeyed]
    cases hstate : s.requests.states i with
    | none =>
        obtain ⟨hzero, hnil⟩ := h.fresh i hstate
        refine ⟨0, fun howed ↦ ?_, fun _ ↦ ?_, fun k _ ↦ ?_⟩
        · obtain ⟨thread, task, p, htask, hi, -⟩ := (howes i).mp howed
          obtain ⟨topic, hfound, -⟩ := htracked.consistent.found thread task i htask hi
          rw [hstate] at hfound
          cases hfound
        · rw [hnext, hzero]
        · rw [hcounts, unkeyed, hnil, dealt_zero]
          rfl
    | some topic =>
        rw [htopics.count hstate hstate']
        exact (h.dealt i topic hstate).congr (howes i) (congrFun hnext i) hcounts

variable {task : Task} {rest : List Section} {incarnation : ℕ} {topic : TopicState T}

/-- A request inside a topic state is the only one there that can have a job on its way. -/
theorem Dealt.alone (h : Dealt s) (htracked : s.requests.Tracked)
    (htask : s.requests.threads thread = some task) (hsections : task.sections = .enqueue :: rest)
    (hi : task.topic = some incarnation) {other : T} {task' : Task} {p : ℕ × ℕ}
    (htask' : s.requests.threads other = some task') (hi' : task'.topic = some incarnation)
    (hp : s.scheduling other = some p) : other = thread := by
  obtain ⟨found, rest', hfound, hsections', -⟩ := h.scheduled other p hp
  obtain rfl := Option.some.inj (htask'.symm.trans hfound)
  obtain ⟨topic, hstate, hname⟩ := htracked.consistent.found thread task incarnation htask hi
  obtain ⟨topic', hstate', hname'⟩ := htracked.consistent.found other task' incarnation htask' hi'
  obtain rfl := Option.some.inj (hstate.symm.trans hstate')
  exact htracked.consistent.exclusive htask' htask
    (htracked.locked_of_needsLock htask' hsections' (by decide))
    (htracked.locked_of_needsLock htask hsections (by decide)) (hname'.symm.trans hname)

/-- Requests and jobs on their way are as before, but for one thread. -/
def SameOthers (thread : T) (s t : RuntimeState T W) : Prop :=
  ∀ other, other ≠ thread → t.requests.threads other = s.requests.threads other ∧
    t.scheduling other = s.scheduling other

theorem SameOthers.symm (h : SameOthers thread s t) : SameOthers thread t s :=
  fun other hne ↦ ⟨(h other hne).1.symm, (h other hne).2.symm⟩

/-- A topic state in which the thread has no job on its way owes the turn as before. -/
theorem Owes.of_others (h : SameOthers thread s t) {i : ℕ}
    (hidle : ∀ task, s.requests.threads thread = some task → task.topic = some i →
      s.scheduling thread = none) (howes : s.Owes i) : t.Owes i := by
  obtain ⟨other, task, p, htask, hi, hkey, hp⟩ := howes
  have hne : other ≠ thread := by
    rintro rfl
    rw [hidle task htask hi] at hp
    cases hp
  obtain ⟨hthreads, hscheduling⟩ := h other hne
  exact ⟨other, task, p, hthreads.trans htask, hi, hkey, hscheduling.trans hp⟩

/-- A request inside a topic state is the only one there that can owe the turn. -/
theorem Dealt.owes_inside (h : Dealt s) (htracked : s.requests.Tracked)
    (htask : s.requests.threads thread = some task) (hsections : task.sections = .enqueue :: rest)
    (hi : task.topic = some incarnation) (hothers : SameOthers thread s t)
    (howes : t.Owes incarnation) :
    ∃ task' p, t.requests.threads thread = some task' ∧ task'.request.key = [] ∧
      t.scheduling thread = some p := by
  obtain ⟨other, task', p, htask', hi', hkey, hp⟩ := howes
  by_cases hne : other = thread
  · subst hne
    exact ⟨task', p, htask', hkey, hp⟩
  · obtain ⟨hthreads, hscheduling⟩ := hothers other hne
    exact absurd (h.alone htracked htask hsections hi (hthreads ▸ htask') hi' (hscheduling ▸ hp))
      hne

/-- Only a job without a key counts where it is accepted. -/
theorem unkeyed_accept {p : ℕ × ℕ} {job : AppendJob}
    (haccepted : ∀ q, (t.queue.partitions q).accepted =
      (s.queue.partitions q).accepted ++ if q = p then [job] else []) (q : ℕ × ℕ) :
    t.unkeyed q = s.unkeyed q + if q = p ∧ job.request.key = [] then 1 else 0 := by
  rw [unkeyed, unkeyed, haccepted, List.countP_append]
  by_cases hq : q = p <;> simp [hq, List.countP_singleton]

/-- A job without a key takes the turn, and the request that has it owes the next one. -/
theorem DealtTo.accept {n k : ℕ} (h : s.DealtTo incarnation n) (hnot : ¬s.Owes incarnation)
    {job : AppendJob} (hk : k < n)
    (hturn : job.request.key = [] → k = s.nextRoundRobinPartition incarnation)
    (howes : t.Owes incarnation ↔ job.request.key = [])
    (hnext : t.nextRoundRobinPartition = s.nextRoundRobinPartition)
    (haccepted : ∀ p, (t.queue.partitions p).accepted =
      (s.queue.partitions p).accepted ++ if p = (incarnation, k) then [job] else []) :
    t.DealtTo incarnation n := by
  obtain ⟨total, -, hpassed, hcounts⟩ := h
  have hbefore := hpassed hnot
  by_cases hkey : job.request.key = []
  · refine ⟨total + 1, fun _ ↦ hnext ▸ hbefore.add_right 1,
      fun hnot' ↦ absurd (howes.mpr hkey) hnot', fun k' hk' ↦ ?_⟩
    rw [dealt_succ hbefore (hturn hkey ▸ hk) hk', ← hcounts k' hk', unkeyed_accept haccepted,
      ← hturn hkey]
    simp [hkey]
  · refine ⟨total, fun howes' ↦ absurd (howes.mp howes') hkey, fun _ ↦ hnext ▸ hbefore,
      fun k' hk' ↦ ?_⟩
    rw [← hcounts k' hk', unkeyed_accept haccepted]
    simp [hkey]

/-- The turn is passed on by a request that owes it. -/
theorem DealtTo.pass {n : ℕ} (h : s.DealtTo incarnation n) {key : Bytes}
    (howed : s.Owes incarnation ↔ key = []) (hnot : ¬t.Owes incarnation)
    (hnext : t.nextRoundRobinPartition incarnation =
      if key = [] then (s.nextRoundRobinPartition incarnation + 1) % n
      else s.nextRoundRobinPartition incarnation)
    (hcounts : ∀ q, t.unkeyed q = s.unkeyed q) : t.DealtTo incarnation n := by
  obtain ⟨total, howes, hpassed, hdealt⟩ := h
  refine ⟨total, fun howes ↦ absurd howes hnot, fun _ ↦ ?_,
    fun k hk ↦ (hcounts _).trans (hdealt k hk)⟩
  rw [hnext]
  split_ifs with hkey
  · exact (Nat.mod_modEq _ _).trans (howes (howed.mpr hkey))
  · exact hpassed fun howes ↦ hkey (howed.mp howes)

variable [DecidableEq T]

/-- The job of a request is accepted, and the turn is still to be passed on. -/
theorem Dealt.accept (h : Dealt s) (htracked : s.requests.Tracked)
    (htask : s.requests.threads thread = some task) (hsections : task.sections = .enqueue :: rest)
    (hi : task.topic = some incarnation) (hstate : s.requests.states incarnation = some topic)
    (hidle : s.scheduling thread = none) {job : AppendJob} {k : ℕ}
    (hjob : job.request.key = task.request.key) (hk : k < topic.partitionCount)
    (hpartition : k = if task.request.key = [] then s.nextRoundRobinPartition incarnation
      else keyHashPartition task.request.key topic.partitionCount)
    (hrequests : t.requests = s.requests)
    (hnext : t.nextRoundRobinPartition = s.nextRoundRobinPartition)
    (hscheduling : t.scheduling = Function.update s.scheduling thread (some (incarnation, k)))
    (haccepted : ∀ p, (t.queue.partitions p).accepted =
      (s.queue.partitions p).accepted ++ if p = (incarnation, k) then [job] else [])
    (hoffsets : t.queue.OffsetsInOrder) : Dealt t := by
  have hothers : SameOthers thread s t := by
    intro other hne
    rw [hrequests, hscheduling, Function.update_of_ne hne]
    exact ⟨rfl, rfl⟩
  have hself : t.scheduling thread = some (incarnation, k) := by
    rw [hscheduling, Function.update_self]
  refine ⟨hoffsets, fun i hnone ↦ ?_, fun i found k' hfound job' hjob' ↦ ?_,
    fun other p hp ↦ ?_, fun i found hfound ↦ ?_⟩
  · rw [hrequests] at hnone
    have hne : i ≠ incarnation := by
      rintro rfl
      rw [hstate] at hnone
      cases hnone
    obtain ⟨hzero, hnil⟩ := h.fresh i hnone
    refine ⟨hnext ▸ hzero, fun k' ↦ ?_⟩
    rw [haccepted, if_neg (fun heq ↦ hne (congrArg Prod.fst heq)), List.append_nil, hnil]
  · rw [hrequests] at hfound
    rw [haccepted, List.mem_append] at hjob'
    rcases hjob' with hold | hnew
    · exact h.placed i found k' hfound job' hold
    · split_ifs at hnew with heq
      · obtain ⟨rfl, rfl⟩ := Prod.mk.inj heq
        obtain rfl := List.mem_singleton.mp hnew
        obtain rfl := Option.some.inj (hstate.symm.trans hfound)
        refine ⟨hk, fun hkey ↦ ?_⟩
        rw [hjob] at hkey ⊢
        rw [hpartition, if_neg hkey]
      · cases hnew
  · rw [hrequests]
    by_cases hne : other = thread
    · subst hne
      obtain rfl := Option.some.inj (hself.symm.trans hp)
      exact ⟨task, rest, htask, hsections, hi⟩
    · exact h.scheduled other p ((hothers other hne).2 ▸ hp)
  · rw [hrequests] at hfound
    have hdealt := h.dealt i found hfound
    by_cases hne : i = incarnation
    · subst hne
      obtain rfl := Option.some.inj (hstate.symm.trans hfound)
      refine hdealt.accept (fun howes ↦ ?_) hk (fun hkey ↦ ?_) ⟨fun howes ↦ ?_, fun hkey ↦ ?_⟩
        hnext haccepted
      · obtain ⟨-, p, -, -, hp⟩ := h.owes_inside htracked htask hsections hi
          (fun _ _ ↦ ⟨rfl, rfl⟩) howes
        rw [hidle] at hp
        cases hp
      · rwa [if_pos (hjob ▸ hkey)] at hpartition
      · obtain ⟨task', p, htask', hkey, -⟩ :=
          h.owes_inside htracked htask hsections hi hothers howes
        rw [hrequests] at htask'
        obtain rfl := Option.some.inj (htask.symm.trans htask')
        exact hjob.trans hkey
      · exact ⟨thread, task, _, hrequests ▸ htask, hi, hjob ▸ hkey, hself⟩
    · refine hdealt.congr ⟨Owes.of_others hothers.symm fun task' htask' hi' ↦ ?_,
        Owes.of_others hothers fun _ _ _ ↦ hidle⟩ (congrFun hnext i) fun k' ↦ ?_
      · rw [hrequests] at htask'
        obtain rfl := Option.some.inj (htask.symm.trans htask')
        exact absurd (Option.some.inj (hi'.symm.trans hi)) hne
      · rw [unkeyed_accept haccepted, if_neg fun heq ↦ hne (congrArg Prod.fst heq.1)]
        rfl

/-- The request passes on the turn and gives back the mutex. -/
theorem Dealt.passTurn (h : Dealt s) (htracked : s.requests.Tracked)
    (htask : s.requests.threads thread = some task) (hsections : task.sections = .enqueue :: rest)
    (hi : task.topic = some incarnation) (hstate : s.requests.states incarnation = some topic)
    {p : ℕ × ℕ} (hp : s.scheduling thread = some p)
    (hrequests : t.requests = s.requests.finish thread task)
    (hnext : t.nextRoundRobinPartition =
      if task.request.key = [] then
        Function.update s.nextRoundRobinPartition incarnation
          ((s.nextRoundRobinPartition incarnation + 1) % topic.partitionCount)
      else s.nextRoundRobinPartition)
    (hscheduling : t.scheduling = Function.update s.scheduling thread none)
    (hqueue : t.queue = s.queue) : Dealt t := by
  have hkeeps : s.requests.Keeps thread t.requests := by
    rw [hrequests]
    exact RequestState.keeps_finish (htracked.consistent.locked thread task htask)
  have hback : ∀ i topic', t.requests.states i = some topic' →
      ∃ topic, s.requests.states i = some topic ∧ topic.partitionCount = topic'.partitionCount := by
    intro i topic' hstate'
    rw [hrequests] at hstate'
    obtain ⟨holder, hstate⟩ :=
      (RequestState.sameData_finish s.requests thread task).2.2.2.2.2 i topic' hstate'
    exact ⟨_, hstate, rfl⟩
  have hothers : SameOthers thread s t := by
    intro other hne
    rw [hrequests, hscheduling, RequestState.finish_threads, Function.update_of_ne hne,
      Function.update_of_ne hne]
    exact ⟨rfl, rfl⟩
  have hidle : t.scheduling thread = none := by rw [hscheduling, Function.update_self]
  have hturn : ∀ i, i ≠ incarnation →
      t.nextRoundRobinPartition i = s.nextRoundRobinPartition i := by
    intro i hne
    rw [hnext]
    split_ifs
    · rw [Function.update_of_ne hne]
    · rfl
  have hcounts : ∀ q, t.unkeyed q = s.unkeyed q := fun q ↦ by rw [unkeyed, hqueue, unkeyed]
  refine ⟨hqueue ▸ h.offsets, fun i hnone ↦ ?_, fun i found k hfound job hjob ↦ ?_,
    fun other q hq ↦ ?_, fun i found hfound ↦ ?_⟩
  · have hnone' : s.requests.states i = none := by
      by_contra hsome
      obtain ⟨topic', hstate'⟩ := Option.ne_none_iff_exists'.mp hsome
      obtain ⟨found, hfound, -⟩ := hkeeps i topic' hstate'
      rw [hnone] at hfound
      cases hfound
    have hne : i ≠ incarnation := by
      rintro rfl
      rw [hstate] at hnone'
      cases hnone'
    rw [hturn i hne, hqueue]
    exact h.fresh i hnone'
  · obtain ⟨topic', hstate', hcount⟩ := hback i found hfound
    rw [hqueue] at hjob
    rw [← hcount]
    exact h.placed i topic' k hstate' job hjob
  · have hne : other ≠ thread := by
      rintro rfl
      rw [hidle] at hq
      cases hq
    obtain ⟨hthreads, hscheduling⟩ := hothers other hne
    rw [hthreads]
    exact h.scheduled other q (hscheduling ▸ hq)
  · obtain ⟨topic', hstate', hcount⟩ := hback i found hfound
    have hdealt := h.dealt i topic' hstate'
    rw [← hcount]
    by_cases hne : i = incarnation
    · subst hne
      obtain rfl := Option.some.inj (hstate.symm.trans hstate')
      have howed : s.Owes i ↔ task.request.key = [] := by
        refine ⟨fun howes ↦ ?_, fun hkey ↦ ⟨thread, task, p, htask, hi, hkey, hp⟩⟩
        obtain ⟨task', -, htask', hkey, -⟩ := h.owes_inside htracked htask hsections hi
          (fun _ _ ↦ ⟨rfl, rfl⟩) howes
        obtain rfl := Option.some.inj (htask.symm.trans htask')
        exact hkey
      refine hdealt.pass howed (fun howes ↦ ?_) ?_ hcounts
      · obtain ⟨-, q, -, -, hq⟩ := h.owes_inside htracked htask hsections hi hothers howes
        rw [hidle] at hq
        cases hq
      · rw [hnext]
        split_ifs with hkey
        · rw [Function.update_self]
        · rfl
    · refine hdealt.congr ⟨Owes.of_others hothers.symm fun _ _ _ ↦ hidle,
        Owes.of_others hothers fun task' htask' hi' ↦ ?_⟩ (hturn i hne) fun k ↦ hcounts _
      obtain rfl := Option.some.inj (htask.symm.trans htask')
      exact absurd (Option.some.inj (hi'.symm.trans hi)) hne

/-- A request is taken note of and ends without its job. -/
theorem Dealt.finishRequest (h : Dealt s) (htracked : s.requests.Tracked)
    (htask : s.requests.threads thread = some task) (hidle : s.scheduling thread = none) :
    Dealt (s.finishRequest thread task) := by
  have hkeeps := RequestState.keeps_finish (htracked.consistent.locked thread task htask)
  refine h.keep htracked (fun i topic hstate ↦ ?_) h.offsets (fun _ ↦ rfl) rfl rfl
    fun other p hp ↦ ?_
  · obtain ⟨topic', hstate', hkept⟩ := hkeeps i topic hstate
    exact ⟨topic', hstate', hkept.count⟩
  · have hne : other ≠ thread := by
      rintro rfl
      rw [hidle] at hp
      cases hp
    rw [RuntimeState.finishRequest, RequestState.finish_threads, Function.update_of_ne hne]

theorem finishProduce_eq_finishRequest (s : RuntimeState T W) (thread : T) (task : Task)
    (incarnation : ℕ) (topic : TopicState T) :
    s.finishProduce thread task incarnation topic =
      { s.finishRequest thread task with
        nextRoundRobinPartition :=
          if task.request.key = [] then
            Function.update s.nextRoundRobinPartition incarnation
              ((s.nextRoundRobinPartition incarnation + 1) % topic.partitionCount)
          else s.nextRoundRobinPartition } := by
  rw [finishProduce]
  dsimp only
  split_ifs <;> rfl

variable [Fintype W] [DecidableEq W]

omit [DecidableEq T] [DecidableEq W] in
/-- The largest batch of a partition still fits. -/
theorem Sound.room (h : Sound config s) (hroom : s.HasRoom)
    (hstate : s.requests.states incarnation = some topic) {k : ℕ} (hk : k < topic.partitionCount) :
    (s.queue.log (incarnation, k)).nextOffset + 2 ^ 32 ≤ 2 ^ 64 :=
  hroom incarnation (h.created incarnation topic hstate) topic hstate k hk

omit [Fintype W] [DecidableEq W] in
/-- A job is accepted under the mutex, and the turn is passed on at once. -/
theorem Dealt.acceptAtOnce (h : Dealt s) (htracked : s.requests.Tracked)
    (htask : s.requests.threads thread = some task) (hsections : task.sections = .enqueue :: rest)
    (hi : task.topic = some incarnation) (hstate : s.requests.states incarnation = some topic)
    (hidle : s.scheduling thread = none) {job : AppendJob} {k : ℕ}
    (hjob : job.request.key = task.request.key) (hk : k < topic.partitionCount)
    (hpartition : k = if task.request.key = [] then s.nextRoundRobinPartition incarnation
      else keyHashPartition task.request.key topic.partitionCount)
    (hrequests : t.requests = s.requests)
    (hnext : t.nextRoundRobinPartition = s.nextRoundRobinPartition)
    (hscheduling : t.scheduling = s.scheduling)
    (haccepted : ∀ p, (t.queue.partitions p).accepted =
      (s.queue.partitions p).accepted ++ if p = (incarnation, k) then [job] else [])
    (hoffsets : t.queue.OffsetsInOrder) :
    Dealt (t.finishProduce thread task incarnation topic) := by
  have haccept : Dealt (t.setScheduling thread (some (incarnation, k))) :=
    h.accept htracked htask hsections hi hstate hidle hjob hk hpartition hrequests hnext
      (by rw [← hscheduling]; rfl) haccepted hoffsets
  rw [finishProduce_eq_finishRequest]
  refine haccept.passTurn (hrequests ▸ htracked) (hrequests ▸ htask) hsections hi
    (hrequests ▸ hstate) (Function.update_self _ _ _) rfl rfl ?_ rfl
  change t.scheduling = Function.update (Function.update t.scheduling thread _) thread none
  rw [Function.update_idem, hscheduling, ← hidle, Function.update_eq_self]

omit [DecidableEq T] [Fintype W] [DecidableEq W] in
/-- A job that is carried out at once, without workers. -/
theorem offsets_appendInline [IsEmpty W] (h : s.queue.OffsetsInOrder) {p : ℕ × ℕ}
    (hroom : (s.queue.log p).nextOffset + 1 < 2 ^ 64) (job : AppendJob) (env : AppendEnv) :
    (s.appendInline config p job env).queue.OffsetsInOrder ∧
      ∀ q, ((s.appendInline config p job env).queue.partitions q).accepted =
        (s.queue.partitions q).accepted ++ if q = p then [job] else [] := by
  have hone : (s.queue.log p).nextOffset + [job.request].length < 2 ^ 64 := hroom
  obtain ⟨hle, hpairwise, hresults⟩ := offsets_runAppendBatch hone env.clock env.fault
    env.retention config.retentionPolicy
  set outcome := runAppendBatch (s.queue.log p) env.clock env.fault env.retention
    config.retentionPolicy [job.request] with houtcome
  have hlength : outcome.results.length = [job].length :=
    QueueState.length_results (List.cons_ne_nil _ _)
  have hanswers : ∀ done ∈ [job].zip outcome.results, done.2 ∈ outcome.results :=
    fun done hdone ↦ (List.of_mem_zip hdone).2
  refine ⟨h.answer rfl rfl (fun w ↦ isEmptyElim w) hle ?_ (fun done hdone hok ↦ ?_)
    fun done hdone answer hanswer hok hok' ↦ ?_, fun q ↦ ?_⟩
  · rw [← List.map_snd_zip hlength.le, List.pairwise_map] at hpairwise
    exact hpairwise
  · exact (hresults _ (hanswers done hdone) hok).2
  · exact (h.below p done hdone hok).trans_le (hresults _ (hanswers answer hanswer) hok').1
  · by_cases hq : q = p
    · subst hq
      rw [if_pos rfl, RuntimeState.appendInline, QueueState.setPartition_self]
    · rw [if_neg hq, List.append_nil, RuntimeState.appendInline,
        QueueState.setPartition_of_ne _ hq]

theorem Dealt.produce (h : Dealt s) (hsound : Sound config s) (hroom : s.HasRoom)
    {env : RuntimeEnv} (htask : s.requests.threads thread = some task)
    (hsections : task.sections = .enqueue :: rest) (hi : task.topic = some incarnation)
    (hstate : s.requests.states incarnation = some topic)
    (hstep : s.produce config thread task incarnation topic env = some t) : Dealt t := by
  have htracked := hsound.tracked
  rw [RuntimeState.produce] at hstep
  dsimp only at hstep
  set job : AppendJob :=
    ⟨⟨task.request.topic, task.request.key, task.request.message⟩, env.completion⟩ with hjob
  set partition := if task.request.key = [] then s.nextRoundRobinPartition incarnation
    else keyHashPartition task.request.key topic.partitionCount with hpartition
  cases hscheduling : s.scheduling thread with
  | some p =>
      rw [hscheduling] at hstep
      obtain ⟨queue, hqueue, rfl⟩ := Option.map_eq_some_iff.mp hstep
      obtain ⟨hpartitions, -⟩ := hsound.queue.active_of_scheduleAppend hqueue
      -- The queue first, then the turn.
      have hscheduled : Dealt { s with queue := queue } :=
        h.keep htracked (fun i topic hstate ↦ ⟨topic, hstate, rfl⟩) (h.offsets.schedule hqueue)
          (fun q ↦ congrArg PartitionState.accepted (congrFun hpartitions q)) rfl rfl
          fun _ _ _ ↦ rfl
      rw [finishProduce_eq_finishRequest]
      exact hscheduled.passTurn htracked htask hsections hi hstate hscheduling rfl rfl rfl rfl
  | none =>
      rw [hscheduling] at hstep
      dsimp only at hstep
      by_cases hrange : partition ≥ topic.partitionCount
      · rw [if_pos hrange] at hstep
        obtain rfl := Option.some.inj hstep
        exact h.finishRequest htracked htask hscheduling
      rw [if_neg hrange] at hstep
      have hk : partition < topic.partitionCount := not_le.mp hrange
      by_cases hcard : Fintype.card W = 0
      · rw [if_pos hcard] at hstep
        obtain rfl := Option.some.inj hstep
        have hempty : IsEmpty W := Fintype.card_eq_zero_iff.mp hcard
        have hfits := hsound.room hroom hstate hk
        have hone : (s.queue.log (incarnation, partition)).nextOffset + 1 < 2 ^ 64 := by omega
        obtain ⟨hoffsets, haccepted⟩ :=
          @offsets_appendInline _ _ config s hempty h.offsets _ hone job env.append
        exact h.acceptAtOnce htracked htask hsections hi hstate hscheduling rfl hk hpartition rfl
          rfl rfl haccepted hoffsets
      · rw [if_neg hcard] at hstep
        obtain ⟨queue, hqueue, rfl⟩ := Option.map_eq_some_iff.mp hstep
        have hoffsets := h.offsets.enqueue hqueue
        have haccepted := QueueState.accepted_tryEnqueueAppend hqueue
        split_ifs with hrejected hready
        · simp only [hrejected, Bool.false_eq_true, and_false, if_false, List.append_nil]
            at haccepted
          have hqueued : Dealt { s with queue := queue } :=
            h.keep htracked (fun i topic hstate ↦ ⟨topic, hstate, rfl⟩) hoffsets haccepted rfl rfl
              fun _ _ _ ↦ rfl
          exact hqueued.finishRequest htracked htask hscheduling
        · rw [Bool.not_eq_false] at hrejected
          simp only [hrejected, and_true] at haccepted
          exact h.accept htracked htask hsections hi hstate hscheduling rfl hk hpartition rfl rfl
            rfl haccepted hoffsets
        · rw [Bool.not_eq_false] at hrejected
          simp only [hrejected, and_true] at haccepted
          exact h.acceptAtOnce htracked htask hsections hi hstate hscheduling rfl hk hpartition rfl
            rfl rfl haccepted hoffsets

/-! ## Steps -/

omit [DecidableEq T] [Fintype W] [DecidableEq W] in
theorem SameTopics.of_kept (h : Kept s t) : SameTopics s t := by
  intro i topic hstate
  obtain ⟨topic', hstate', hcount, -⟩ := h.topics i topic hstate
  exact ⟨topic', hstate', hcount⟩

omit [DecidableEq T] in
/-- Nobody is told anything by a topic state that is not made yet. -/
theorem Dealt.untold (h : Dealt s) (hsound : Sound config s)
    (hnone : s.requests.states incarnation = none) (k : ℕ) : s.queue.Untold (incarnation, k) := by
  have hidle : s.Idle (incarnation, k) := by
    by_contra hbusy
    obtain ⟨-, topic, hstate, -⟩ := hsound.active _ hbusy
    rw [hnone] at hstate
    cases hstate
  refine ⟨?_, fun w phase hworker ↦ ?_⟩
  · have hcompleted := (hsound.queue.settled _ hidle).completed
    rw [(h.fresh incarnation hnone).2 k] at hcompleted
    exact List.map_eq_nil_iff.mp hcompleted
  · have hactive := (hsound.queue.accounts _ (QueueState.mem_tokens hworker)).1
    rw [Idle] at hidle
    rw [hidle] at hactive
    cases hactive

omit [DecidableEq W] in
/-- The step of a request that is not about a job. -/
theorem Dealt.advance (h : Dealt s) (hsound : Sound config s) (hkept : Kept s t)
    {env : SectionEnv} {requests : RequestState T}
    (htask : s.requests.threads thread = some task)
    (hsections : ∀ rest, task.sections ≠ .enqueue :: rest)
    (hrequests : s.requests.step (.advance thread env) = some requests)
    (ht : t.requests = requests) (hoffsets : t.queue.OffsetsInOrder)
    (haccepted : ∀ p, (t.queue.partitions p).accepted = (s.queue.partitions p).accepted)
    (hnext : t.nextRoundRobinPartition = s.nextRoundRobinPartition)
    (hscheduling : t.scheduling = s.scheduling) : Dealt t := by
  obtain ⟨task', sort, rest', u, outcome, hadvances, -⟩ := hsound.tracked.advance hrequests
  refine h.keep hsound.tracked (.of_kept hkept) hoffsets haccepted hnext hscheduling
    fun other p hp ↦ ?_
  rw [ht]
  apply hadvances.others
  rintro rfl
  obtain ⟨found, rest, hfound, hhead, -⟩ := h.scheduled other p hp
  obtain rfl := Option.some.inj (htask.symm.trans hfound)
  exact hsections rest hhead

omit [DecidableEq T] in
/-- The logs of a topic state that is being made. -/
theorem Dealt.opened (h : Dealt s) (hsound : Sound config s) (created : ℕ)
    (opened : ℕ → PartitionLog) :
    (s.queue.withLogs fun p ↦ if s.requests.created ≤ p.1 ∧ p.1 < created then opened p.2
      else s.queue.log p).OffsetsInOrder := by
  refine h.offsets.keep (fun _ ↦ rfl) (fun _ _ _ _ ↦ id) fun p ↦ ?_
  by_cases hp : s.requests.created ≤ p.1 ∧ p.1 < created
  · exact Or.inr (h.untold hsound (hsound.tracked.consistent.fresh p.1 hp.1) p.2)
  · refine Or.inl ?_
    rw [QueueState.log, QueueState.log, QueueState.withLogs]
    dsimp only
    rw [if_neg hp]
    exact le_rfl

omit [DecidableEq T] in
theorem Sound.workHasRoom (h : Sound config s) (hroom : s.HasRoom) (w : W) :
    s.queue.WorkHasRoom w := by
  intro p jobs hworker
  obtain ⟨hactive, -, hjobs, -⟩ := h.queue.accounts _ (QueueState.mem_tokens hworker)
  obtain ⟨-, topic, hstate, hk⟩ := h.active p (by simp [Idle, hactive])
  have hfits := h.room hroom hstate hk
  have hlimit := (QueueState.fullBatches config).appendBatchRecords.toNat_lt
  rw [Prod.mk.eta] at hfits
  omega

omit [DecidableEq W] in
/-- A retention pass or `produce_batch` takes a step. -/
theorem Dealt.advanceLogTask (h : Dealt s) (hsound : Sound config s) (hroom : s.HasRoom)
    {Z : Compression.Zstd} {env : LogEnv} {logTask : LogTask}
    (htask : s.logTasks thread = some logTask) (hkept : Kept s t)
    (hstep : s.advanceLogTask Z config thread env logTask = some t) : Dealt t := by
  have hkeep : ∀ {u : RuntimeState T W} (logs : ℕ × ℕ → PartitionLog), Kept s u →
      u.queue = s.queue.withLogs logs →
      (∀ p, (s.queue.log p).nextOffset ≤ (logs p).nextOffset) →
      u.nextRoundRobinPartition = s.nextRoundRobinPartition → u.scheduling = s.scheduling →
      u.requests.threads = s.requests.threads → Dealt u := by
    intro u logs hkept hqueue hlogs hnext hscheduling hthreads
    refine h.keep hsound.tracked (.of_kept hkept) ?_ (fun p ↦ ?_) hnext hscheduling
      fun _ _ _ ↦ by rw [hthreads]
    · rw [hqueue]
      exact h.offsets.keep (fun _ ↦ rfl) (fun _ _ _ _ ↦ id) fun p ↦ Or.inl (hlogs p)
    · rw [hqueue]
      rfl
  have henter : ∀ {i : ℕ} {inside outside : Option LogTask},
      s.enter thread i inside outside = some t → Dealt t := by
    intro i inside outside henter
    obtain ⟨topic, hstate, henter⟩ := Option.bind_eq_some_iff.mp henter
    split_ifs at henter
    · obtain rfl := Option.some.inj henter
      exact hkeep s.queue.log hkept rfl (fun _ ↦ le_rfl) rfl rfl rfl
    · obtain rfl := Option.some.inj henter
      exact hkeep s.queue.log hkept rfl (fun _ ↦ le_rfl) rfl rfl rfl
  have hupdate : ∀ (p : ℕ × ℕ) (log : PartitionLog),
      (s.queue.log p).nextOffset ≤ log.nextOffset →
      ∀ q, (s.queue.log q).nextOffset ≤ (Function.update s.queue.log p log q).nextOffset := by
    intro p log hle q
    by_cases hq : q = p
    · rw [hq, Function.update_self]
      exact hle
    · rw [Function.update_of_ne hq]
  cases logTask with
  | batchFound request records i => exact henter hstep
  | batchLocked request records i =>
      obtain ⟨topic, hstate, rfl⟩ := Option.map_eq_some_iff.mp hstep
      dsimp only at hkept ⊢
      split_ifs at hkept ⊢ with hrange
      · exact hkeep s.queue.log hkept rfl (fun _ ↦ le_rfl) rfl rfl rfl
      · refine hkeep _ hkept rfl (hupdate _ _ ?_) rfl rfl rfl
        apply PartitionLog.nextOffset_appendEncodedBatch_le
        exact hsound.room hroom hstate (not_le.mp hrange)
  | retaining topics =>
      cases topics with
      | nil =>
          obtain rfl := Option.some.inj hstep
          exact hkeep s.queue.log hkept rfl (fun _ ↦ le_rfl) rfl rfl rfl
      | cons i topics => exact henter hstep
  | retainingTopic i next topics =>
      obtain ⟨topic, hstate, rfl⟩ := Option.map_eq_some_iff.mp hstep
      have hretained := fun k ↦
        (s.queue.log (i, k)).nextOffset_applyRetention env.retention config.retentionPolicy
      dsimp only at hkept ⊢
      split_ifs at hkept ⊢
      · cases hresult : ((s.queue.log (i, next)).applyRetention env.retention
            config.retentionPolicy).2 with
        | error message =>
            rw [hresult] at hkept
            exact hkeep _ hkept rfl (hupdate _ _ (hretained next).ge) rfl rfl rfl
        | ok stats =>
            rw [hresult] at hkept
            exact hkeep _ hkept rfl (hupdate _ _ (hretained next).ge) rfl rfl rfl
      · exact hkeep s.queue.log hkept rfl (fun _ ↦ le_rfl) rfl rfl rfl

theorem Dealt.step (h : Dealt s) (hsound : Sound config s) (hroom : s.HasRoom)
    {Z : Compression.Zstd} {event : RuntimeEvent T W} (hstep : s.step Z config event = some t) :
    Dealt t := by
  have hkept := (hsound.step hstep).1
  have hkeep : ∀ {u : RuntimeState T W}, Kept s u → u.queue = s.queue →
      u.nextRoundRobinPartition = s.nextRoundRobinPartition → u.scheduling = s.scheduling →
      u.requests.threads = s.requests.threads → Dealt u := by
    intro u hkept hqueue hnext hscheduling hthreads
    exact h.keep hsound.tracked (.of_kept hkept) (hqueue ▸ h.offsets)
      (fun _ ↦ by rw [hqueue]) hnext hscheduling fun _ _ _ ↦ by rw [hthreads]
  cases event with
  | start thread request =>
      rw [RuntimeState.step] at hstep
      split_ifs at hstep with hfree
      obtain ⟨requests, hrequests, rfl⟩ := Option.map_eq_some_iff.mp hstep
      obtain ⟨hnone, rfl, -⟩ := hsound.tracked.start hrequests
      refine h.keep hsound.tracked (.of_kept hkept) h.offsets (fun _ ↦ rfl) rfl rfl
        fun other p hp ↦ ?_
      obtain ⟨found, rest, hfound, -⟩ := h.scheduled other p hp
      have hne : other ≠ thread := by
        rintro rfl
        rw [hnone] at hfound
        cases hfound
      exact Function.update_of_ne hne _ _
  | advance thread env =>
      obtain ⟨task, htask, hstep⟩ := Option.bind_eq_some_iff.mp hstep
      cases hsections : task.sections with
      | nil =>
          rw [hsections] at hstep
          cases hstep
      | cons sort rest =>
          rw [hsections] at hstep
          cases sort with
          | enqueue =>
              obtain ⟨i, hi, hstep⟩ := Option.bind_eq_some_iff.mp hstep
              obtain ⟨topic, hstate, hstep⟩ := Option.bind_eq_some_iff.mp hstep
              exact h.produce hsound hroom htask hsections hi hstate hstep
          | drain =>
              obtain ⟨i, hi, hstep⟩ := Option.bind_eq_some_iff.mp hstep
              obtain ⟨topic, hstate, hstep⟩ := Option.bind_eq_some_iff.mp hstep
              rw [RuntimeState.drain] at hstep
              dsimp only at hstep
              split_ifs at hstep
              · obtain rfl := Option.some.inj hstep
                exact hkeep hkept rfl rfl rfl rfl
              · obtain rfl := Option.some.inj hstep
                exact hkeep hkept rfl rfl rfl rfl
              · obtain ⟨requests, hrequests, rfl⟩ := Option.map_eq_some_iff.mp hstep
                exact h.advance hsound hkept htask (by simp [hsections]) hrequests rfl h.offsets
                  (fun _ ↦ rfl) rfl rfl
          | _ =>
              obtain ⟨requests, hrequests, rfl⟩ := Option.map_eq_some_iff.mp hstep
              refine h.advance hsound hkept htask (by simp [hsections]) hrequests rfl ?_
                (fun _ ↦ rfl) rfl rfl
              exact h.opened hsound requests.created env.opened
  | work w env =>
      obtain ⟨queue, hqueue, rfl⟩ := Option.map_eq_some_iff.mp hstep
      refine h.keep hsound.tracked (.of_kept hkept) ?_ (QueueState.accepted_workerStep hqueue) rfl
        rfl fun _ _ _ ↦ rfl
      rw [← QueueState.workerStep_fullBatches] at hqueue
      exact h.offsets.work hsound.queue (hsound.workHasRoom hroom w) hqueue
  | produceBatch thread request records =>
      rw [RuntimeState.step] at hstep
      split_ifs at hstep with hfree
      split at hstep
      · obtain rfl := Option.some.inj hstep
        exact h
      · obtain rfl := Option.some.inj hstep
        exact hkeep hkept rfl rfl rfl rfl
  | runRetention thread topicFilter =>
      simp only [RuntimeState.step] at hstep
      split_ifs at hstep with hfree
      · obtain rfl := Option.some.inj hstep
        exact h
      · obtain rfl := Option.some.inj hstep
        exact hkeep hkept rfl rfl rfl rfl
  | advanceLogTask thread env =>
      obtain ⟨logTask, htask, hstep⟩ := Option.bind_eq_some_iff.mp hstep
      exact h.advanceLogTask hsound hroom htask hkept hstep

/-! ## Runs -/

omit [DecidableEq T] [Fintype W] [DecidableEq W] in
theorem dealt_loaded (maxTopicPartitions : ℕ) (offsets : OffsetStore) (topics : List (Bytes × ℕ))
    (logs : ℕ × ℕ → PartitionLog) :
    Dealt (loaded maxTopicPartitions offsets topics logs : RuntimeState T W) := by
  refine ⟨QueueState.offsetsInOrder_initial logs, fun i _ ↦ ⟨rfl, fun _ ↦ rfl⟩,
    fun i topic k hstate job hjob ↦ ?_, fun thread p hp ↦ ?_, fun i topic hstate ↦
    ⟨0, fun howes ↦ ?_, fun _ ↦ rfl, fun k _ ↦ (dealt_zero _ k).symm⟩⟩
  · cases hjob
  · cases hp
  · obtain ⟨thread, task, p, -, -, -, hp⟩ := howes
    cases hp

/-- What producers can rely on. -/
structure Dispatched (s : RuntimeState T W) : Prop where
  /-- The jobs with one key are in one partition of their topic state. -/
  keyed : ∀ incarnation topic k, s.requests.states incarnation = some topic →
    ∀ job ∈ (s.queue.partitions (incarnation, k)).accepted, k < topic.partitionCount ∧
      (job.request.key ≠ [] → k = keyHashPartition job.request.key topic.partitionCount)
  /-- Those without a key are spread evenly. -/
  spread : ∀ incarnation topic k k', s.requests.states incarnation = some topic →
    k < topic.partitionCount → k' < topic.partitionCount →
      s.unkeyed (incarnation, k) ≤ s.unkeyed (incarnation, k') + 1
  answered : ∀ p, (s.queue.partitions p).completed.map Prod.fst <+:
    (s.queue.partitions p).accepted
  ordered : ∀ p, (s.queue.partitions p).completed.Pairwise fun a b ↦ a.2.Precedes b.2

/-- Whatever requests, workers, batches, retention passes and deletions do, and whatever
fails, jobs with a key go where the key says, the others go round, and a partition
answers its jobs in the order of their acceptance with growing offsets. -/
theorem produce_dispatched (Z : Compression.Zstd) (config : QueueConfig) (maxTopicPartitions : ℕ)
    (offsets : OffsetStore) (topics : List (Bytes × ℕ)) (logs : ℕ × ℕ → PartitionLog)
    {events : List (RuntimeEvent T W)} {s : RuntimeState T W}
    (hroom : Along (RuntimeState.step Z config) (fun s _ ↦ s.HasRoom)
      (loaded maxTopicPartitions offsets topics logs) events)
    (hrun : Lib.run (RuntimeState.step Z config)
      (loaded maxTopicPartitions offsets topics logs) events = some s) : Dispatched s := by
  obtain ⟨hsound, h⟩ : Sound config s ∧ Dealt s :=
    run_invariant _ (fun s ↦ Sound config s ∧ Dealt s)
      (fun s event t hroom hstep h ↦ ⟨(h.1.step hstep).2, h.2.step h.1 hroom hstep⟩) hroom hrun
      ⟨sound_loaded config maxTopicPartitions offsets topics logs,
        dealt_loaded maxTopicPartitions offsets topics logs⟩
  refine ⟨h.placed, fun i topic k k' hstate hk hk' ↦ ?_, fun p ↦ ?_, h.offsets.completed⟩
  · obtain ⟨total, -, -, hcounts⟩ := h.dealt i topic hstate
    rw [hcounts k hk, hcounts k' hk']
    exact dealt_le_succ total hk
  · obtain ⟨happended, hcompleted⟩ := hsound.queue.ordered p
    exact hcompleted.trans happended

/-- Producers with and without a key on a topic with two partitions. -/
def mixedProducers : List (RuntimeEvent ℕ (Fin 1)) :=
  .start 0 { kind := .produce, topic := [116], message := [98] } :: advances 0 4 ++
    .start 1 { kind := .produce, topic := [116], key := [107], message := [99] } :: advances 1 3 ++
    .start 2 { kind := .produce, topic := [116], message := [100] } :: advances 2 4 ++
    List.replicate 15 (.work ⟨0, Nat.one_pos⟩ QueueState.quietEnv)

theorem produce_dispatched_mixedProducers :
    ∃ s : RuntimeState ℕ (Fin 1),
      Lib.run (RuntimeState.step Compression.noZstd ⟨4, 1, ⟨0, 0⟩⟩)
        (loaded 8 {} [([116], 2)] fun _ ↦ PartitionLog.emptyLog singleRecordSegments)
        mixedProducers = some s ∧
      [0, 1].map (fun k ↦ (s.unkeyed (0, k), (s.queue.partitions (0, k)).completed.map
        fun done ↦ done.2.response.offset)) = [(1, [0, 1]), (1, [0])] ∧ Dispatched s := by
  have hchecks : (Lib.run (RuntimeState.step Compression.noZstd ⟨4, 1, ⟨0, 0⟩⟩)
      (loaded 8 {} [([116], 2)] fun _ ↦ PartitionLog.emptyLog singleRecordSegments)
      mixedProducers).map (fun s ↦ [0, 1].map (fun k ↦ (s.unkeyed (0, k),
        (s.queue.partitions (0, k)).completed.map fun done ↦ done.2.response.offset))) =
      some [(1, [0, 1]), (1, [0])] := by
    decide
  obtain ⟨s, hrun, hoffsets⟩ := Option.map_eq_some_iff.mp hchecks
  exact ⟨s, hrun, hoffsets, produce_dispatched Compression.noZstd _ 8 {} _ _
    (by decide) hrun⟩

end RuntimeState

end BoltStream.Broker
