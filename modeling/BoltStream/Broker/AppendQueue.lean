import Mathlib.Data.Fintype.BigOperators
import BoltStream.Broker.AppendBatch

/-!
# The append queue

Clients hand their jobs to a partition and go on; a pool of workers appends
them.  A partition with `append_active` set is in exactly one place: with a
client that is about to schedule it, in `ready_appends_`, or with a worker.
What is in that place and what is still pending are the jobs that were
accepted and not yet completed, in order.

Each section under one mutex is a step.  The destructor sets
`append_stopping_` when the last request is over.
-/

namespace BoltStream.Broker

open BoltStream.Lib BoltStream.Protocol BoltStream.Storage

structure AppendJob where
  request : ProduceRequest
  /-- Stands for the completion handler. -/
  completion : ℕ
  deriving DecidableEq, Repr

structure QueueConfig where
  maxAppendQueueDepth : UInt32
  appendBatchRecords : UInt32
  retentionPolicy : RetentionPolicy

/-- A partition and its history: the jobs it has accepted, those that have
reached `append_batch`, and those whose results were posted. -/
structure PartitionState where
  log : PartitionLog
  pendingAppends : List AppendJob
  appendActive : Bool
  accepted : List AppendJob
  appended : List AppendJob
  completed : List (AppendJob × ProduceResult)

structure EnqueueOutcome where
  accepted : Bool
  depth : ℕ
  deriving DecidableEq, Repr

/-- The section of `try_enqueue_append` under `append_mutex`.  The last part of
the result is `ready_job`. -/
def tryEnqueueAppend (config : QueueConfig) (partition : PartitionState) (job : AppendJob) :
    PartitionState × EnqueueOutcome × Option AppendJob :=
  let currentDepth :=
    (partition.pendingAppends.length + if partition.appendActive then 1 else 0) % 2 ^ 32
  if currentDepth ≥ config.maxAppendQueueDepth.toNat then
    (partition, ⟨false, currentDepth⟩, none)
  else if partition.appendActive then
    ({ partition with
        pendingAppends := partition.pendingAppends ++ [job]
        accepted := partition.accepted ++ [job] },
      ⟨true, (currentDepth + 1) % 2 ^ 32⟩, none)
  else
    ({ partition with appendActive := true, accepted := partition.accepted ++ [job] },
      ⟨true, 1⟩, some job)

/-- How far a worker is with the partition it handles. -/
inductive WorkerPhase where
  | popped (job : AppendJob)
  | batched (jobs : List AppendJob)
  | ran (jobs : List AppendJob) (results : List ProduceResult)
  | posted
  | handing (next : AppendJob)

inductive Worker (P : Type*) where
  | waiting
  | handling (partition : P) (phase : WorkerPhase)
  | exited

structure QueueState (P W : Type*) where
  partitions : P → PartitionState
  /-- Clients between the two sections of `try_enqueue_append`. -/
  scheduling : List (P × AppendJob)
  readyAppends : List (P × AppendJob)
  appendStopping : Bool
  workers : W → Worker P

/-- What `run_append_batch` meets. -/
structure AppendEnv where
  clock : AppendClock
  fault : Option AppendFault
  retention : RetentionEnv

inductive QueueEvent (P W : Type*) where
  | tryEnqueueAppend (partition : P) (job : AppendJob)
  | scheduleAppend (client : ℕ)
  | stopAppendWorkers
  | work (worker : W) (env : AppendEnv)

namespace QueueState

section Model

variable {P W : Type*} [DecidableEq P] [DecidableEq W]

def setPartition (s : QueueState P W) (p : P) (partition : PartitionState) : QueueState P W :=
  { s with partitions := Function.update s.partitions p partition }

def setWorker (s : QueueState P W) (w : W) (worker : Worker P) : QueueState P W :=
  { s with workers := Function.update s.workers w worker }

omit [DecidableEq P] in
@[simp] theorem setWorker_self (s : QueueState P W) (w : W) (worker : Worker P) :
    (s.setWorker w worker).workers w = worker := by
  simp [setWorker]

omit [DecidableEq P] in
theorem setWorker_of_ne (s : QueueState P W) {v w : W} (h : v ≠ w) (worker : Worker P) :
    (s.setWorker w worker).workers v = s.workers v := by
  simp [setWorker, h]

/-- The next section of `append_worker_loop` of one worker. -/
def workerStep (config : QueueConfig) (s : QueueState P W) (w : W) (env : AppendEnv) :
    Option (QueueState P W) :=
  match s.workers w with
  | .waiting =>
      match s.readyAppends with
      | [] => if s.appendStopping then some (s.setWorker w .exited) else none
      | ready :: rest =>
          some ({ s with readyAppends := rest }.setWorker w
            (.handling ready.1 (.popped ready.2)))
  | .handling p (.popped job) =>
      let partition := s.partitions p
      let more := config.appendBatchRecords.toNat - 1
      some ((s.setPartition p
        { partition with pendingAppends := partition.pendingAppends.drop more }).setWorker w
          (.handling p (.batched (job :: partition.pendingAppends.take more))))
  | .handling p (.batched jobs) =>
      let partition := s.partitions p
      let outcome := runAppendBatch partition.log env.clock env.fault env.retention
        config.retentionPolicy (jobs.map AppendJob.request)
      some ((s.setPartition p
        { partition with log := outcome.log, appended := partition.appended ++ jobs }).setWorker w
          (.handling p (.ran jobs outcome.results)))
  | .handling p (.ran jobs results) =>
      let partition := s.partitions p
      some ((s.setPartition p
        { partition with completed := partition.completed ++ jobs.zip results }).setWorker w
          (.handling p .posted))
  | .handling p .posted =>
      let partition := s.partitions p
      match partition.pendingAppends with
      | next :: rest =>
          some ((s.setPartition p { partition with pendingAppends := rest }).setWorker w
            (.handling p (.handing next)))
      | [] =>
          some ((s.setPartition p { partition with appendActive := false }).setWorker w .waiting)
  | .handling p (.handing next) =>
      some ({ s with readyAppends := s.readyAppends ++ [(p, next)] }.setWorker w .waiting)
  | .exited => none

def step (config : QueueConfig) (s : QueueState P W) : QueueEvent P W → Option (QueueState P W)
  | .tryEnqueueAppend p job =>
      if s.appendStopping then none
      else
        let enqueued := Broker.tryEnqueueAppend config (s.partitions p) job
        let s := s.setPartition p enqueued.1
        match enqueued.2.2 with
        | some job => some { s with scheduling := s.scheduling ++ [(p, job)] }
        | none => some s
  | .scheduleAppend client =>
      s.scheduling[client]?.map fun ready ↦
        { s with
          scheduling := s.scheduling.eraseIdx client
          readyAppends := s.readyAppends ++ [ready] }
  | .stopAppendWorkers =>
      if s.scheduling = [] then some { s with appendStopping := true } else none
  | .work w env => s.workerStep config w env

/-- No job yet, and all workers waiting. -/
def initial (logs : P → PartitionLog) : QueueState P W :=
  { partitions := fun p ↦
      { log := logs p
        pendingAppends := []
        appendActive := false
        accepted := []
        appended := []
        completed := [] }
    scheduling := []
    readyAppends := []
    appendStopping := false
    workers := fun _ ↦ .waiting }

end Model

/-! ## One place for every active partition -/

section Invariant

variable {P W : Type*}

def queuedToken (ready : P × AppendJob) : P × WorkerPhase := (ready.1, .popped ready.2)

def workerTokens : Worker P → Multiset (P × WorkerPhase)
  | .handling p phase => {(p, phase)}
  | _ => 0

@[simp] theorem workerTokens_waiting : workerTokens (.waiting : Worker P) = 0 := rfl

@[simp] theorem workerTokens_exited : workerTokens (.exited : Worker P) = 0 := rfl

variable [Fintype W]

/-- The places where a partition is being handled.  What is scheduled or ready
stands as if a worker had just popped it. -/
def places (scheduling ready : List (P × AppendJob)) (workers : W → Worker P) :
    Multiset (P × WorkerPhase) :=
  (↑(scheduling.map queuedToken) + ↑(ready.map queuedToken)) + ∑ w, workerTokens (workers w)

def tokens (s : QueueState P W) : Multiset (P × WorkerPhase) :=
  places s.scheduling s.readyAppends s.workers

theorem places_push_scheduling (scheduling ready : List (P × AppendJob)) (workers : W → Worker P)
    (pushed : P × AppendJob) :
    places (scheduling ++ [pushed]) ready workers =
      queuedToken pushed ::ₘ places scheduling ready workers := by
  rw [places, places, List.map_append, ← Multiset.coe_add, List.map_singleton,
    Multiset.coe_singleton, ← Multiset.singleton_add]
  abel

theorem places_push_ready (scheduling ready : List (P × AppendJob)) (workers : W → Worker P)
    (pushed : P × AppendJob) :
    places scheduling (ready ++ [pushed]) workers =
      queuedToken pushed ::ₘ places scheduling ready workers := by
  rw [places, places, List.map_append, ← Multiset.coe_add, List.map_singleton,
    Multiset.coe_singleton, ← Multiset.singleton_add]
  abel

theorem places_pop (scheduling ready : List (P × AppendJob)) (workers : W → Worker P)
    (popped : P × AppendJob) :
    places scheduling (popped :: ready) workers =
      queuedToken popped ::ₘ places scheduling ready workers := by
  rw [places, places, List.map_cons, ← Multiset.cons_coe, ← Multiset.singleton_add,
    ← Multiset.singleton_add]
  abel

/-- The places apart from one worker's. -/
theorem exists_places_update [DecidableEq W] (scheduling ready : List (P × AppendJob))
    (workers : W → Worker P) (w : W) :
    ∃ rest, places scheduling ready workers = workerTokens (workers w) + rest ∧
      ∀ worker, places scheduling ready (Function.update workers w worker) =
        workerTokens worker + rest := by
  refine ⟨(↑(scheduling.map queuedToken) + ↑(ready.map queuedToken)) +
    ∑ v ∈ Finset.univ.erase w, workerTokens (workers v), ?_, fun worker ↦ ?_⟩
  · rw [places, ← Finset.add_sum_erase Finset.univ _ (Finset.mem_univ w)]
    abel
  · have hothers : ∑ v ∈ Finset.univ.erase w, workerTokens (Function.update workers w worker v) =
        ∑ v ∈ Finset.univ.erase w, workerTokens (workers v) := by
      apply Finset.sum_congr rfl
      intro v hv
      rw [Function.update_of_ne (Finset.ne_of_mem_erase hv)]
    rw [places, ← Finset.add_sum_erase Finset.univ _ (Finset.mem_univ w), hothers,
      Function.update_self]
    abel

/-- How the history of a partition divides while it is being handled. -/
def Accounts (config : QueueConfig) (partition : PartitionState) : WorkerPhase → Prop
  | .popped job =>
      partition.completed.map Prod.fst = partition.appended ∧
        partition.accepted = partition.appended ++ job :: partition.pendingAppends
  | .batched jobs =>
      jobs ≠ [] ∧ jobs.length ≤ config.appendBatchRecords.toNat ∧
        partition.completed.map Prod.fst = partition.appended ∧
        partition.accepted = partition.appended ++ (jobs ++ partition.pendingAppends)
  | .ran jobs results =>
      jobs.length ≤ config.appendBatchRecords.toNat ∧ results.length = jobs.length ∧
        partition.appended = partition.completed.map Prod.fst ++ jobs ∧
        partition.accepted = partition.appended ++ partition.pendingAppends
  | .posted =>
      partition.completed.map Prod.fst = partition.appended ∧
        partition.accepted = partition.appended ++ partition.pendingAppends
  | .handing next =>
      partition.completed.map Prod.fst = partition.appended ∧
        partition.accepted = partition.appended ++ next :: partition.pendingAppends

/-- A partition that nobody handles has nothing to do. -/
structure Settled (partition : PartitionState) : Prop where
  pending : partition.pendingAppends = []
  appended : partition.appended = partition.accepted
  completed : partition.completed.map Prod.fst = partition.accepted

/-- Workers exit after the stop, which comes after the last request. -/
structure Lifecycle (s : QueueState P W) : Prop where
  stopped : s.appendStopping = true → s.scheduling = []
  exited : ∀ w, s.workers w = .exited → s.appendStopping = true
  alive : s.readyAppends ≠ [] → ∃ w, s.workers w ≠ .exited

structure QueueInv (config : QueueConfig) (s : QueueState P W) : Prop where
  single : (s.tokens.map Prod.fst).Nodup
  accounts : ∀ t ∈ s.tokens, (s.partitions t.1).appendActive = true ∧
    Accounts config (s.partitions t.1) t.2
  held : ∀ p, (s.partitions p).appendActive = true → p ∈ s.tokens.map Prod.fst
  settled : ∀ p, (s.partitions p).appendActive = false → Settled (s.partitions p)
  depth : ∀ p, (s.partitions p).appendActive = true →
    (s.partitions p).pendingAppends.length < config.maxAppendQueueDepth.toNat
  lifecycle : Lifecycle s

variable [DecidableEq P] {config : QueueConfig} {s s' : QueueState P W} {p : P}
  {partition : PartitionState}

omit [DecidableEq P] in
theorem QueueInv.keep (h : QueueInv config s) (htokens : s'.tokens = s.tokens)
    (hpartitions : s'.partitions = s.partitions) (hlife : Lifecycle s') : QueueInv config s' := by
  constructor
  · rw [htokens]
    exact h.single
  · rw [htokens, hpartitions]
    exact h.accounts
  · rw [htokens, hpartitions]
    exact h.held
  · rw [hpartitions]
    exact h.settled
  · rw [hpartitions]
    exact h.depth
  · exact hlife

/-- A step on an active partition: its token moves on, the others stay. -/
theorem QueueInv.move (h : QueueInv config s) {phase phase' : WorkerPhase}
    {rest : Multiset (P × WorkerPhase)} (htokens : s.tokens = (p, phase) ::ₘ rest)
    (htokens' : s'.tokens = (p, phase') ::ₘ rest)
    (hpartitions : s'.partitions = Function.update s.partitions p partition)
    (hactive : partition.appendActive = true) (haccounts : Accounts config partition phase')
    (hdepth : partition.pendingAppends.length < config.maxAppendQueueDepth.toNat)
    (hlife : Lifecycle s') : QueueInv config s' := by
  have hsingle := h.single
  have hfirst : s'.tokens.map Prod.fst = s.tokens.map Prod.fst := by
    rw [htokens, htokens', Multiset.map_cons, Multiset.map_cons]
  rw [htokens, Multiset.map_cons, Multiset.nodup_cons] at hsingle
  refine ⟨hfirst ▸ h.single, fun t ht ↦ ?_, fun q hq ↦ ?_, fun q hq ↦ ?_, fun q hq ↦ ?_,
    hlife⟩
  · rw [htokens', Multiset.mem_cons] at ht
    rcases ht with rfl | ht
    · rw [hpartitions, Function.update_self]
      exact ⟨hactive, haccounts⟩
    · have hne : t.1 ≠ p := fun heq ↦ hsingle.1 (Multiset.mem_map.mpr ⟨t, ht, heq⟩)
      rw [hpartitions, Function.update_of_ne hne]
      apply h.accounts t
      rw [htokens]
      exact Multiset.mem_cons_of_mem ht
  · rw [hfirst]
    by_cases heq : q = p
    · rw [heq, htokens, Multiset.map_cons]
      exact Multiset.mem_cons_self _ _
    · rw [hpartitions, Function.update_of_ne heq] at hq
      exact h.held q hq
  · have hne : q ≠ p := fun heq ↦ by
      rw [hpartitions, heq, Function.update_self, hactive] at hq
      cases hq
    rw [hpartitions, Function.update_of_ne hne] at hq ⊢
    exact h.settled q hq
  · by_cases heq : q = p
    · rw [hpartitions, heq, Function.update_self]
      exact hdepth
    · rw [hpartitions, Function.update_of_ne heq] at hq ⊢
      exact h.depth q hq

/-- A partition becomes active. -/
theorem QueueInv.activate (h : QueueInv config s) {phase : WorkerPhase}
    (hidle : (s.partitions p).appendActive = false)
    (htokens : s'.tokens = (p, phase) ::ₘ s.tokens)
    (hpartitions : s'.partitions = Function.update s.partitions p partition)
    (hactive : partition.appendActive = true) (haccounts : Accounts config partition phase)
    (hdepth : partition.pendingAppends.length < config.maxAppendQueueDepth.toNat)
    (hlife : Lifecycle s') : QueueInv config s' := by
  have hother : ∀ t ∈ s.tokens, t.1 ≠ p := fun t ht heq ↦ by
    have hbusy := (h.accounts t ht).1
    rw [heq, hidle] at hbusy
    cases hbusy
  refine ⟨?_, fun t ht ↦ ?_, fun q hq ↦ ?_, fun q hq ↦ ?_, fun q hq ↦ ?_,
    hlife⟩
  · rw [htokens, Multiset.map_cons, Multiset.nodup_cons]
    refine ⟨fun hmem ↦ ?_, h.single⟩
    obtain ⟨t, ht, heq⟩ := Multiset.mem_map.mp hmem
    exact hother t ht heq
  · rw [htokens, Multiset.mem_cons] at ht
    rcases ht with rfl | ht
    · rw [hpartitions, Function.update_self]
      exact ⟨hactive, haccounts⟩
    · rw [hpartitions, Function.update_of_ne (hother t ht)]
      exact h.accounts t ht
  · rw [htokens, Multiset.map_cons, Multiset.mem_cons]
    by_cases heq : q = p
    · exact Or.inl heq
    · rw [hpartitions, Function.update_of_ne heq] at hq
      exact Or.inr (h.held q hq)
  · have hne : q ≠ p := fun heq ↦ by
      rw [hpartitions, heq, Function.update_self, hactive] at hq
      cases hq
    rw [hpartitions, Function.update_of_ne hne] at hq ⊢
    exact h.settled q hq
  · by_cases heq : q = p
    · rw [hpartitions, heq, Function.update_self]
      exact hdepth
    · rw [hpartitions, Function.update_of_ne heq] at hq ⊢
      exact h.depth q hq

/-- A partition becomes inactive. -/
theorem QueueInv.deactivate (h : QueueInv config s) {phase : WorkerPhase}
    (htokens : s.tokens = (p, phase) ::ₘ s'.tokens)
    (hpartitions : s'.partitions = Function.update s.partitions p partition)
    (hidle : partition.appendActive = false) (hsettled : Settled partition)
    (hlife : Lifecycle s') : QueueInv config s' := by
  have hsingle := h.single
  rw [htokens, Multiset.map_cons, Multiset.nodup_cons] at hsingle
  have hother : ∀ q, (s'.partitions q).appendActive = true → q ≠ p := fun q hq heq ↦ by
    rw [hpartitions, heq, Function.update_self, hidle] at hq
    cases hq
  refine ⟨hsingle.2, fun t ht ↦ ?_, fun q hq ↦ ?_, fun q hq ↦ ?_, fun q hq ↦ ?_,
    hlife⟩
  · have hne : t.1 ≠ p := fun heq ↦ hsingle.1 (Multiset.mem_map.mpr ⟨t, ht, heq⟩)
    rw [hpartitions, Function.update_of_ne hne]
    apply h.accounts t
    rw [htokens]
    exact Multiset.mem_cons_of_mem ht
  · have hne := hother q hq
    rw [hpartitions, Function.update_of_ne hne] at hq
    have hmem := h.held q hq
    rw [htokens, Multiset.map_cons, Multiset.mem_cons] at hmem
    exact hmem.resolve_left hne
  · by_cases heq : q = p
    · rw [hpartitions, heq, Function.update_self]
      exact hsettled
    · rw [hpartitions, Function.update_of_ne heq] at hq ⊢
      exact h.settled q hq
  · have hne := hother q hq
    rw [hpartitions, Function.update_of_ne hne] at hq ⊢
    exact h.depth q hq

/-! ## Steps -/

section Steps

variable [DecidableEq W] {w : W} {worker : Worker P} {env : AppendEnv}

omit [DecidableEq P] [Fintype W] in
theorem Lifecycle.setWorker (h : Lifecycle s) (w : W) (hne : worker ≠ .exited) :
    Lifecycle (s.setWorker w worker) := by
  refine ⟨h.stopped, fun v hv ↦ ?_, fun _ ↦ ⟨w, by rwa [setWorker_self]⟩⟩
  by_cases heq : v = w
  · rw [heq, setWorker_self] at hv
    exact absurd hv hne
  · rw [setWorker_of_ne s heq] at hv
    exact h.exited v hv

theorem tokens_handle {phase : WorkerPhase} (hworker : s.workers w = .handling p phase) :
    ∃ rest, s.tokens = (p, phase) ::ₘ rest ∧
      ∀ partition phase', ((s.setPartition p partition).setWorker w (.handling p phase')).tokens =
        (p, phase') ::ₘ rest := by
  obtain ⟨rest, htokens, hset⟩ := exists_places_update s.scheduling s.readyAppends s.workers w
  rw [hworker] at htokens
  exact ⟨rest, htokens, fun _ _ ↦ hset _⟩

omit [DecidableEq P] in
theorem tokens_pop {ready : P × AppendJob} {rest : List (P × AppendJob)}
    (hworker : s.workers w = .waiting) (hready : s.readyAppends = ready :: rest) :
    ∃ others, s.tokens = queuedToken ready ::ₘ others ∧
      ({ s with readyAppends := rest }.setWorker w (.handling ready.1 (.popped ready.2))).tokens =
        queuedToken ready ::ₘ others := by
  obtain ⟨others, htokens, hset⟩ := exists_places_update s.scheduling rest s.workers w
  rw [hworker, workerTokens_waiting, zero_add] at htokens
  refine ⟨others, ?_, hset _⟩
  rw [tokens, hready, places_pop, htokens]

omit [DecidableEq P] in
theorem tokens_hand {next : AppendJob} (hworker : s.workers w = .handling p (.handing next)) :
    ∃ rest, s.tokens = (p, .handing next) ::ₘ rest ∧
      ({ s with readyAppends := s.readyAppends ++ [(p, next)] }.setWorker w .waiting).tokens =
        (p, .popped next) ::ₘ rest := by
  obtain ⟨rest, htokens, hset⟩ := exists_places_update s.scheduling s.readyAppends s.workers w
  rw [hworker] at htokens
  refine ⟨rest, htokens, ?_⟩
  change places s.scheduling (s.readyAppends ++ [(p, next)])
    (Function.update s.workers w .waiting) = _
  rw [places_push_ready, hset, workerTokens_waiting, zero_add]
  rfl

theorem tokens_release {phase : WorkerPhase} (hworker : s.workers w = .handling p phase)
    (partition : PartitionState) :
    s.tokens = (p, phase) ::ₘ ((s.setPartition p partition).setWorker w .waiting).tokens := by
  obtain ⟨rest, htokens, hset⟩ := exists_places_update s.scheduling s.readyAppends s.workers w
  rw [hworker] at htokens
  have hrest := hset .waiting
  rw [workerTokens_waiting, zero_add] at hrest
  exact htokens.trans (hrest ▸ Multiset.singleton_add _ _)

omit [DecidableEq P] in
/-- A worker's partition has a token. -/
theorem mem_tokens {phase : WorkerPhase} (hworker : s.workers w = .handling p phase) :
    (p, phase) ∈ s.tokens := by
  obtain ⟨rest, htokens, -⟩ := exists_places_update s.scheduling s.readyAppends s.workers w
  rw [tokens, htokens, hworker]
  exact Multiset.mem_add.mpr (Or.inl (Multiset.mem_singleton_self _))

/-- A worker goes on with its partition. -/
theorem QueueInv.handle (h : QueueInv config s) {phase phase' : WorkerPhase}
    (hworker : s.workers w = .handling p phase) (hactive : partition.appendActive = true)
    (haccounts : Accounts config partition phase')
    (hdepth : partition.pendingAppends.length < config.maxAppendQueueDepth.toNat) :
    QueueInv config ((s.setPartition p partition).setWorker w (.handling p phase')) := by
  obtain ⟨rest, htokens, hset⟩ := tokens_handle hworker
  have hlife : Lifecycle (s.setPartition p partition) :=
    ⟨h.lifecycle.stopped, h.lifecycle.exited, h.lifecycle.alive⟩
  exact h.move htokens (hset _ _) rfl hactive haccounts hdepth (hlife.setWorker w nofun)

theorem QueueInv.pop (h : QueueInv config s) {ready : P × AppendJob} {rest : List (P × AppendJob)}
    (hworker : s.workers w = .waiting) (hready : s.readyAppends = ready :: rest) :
    QueueInv config ({ s with readyAppends := rest }.setWorker w
      (.handling ready.1 (.popped ready.2))) := by
  obtain ⟨others, htokens, hpopped⟩ := tokens_pop hworker hready
  have hmem := h.accounts (queuedToken ready) (htokens ▸ Multiset.mem_cons_self _ _)
  have hlife : Lifecycle ({ s with readyAppends := rest } : QueueState P W) :=
    ⟨h.lifecycle.stopped, h.lifecycle.exited, fun _ ↦ ⟨w, by simp only [hworker]; nofun⟩⟩
  exact h.move htokens hpopped (Function.update_eq_self ready.1 s.partitions).symm hmem.1 hmem.2
    (h.depth ready.1 hmem.1) (hlife.setWorker w nofun)

theorem QueueInv.hand (h : QueueInv config s) {next : AppendJob}
    (hworker : s.workers w = .handling p (.handing next)) :
    QueueInv config ({ s with readyAppends := s.readyAppends ++ [(p, next)] }.setWorker w
      .waiting) := by
  obtain ⟨rest, htokens, hpushed⟩ := tokens_hand hworker
  have hmem := h.accounts _ (mem_tokens hworker)
  have haccounts : Accounts config (s.partitions p) (.popped next) := hmem.2
  have hlife : Lifecycle ({ s with readyAppends := s.readyAppends ++ [(p, next)] } :
      QueueState P W) :=
    ⟨h.lifecycle.stopped, h.lifecycle.exited, fun _ ↦ ⟨w, by simp only [hworker]; nofun⟩⟩
  exact h.move htokens hpushed (Function.update_eq_self p s.partitions).symm hmem.1 haccounts
    (h.depth p hmem.1) (hlife.setWorker w nofun)

theorem QueueInv.release (h : QueueInv config s) (hworker : s.workers w = .handling p .posted)
    (hidle : partition.appendActive = false) (hsettled : Settled partition) :
    QueueInv config ((s.setPartition p partition).setWorker w .waiting) := by
  have hlife : Lifecycle (s.setPartition p partition) :=
    ⟨h.lifecycle.stopped, h.lifecycle.exited, h.lifecycle.alive⟩
  exact h.deactivate (tokens_release hworker partition) rfl hidle hsettled
    (hlife.setWorker w nofun)

/-- The history divides in the same way when a job is added at the end. -/
theorem Accounts.push {phase : WorkerPhase} (h : Accounts config partition phase)
    (job : AppendJob) :
    Accounts config { partition with
      pendingAppends := partition.pendingAppends ++ [job]
      accepted := partition.accepted ++ [job] } phase := by
  cases phase with
  | popped next => exact ⟨h.1, by simp [h.2]⟩
  | batched jobs => exact ⟨h.1, h.2.1, h.2.2.1, by simp [h.2.2.2]⟩
  | ran jobs results => exact ⟨h.1, h.2.1, h.2.2.1, by simp [h.2.2.2]⟩
  | posted => exact ⟨h.1, by simp [h.2]⟩
  | handing next => exact ⟨h.1, by simp [h.2]⟩

theorem QueueInv.enqueue (h : QueueInv config s) {job : AppendJob}
    (hstep : s.step config (.tryEnqueueAppend p job) = some s') : QueueInv config s' := by
  rw [step] at hstep
  split_ifs at hstep with hstopping
  have hlife : ∀ scheduling partitions, Lifecycle
      ({ s with scheduling := scheduling, partitions := partitions } : QueueState P W) :=
    fun _ _ ↦ ⟨fun hstop ↦ absurd hstop hstopping, h.lifecycle.exited, h.lifecycle.alive⟩
  dsimp only at hstep
  unfold Broker.tryEnqueueAppend at hstep
  set partition := s.partitions p with hpartition
  by_cases hfull : (partition.pendingAppends.length + if partition.appendActive then 1 else 0) %
      2 ^ 32 ≥ config.maxAppendQueueDepth.toNat
  · simp only [if_pos hfull, Option.some.injEq] at hstep
    rw [← hstep, setPartition, hpartition, Function.update_eq_self]
    exact h
  simp only [if_neg hfull] at hstep
  cases hactive : partition.appendActive with
  | true =>
      simp only [hactive, if_true, Option.some.injEq] at hstep hfull
      obtain ⟨⟨q, phase⟩, htoken, rfl⟩ := Multiset.mem_map.mp (h.held p hactive)
      obtain ⟨rest, htokens⟩ := Multiset.exists_cons_of_mem htoken
      have hdepth := h.depth q hactive
      have hmax := config.maxAppendQueueDepth.toNat_lt
      rw [← hpartition] at hdepth
      rw [← hstep]
      refine h.move htokens htokens rfl rfl ((h.accounts _ htoken).2.push job) ?_ (hlife _ _)
      rw [Nat.mod_eq_of_lt (by omega)] at hfull
      rw [List.length_append, List.length_singleton]
      omega
  | false =>
      simp only [hactive, Bool.false_eq_true, if_false, Option.some.injEq] at hstep hfull
      have hsettled := h.settled p hactive
      rw [← hpartition] at hsettled
      rw [← hstep]
      refine h.activate hactive ?_ rfl rfl (show Accounts config _ (.popped job) from ⟨?_, ?_⟩) ?_
        (hlife _ _)
      · exact places_push_scheduling _ _ _ (p, job)
      · exact hsettled.completed.trans hsettled.appended.symm
      · simp [hsettled.pending, hsettled.appended]
      · rw [hsettled.pending, List.length_nil, Nat.add_zero, Nat.zero_mod] at hfull
        simp only [hsettled.pending, List.length_nil]
        omega

theorem QueueInv.schedule (h : QueueInv config s) {client : ℕ}
    (hstep : s.step config (.scheduleAppend client) = some s') (w : W) : QueueInv config s' := by
  obtain ⟨ready, hready, rfl⟩ := Option.map_eq_some_iff.mp hstep
  obtain ⟨hclient, hget⟩ := List.getElem?_eq_some_iff.mp hready
  have hscheduling : (↑(s.scheduling.map queuedToken) : Multiset (P × WorkerPhase)) =
      queuedToken ready ::ₘ ↑((s.scheduling.eraseIdx client).map queuedToken) := by
    rw [Multiset.cons_coe, Multiset.coe_eq_coe, ← List.map_cons]
    apply List.Perm.map
    rw [← hget]
    exact (List.getElem_cons_eraseIdx_perm hclient).symm
  have hstopping : s.appendStopping = false := by
    cases hstop : s.appendStopping with
    | false => rfl
    | true =>
        rw [h.lifecycle.stopped hstop] at hready
        cases hready
  have htokens : places (s.scheduling.eraseIdx client) (s.readyAppends ++ [ready]) s.workers =
      s.tokens := by
    rw [places_push_ready, tokens, places, places, hscheduling, Multiset.cons_add,
      Multiset.cons_add]
  have hlife : Lifecycle ({ s with
      scheduling := s.scheduling.eraseIdx client
      readyAppends := s.readyAppends ++ [ready] } : QueueState P W) := by
    refine ⟨fun hstop ↦ ?_, h.lifecycle.exited, fun _ ↦ ⟨w, fun hexited ↦ ?_⟩⟩
    · rw [hstopping] at hstop
      cases hstop
    · have hstop := h.lifecycle.exited w hexited
      rw [hstopping] at hstop
      cases hstop
  exact h.keep htokens rfl hlife

theorem length_results {log : PartitionLog} {clock : AppendClock} {fault : Option AppendFault}
    {retention : RetentionEnv} {policy : RetentionPolicy} {jobs : List ProduceRequest}
    (hne : jobs ≠ []) :
    (runAppendBatch log clock fault retention policy jobs).results.length = jobs.length := by
  unfold runAppendBatch
  cases happend : log.appendBatch clock fault (jobs.map appendRecord) with
  | mk appended result =>
      cases result with
      | error message => simp [AppendOutcome.answer]
      | ok metas =>
          have hrecords : jobs.map appendRecord ≠ [] := fun hnil ↦ hne (List.map_eq_nil_iff.mp hnil)
          obtain rfl := fault_of_appendBatch hrecords happend
          have hmetas := PartitionLog.length_appendBatch happend
          rw [List.length_map] at hmetas
          dsimp only
          cases appended.applyRetention retention policy with
          | mk kept result =>
              cases result <;> simp [AppendOutcome.answer, hmetas]

/-- One step of a worker. -/
theorem QueueInv.work (h : QueueInv config s) (hbatch : 1 ≤ config.appendBatchRecords.toNat)
    (hstep : s.workerStep config w env = some s') : QueueInv config s' := by
  unfold workerStep at hstep
  cases hworker : s.workers w with
  | waiting =>
      rw [hworker] at hstep
      cases hready : s.readyAppends with
      | nil =>
          simp only [hready] at hstep
          split_ifs at hstep with hstop
          obtain rfl := Option.some.inj hstep
          obtain ⟨rest, htokens, hset⟩ :=
            exists_places_update s.scheduling s.readyAppends s.workers w
          have hsame : (s.setWorker w .exited).tokens = s.tokens := by
            have hexited := hset .exited
            rw [workerTokens_exited, ← workerTokens_waiting, ← hworker, ← htokens] at hexited
            exact hexited
          refine h.keep hsame rfl ⟨h.lifecycle.stopped, fun _ _ ↦ hstop, fun hne ↦ ?_⟩
          exact absurd hready hne
      | cons ready rest =>
          simp only [hready] at hstep
          obtain rfl := Option.some.inj hstep
          exact h.pop hworker hready
  | handling p phase =>
      have hmem := h.accounts _ (mem_tokens hworker)
      have hdepth := h.depth p hmem.1
      cases phase with
      | popped job =>
          obtain ⟨hcompleted, haccepted⟩ := hmem.2
          simp only [hworker] at hstep
          obtain rfl := Option.some.inj hstep
          refine h.handle hworker hmem.1 ⟨List.cons_ne_nil _ _, ?_, hcompleted, ?_⟩ ?_
          · rw [List.length_cons, List.length_take]
            omega
          · rw [List.cons_append, List.take_append_drop]
            exact haccepted
          · rw [List.length_drop]
            omega
      | batched jobs =>
          obtain ⟨hne, hlength, hcompleted, haccepted⟩ := hmem.2
          simp only [hworker] at hstep
          obtain rfl := Option.some.inj hstep
          refine h.handle hworker hmem.1 ⟨hlength, ?_, ?_, ?_⟩ hdepth
          · rw [length_results (fun hnil ↦ hne (List.map_eq_nil_iff.mp hnil)), List.length_map]
          · exact congrArg (fun front ↦ front ++ jobs) hcompleted.symm
          · rw [List.append_assoc]
            exact haccepted
      | ran jobs results =>
          obtain ⟨hlength, hresults, happended, haccepted⟩ := hmem.2
          simp only [hworker] at hstep
          obtain rfl := Option.some.inj hstep
          refine h.handle hworker hmem.1 ⟨?_, haccepted⟩ hdepth
          rw [List.map_append, List.map_fst_zip hresults.ge]
          exact happended.symm
      | posted =>
          obtain ⟨hcompleted, haccepted⟩ := hmem.2
          cases hpending : (s.partitions p).pendingAppends with
          | nil =>
              simp only [hworker, hpending] at hstep
              obtain rfl := Option.some.inj hstep
              rw [hpending, List.append_nil] at haccepted
              exact h.release hworker rfl ⟨rfl, haccepted.symm, hcompleted.trans haccepted.symm⟩
          | cons next rest =>
              simp only [hworker, hpending] at hstep
              obtain rfl := Option.some.inj hstep
              rw [hpending] at haccepted hdepth
              refine h.handle hworker hmem.1 ⟨hcompleted, haccepted⟩ ?_
              rw [List.length_cons] at hdepth
              dsimp only
              omega
      | handing next =>
          simp only [hworker] at hstep
          obtain rfl := Option.some.inj hstep
          exact h.hand hworker
  | exited =>
      rw [hworker] at hstep
      cases hstep

theorem QueueInv.step (h : QueueInv config s) (hbatch : 1 ≤ config.appendBatchRecords.toNat)
    [Nonempty W] {event : QueueEvent P W} (hstep : s.step config event = some s') :
    QueueInv config s' := by
  cases event with
  | tryEnqueueAppend p job => exact h.enqueue hstep
  | scheduleAppend client => exact h.schedule hstep (Classical.arbitrary W)
  | stopAppendWorkers =>
      rw [QueueState.step] at hstep
      split_ifs at hstep with hnone
      obtain rfl := Option.some.inj hstep
      exact h.keep rfl rfl ⟨fun _ ↦ hnone, fun _ _ ↦ rfl, h.lifecycle.alive⟩
  | work w env => exact h.work hbatch hstep

omit [DecidableEq P] [DecidableEq W] in
theorem QueueInv.initial (config : QueueConfig) (logs : P → PartitionLog) :
    QueueInv config (QueueState.initial logs : QueueState P W) := by
  have htokens : (QueueState.initial logs : QueueState P W).tokens = 0 := by
    simp [tokens, places, QueueState.initial]
  constructor
  · rw [htokens]
    exact Multiset.nodup_zero
  · rw [htokens]
    exact fun t ht ↦ (Multiset.notMem_zero t ht).elim
  · exact fun p hp ↦ by cases hp
  · exact fun p _ ↦ ⟨rfl, rfl, rfl⟩
  · exact fun p hp ↦ by cases hp
  · exact ⟨nofun, nofun, fun h ↦ absurd rfl h⟩

theorem run_queueInv [Nonempty W] (hbatch : 1 ≤ config.appendBatchRecords.toNat)
    {logs : P → PartitionLog} {events : List (QueueEvent P W)}
    (hrun : run (QueueState.step config) (QueueState.initial logs) events = some s) :
    QueueInv config s := by
  apply run_invariant (fun _ _ ↦ True) (QueueInv config) _ (along_of_forall (fun _ _ _ ↦ trivial) _)
    hrun (QueueInv.initial config logs)
  intro s event s' _ hstep h
  exact h.step hbatch hstep

/-! ## Termination -/

def phaseWeight : WorkerPhase → ℕ
  | .popped _ => 5
  | .batched _ => 4
  | .ran _ _ => 3
  | .posted => 2
  | .handing _ => 7

def workerWeight : Worker P → ℕ
  | .waiting => 1
  | _ => 0

def tokenWeight (partitions : P → PartitionState) (t : P × WorkerPhase) : ℕ :=
  phaseWeight t.2 + 8 * (partitions t.1).pendingAppends.length

/-- A bound on the steps the workers can still take by themselves. -/
def remaining (s : QueueState P W) : ℕ :=
  (s.tokens.map (tokenWeight s.partitions)).sum + ∑ w, workerWeight (s.workers w)

omit [DecidableEq P] in
theorem sum_workerWeight_update (workers : W → Worker P) (w : W) (worker : Worker P) :
    ∑ v, workerWeight (Function.update workers w worker v) + workerWeight (workers w) =
      ∑ v, workerWeight (workers v) + workerWeight worker := by
  have hothers : ∑ v ∈ Finset.univ.erase w, workerWeight (Function.update workers w worker v) =
      ∑ v ∈ Finset.univ.erase w, workerWeight (workers v) := by
    apply Finset.sum_congr rfl
    intro v hv
    rw [Function.update_of_ne (Finset.ne_of_mem_erase hv)]
  rw [← Finset.add_sum_erase Finset.univ _ (Finset.mem_univ w), hothers, Function.update_self,
    ← Finset.add_sum_erase Finset.univ (fun v ↦ workerWeight (workers v)) (Finset.mem_univ w)]
  omega

omit [DecidableEq W] in
/-- The other partitions weigh what they did. -/
theorem QueueInv.sum_others (h : QueueInv config s) {phase : WorkerPhase}
    {rest : Multiset (P × WorkerPhase)} (htokens : s.tokens = (p, phase) ::ₘ rest)
    (partition : PartitionState) :
    (rest.map (tokenWeight (Function.update s.partitions p partition))).sum =
      (rest.map (tokenWeight s.partitions)).sum := by
  have hsingle := h.single
  rw [htokens, Multiset.map_cons, Multiset.nodup_cons] at hsingle
  congr 1
  apply Multiset.map_congr rfl
  intro t ht
  have hne : t.1 ≠ p := fun heq ↦ hsingle.1 (Multiset.mem_map.mpr ⟨t, ht, heq⟩)
  rw [tokenWeight, tokenWeight, Function.update_of_ne hne]

theorem QueueInv.remaining_move (h : QueueInv config s) {phase phase' : WorkerPhase}
    {rest : Multiset (P × WorkerPhase)} (htokens : s.tokens = (p, phase) ::ₘ rest)
    (htokens' : s'.tokens = (p, phase') ::ₘ rest)
    (hpartitions : s'.partitions = Function.update s.partitions p partition)
    (hworkers : s'.workers = Function.update s.workers w worker)
    (hless : phaseWeight phase' + 8 * partition.pendingAppends.length + workerWeight worker <
      phaseWeight phase + 8 * (s.partitions p).pendingAppends.length +
        workerWeight (s.workers w)) : s'.remaining < s.remaining := by
  have hothers := h.sum_others htokens partition
  have hsum := sum_workerWeight_update s.workers w worker
  rw [remaining, remaining, htokens, htokens', hpartitions, hworkers, Multiset.map_cons,
    Multiset.map_cons, Multiset.sum_cons, Multiset.sum_cons, hothers, tokenWeight, tokenWeight,
    Function.update_self]
  dsimp only
  omega

theorem QueueInv.remaining_release (h : QueueInv config s)
    (hworker : s.workers w = .handling p .posted) (partition : PartitionState) :
    ((s.setPartition p partition).setWorker w .waiting).remaining < s.remaining := by
  have hreleased := tokens_release hworker partition
  have hothers := h.sum_others hreleased partition
  have hsum := sum_workerWeight_update s.workers w .waiting
  rw [hworker] at hsum
  have hleft : ((s.setPartition p partition).setWorker w .waiting).remaining =
      (((s.setPartition p partition).setWorker w .waiting).tokens.map
        (tokenWeight s.partitions)).sum +
          ∑ v, workerWeight (Function.update s.workers w .waiting v) := by
    rw [← hothers]
    rfl
  rw [hleft, remaining, hreleased, Multiset.map_cons, Multiset.sum_cons, tokenWeight]
  simp only [workerWeight, phaseWeight] at hsum ⊢
  omega

/-- Every step of a worker brings the end nearer. -/
theorem QueueInv.remaining_lt (h : QueueInv config s)
    (hstep : s.workerStep config w env = some s') : s'.remaining < s.remaining := by
  unfold workerStep at hstep
  cases hworker : s.workers w with
  | waiting =>
      rw [hworker] at hstep
      cases hready : s.readyAppends with
      | nil =>
          simp only [hready] at hstep
          split_ifs at hstep with hstop
          obtain rfl := Option.some.inj hstep
          obtain ⟨rest, htokens, hset⟩ :=
            exists_places_update s.scheduling s.readyAppends s.workers w
          have hsame : (s.setWorker w .exited).tokens = s.tokens := by
            have hexited := hset .exited
            rw [workerTokens_exited, ← workerTokens_waiting, ← hworker, ← htokens] at hexited
            exact hexited
          have hsum := sum_workerWeight_update s.workers w .exited
          rw [hworker] at hsum
          rw [remaining, remaining, hsame]
          change _ + ∑ v, workerWeight (Function.update s.workers w .exited v) < _
          simp only [workerWeight, setWorker] at hsum ⊢
          omega
      | cons ready rest =>
          simp only [hready] at hstep
          obtain rfl := Option.some.inj hstep
          obtain ⟨others, htokens, hpopped⟩ := tokens_pop hworker hready
          refine h.remaining_move htokens hpopped
            (Function.update_eq_self ready.1 s.partitions).symm rfl ?_
          rw [hworker]
          simp [workerWeight]
  | handling p phase =>
      obtain ⟨rest, htokens, hset⟩ := tokens_handle hworker
      cases phase with
      | popped job =>
          simp only [hworker] at hstep
          obtain rfl := Option.some.inj hstep
          refine h.remaining_move htokens (hset _ _) rfl rfl ?_
          rw [hworker, List.length_drop]
          simp only [phaseWeight, workerWeight]
          omega
      | batched jobs =>
          simp only [hworker] at hstep
          obtain rfl := Option.some.inj hstep
          refine h.remaining_move htokens (hset _ _) rfl rfl ?_
          simp [hworker, phaseWeight, workerWeight]
      | ran jobs results =>
          simp only [hworker] at hstep
          obtain rfl := Option.some.inj hstep
          refine h.remaining_move htokens (hset _ _) rfl rfl ?_
          simp [hworker, phaseWeight, workerWeight]
      | posted =>
          cases hpending : (s.partitions p).pendingAppends with
          | nil =>
              simp only [hworker, hpending] at hstep
              obtain rfl := Option.some.inj hstep
              exact h.remaining_release hworker _
          | cons next rest' =>
              simp only [hworker, hpending] at hstep
              obtain rfl := Option.some.inj hstep
              refine h.remaining_move htokens (hset _ _) rfl rfl ?_
              rw [hworker, hpending, List.length_cons]
              simp only [phaseWeight, workerWeight]
              omega
      | handing next =>
          simp only [hworker] at hstep
          obtain rfl := Option.some.inj hstep
          obtain ⟨rest, htokens, hpushed⟩ := tokens_hand hworker
          refine h.remaining_move htokens hpushed
            (Function.update_eq_self p s.partitions).symm rfl ?_
          rw [hworker]
          simp only [phaseWeight, workerWeight]
          omega
  | exited =>
      rw [hworker] at hstep
      cases hstep

/-! ## What the queue guarantees -/

omit [DecidableEq P] in
theorem QueueInv.exclusive (h : QueueInv config s) {w w' : W} {phase phase' : WorkerPhase}
    (hworker : s.workers w = .handling p phase) (hworker' : s.workers w' = .handling p phase') :
    w = w' := by
  by_contra hne
  obtain ⟨rest, htokens, hset⟩ := exists_places_update s.scheduling s.readyAppends s.workers w
  rw [hworker] at htokens
  -- Without the first worker the second one is still there.
  have hrest : (p, phase') ∈ rest := by
    have hwaiting := hset .waiting
    rw [workerTokens_waiting, zero_add] at hwaiting
    rw [← hwaiting]
    refine mem_tokens (s := s.setWorker w .waiting) (w := w') ?_
    rw [setWorker_of_ne s (Ne.symm hne)]
    exact hworker'
  have hsingle := h.single
  rw [show s.tokens = (p, phase) ::ₘ rest from htokens, Multiset.map_cons,
    Multiset.nodup_cons] at hsingle
  exact hsingle.1 (Multiset.mem_map.mpr ⟨_, hrest, rfl⟩)

omit [DecidableEq P] [DecidableEq W] in
/-- A partition is settled, or its one token accounts for its jobs. -/
theorem QueueInv.settled_or_held (h : QueueInv config s) (p : P) :
    Settled (s.partitions p) ∨ ∃ phase, Accounts config (s.partitions p) phase ∧
      (s.partitions p).pendingAppends.length < config.maxAppendQueueDepth.toNat := by
  cases hactive : (s.partitions p).appendActive with
  | false => exact Or.inl (h.settled p hactive)
  | true =>
      obtain ⟨⟨q, phase⟩, htoken, rfl⟩ := Multiset.mem_map.mp (h.held p hactive)
      exact Or.inr ⟨phase, (h.accounts _ htoken).2, h.depth q hactive⟩

omit [DecidableEq P] [DecidableEq W] in
theorem QueueInv.ordered (h : QueueInv config s) (p : P) :
    (s.partitions p).appended <+: (s.partitions p).accepted ∧
      (s.partitions p).completed.map Prod.fst <+: (s.partitions p).appended := by
  rcases h.settled_or_held p with hsettled | ⟨phase, haccounts, -⟩
  · rw [hsettled.appended, hsettled.completed]
    exact ⟨List.prefix_rfl, List.prefix_rfl⟩
  · cases phase with
    | popped job => exact ⟨⟨_, haccounts.2.symm⟩, haccounts.1 ▸ List.prefix_rfl⟩
    | batched jobs => exact ⟨⟨_, haccounts.2.2.2.symm⟩, haccounts.2.2.1 ▸ List.prefix_rfl⟩
    | ran jobs results => exact ⟨⟨_, haccounts.2.2.2.symm⟩, ⟨_, haccounts.2.2.1.symm⟩⟩
    | posted => exact ⟨⟨_, haccounts.2.symm⟩, haccounts.1 ▸ List.prefix_rfl⟩
    | handing next => exact ⟨⟨_, haccounts.2.symm⟩, haccounts.1 ▸ List.prefix_rfl⟩

omit [DecidableEq P] [DecidableEq W] in
theorem QueueInv.bounded (h : QueueInv config s) (hbatch : 1 ≤ config.appendBatchRecords.toNat)
    (p : P) :
    (s.partitions p).accepted.length - (s.partitions p).completed.length ≤
      config.maxAppendQueueDepth.toNat + config.appendBatchRecords.toNat - 1 := by
  rcases h.settled_or_held p with hsettled | ⟨phase, haccounts, hdepth⟩
  · have hlength := congrArg List.length hsettled.completed
    rw [List.length_map] at hlength
    omega
  · cases phase with
    | popped job =>
        have hcompleted := congrArg List.length haccounts.1
        have haccepted := congrArg List.length haccounts.2
        simp only [List.length_map, List.length_append, List.length_cons] at hcompleted haccepted
        omega
    | batched jobs =>
        obtain ⟨-, hjobs, hfirst, hsecond⟩ := haccounts
        have hcompleted := congrArg List.length hfirst
        have haccepted := congrArg List.length hsecond
        simp only [List.length_map, List.length_append] at hcompleted haccepted
        omega
    | ran jobs results =>
        obtain ⟨hjobs, -, hfirst, hsecond⟩ := haccounts
        have hcompleted := congrArg List.length hfirst
        have haccepted := congrArg List.length hsecond
        simp only [List.length_map, List.length_append] at hcompleted haccepted
        omega
    | posted =>
        have hcompleted := congrArg List.length haccounts.1
        have haccepted := congrArg List.length haccounts.2
        simp only [List.length_map, List.length_append] at hcompleted haccepted
        omega
    | handing next =>
        have hcompleted := congrArg List.length haccounts.1
        have haccepted := congrArg List.length haccounts.2
        simp only [List.length_map, List.length_append, List.length_cons] at hcompleted haccepted
        omega

omit [DecidableEq P] [DecidableEq W] in
/-- With nothing queued and no worker busy, all jobs are completed. -/
theorem QueueInv.completed_of_idle (h : QueueInv config s) (hscheduling : s.scheduling = [])
    (hready : s.readyAppends = []) (hidle : ∀ w, workerTokens (s.workers w) = 0) (p : P) :
    (s.partitions p).completed.map Prod.fst = (s.partitions p).accepted := by
  have htokens : s.tokens = 0 := by
    rw [tokens, places, hscheduling, hready, Finset.sum_eq_zero fun w _ ↦ hidle w]
    rfl
  apply Settled.completed
  apply h.settled
  rw [← Bool.not_eq_true]
  intro hactive
  have hmem := h.held p hactive
  rw [htokens] at hmem
  exact Multiset.notMem_zero _ hmem

omit [Fintype W] in
/-- A worker that cannot go on holds no partition, and waits only if none is ready. -/
theorem idle_of_stuck (hstuck : s.workerStep config w env = none) :
    workerTokens (s.workers w) = 0 ∧ (s.workers w = .exited ∨ s.readyAppends = []) := by
  unfold workerStep at hstuck
  cases hworker : s.workers w with
  | waiting =>
      rw [hworker] at hstuck
      cases hready : s.readyAppends with
      | nil => exact ⟨rfl, Or.inr rfl⟩
      | cons ready rest =>
          simp only [hready] at hstuck
          cases hstuck
  | handling p phase =>
      simp only [hworker] at hstuck
      cases phase with
      | popped job => cases hstuck
      | batched jobs => cases hstuck
      | ran jobs results => cases hstuck
      | posted =>
          cases hpending : (s.partitions p).pendingAppends <;> simp only [hpending] at hstuck <;>
            cases hstuck
      | handing next => cases hstuck
  | exited => exact ⟨rfl, Or.inl rfl⟩

end Steps

/-- FIFO and exactly once. -/
structure QueueCorrect [DecidableEq W] (config : QueueConfig) (s : QueueState P W) : Prop where
  exclusive : ∀ w w' p phase phase', s.workers w = .handling p phase →
    s.workers w' = .handling p phase' → w = w'
  ordered : ∀ p, (s.partitions p).appended <+: (s.partitions p).accepted
  once : ∀ p, (s.partitions p).completed.map Prod.fst <+: (s.partitions p).appended
  inactive : ∀ p, (s.partitions p).appendActive = false → (s.partitions p).pendingAppends = []
  bounded : ∀ p, (s.partitions p).accepted.length - (s.partitions p).completed.length ≤
    config.maxAppendQueueDepth.toNat + config.appendBatchRecords.toNat - 1
  /-- Workers exit after all accepted jobs have been completed. -/
  drained : (∀ w, s.workers w = .exited) →
    ∀ p, (s.partitions p).completed.map Prod.fst = (s.partitions p).accepted
  /-- The workers come to rest, and only when all accepted jobs are completed. -/
  terminates : ∃ bound, ∀ works : List (W × AppendEnv), ∀ s',
    run (QueueState.step config) s (works.map fun work ↦ .work work.1 work.2) = some s' →
    works.length ≤ bound
  progress : s.scheduling = [] → (∀ w env, s.step config (.work w env) = none) →
    ∀ p, (s.partitions p).completed.map Prod.fst = (s.partitions p).accepted

/-- Every interleaving of clients and workers keeps the queue correct. -/
theorem appendQueue_correct [DecidableEq W] [Nonempty W] (config : QueueConfig)
    (hbatch : 1 ≤ config.appendBatchRecords.toNat) (logs : P → PartitionLog)
    (events : List (QueueEvent P W)) (s : QueueState P W)
    (hrun : run (QueueState.step config) (QueueState.initial logs) events = some s) :
    QueueCorrect config s := by
  have h := run_queueInv hbatch hrun
  have hlive : (∀ w, s.workers w = .exited) → s.readyAppends = [] := by
    intro hexited
    by_contra hready
    obtain ⟨w, hw⟩ := h.lifecycle.alive hready
    exact hw (hexited w)
  constructor
  · exact fun w w' p phase phase' hw hw' ↦ h.exclusive hw hw'
  · exact fun p ↦ (h.ordered p).1
  · exact fun p ↦ (h.ordered p).2
  · exact fun p hp ↦ (h.settled p hp).pending
  · exact h.bounded hbatch
  · intro hexited p
    have hstopped := h.lifecycle.exited (Classical.arbitrary W) (hexited _)
    apply h.completed_of_idle (h.lifecycle.stopped hstopped) (hlive hexited)
    intro w
    rw [hexited w]
    rfl
  · refine ⟨s.remaining, fun works ↦ ?_⟩
    clear hrun hlive
    induction works generalizing s with
    | nil => exact fun _ _ ↦ Nat.zero_le _
    | cons work works ih =>
        intro s' hworks
        obtain ⟨middle, hstep, hrest⟩ := run_cons hworks
        have hshorter := ih middle (h.step hbatch hstep) s' hrest
        have hless := h.remaining_lt hstep
        rw [List.length_cons]
        omega
  · intro hscheduling hstuck
    have hidle := fun w ↦ idle_of_stuck (hstuck w
      ⟨⟨fun _ ↦ 0, fun _ ↦ ⟨none, 0⟩⟩, none, ⟨fun _ ↦ ⟨none, 0⟩, fun _ ↦ false, fun _ ↦ false⟩⟩)
    apply h.completed_of_idle hscheduling _ fun w ↦ (hidle w).1
    by_contra hready
    exact hready (hlive fun w ↦ (hidle w).2.resolve_right hready)

end Invariant

def firstJob : AppendJob := ⟨⟨[116], [97], [98]⟩, 1⟩

def secondJob : AppendJob := ⟨⟨[116], [99], [100]⟩, 2⟩

def quietEnv : AppendEnv := ⟨stillClock, none, retentionEnv false⟩

def firstWorker : Fin 2 := ⟨0, Nat.two_pos⟩

def secondWorker : Fin 2 := ⟨1, Nat.one_lt_two⟩

/-- Two jobs for one partition and a pool of two workers, to the end. -/
def twoJobEvents : List (QueueEvent Unit (Fin 2)) :=
  [.tryEnqueueAppend () firstJob, .tryEnqueueAppend () secondJob, .scheduleAppend 0,
    .work secondWorker quietEnv, .work secondWorker quietEnv, .work secondWorker quietEnv,
    .work secondWorker quietEnv, .work secondWorker quietEnv, .stopAppendWorkers,
    .work firstWorker quietEnv, .work secondWorker quietEnv]

theorem appendQueue_correct_twoJobs :
    ∃ s : QueueState Unit (Fin 2), run (QueueState.step ⟨3, 2, ⟨0, 0⟩⟩)
        (QueueState.initial fun _ ↦ PartitionLog.emptyLog singleRecordSegments) twoJobEvents =
          some s ∧
      (s.partitions ()).completed.map Prod.fst = [firstJob, secondJob] ∧
      QueueCorrect ⟨3, 2, ⟨0, 0⟩⟩ s := by
  have hchecks : (run (QueueState.step ⟨3, 2, ⟨0, 0⟩⟩)
      (QueueState.initial fun _ ↦ PartitionLog.emptyLog singleRecordSegments) twoJobEvents).map
      (fun s ↦ (s.partitions ()).completed.map Prod.fst) = some [firstJob, secondJob] := by
    decide
  obtain ⟨s, hrun, hcompleted⟩ := Option.map_eq_some_iff.mp hchecks
  exact ⟨s, hrun, hcompleted, appendQueue_correct _ (by decide) _ _ s hrun⟩

end QueueState

end BoltStream.Broker
