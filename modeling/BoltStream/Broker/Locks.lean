import Mathlib.Order.Fin.Basic
import Mathlib.Order.Interval.Finset.Fin
import BoltStream.Lib.LockOrder

/-!
# The locks of the broker

What the operations of `BrokerRuntime` do with their mutexes.  Every lock is a
`lock_guard` or `unique_lock` of a block.  Whatever depends on data (which topic is
found, what is checked, what fails) is left open: the operations carry the topic
states and partitions they come to, and any part of their code may be skipped.

Topic states are numbered, and `partitionCount` gives the partitions of each.
-/

namespace BoltStream.Broker

open BoltStream.Lib LockCode

/-- `topics_mutex_`, `TopicState::mutex`, `log_mutex`, `append_mutex`,
`append_work_mutex_`, the mutex of the coordinator, `offsets_mutex_` and
`waiters_mutex_`. -/
inductive BrokerLock where
  | topics
  | topic (incarnation : ℕ)
  | log (incarnation partition : ℕ)
  | append (incarnation partition : ℕ)
  | appendWork
  | coordinator
  | offsets
  | waiters
  deriving DecidableEq, Repr

def BrokerLock.rank : BrokerLock → Fin 8
  | .topics => 0
  | .topic _ => 1
  | .log _ _ => 2
  | .append _ _ => 3
  | .appendWork => 4
  | .coordinator => 5
  | .offsets => 6
  | .waiters => 7

/-- The operations of the runtime, a turn of `append_worker_loop`, and the
destructor. -/
inductive BrokerOperation where
  | loadExistingTopics
  | runtimeMetrics (topics : List ℕ)
  | createTopic
  | asyncProduce (topic partition : ℕ)
  | produceBatch (topic partition : ℕ)
  | fetch (topic partition : ℕ)
  | fetchEncodedBatch (topic partition : ℕ)
  | commitOffset (topic partition : ℕ)
  | joinGroup (topic : ℕ)
  | syncGroup (topic : ℕ)
  | heartbeatGroup (topic : ℕ)
  | leaveGroup (topic : ℕ)
  | commitGroupOffset (topic partition : ℕ)
  | metadata (topics : List ℕ)
  | listTopics (topics : List ℕ)
  | describeTopic (topic : ℕ)
  | runRetention (topics : List ℕ)
  | deleteTopic (topic : ℕ)
  | describeGroup (topic : ℕ)
  | resetGroupOffset (topic partition : ℕ)
  | registerFetchWaiter
  | cancelFetchWaiter
  | activeLongPollWaiters
  | appendWorkerTurn (topic partition : ℕ)
  | stopAppendWorkers
  deriving DecidableEq, Repr

namespace BrokerOperation

/-- Callbacks only post.  The last reference to a session may go with one of them, and
its destructor cancels the waiter of the session. -/
def notifyFetchWaiters : LockCode BrokerLock :=
  inTurn [touch .waiters, .repeated (touch .waiters)]

def runAppendBatch (topic partition : ℕ) : LockCode BrokerLock :=
  inTurn [.locked (.log topic partition) (touch .waiters),
    .orElse notifyFetchWaiters (touch .waiters)]

/-- With `schedule_append`. -/
def tryEnqueueAppend (topic partition : ℕ) : LockCode BrokerLock :=
  inTurn [touch (.append topic partition), touch .appendWork]

/-- With `schedule_append`. -/
def completeAppend (topic partition : ℕ) : LockCode BrokerLock :=
  inTurn [touch (.append topic partition), touch .appendWork]

def findTopic : LockCode BrokerLock := touch .topics

/-- The requests of group members: an expiry and a call under the mutex of the topic. -/
def memberRequest (topic : ℕ) : LockCode BrokerLock :=
  inTurn [findTopic, .locked (.topic topic) (inTurn [touch .coordinator, touch .coordinator])]

/-- `fetch` and `fetch_encoded_batch`; the offsets are for `resolve_fetch_offset`. -/
def fetchFrom (topic partition : ℕ) : LockCode BrokerLock :=
  inTurn [findTopic, .locked (.topic topic) (.locked (.log topic partition) (touch .offsets))]

section

variable (partitionCount : ℕ → ℕ)

/-- The logs of a topic state, one after the other. -/
def eachLog (topic : ℕ) (body : LockCode BrokerLock) : LockCode BrokerLock :=
  each (List.range (partitionCount topic)) fun partition ↦ .locked (.log topic partition) body

def describeTopicState (topic : ℕ) : LockCode BrokerLock :=
  .locked (.topic topic) (eachLog partitionCount topic .done)

def waitForTopicAppendsToDrain (topic : ℕ) : LockCode BrokerLock :=
  .repeated (each (List.range (partitionCount topic)) fun partition ↦
    touch (.append topic partition))

def code : BrokerOperation → LockCode BrokerLock
  | loadExistingTopics => touch .topics
  | runtimeMetrics topics =>
      inTurn [touch .topics,
        each topics fun topic ↦ .locked (.topic topic)
          (each (List.range (partitionCount topic)) fun partition ↦
            inTurn [touch (.append topic partition), touch (.log topic partition)]),
        touch .coordinator, touch .offsets, touch .waiters]
  | createTopic => touch .topics
  | asyncProduce topic partition =>
      inTurn [findTopic, .locked (.topic topic) (.orElse (runAppendBatch topic partition)
        (inTurn [tryEnqueueAppend topic partition, touch .waiters]))]
  | produceBatch topic partition =>
      inTurn [findTopic,
        .locked (.topic topic) (.locked (.log topic partition) notifyFetchWaiters)]
  | fetch topic partition => fetchFrom topic partition
  | fetchEncodedBatch topic partition => fetchFrom topic partition
  | commitOffset topic partition =>
      inTurn [findTopic, .locked (.topic topic) (inTurn [touch .coordinator, touch .coordinator,
        .locked (.log topic partition) (touch .offsets)])]
  | joinGroup topic => inTurn [findTopic, .locked (.topic topic) (touch .coordinator)]
  | syncGroup topic => memberRequest topic
  | heartbeatGroup topic => memberRequest topic
  | leaveGroup topic => memberRequest topic
  | commitGroupOffset topic partition =>
      inTurn [findTopic, .locked (.topic topic) (.locked (.log topic partition)
        (inTurn [touch .coordinator, touch .coordinator, touch .offsets]))]
  | metadata topics =>
      .locked .topics (each topics fun topic ↦ eachLog partitionCount topic .done)
  | listTopics topics => inTurn [touch .topics, each topics (describeTopicState partitionCount)]
  | describeTopic topic => inTurn [findTopic, describeTopicState partitionCount topic]
  | runRetention topics =>
      inTurn [touch .topics,
        each topics fun topic ↦ .locked (.topic topic) (eachLog partitionCount topic .done),
        touch .waiters]
  | deleteTopic topic =>
      inTurn [touch .coordinator, .locked .topics (.locked (.topic topic) (touch .coordinator)),
        notifyFetchWaiters, waitForTopicAppendsToDrain partitionCount topic,
        eachLog partitionCount topic .done, touch .offsets, touch .coordinator, touch .waiters]
  | describeGroup topic =>
      inTurn [findTopic, touch .coordinator,
        .locked (.topic topic) (eachLog partitionCount topic (touch .offsets))]
  | resetGroupOffset topic partition =>
      inTurn [touch .coordinator, findTopic, .locked (.topic topic) (inTurn [touch .coordinator,
        .locked (.log topic partition) (touch .offsets)])]
  | registerFetchWaiter => touch .waiters
  | cancelFetchWaiter => touch .waiters
  | activeLongPollWaiters => touch .waiters
  | appendWorkerTurn topic partition =>
      -- `append_work_cv_` takes its mutex again after every wait.
      inTurn [touch .appendWork, .repeated (touch .appendWork), touch (.append topic partition),
        runAppendBatch topic partition, completeAppend topic partition]
  | stopAppendWorkers => touch .appendWork

end

/-! ## The order of the locks -/

variable (partitionCount : ℕ → ℕ) {held : List BrokerLock}

theorem ordered_notifyFetchWaiters (h : ∀ lock ∈ held, lock.rank < BrokerLock.waiters.rank) :
    notifyFetchWaiters.Ordered BrokerLock.rank held := by
  simpa [notifyFetchWaiters, Ordered] using h

theorem ordered_runAppendBatch {topic partition : ℕ}
    (h : ∀ lock ∈ held, lock.rank < (BrokerLock.log topic partition).rank) :
    (runAppendBatch topic partition).Ordered BrokerLock.rank held := by
  have hlog : (BrokerLock.log topic partition).rank < BrokerLock.waiters.rank := by
    simp [BrokerLock.rank]
  have hwaiters : ∀ lock ∈ held, lock.rank < BrokerLock.waiters.rank :=
    fun lock hlock ↦ (h lock hlock).trans hlog
  simp only [runAppendBatch, ordered_inTurn, List.forall_mem_cons, Ordered, ordered_touch,
    List.not_mem_nil, false_imp_iff, implies_true, and_true]
  exact ⟨⟨h, hlog, hwaiters⟩, ordered_notifyFetchWaiters hwaiters, hwaiters⟩

theorem ordered_code (operation : BrokerOperation) :
    (operation.code partitionCount).Ordered BrokerLock.rank [] := by
  cases operation with
  | asyncProduce topic partition =>
      have hbatch : (runAppendBatch topic partition).Ordered BrokerLock.rank [.topic topic] :=
        ordered_runAppendBatch (by simp [BrokerLock.rank])
      simpa [code, findTopic, tryEnqueueAppend, Ordered, BrokerLock.rank] using hbatch
  | produceBatch topic partition =>
      have hnotify : notifyFetchWaiters.Ordered BrokerLock.rank
          [.log topic partition, .topic topic] :=
        ordered_notifyFetchWaiters (by simp [BrokerLock.rank])
      simpa [code, findTopic, Ordered, BrokerLock.rank] using hnotify
  | deleteTopic topic =>
      have hnotify : notifyFetchWaiters.Ordered BrokerLock.rank [] :=
        ordered_notifyFetchWaiters (by simp)
      simpa [code, waitForTopicAppendsToDrain, eachLog, Ordered, BrokerLock.rank] using hnotify
  | appendWorkerTurn topic partition =>
      have hbatch : (runAppendBatch topic partition).Ordered BrokerLock.rank [] :=
        ordered_runAppendBatch (by simp)
      simpa [code, completeAppend, Ordered, BrokerLock.rank] using hbatch
  | _ =>
      simp [code, findTopic, fetchFrom, memberRequest, describeTopicState, eachLog, Ordered,
        BrokerLock.rank]

/-- Whatever operations run, and however they take turns, no threads wait for each
other, nor one for itself. -/
theorem no_deadlock {T : Type*} [DecidableEq T] (partitionCount : ℕ → ℕ)
    {events : List (T × LockMove BrokerOperation)} {s : LockState T BrokerLock}
    (hrun : run (LockState.step (code partitionCount)) LockState.initial events = some s)
    (threads : Set T) : ¬s.Deadlocked threads :=
  (LockState.inOrder_run (ordered_code partitionCount) hrun).not_deadlocked threads

/-- A deletion waits for the mutex of its topic while a fetch is about to take the mutex
of the log. -/
def deletionMeetsFetch : List (Fin 2 × LockMove BrokerOperation) :=
  [(1, .start (.fetch 0 0)), (1, .go), (1, .go), (1, .go), (1, .go), (1, .go), (1, .go),
    (0, .start (.deleteTopic 0)), (0, .go), (0, .leave), (0, .go), (0, .go)]

theorem no_deadlock_deletionMeetsFetch :
    ∃ s : LockState (Fin 2) BrokerLock,
      run (LockState.step (code fun _ ↦ 1)) LockState.initial deletionMeetsFetch = some s ∧
        s.WaitsFor 0 (.topic 0) ∧ s.holder (.topic 0) = some 1 ∧ s.holder .topics = some 0 ∧
        ∀ threads, ¬s.Deadlocked threads := by
  have hchecks : (run (LockState.step (code fun _ ↦ 1)) LockState.initial deletionMeetsFetch).map
      (fun s ↦ ((s.frames 0).head?, s.holder (.topic 0), s.holder .topics)) =
        some (some (.run (.locked (.topic 0) (touch .coordinator))), some 1, some 0) := by
    decide
  obtain ⟨s, hrun, hchecks⟩ := Option.map_eq_some_iff.mp hchecks
  obtain ⟨hhead, hholders⟩ := Prod.mk.inj hchecks
  obtain ⟨htopic, htopics⟩ := Prod.mk.inj hholders
  obtain ⟨rest, hframes⟩ := List.head?_eq_some_iff.mp hhead
  exact ⟨s, hrun, ⟨_, rest, hframes⟩, htopic, htopics, no_deadlock _ hrun⟩

end BrokerOperation

end BoltStream.Broker
