import BoltStream.Broker.Quiescing

/-!
# The offsets of the answers

A partition answers its jobs in the order in which it has accepted them.  The offsets
it tells grow in the same order: a batch of jobs gets the next offsets of the log, and
whatever else is done to the log, by `produce_batch` or by a retention pass, never
lowers its next offset.  A job that fails is told none.
-/

namespace BoltStream.Storage.PartitionLog

open BoltStream.Lib BoltStream.Protocol

theorem nextOffset_applyRetention (log : PartitionLog) (env : RetentionEnv)
    (policy : RetentionPolicy) : (log.applyRetention env policy).1.nextOffset = log.nextOffset := by
  rw [applyRetention]
  dsimp only
  cases (retentionLoop env policy log.segmentSummaries (RetentionState.initial log)).2 with
  | error message => rfl
  | ok done => rfl

/-- The loop of `append_batch` numbers its records one after the other. -/
theorem offsets_stageRecords (options : PartitionLogOptions) (clock : AppendClock) (original : ℕ)
    (records : List AppendRecord) :
    ∀ (i base size : ℕ), original + i + records.length < 2 ^ 64 →
      ((stageRecords options clock original i base size records).records.map
        fun staged ↦ staged.metadata.offset) <+: List.range' (original + i) records.length := by
  induction records with
  | nil => exact fun _ _ _ _ ↦ List.nil_prefix
  | cons record rest ih =>
      intro i base size hbound
      rw [List.length_cons] at hbound
      rw [stageRecords]
      have hoffset : (original + i) % 2 ^ 64 = original + i := Nat.mod_eq_of_lt (by omega)
      cases encodeRecord ((original + i) % 2 ^ 64) (clock.timestamp i).toNat record.key
          record.value with
      | error message => exact List.nil_prefix
      | ok encoded =>
          simp only [List.map_cons, hoffset, List.length_cons, List.range'_succ]
          rw [List.prefix_cons_inj]
          exact ih (i + 1) _ _ (by omega)

/-- Records get the next offsets of the log, all of them or none. -/
theorem offsets_appendBatch {log log' : PartitionLog} {clock : AppendClock}
    {fault : Option AppendFault} {records : List AppendRecord}
    {result : Except String (List RecordMetadata)}
    (hroom : log.nextOffset + records.length < 2 ^ 64)
    (h : log.appendBatch clock fault records = (log', result)) :
    (∃ message, result = .error message) ∧ log'.nextOffset = log.nextOffset ∨
      ∃ metas, result = .ok metas ∧
        metas.map RecordMetadata.offset = List.range' log.nextOffset records.length ∧
        log'.nextOffset = log.nextOffset + records.length := by
  rw [appendBatch] at h
  by_cases hnil : records = []
  · rw [if_pos hnil] at h
    obtain ⟨rfl, rfl⟩ := Prod.mk.inj h
    rw [hnil]
    exact Or.inr ⟨[], rfl, rfl, rfl⟩
  rw [if_neg hnil] at h
  dsimp only at h
  cases fault with
  | some fault =>
      obtain ⟨rfl, rfl⟩ := Prod.mk.inj h
      exact Or.inl ⟨⟨_, rfl⟩, rfl⟩
  | none =>
      cases herror : (log.stageBatch clock records).error with
      | some message =>
          rw [herror] at h
          obtain ⟨rfl, rfl⟩ := Prod.mk.inj h
          exact Or.inl ⟨⟨_, rfl⟩, rfl⟩
      | none =>
          rw [herror] at h
          obtain ⟨rfl, rfl⟩ := Prod.mk.inj h
          refine Or.inr ⟨_, rfl, ?_, Nat.mod_eq_of_lt hroom⟩
          have hprefix := offsets_stageRecords log.options clock log.nextOffset records 0
            log.activeSegmentBase (log.dir.logs.sizeOrZero log.activeSegmentBase) (by omega)
          rw [List.map_map]
          apply hprefix.eq_of_length
          rw [List.length_map, List.length_range']
          exact length_stageRecords herror

theorem nextOffset_appendEncodedBatch_le {Z : Compression.Zstd} {log : PartitionLog}
    {codec : Compression.Codec} {encodedRecords : Bytes} {uncompressedBytes : UInt32}
    {records : List AppendRecord} {timestamp : UInt64} {fault : Option AppendFault}
    (hroom : log.nextOffset + 2 ^ 32 ≤ 2 ^ 64) :
    log.nextOffset ≤ (appendEncodedBatch Z log codec encodedRecords uncompressedBytes records
      timestamp fault).1.nextOffset := by
  rw [appendEncodedBatch]
  cases hvalid : validateEncodedBatch Z log.options codec encodedRecords uncompressedBytes
      records with
  | error message => exact le_rfl
  | ok valid =>
      obtain ⟨-, hcount, -⟩ := validateEncodedBatch_ok hvalid
      cases fault with
      | none =>
          dsimp only
          rw [Nat.mod_eq_of_lt (by omega)]
          omega
      | some fault => exact le_rfl

end BoltStream.Storage.PartitionLog

namespace BoltStream.Broker

open BoltStream.Lib BoltStream.Protocol BoltStream.Storage

namespace ProduceResult

/-- Two answers of one partition, the first one given before the second. -/
def Precedes (before after : ProduceResult) : Prop :=
  before.ok = true → after.ok = true → before.response.offset < after.response.offset

def Below (result : ProduceResult) (nextOffset : ℕ) : Prop :=
  result.ok = true → result.response.offset < nextOffset

theorem Below.mono {result : ProduceResult} {m n : ℕ} (h : result.Below m) (hle : m ≤ n) :
    result.Below n := fun hok ↦ (h hok).trans_le hle

end ProduceResult

/-- The answers of one batch of jobs: they are told offsets in order, from the next
offset of the log on. -/
theorem offsets_runAppendBatch {log : PartitionLog} {jobs : List ProduceRequest}
    (hroom : log.nextOffset + jobs.length < 2 ^ 64) (clock : AppendClock)
    (fault : Option AppendFault) (env : RetentionEnv) (policy : RetentionPolicy) :
    log.nextOffset ≤ (runAppendBatch log clock fault env policy jobs).log.nextOffset ∧
      (runAppendBatch log clock fault env policy jobs).results.Pairwise ProduceResult.Precedes ∧
      ∀ result ∈ (runAppendBatch log clock fault env policy jobs).results, result.ok = true →
        log.nextOffset ≤ result.response.offset ∧ result.response.offset <
          (runAppendBatch log clock fault env policy jobs).log.nextOffset := by
  have hfailed : ∀ (message : String) (results : List ProduceResult),
      (results.map (failed message)).Pairwise ProduceResult.Precedes ∧
        ∀ result ∈ results.map (failed message), result.ok = false := by
    intro message results
    have hall : ∀ result ∈ results.map (failed message), result.ok = false := by
      intro result hresult
      obtain ⟨answer, -, rfl⟩ := List.mem_map.mp hresult
      rfl
    refine ⟨List.pairwise_of_forall_mem_list fun a ha b _ hok ↦ ?_, hall⟩
    rw [hall a ha] at hok
    cases hok
  unfold runAppendBatch
  cases happend : log.appendBatch clock fault (jobs.map appendRecord) with
  | mk appended result =>
      have hoffsets := PartitionLog.offsets_appendBatch (by rwa [List.length_map]) happend
      rw [List.length_map] at hoffsets
      rcases hoffsets with ⟨⟨message, rfl⟩, hnext⟩ | ⟨metas, rfl, hmetas, hnext⟩
      · obtain ⟨hpairwise, hall⟩ := hfailed message (List.replicate jobs.length {})
        refine ⟨hnext.ge, hpairwise, fun result hresult hok ↦ ?_⟩
        rw [hall result hresult] at hok
        cases hok
      · have hlength : metas.length = jobs.length := by
          rw [← List.length_map, hmetas, List.length_range']
        have hkept := appended.nextOffset_applyRetention env policy
        dsimp only
        rw [hlength, Nat.sub_self, List.replicate_zero, List.append_nil]
        cases hretention : appended.applyRetention env policy with
        | mk kept result =>
            rw [hretention, hnext] at hkept
            dsimp only at hkept
            cases result with
            | error message =>
                obtain ⟨hpairwise, hall⟩ := hfailed message (metas.map produced)
                refine ⟨?_, hpairwise, fun result hresult hok ↦ ?_⟩
                · exact (Nat.le_add_right _ _).trans hkept.ge
                · rw [hall result hresult] at hok
                  cases hok
            | ok stats =>
                refine ⟨(Nat.le_add_right _ _).trans hkept.ge, ?_, fun result hresult _ ↦ ?_⟩
                · have hsorted : (metas.map RecordMetadata.offset).Pairwise (· < ·) := by
                    rw [hmetas]
                    exact List.pairwise_lt_range'
                  rw [List.pairwise_map] at hsorted
                  exact List.pairwise_map.mpr (hsorted.imp fun hlt _ _ ↦ hlt)
                · obtain ⟨metadata, hmem, rfl⟩ := List.mem_map.mp hresult
                  have hin := List.mem_map_of_mem (f := RecordMetadata.offset) hmem
                  rw [hmetas, List.mem_range'_1] at hin
                  exact ⟨hin.1, hin.2.trans_eq hkept.symm⟩

namespace QueueState

variable {P W : Type*} {config : QueueConfig} {s t : QueueState P W} {p : P}

/-- The offsets told by the partitions grow in the order of the answers.  A worker that
has run its batch and not yet posted the results is the next to answer. -/
structure OffsetsInOrder (s : QueueState P W) : Prop where
  completed : ∀ p, (s.partitions p).completed.Pairwise fun a b ↦ a.2.Precedes b.2
  below : ∀ p, ∀ done ∈ (s.partitions p).completed, done.2.Below (s.log p).nextOffset
  ran : ∀ w p jobs results, s.workers w = .handling p (.ran jobs results) →
    results.Pairwise ProduceResult.Precedes ∧
      (∀ result ∈ results, result.Below (s.log p).nextOffset) ∧
      ∀ done ∈ (s.partitions p).completed, ∀ result ∈ results, done.2.Precedes result

/-- Nobody has been told an offset of the partition, and nobody is about to. -/
def Untold (s : QueueState P W) (p : P) : Prop :=
  (s.partitions p).completed = [] ∧ ∀ w phase, s.workers w ≠ .handling p phase

/-- No answer is given and no log loses offsets it has told. -/
theorem OffsetsInOrder.keep (h : s.OffsetsInOrder)
    (hcompleted : ∀ p, (t.partitions p).completed = (s.partitions p).completed)
    (hworkers : ∀ w p jobs results, t.workers w = .handling p (.ran jobs results) →
      s.workers w = .handling p (.ran jobs results))
    (hnext : ∀ p, (s.log p).nextOffset ≤ (t.log p).nextOffset ∨ s.Untold p) :
    t.OffsetsInOrder := by
  refine ⟨fun p ↦ ?_, fun p done hdone ↦ ?_, fun w p jobs results hworker ↦ ?_⟩
  · rw [hcompleted p]
    exact h.completed p
  · rw [hcompleted p] at hdone
    rcases hnext p with hle | ⟨hnil, -⟩
    · exact (h.below p done hdone).mono hle
    · rw [hnil] at hdone
      cases hdone
  · have hran := hworkers w p jobs results hworker
    obtain ⟨hpairwise, hbelow, hafter⟩ := h.ran w p jobs results hran
    rcases hnext p with hle | ⟨-, hfree⟩
    · exact ⟨hpairwise, fun result hresult ↦ (hbelow result hresult).mono hle,
        hcompleted p ▸ hafter⟩
    · exact absurd hran (hfree w _)

theorem offsetsInOrder_initial (logs : P → PartitionLog) :
    (initial logs : QueueState P W).OffsetsInOrder := by
  refine ⟨fun _ ↦ List.Pairwise.nil, fun p done hdone ↦ ?_, fun w p jobs results hworker ↦ ?_⟩
  · cases hdone
  · cases hworker

variable [DecidableEq P]

/-- The answers to jobs of a partition that no worker is about to answer. -/
theorem OffsetsInOrder.answer (h : s.OffsetsInOrder) {partition : PartitionState}
    {answers : List (AppendJob × ProduceResult)}
    (hpartitions : t.partitions = Function.update s.partitions p partition)
    (hcompleted : partition.completed = (s.partitions p).completed ++ answers)
    (hworkers : ∀ w q jobs results, t.workers w = .handling q (.ran jobs results) →
      s.workers w = .handling q (.ran jobs results) ∧ q ≠ p)
    (hnext : (s.log p).nextOffset ≤ partition.log.nextOffset)
    (hpairwise : answers.Pairwise fun a b ↦ a.2.Precedes b.2)
    (hbelow : ∀ done ∈ answers, done.2.Below partition.log.nextOffset)
    (hafter : ∀ done ∈ (s.partitions p).completed, ∀ answer ∈ answers,
      done.2.Precedes answer.2) : t.OffsetsInOrder := by
  have hself : t.partitions p = partition := by rw [hpartitions, Function.update_self]
  have hother : ∀ q, q ≠ p → t.partitions q = s.partitions q := by
    intro q hq
    rw [hpartitions, Function.update_of_ne hq]
  refine ⟨fun q ↦ ?_, fun q done hdone ↦ ?_, fun w q jobs results hworker ↦ ?_⟩
  · by_cases hq : q = p
    · rw [hq, hself, hcompleted, List.pairwise_append]
      exact ⟨h.completed p, hpairwise, hafter⟩
    · rw [hother q hq]
      exact h.completed q
  · by_cases hq : q = p
    · subst hq
      rw [hself, hcompleted, List.mem_append] at hdone
      rw [log, hself]
      rcases hdone with hdone | hdone
      · exact (h.below q done hdone).mono hnext
      · exact hbelow done hdone
    · rw [hother q hq] at hdone
      rw [log, hother q hq]
      exact h.below q done hdone
  · obtain ⟨hworker', hq⟩ := hworkers w q jobs results hworker
    rw [log, hother q hq]
    exact h.ran w q jobs results hworker'

/-- One partition changes, and gives no answer. -/
theorem OffsetsInOrder.keepAt (h : s.OffsetsInOrder) {partition : PartitionState}
    (hpartitions : t.partitions = Function.update s.partitions p partition)
    (hcompleted : partition.completed = (s.partitions p).completed)
    (hnext : (s.log p).nextOffset ≤ partition.log.nextOffset)
    (hworkers : ∀ w q jobs results, t.workers w = .handling q (.ran jobs results) →
      s.workers w = .handling q (.ran jobs results)) : t.OffsetsInOrder := by
  refine h.keep (fun q ↦ ?_) hworkers fun q ↦ Or.inl ?_
  · rw [hpartitions]
    by_cases hq : q = p
    · rw [hq, Function.update_self, hcompleted]
    · rw [Function.update_of_ne hq]
  · rw [log, log, hpartitions]
    by_cases hq : q = p
    · rw [hq, Function.update_self]
      exact hnext
    · rw [Function.update_of_ne hq]

variable [DecidableEq W] {w : W} {env : AppendEnv}

/-- Workers accept no jobs. -/
theorem accepted_workerStep (hstep : s.workerStep config w env = some t) (p : P) :
    (t.partitions p).accepted = (s.partitions p).accepted := by
  have hupdate : ∀ {q : P} {partition : PartitionState} {worker : Worker P},
      some ((s.setPartition q partition).setWorker w worker) = some t →
      partition.accepted = (s.partitions q).accepted →
        (t.partitions p).accepted = (s.partitions p).accepted := by
    intro q partition worker ht hsame
    obtain rfl := Option.some.inj ht
    change (Function.update s.partitions q partition p).accepted = _
    by_cases hp : p = q
    · rw [hp, Function.update_self, hsame]
    · rw [Function.update_of_ne hp]
  unfold workerStep at hstep
  cases hworker : s.workers w with
  | waiting =>
      rw [hworker] at hstep
      cases hready : s.readyAppends with
      | nil =>
          simp only [hready] at hstep
          split_ifs at hstep
          obtain rfl := Option.some.inj hstep
          rfl
      | cons ready rest =>
          simp only [hready] at hstep
          obtain rfl := Option.some.inj hstep
          rfl
  | handling q phase =>
      cases phase with
      | popped job =>
          simp only [hworker] at hstep
          exact hupdate hstep rfl
      | batched jobs =>
          simp only [hworker] at hstep
          exact hupdate hstep rfl
      | ran jobs results =>
          simp only [hworker] at hstep
          exact hupdate hstep rfl
      | posted =>
          simp only [hworker] at hstep
          cases hpending : (s.partitions q).pendingAppends with
          | nil =>
              simp only [hpending] at hstep
              exact hupdate hstep rfl
          | cons next rest =>
              simp only [hpending] at hstep
              exact hupdate hstep rfl
      | handing next =>
          simp only [hworker] at hstep
          obtain rfl := Option.some.inj hstep
          rfl
  | exited =>
      rw [hworker] at hstep
      cases hstep

/-- What `try_enqueue_append` has accepted afterwards. -/
theorem accepted_tryEnqueueAppend {job : AppendJob}
    (hstep : s.step config (.tryEnqueueAppend p job) = some t) (q : P) :
    (t.partitions q).accepted = (s.partitions q).accepted ++
      if q = p ∧ (Broker.tryEnqueueAppend config (s.partitions p) job).2.1.accepted = true
      then [job] else [] := by
  have haccepted : (Broker.tryEnqueueAppend config (s.partitions p) job).1.accepted =
      (s.partitions p).accepted ++
        if (Broker.tryEnqueueAppend config (s.partitions p) job).2.1.accepted = true
        then [job] else [] := by
    rw [Broker.tryEnqueueAppend]
    split_ifs <;> simp_all
  have hupdate : t.partitions = Function.update s.partitions p
      (Broker.tryEnqueueAppend config (s.partitions p) job).1 := by
    rw [step] at hstep
    split_ifs at hstep
    dsimp only at hstep
    split at hstep
    · obtain rfl := Option.some.inj hstep
      rfl
    · obtain rfl := Option.some.inj hstep
      rfl
  rw [hupdate]
  by_cases hq : q = p
  · subst hq
    rw [Function.update_self, haccepted]
    simp only [true_and]
  · rw [Function.update_of_ne hq, if_neg fun h ↦ hq h.1, List.append_nil]

omit [DecidableEq P] in
/-- A worker that goes on without results leaves the others where they are. -/
theorem ran_of_update {worker : Worker P}
    (hworkers : t.workers = Function.update s.workers w worker)
    (hworker : ∀ p jobs results, worker ≠ .handling p (.ran jobs results)) {v : W} {p : P}
    {jobs : List AppendJob} {results : List ProduceResult}
    (h : t.workers v = .handling p (.ran jobs results)) :
    v ≠ w ∧ s.workers v = .handling p (.ran jobs results) := by
  rw [hworkers] at h
  by_cases hv : v = w
  · rw [hv, Function.update_self] at h
    exact absurd h (hworker p jobs results)
  · rw [Function.update_of_ne hv] at h
    exact ⟨hv, h⟩

/-- A worker runs a batch on the log of its partition. -/
theorem OffsetsInOrder.runBatch (h : s.OffsetsInOrder) {partition : PartitionState}
    {jobs : List AppendJob} {results : List ProduceResult}
    (hpartitions : t.partitions = Function.update s.partitions p partition)
    (hcompleted : partition.completed = (s.partitions p).completed)
    (hnext : (s.log p).nextOffset ≤ partition.log.nextOffset)
    (hworkers : t.workers = Function.update s.workers w (.handling p (.ran jobs results)))
    (hpairwise : results.Pairwise ProduceResult.Precedes)
    (hresults : ∀ result ∈ results, result.ok = true →
      (s.log p).nextOffset ≤ result.response.offset ∧
        result.response.offset < partition.log.nextOffset) : t.OffsetsInOrder := by
  -- The log before the worker moves on.
  have hlog : ({ s with partitions := t.partitions } : QueueState P W).OffsetsInOrder :=
    h.keepAt hpartitions hcompleted hnext fun _ _ _ _ ↦ id
  refine ⟨hlog.completed, hlog.below, fun v q jobs' results' hran ↦ ?_⟩
  rw [hworkers] at hran
  by_cases hv : v = w
  · rw [hv, Function.update_self] at hran
    cases hran
    rw [log, hpartitions, Function.update_self, hcompleted]
    refine ⟨hpairwise, fun result hresult hok ↦ (hresults result hresult hok).2,
      fun done hdone result hresult hok hok' ↦ ?_⟩
    exact (h.below p done hdone hok).trans_le (hresults result hresult hok').1
  · rw [Function.update_of_ne hv] at hran
    exact hlog.ran v q jobs' results' hran

/-- The log of the batch that a worker is going to run has room for it. -/
def WorkHasRoom (s : QueueState P W) (w : W) : Prop :=
  ∀ p jobs, s.workers w = .handling p (.batched jobs) →
    (s.log p).nextOffset + jobs.length < 2 ^ 64

variable [Fintype W]

/-- One step of a worker. -/
theorem OffsetsInOrder.work (h : s.OffsetsInOrder) (hqueue : QueueInv config s)
    (hroom : s.WorkHasRoom w) (hstep : s.workerStep config w env = some t) :
    t.OffsetsInOrder := by
  unfold workerStep at hstep
  cases hworker : s.workers w with
  | waiting =>
      rw [hworker] at hstep
      cases hready : s.readyAppends with
      | nil =>
          simp only [hready] at hstep
          split_ifs at hstep
          obtain rfl := Option.some.inj hstep
          exact h.keep (fun _ ↦ rfl)
            (fun _ _ _ _ hran ↦ (ran_of_update rfl (by simp) hran).2) fun _ ↦ Or.inl le_rfl
      | cons ready rest =>
          simp only [hready] at hstep
          obtain rfl := Option.some.inj hstep
          exact h.keep (fun _ ↦ rfl)
            (fun _ _ _ _ hran ↦ (ran_of_update rfl (by simp) hran).2) fun _ ↦ Or.inl le_rfl
  | handling q phase =>
      -- Nobody else handles the partition of this worker.
      have halone : ∀ v p jobs results, v ≠ w →
          s.workers v = .handling p (.ran jobs results) → p ≠ q := by
        rintro v p jobs results hv hran rfl
        exact hv (hqueue.exclusive hran hworker)
      cases phase with
      | popped job =>
          simp only [hworker] at hstep
          obtain rfl := Option.some.inj hstep
          exact h.keepAt rfl rfl le_rfl fun _ _ _ _ hran ↦
            (ran_of_update rfl (by simp) hran).2
      | batched jobs =>
          simp only [hworker] at hstep
          obtain rfl := Option.some.inj hstep
          have hfits := hroom q jobs hworker
          rw [← List.length_map (f := AppendJob.request)] at hfits
          obtain ⟨hle, hpairwise, hresults⟩ :=
            offsets_runAppendBatch hfits env.clock env.fault env.retention config.retentionPolicy
          exact h.runBatch rfl rfl hle rfl hpairwise hresults
      | ran jobs results =>
          simp only [hworker] at hstep
          obtain rfl := Option.some.inj hstep
          obtain ⟨hpairwise, hbelow, hafter⟩ := h.ran w q jobs results hworker
          have hanswers : ∀ done ∈ jobs.zip results, done.2 ∈ results :=
            fun done hdone ↦ (List.of_mem_zip hdone).2
          refine h.answer rfl rfl (fun v p jobs results hran ↦ ?_) le_rfl ?_
            (fun done hdone ↦ hbelow _ (hanswers done hdone))
            fun done hdone answer hanswer ↦ hafter done hdone _ (hanswers answer hanswer)
          · obtain ⟨hv, hran⟩ := ran_of_update rfl (by simp) hran
            exact ⟨hran, halone v p jobs results hv hran⟩
          · have hlength := (hqueue.accounts _ (mem_tokens hworker)).2.2.1
            rw [← List.map_snd_zip hlength.le, List.pairwise_map] at hpairwise
            exact hpairwise
      | posted =>
          simp only [hworker] at hstep
          cases hpending : (s.partitions q).pendingAppends with
          | nil =>
              simp only [hpending] at hstep
              obtain rfl := Option.some.inj hstep
              exact h.keepAt rfl rfl le_rfl fun _ _ _ _ hran ↦
                (ran_of_update rfl (by simp) hran).2
          | cons next rest =>
              simp only [hpending] at hstep
              obtain rfl := Option.some.inj hstep
              exact h.keepAt rfl rfl le_rfl fun _ _ _ _ hran ↦
                (ran_of_update rfl (by simp) hran).2
      | handing next =>
          simp only [hworker] at hstep
          obtain rfl := Option.some.inj hstep
          exact h.keep (fun _ ↦ rfl)
            (fun _ _ _ _ hran ↦ (ran_of_update rfl (by simp) hran).2) fun _ ↦ Or.inl le_rfl
  | exited =>
      rw [hworker] at hstep
      cases hstep

omit [Fintype W] in
/-- Accepting a job. -/
theorem OffsetsInOrder.enqueue (h : s.OffsetsInOrder) {job : AppendJob}
    (hstep : s.step config (.tryEnqueueAppend p job) = some t) : t.OffsetsInOrder := by
  rw [step] at hstep
  split_ifs at hstep
  have hcompleted : (Broker.tryEnqueueAppend config (s.partitions p) job).1.completed =
      (s.partitions p).completed := by
    rw [Broker.tryEnqueueAppend]
    split_ifs <;> rfl
  have hlog : (Broker.tryEnqueueAppend config (s.partitions p) job).1.log = s.log p := by
    rw [Broker.tryEnqueueAppend]
    split_ifs <;> rfl
  dsimp only at hstep
  split at hstep
  · obtain rfl := Option.some.inj hstep
    exact h.keepAt rfl hcompleted (by rw [hlog]) fun _ _ _ _ ↦ id
  · obtain rfl := Option.some.inj hstep
    exact h.keepAt rfl hcompleted (by rw [hlog]) fun _ _ _ _ ↦ id

omit [Fintype W] in
theorem OffsetsInOrder.schedule (h : s.OffsetsInOrder) {client : ℕ}
    (hstep : s.step config (.scheduleAppend client) = some t) : t.OffsetsInOrder := by
  obtain ⟨ready, -, rfl⟩ := Option.map_eq_some_iff.mp hstep
  exact h.keep (fun _ ↦ rfl) (fun _ _ _ _ ↦ id) fun _ ↦ Or.inl le_rfl

end QueueState

end BoltStream.Broker
