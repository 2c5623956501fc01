import BoltStream.Broker.AppendBatch
import BoltStream.Storage.RetentionBudget

/-!
# Retention behind appends

A batch of jobs is followed by a retention pass, and an encoded batch is not.  So the
jobs are answered with success within the byte budget, and the encoded batch if it
happens to fit.
-/

namespace BoltStream.Broker

open BoltStream.Lib BoltStream.Protocol BoltStream.Compression BoltStream.Storage PartitionLog

section Formed

variable {Z : Zstd} {log log' : PartitionLog}

theorem formed_runAppendBatch (h : log.Formed) (clock : AppendClock)
    (fault : Option AppendFault) (env : RetentionEnv) (policy : RetentionPolicy)
    (jobs : List ProduceRequest) : (runAppendBatch log clock fault env policy jobs).log.Formed := by
  unfold runAppendBatch
  cases happend : log.appendBatch clock fault (jobs.map appendRecord) with
  | mk appended result =>
      have hformed := h.appendBatch happend
      cases result with
      | error message => exact hformed
      | ok metas =>
          dsimp only
          cases hretention : appended.applyRetention env policy with
          | mk kept result =>
              have hkept := hformed.applyRetention hretention
              cases result with
              | error message => exact hkept
              | ok stats => exact hkept

theorem formed_step (h : log.Formed) {event : PartitionEvent}
    (hstep : event.step Z log = some log') : log'.Formed := by
  cases event with
  | appendJobs clock fault env policy jobs =>
      obtain rfl := Option.some.inj hstep
      exact formed_runAppendBatch h clock fault env policy jobs
  | produceBatch codec encodedRecords uncompressedBytes decodedRecords timestamp fault =>
      obtain rfl := Option.some.inj hstep
      exact h.appendEncodedBatch rfl
  | runRetention env policy =>
      obtain rfl := Option.some.inj hstep
      exact h.applyRetention rfl
  | restart =>
      rw [PartitionEvent.step] at hstep
      cases hopen : PartitionLog.openLog Z log.options log.dir with
      | error message =>
          rw [hopen] at hstep
          cases hstep
      | ok opened =>
          rw [hopen] at hstep
          obtain rfl := Option.some.inj hstep
          exact h.openLog hopen

/-- Every state of a partition, whichever calls have failed. -/
theorem formed_run {options : PartitionLogOptions} {log₀ : PartitionLog}
    (hopened : openLog Z options {} = .ok log₀) {events : List PartitionEvent}
    (hrun : run (PartitionEvent.step Z) log₀ events = some log) : log.Formed := by
  refine run_invariant (fun _ _ ↦ True) PartitionLog.Formed (fun _ _ _ _ hstep h ↦
    formed_step h hstep) (along_of_forall (fun _ _ _ ↦ trivial) _) hrun ?_
  exact (@listed_openLog Z options {} log₀ List.Pairwise.nil List.Pairwise.nil (by simp)
    hopened).formed

/-- A job is answered with success behind an append and a pass that succeeded. -/
theorem applyRetention_of_success {clock : AppendClock} {fault : Option AppendFault}
    {env : RetentionEnv} {policy : RetentionPolicy} {jobs : List ProduceRequest}
    {result : ProduceResult}
    (hresult : result ∈ (runAppendBatch log clock fault env policy jobs).results)
    (hok : result.ok = true) :
    ∃ appended metas stats,
      log.appendBatch clock fault (jobs.map appendRecord) = (appended, .ok metas) ∧
      appended.applyRetention env policy =
        ((runAppendBatch log clock fault env policy jobs).log, .ok stats) := by
  unfold runAppendBatch at hresult ⊢
  cases happend : log.appendBatch clock fault (jobs.map appendRecord) with
  | mk appended result' =>
      rw [happend] at hresult
      cases result' with
      | error message =>
          obtain ⟨blank, -, rfl⟩ := List.mem_map.mp hresult
          cases hok
      | ok metas =>
          dsimp only at hresult ⊢
          cases hretention : appended.applyRetention env policy with
          | mk kept result'' =>
              rw [hretention] at hresult
              cases result'' with
              | error message =>
                  obtain ⟨blank, -, rfl⟩ := List.mem_map.mp hresult
                  cases hok
              | ok stats => exact ⟨appended, metas, stats, rfl, hretention⟩

end Formed

/-! ## Answers -/

/-- A request to append to a partition, with what happens while it is handled. -/
inductive AppendCall where
  | jobs (clock : AppendClock) (fault : Option AppendFault) (env : RetentionEnv)
      (jobs : List ProduceRequest)
  | encodedBatch (codec : Codec) (encodedRecords : Bytes) (uncompressedBytes : UInt32)
      (decodedRecords : List AppendRecord) (timestamp : UInt64) (fault : Option AppendFault)

namespace AppendCall

/-- The log behind a call under a retention policy, and whether a request of it is
answered with success. -/
def answer (Z : Zstd) (policy : RetentionPolicy) (log : PartitionLog) :
    AppendCall → PartitionLog × Bool
  | jobs clock fault env requests =>
      let outcome := runAppendBatch log clock fault env policy requests
      (outcome.log, outcome.results.any ProduceResult.ok)
  | encodedBatch codec encodedRecords uncompressedBytes decodedRecords timestamp fault =>
      let appended := PartitionLog.appendEncodedBatch Z log codec encodedRecords
        uncompressedBytes decodedRecords timestamp fault
      (appended.1, appended.2.toBool)

/-- Jobs are always followed by a pass.  A batch has to fit without one. -/
def Fits (log : PartitionLog) (maxBytes : ℕ) : AppendCall → Prop
  | jobs _ _ _ _ => True
  | encodedBatch _ encodedRecords _ _ _ _ => log.BatchFits maxBytes encodedRecords.length

end AppendCall

/-- In every state of a partition, and for every request to append that is answered with
success: the segments are within the budget behind it exactly when it is a batch of
jobs, or an encoded batch that fits. -/
theorem withinBudget_iff_fits (Z : Zstd) (options : PartitionLogOptions) (log₀ : PartitionLog)
    (hopened : openLog Z options {} = .ok log₀) (events : List PartitionEvent)
    (log : PartitionLog) (hrun : run (PartitionEvent.step Z) log₀ events = some log)
    (policy : RetentionPolicy) (hmax : 0 < policy.maxBytes) (call : AppendCall)
    (log' : PartitionLog) (hanswer : call.answer Z policy log = (log', true)) :
    log'.WithinBudget policy.maxBytes ↔ call.Fits log policy.maxBytes := by
  have hformed := formed_run hopened hrun
  cases call with
  | jobs clock fault env requests =>
      obtain ⟨rfl, hany⟩ := Prod.mk.inj hanswer
      obtain ⟨result, hresult, hok⟩ := List.any_eq_true.mp hany
      obtain ⟨appended, metas, stats, happend, hretention⟩ :=
        applyRetention_of_success hresult hok
      exact iff_of_true ((hformed.appendBatch happend).withinBudget hmax hretention) trivial
  | encodedBatch codec encodedRecords uncompressedBytes decodedRecords timestamp fault =>
      rw [AppendCall.answer] at hanswer
      cases happend : PartitionLog.appendEncodedBatch Z log codec encodedRecords uncompressedBytes
          decodedRecords timestamp fault with
      | mk appended result =>
          rw [happend] at hanswer
          obtain ⟨rfl, hok⟩ := Prod.mk.inj hanswer
          cases result with
          | error message => cases hok
          | ok metadata =>
              cases fault with
              | none => exact hformed.withinBudget_iff happend policy.maxBytes
              | some fault =>
                  unfold PartitionLog.appendEncodedBatch at happend
                  split at happend <;> cases (Prod.mk.inj happend).2

/-- A batch of one record, 58 bytes in the log. -/
def smallBatch : AppendCall :=
  .encodedBatch .none (encodeRecordSet [⟨[97], [98]⟩]) 14 [⟨[97], [98]⟩] 7 none

/-- The same batch before. -/
def earlierBatch : PartitionEvent :=
  .produceBatch .none (encodeRecordSet [⟨[97], [98]⟩]) 14 [⟨[97], [98]⟩] 7 none

/-- Two jobs behind the batch leave the active segment only. -/
theorem withinBudget_twoJobs :
    ∃ log log', run (PartitionEvent.step noZstd) (emptyLog smallSegments) [earlierBatch] =
        some log ∧
      (AppendCall.jobs stillClock none noAges twoJobs).answer noZstd ⟨0, 1⟩ log = (log', true) ∧
      log.dir.logs.totalBytes = 58 ∧ log'.WithinBudget 1 := by
  have hends : (run (PartitionEvent.step noZstd) (emptyLog smallSegments) [earlierBatch]).map
      (fun log ↦ decide (((AppendCall.jobs stillClock none noAges twoJobs).answer noZstd ⟨0, 1⟩
        log).2 = true ∧ log.dir.logs.totalBytes = 58)) = some true := by decide
  obtain ⟨log, hrun, hends⟩ := Option.map_eq_some_iff.mp hends
  obtain ⟨hok, hbytes⟩ := of_decide_eq_true hends
  refine ⟨log, _, hrun, Prod.ext rfl hok, hbytes, ?_⟩
  exact (withinBudget_iff_fits noZstd smallSegments _ (openLog_empty ⟨by decide, by decide⟩ noZstd)
    [earlierBatch] log hrun ⟨0, 1⟩ (by decide) (.jobs stillClock none noAges twoJobs) _
    (Prod.ext rfl hok)).mpr trivial

/-- A second batch is answered with success and leaves two segments over the budget. -/
theorem batch_exceeds_budget :
    openLog noZstd smallSegments {} = .ok (emptyLog smallSegments) ∧
    ∃ log log', run (PartitionEvent.step noZstd) (emptyLog smallSegments) [earlierBatch] =
        some log ∧
      smallBatch.answer noZstd ⟨0, 60⟩ log = (log', true) ∧ ¬ log'.WithinBudget 60 := by
  have hends : (run (PartitionEvent.step noZstd) (emptyLog smallSegments) [earlierBatch]).map
      (fun log ↦ decide ((smallBatch.answer noZstd ⟨0, 60⟩ log).2 = true ∧
        (smallBatch.answer noZstd ⟨0, 60⟩ log).1.dir.logs.totalBytes = 116 ∧
        (smallBatch.answer noZstd ⟨0, 60⟩ log).1.dir.logs.map Prod.fst = [0, 1])) = some true := by
    decide
  obtain ⟨log, hrun, hends⟩ := Option.map_eq_some_iff.mp hends
  obtain ⟨hok, hbytes, hnames⟩ := of_decide_eq_true hends
  refine ⟨openLog_empty ⟨by decide, by decide⟩ noZstd, log, _, hrun, Prod.ext rfl hok, ?_⟩
  rintro (hfits | hactive)
  · rw [hbytes] at hfits
    exact absurd hfits (by norm_num)
  · have hall : ∀ name ∈ (smallBatch.answer noZstd ⟨0, 60⟩ log).1.dir.logs.map Prod.fst,
        name = (smallBatch.answer noZstd ⟨0, 60⟩ log).1.activeSegmentBase := by
      intro name hname
      obtain ⟨file, hfile, rfl⟩ := List.mem_map.mp hname
      exact hactive file hfile
    rw [hnames] at hall
    have hzero := hall 0 (by decide)
    have hone := hall 1 (by decide)
    omega

end BoltStream.Broker
