import BoltStream.Broker.Deliverable
import BoltStream.Broker.FetchWalk
import BoltStream.Lib.Runs
import BoltStream.Storage.NewestIndexed

/-!
# Waking long polls

A fetch that finds nothing and the registration of its waiter are two sections
under different mutexes, and so are an append and the notification that follows
it.  A waiter is woken by the next notification after its registration; when the
append and its notification both fall between the two sections of a session, the
session waits for records that are already there.
-/

namespace BoltStream.Broker

open BoltStream.Lib BoltStream.Protocol BoltStream.Compression BoltStream.Storage

structure WaiterKey where
  topic : Bytes
  partition : ℕ
  deriving DecidableEq, Repr

/-- A waiter, with the offset that its callback fetches from. -/
structure FetchWaiter where
  id : ℕ
  key : WaiterKey
  offset : ℕ
  deriving DecidableEq, Repr

/-- A call of `notify_fetch_waiters` that is still to come.  `produce_batch` makes
it with the log mutex held. -/
structure Notification where
  key : WaiterKey
  holdsLog : Bool
  deriving DecidableEq, Repr

/-- How far a session is with a fetch. -/
inductive PollPhase where
  | idle
  /-- Nothing was found behind the offset, and no waiter is registered yet. -/
  | found (key : WaiterKey) (offset : ℕ)
  | waiting (waiterId : ℕ)
  deriving DecidableEq, Repr

structure PollConfig where
  server : ServerConfig
  maxFetchWaitMs : UInt32
  maxLongPollWaiters : UInt32
  retentionPolicy : RetentionPolicy

structure PollState (S : Type*) where
  logs : WaiterKey → Option PartitionLog
  sessions : S → PollPhase
  waiters : List FetchWaiter
  nextWaiterId : ℕ
  activeLongPollWaiters : ℕ
  notifying : List Notification

inductive PollEvent (S : Type*) where
  /-- The plain path of `fetch_or_wait` of a session; a forwarded batch does not
  wait. -/
  | fetch (session : S) (offsets : OffsetStore) (request : FetchRequest)
  | registerFetchWaiter (session : S)
  /-- The section of `run_append_batch` under the log mutex. -/
  | runAppendBatch (key : WaiterKey) (clock : AppendClock) (fault : Option AppendFault)
      (env : RetentionEnv) (job : ProduceRequest) (jobs : List ProduceRequest)
  | produceBatch (key : WaiterKey) (codec : Codec) (encodedRecords : Bytes)
      (uncompressedBytes : UInt32) (decodedRecords : List AppendRecord) (timestamp : UInt64)
      (fault : Option AppendFault)
  | runRetention (key : WaiterKey) (env : RetentionEnv)
  | notifyFetchWaiters (call : ℕ)
  /-- The callback of a waiter that was taken out runs on the session's strand. -/
  | callback (session : S)
  /-- The timer of the long poll expires. -/
  | timeout (session : S)

/-- The fetch of a session that would rather wait. -/
def waitsForRecords (config : PollConfig) (request : FetchRequest) (response : FetchResponse) :
    Bool :=
  decide (response.records = [] ∧ min request.maxWaitMs config.maxFetchWaitMs.toNat > 0 ∧
    response.fromOffset = response.nextOffset)

namespace PollState

section Model

variable {S : Type*} [DecidableEq S]

def setSession (s : PollState S) (session : S) (phase : PollPhase) : PollState S :=
  { s with sessions := Function.update s.sessions session phase }

/-- A call in the middle of `produce_batch` holds the log mutex. -/
def logHeld (s : PollState S) (key : WaiterKey) : Bool :=
  s.notifying.any fun call ↦ call.holdsLog && call.key = key

def setLog (s : PollState S) (key : WaiterKey) (log : PartitionLog) : PollState S :=
  { s with logs := Function.update s.logs key (some log) }

/-- Remove waiters and count them as gone. -/
def dropWaiters (s : PollState S) (gone : FetchWaiter → Bool) : PollState S :=
  { s with
      waiters := s.waiters.filter fun waiter ↦ !gone waiter
      activeLongPollWaiters := s.activeLongPollWaiters -
        min (s.waiters.countP gone) s.activeLongPollWaiters }

def cancelFetchWaiter (s : PollState S) (waiterId : ℕ) : PollState S :=
  s.dropWaiters fun waiter ↦ waiter.id = waiterId

def notifyFetchWaiters (s : PollState S) (key : WaiterKey) : PollState S :=
  s.dropWaiters fun waiter ↦ waiter.key = key

def registerFetchWaiter (config : PollConfig) (s : PollState S) (session : S) (key : WaiterKey)
    (offset : ℕ) : PollState S :=
  if s.activeLongPollWaiters ≥ config.maxLongPollWaiters.toNat then s.setSession session .idle
  else
    { s with
        sessions := Function.update s.sessions session (.waiting s.nextWaiterId)
        waiters := s.waiters ++ [⟨s.nextWaiterId, key, offset⟩]
        nextWaiterId := (s.nextWaiterId + 1) % 2 ^ 64
        activeLongPollWaiters := s.activeLongPollWaiters + 1 }

/-- A fetch of a session that is not waiting. -/
def fetchOrWait (Z : Zstd) (config : PollConfig) (s : PollState S) (session : S)
    (offsets : OffsetStore) (request : FetchRequest) : PollState S :=
  match s.logs ⟨request.topic, request.partition⟩ with
  | none => s
  | some log =>
      match Broker.fetch Z config.server.limits offsets log request with
      | .error _ => s
      | .ok response =>
          if waitsForRecords config request response then
            s.setSession session (.found ⟨request.topic, request.partition⟩ response.fromOffset)
          else s

def step (Z : Zstd) (config : PollConfig) (s : PollState S) : PollEvent S → Option (PollState S)
  | .fetch session offsets request =>
      if s.logHeld ⟨request.topic, request.partition⟩ then none
      else
        match s.sessions session with
        | .idle => some (s.fetchOrWait Z config session offsets request)
        | _ => none
  | .registerFetchWaiter session =>
      match s.sessions session with
      | .found key offset => some (s.registerFetchWaiter config session key offset)
      | _ => none
  | .runAppendBatch key clock fault env job jobs =>
      if s.logHeld key then none
      else
        (s.logs key).map fun log ↦
          let outcome := Broker.runAppendBatch log clock fault env config.retentionPolicy
            (job :: jobs)
          { s.setLog key outcome.log with
              notifying := s.notifying ++
                (outcome.notified.map fun name ↦ ⟨⟨name.1, name.2⟩, false⟩).toList }
  | .produceBatch key codec encodedRecords uncompressedBytes decodedRecords timestamp fault =>
      if s.logHeld key then none
      else
        (s.logs key).map fun log ↦
          match PartitionLog.appendEncodedBatch Z log codec encodedRecords uncompressedBytes
              decodedRecords timestamp fault with
          | (log, .error _) => s.setLog key log
          | (log, .ok _) => { s.setLog key log with notifying := s.notifying ++ [⟨key, true⟩] }
  | .runRetention key env =>
      if s.logHeld key then none
      else (s.logs key).map fun log ↦ s.setLog key (log.applyRetention env config.retentionPolicy).1
  | .notifyFetchWaiters call =>
      s.notifying[call]?.map fun notification ↦
        { s.notifyFetchWaiters notification.key with notifying := s.notifying.eraseIdx call }
  | .callback session =>
      match s.sessions session with
      | .waiting waiterId =>
          if s.waiters.any fun waiter ↦ waiter.id = waiterId then none
          else some (s.setSession session .idle)
      | _ => none
  | .timeout session =>
      match s.sessions session with
      | .waiting waiterId => some ((s.cancelFetchWaiter waiterId).setSession session .idle)
      | _ => none

def initial (logs : WaiterKey → Option PartitionLog) : PollState S :=
  { logs := logs
    sessions := fun _ ↦ .idle
    waiters := []
    nextWaiterId := 1
    activeLongPollWaiters := 0
    notifying := [] }

end Model

/-! ## No lost wake-up -/

section Invariant

variable {S : Type*}

def NotificationPending (s : PollState S) (key : WaiterKey) : Prop :=
  ∃ call ∈ s.notifying, call.key = key

/-- The log has nothing behind the offset, or a notification is still to come. -/
def Covered (s : PollState S) (key : WaiterKey) (offset : ℕ) : Prop :=
  ∀ log, s.logs key = some log → log.nextOffset ≤ offset ∨ s.NotificationPending key

/-- No waiter is left asleep on records that are already there. -/
def NoLostWakeup (s : PollState S) : Prop :=
  ∀ waiter ∈ s.waiters, ¬ s.NotificationPending waiter.key →
    ∀ log, s.logs waiter.key = some log → log.nextOffset ≤ waiter.offset

/-- If the records are stored, the retention pass that follows does not fail. -/
def RetentionSucceeds (policy : RetentionPolicy) (log : PartitionLog) (clock : AppendClock)
    (fault : Option AppendFault) (env : RetentionEnv) (jobs : List ProduceRequest) : Prop :=
  ∀ appended metadata, log.appendBatch clock fault (jobs.map appendRecord) =
      (appended, .ok metadata) →
    ∃ stats, (appended.applyRetention env policy).2 = .ok stats

/-- A session waits on the partition, or is about to. -/
def Awaited (s : PollState S) (key : WaiterKey) : Prop :=
  (∃ waiter ∈ s.waiters, waiter.key = key) ∨
    ∃ session offset, s.sessions session = .found key offset

/-- No notification is made between the fetch of a session and its registration,
unless the session has seen all records; and an append to an awaited partition does
not fail in its retention pass. -/
def Timely (config : PollConfig) (s : PollState S) : PollEvent S → Prop
  | .notifyFetchWaiters call => ∀ notification, s.notifying[call]? = some notification →
      ∀ session offset, s.sessions session = .found notification.key offset →
        ∀ log, s.logs notification.key = some log → log.nextOffset ≤ offset
  | .runAppendBatch key clock fault env job jobs => s.Awaited key →
      ∀ log, s.logs key = some log →
        RetentionSucceeds config.retentionPolicy log clock fault env (job :: jobs)
  | _ => True

structure PollInvariant (s : PollState S) : Prop where
  logs : ∀ key log, s.logs key = some log → log.NewestIndexed ∧
    log.options.topic = key.topic ∧ log.options.partitionId = key.partition
  found : ∀ session key offset, s.sessions session = .found key offset → s.Covered key offset
  waiters : ∀ waiter ∈ s.waiters, s.Covered waiter.key waiter.offset

end Invariant

/-! ## What the sections do -/

theorem le_resolveFetchOffset {request : FetchRequest} {offsets : OffsetStore}
    {earliest next offset : ℕ}
    (h : resolveFetchOffset request offsets earliest next = .ok offset) :
    earliest ≤ offset ∨ offset = next := by
  have hrange : ∀ {position : ℕ} {below beyond : String},
      checkOffsetRange earliest next position below beyond = .ok offset →
      earliest ≤ offset := by
    intro position below beyond hcheck
    rw [checkOffsetRange] at hcheck
    split_ifs at hcheck with hbelow hbeyond
    rw [← Except.ok.inj hcheck]
    exact Nat.le_of_not_lt hbelow
  rw [resolveFetchOffset] at h
  split_ifs at h
  · exact Or.inl (Except.ok.inj h).le
  · exact Or.inr (Except.ok.inj h).symm
  · exact Or.inl (hrange h)
  · split at h
    · cases h
    · exact Or.inl (hrange h)

/-- A fetch finds nothing only behind all records. -/
theorem nextOffset_le_of_fetch {Z : Zstd} {limits : FetchLimits} {offsets : OffsetStore}
    {log : PartitionLog} {request : FetchRequest} {response : FetchResponse}
    (hlog : log.NewestIndexed) (hlimit : limits.maxFetchRecords ≠ 0)
    (h : Broker.fetch Z limits offsets log request = .ok response)
    (hempty : response.records = []) : log.nextOffset ≤ response.fromOffset := by
  have hmax : 0 < limits.maxFetchRecords.toNat :=
    Nat.pos_of_ne_zero fun hzero ↦ hlimit (UInt32.toNat.inj hzero)
  rw [Broker.fetch] at h
  cases hfrom : resolveFetchOffset request offsets log.earliestOffset log.nextOffset with
  | error error =>
      rw [hfrom, error_bind] at h
      cases h
  | ok fromOffset =>
      rw [hfrom, ok_bind] at h
      split_ifs at h with hbase
      cases hread : log.readFrom Z fromOffset limits.maxFetchRecords.toNat
          limits.maxFetchBytes.toNat with
      | error message =>
          rw [hread, storageCall, Except.mapError, error_bind] at h
          cases h
      | ok records =>
          rw [hread, storageCall, Except.mapError, ok_bind] at h
          rcases packRecords_cases limits.maxFetchPayloadBytes records []
              (fetchPayloadBaseBytes request.topic) with ⟨-, herror⟩ | ⟨taken, hpacked, hpos⟩
          · rw [herror, error_map] at h
            cases h
          · rw [hpacked, ok_map] at h
            obtain rfl := Except.ok.inj h
            have hnil : records = [] := by
              by_contra hne
              have htaken := hpos rfl hne
              rw [List.nil_append, List.map_eq_nil_iff, List.take_eq_nil_iff] at hempty
              exact hempty.elim htaken.ne' hne
            subst hnil
            rcases le_resolveFetchOffset hfrom with hle | rfl
            · exact hlog.le_of_readFrom hmax hle hread
            · exact le_rfl

/-- What `run_append_batch` leaves: the waiters are notified, or the next offset
has not changed. -/
theorem runAppendBatch_notifies {log : PartitionLog} (hlog : log.NewestIndexed)
    (clock : AppendClock) (fault : Option AppendFault) (env : RetentionEnv)
    (policy : RetentionPolicy) (job : ProduceRequest) (jobs : List ProduceRequest) :
    (Broker.runAppendBatch log clock fault env policy (job :: jobs)).log.NewestIndexed ∧
      (Broker.runAppendBatch log clock fault env policy (job :: jobs)).log.options =
        log.options ∧
      (RetentionSucceeds policy log clock fault env (job :: jobs) →
        (Broker.runAppendBatch log clock fault env policy (job :: jobs)).log.nextOffset =
            log.nextOffset ∨
          (Broker.runAppendBatch log clock fault env policy (job :: jobs)).notified =
            some (log.options.topic, log.options.partitionId)) := by
  rw [Broker.runAppendBatch]
  cases happend : log.appendBatch clock fault ((job :: jobs).map appendRecord) with
  | mk appended result =>
      obtain ⟨hnewest, hoptions, hfailed⟩ := hlog.appendBatch happend
      cases result with
      | error message => exact ⟨hnewest, hoptions, fun _ ↦ Or.inl (hfailed ⟨message, rfl⟩)⟩
      | ok metadata =>
          dsimp only
          cases happly : appended.applyRetention env policy with
          | mk kept outcome =>
              obtain ⟨hkept, hkeptOptions, -⟩ := hnewest.applyRetention happly
              cases outcome with
              | error message =>
                  refine ⟨hkept, hkeptOptions.trans hoptions, fun hsucceeds ↦ ?_⟩
                  obtain ⟨stats, hstats⟩ := hsucceeds appended metadata happend
                  rw [happly] at hstats
                  cases hstats
              | ok stats =>
                  refine ⟨hkept, hkeptOptions.trans hoptions, fun _ ↦ Or.inr ?_⟩
                  obtain ⟨first, rest, rfl, htopic, hpartition⟩ := hlog.head_appendBatch happend
                  rw [← htopic, ← hpartition]
                  rfl

/-! ## Steps -/

section Steps

variable {S : Type*} {s t : PollState S}

/-- Nothing but sessions and waiters has changed. -/
theorem Covered.congr {key : WaiterKey} {offset : ℕ} (h : s.Covered key offset)
    (hlogs : t.logs = s.logs) (hnotifying : t.notifying = s.notifying) : t.Covered key offset := by
  intro log hlog
  rw [hlogs] at hlog
  refine (h log hlog).imp id fun hpending ↦ ?_
  rw [NotificationPending, hnotifying]
  exact hpending

/-- A section on one log, and the notifications it is going to make. -/
theorem PollInvariant.setLog (h : s.PollInvariant) {key : WaiterKey} {log log' : PartitionLog}
    (hlog : s.logs key = some log) (hnewest : log'.NewestIndexed)
    (hoptions : log'.options = log.options) (calls : List Notification)
    (hcalls : s.Awaited key →
      log'.nextOffset = log.nextOffset ∨ ∃ call ∈ calls, call.key = key) :
    PollInvariant { s.setLog key log' with notifying := s.notifying ++ calls } := by
  have hcovered : ∀ other offset, s.Covered other offset → (other = key → s.Awaited key) →
      Covered { s.setLog key log' with notifying := s.notifying ++ calls } other offset := by
    intro other offset hother hawaited found hfound
    have hlater : s.NotificationPending other → NotificationPending
        { s.setLog key log' with notifying := s.notifying ++ calls } other :=
      fun ⟨call, hcall, hkey⟩ ↦ ⟨call, List.mem_append_left _ hcall, hkey⟩
    by_cases hsame : other = key
    · subst hsame
      obtain rfl : log' = found := by
        simpa [PollState.setLog] using hfound
      rcases hcalls (hawaited rfl) with hnext | ⟨call, hcall, hkey⟩
      · rw [hnext]
        exact (hother log hlog).imp id hlater
      · exact Or.inr ⟨call, List.mem_append_right _ hcall, hkey⟩
    · refine (hother found ?_).imp id hlater
      simpa [PollState.setLog, hsame] using hfound
  refine ⟨fun other found hfound ↦ ?_, fun session other offset hfound ↦ ?_,
    fun waiter hwaiter ↦ ?_⟩
  · by_cases hsame : other = key
    · subst hsame
      obtain rfl : log' = found := by
        simpa [PollState.setLog] using hfound
      rw [hoptions]
      exact ⟨hnewest, (h.logs other log hlog).2⟩
    · exact h.logs other found (by simpa [PollState.setLog, hsame] using hfound)
  · exact hcovered other offset (h.found session other offset hfound) fun hsame ↦
      Or.inr ⟨session, offset, hsame ▸ hfound⟩
  · exact hcovered waiter.key waiter.offset (h.waiters waiter hwaiter) fun hsame ↦
      Or.inl ⟨waiter, hwaiter, hsame⟩

variable [DecidableEq S]

/-- A session goes to another phase. -/
theorem PollInvariant.setSession (h : s.PollInvariant) (session : S) (phase : PollPhase)
    (hphase : ∀ key offset, phase = .found key offset → s.Covered key offset) :
    (s.setSession session phase).PollInvariant := by
  refine ⟨h.logs, fun other key offset hfound ↦ ?_, fun waiter hwaiter ↦
    (h.waiters waiter hwaiter).congr rfl rfl⟩
  refine Covered.congr (s := s) ?_ rfl rfl
  by_cases hsame : other = session
  · subst hsame
    exact hphase key offset (by simpa [PollState.setSession] using hfound)
  · exact h.found other key offset (by simpa [PollState.setSession, hsame] using hfound)

omit [DecidableEq S] in
theorem PollInvariant.dropWaiters (h : s.PollInvariant) (gone : FetchWaiter → Bool) :
    (s.dropWaiters gone).PollInvariant :=
  ⟨h.logs, fun session key offset hfound ↦ (h.found session key offset hfound).congr rfl rfl,
    fun waiter hwaiter ↦ (h.waiters waiter (List.mem_of_mem_filter hwaiter)).congr rfl rfl⟩

theorem PollInvariant.fetchOrWait (h : s.PollInvariant) {Z : Zstd} {config : PollConfig}
    (session : S) (offsets : OffsetStore) (request : FetchRequest) :
    (s.fetchOrWait Z config session offsets request).PollInvariant := by
  rw [PollState.fetchOrWait]
  cases hlog : s.logs ⟨request.topic, request.partition⟩ with
  | none => exact h
  | some log =>
      dsimp only
      cases hfetch : Broker.fetch Z config.server.limits offsets log request with
      | error error => exact h
      | ok response =>
          dsimp only
          split_ifs with hwaits
          · rw [waitsForRecords, decide_eq_true_eq] at hwaits
            refine h.setSession session _ fun key offset hphase found hfound ↦ Or.inl ?_
            obtain ⟨rfl, rfl⟩ := PollPhase.found.inj hphase
            obtain rfl : log = found := Option.some.inj (hlog.symm.trans hfound)
            exact nextOffset_le_of_fetch (h.logs _ _ hlog).1 config.server.maxFetchRecords_ne
              hfetch hwaits.1
          · exact h

theorem PollInvariant.registerFetchWaiter (h : s.PollInvariant) {config : PollConfig}
    {session : S} {key : WaiterKey} {offset : ℕ}
    (hfound : s.sessions session = .found key offset) :
    (s.registerFetchWaiter config session key offset).PollInvariant := by
  rw [PollState.registerFetchWaiter]
  split_ifs with hfull
  · exact h.setSession session .idle fun _ _ hphase ↦ by cases hphase
  · have hset := h.setSession session (.waiting s.nextWaiterId) fun _ _ hphase ↦ by cases hphase
    refine ⟨h.logs, fun other key offset hother ↦
      (hset.found other key offset hother).congr rfl rfl, fun waiter hwaiter ↦ ?_⟩
    rcases List.mem_append.mp hwaiter with hwaiter | hwaiter
    · exact (h.waiters waiter hwaiter).congr rfl rfl
    · rw [List.mem_singleton.mp hwaiter]
      exact (h.found session key offset hfound).congr rfl rfl

omit [DecidableEq S] in
/-- The notification takes out all waiters of its partition. -/
theorem PollInvariant.notify (h : s.PollInvariant) {call : ℕ} {notification : Notification}
    (hcall : s.notifying[call]? = some notification)
    (htimely : ∀ session offset, s.sessions session = .found notification.key offset →
      ∀ log, s.logs notification.key = some log → log.nextOffset ≤ offset) :
    PollInvariant { s.notifyFetchWaiters notification.key with
      notifying := s.notifying.eraseIdx call } := by
  have hother : ∀ key offset, key ≠ notification.key → s.Covered key offset →
      Covered { s.notifyFetchWaiters notification.key with
        notifying := s.notifying.eraseIdx call } key offset := by
    intro key offset hne hcovered log hlog
    refine (hcovered log hlog).imp id fun ⟨other, hmem, hkey⟩ ↦ ⟨other, ?_, hkey⟩
    obtain ⟨i, hi⟩ := List.mem_iff_getElem?.mp hmem
    refine List.mem_eraseIdx_iff_getElem?.mpr ⟨i, ?_, hi⟩
    rintro rfl
    rw [hcall] at hi
    exact hne (hkey ▸ congrArg Notification.key (Option.some.inj hi).symm)
  refine ⟨h.logs, fun session key offset hfound ↦ ?_, fun waiter hwaiter ↦ ?_⟩
  · by_cases hkey : key = notification.key
    · subst hkey
      exact fun log hlog ↦ Or.inl (htimely session offset hfound log hlog)
    · exact hother key offset hkey (h.found session key offset hfound)
  · obtain ⟨hwaiter, hkept⟩ := List.mem_filter.mp hwaiter
    exact hother waiter.key waiter.offset (by simpa using hkept) (h.waiters waiter hwaiter)

theorem PollInvariant.step (h : s.PollInvariant) {Z : Zstd} {config : PollConfig}
    {event : PollEvent S} (htimely : s.Timely config event)
    (hstep : s.step Z config event = some t) : t.PollInvariant := by
  cases event with
  | fetch session offsets request =>
      simp only [PollState.step] at hstep
      split_ifs at hstep
      split at hstep
      · obtain rfl := Option.some.inj hstep
        exact h.fetchOrWait session offsets request
      · cases hstep
  | registerFetchWaiter session =>
      simp only [PollState.step] at hstep
      split at hstep
      · rename_i key offset hfound
        obtain rfl := Option.some.inj hstep
        exact h.registerFetchWaiter hfound
      · cases hstep
  | runAppendBatch key clock fault env job jobs =>
      simp only [PollState.step] at hstep
      split_ifs at hstep
      obtain ⟨log, hlog, rfl⟩ := Option.map_eq_some_iff.mp hstep
      obtain ⟨hnewest, htopic, hpartition⟩ := h.logs key log hlog
      obtain ⟨hnewest', hoptions, hnotifies⟩ := runAppendBatch_notifies hnewest clock fault env
        config.retentionPolicy job jobs
      refine h.setLog hlog hnewest' hoptions _ fun hawaited ↦ ?_
      refine (hnotifies (htimely hawaited log hlog)).imp id fun hnotified ↦ ?_
      rw [hnotified, htopic, hpartition]
      exact ⟨⟨key, false⟩, List.mem_singleton.mpr rfl, rfl⟩
  | produceBatch key codec encodedRecords uncompressedBytes decodedRecords timestamp fault =>
      simp only [PollState.step] at hstep
      split_ifs at hstep
      obtain ⟨log, hlog, rfl⟩ := Option.map_eq_some_iff.mp hstep
      have hnewest := (h.logs key log hlog).1
      cases happend : PartitionLog.appendEncodedBatch Z log codec encodedRecords uncompressedBytes
          decodedRecords timestamp fault with
      | mk log' result =>
          obtain ⟨hnewest', hoptions, hfailed⟩ := hnewest.appendEncodedBatch happend
          cases result with
          | error message =>
              have hset := h.setLog hlog hnewest' hoptions []
                fun _ ↦ Or.inl (hfailed ⟨message, rfl⟩)
              rw [List.append_nil] at hset
              exact hset
          | ok metadata =>
              exact h.setLog hlog hnewest' hoptions [⟨key, true⟩] fun _ ↦
                Or.inr ⟨⟨key, true⟩, List.mem_singleton.mpr rfl, rfl⟩
  | runRetention key env =>
      simp only [PollState.step] at hstep
      split_ifs at hstep
      obtain ⟨log, hlog, rfl⟩ := Option.map_eq_some_iff.mp hstep
      obtain ⟨hnewest, hoptions, hnext⟩ :=
        (h.logs key log hlog).1.applyRetention rfl
      have hset := h.setLog hlog hnewest hoptions [] fun _ ↦ Or.inl hnext
      rw [List.append_nil] at hset
      exact hset
  | notifyFetchWaiters call =>
      obtain ⟨notification, hcall, rfl⟩ := Option.map_eq_some_iff.mp hstep
      exact h.notify hcall (htimely notification hcall)
  | callback session =>
      simp only [PollState.step] at hstep
      split at hstep
      · split_ifs at hstep
        obtain rfl := Option.some.inj hstep
        exact h.setSession session .idle fun _ _ hphase ↦ by cases hphase
      · cases hstep
  | timeout session =>
      simp only [PollState.step] at hstep
      split at hstep
      · obtain rfl := Option.some.inj hstep
        exact (h.dropWaiters _).setSession session .idle fun _ _ hphase ↦ by cases hphase
      · cases hstep

omit [DecidableEq S] in
theorem PollInvariant.noLostWakeup (h : s.PollInvariant) : s.NoLostWakeup :=
  fun waiter hwaiter hnone log hlog ↦ (h.waiters waiter hwaiter log hlog).resolve_right hnone

end Steps

/-- The logs of a broker that has just started, on any data. -/
def OpenedLogs (Z : Zstd) (config : PollConfig) (logs : WaiterKey → Option PartitionLog) : Prop :=
  ∀ key log, logs key = some log → ∃ dir : Directory, (∀ file ∈ dir.logs, file.1 < 2 ^ 64) ∧
    PartitionLog.openLog Z (config.server.logOptions key.topic key.partition) dir = .ok log

theorem PollInvariant.initial {S : Type*} {Z : Zstd} {config : PollConfig}
    {logs : WaiterKey → Option PartitionLog} (hlogs : OpenedLogs Z config logs) :
    (PollState.initial logs : PollState S).PollInvariant := by
  refine ⟨fun key log hlog ↦ ?_, fun session key offset hfound ↦ ?_, fun waiter hwaiter ↦ ?_⟩
  · obtain ⟨dir, hnames, hopened⟩ := hlogs key log hlog
    obtain ⟨hnewest, hoptions⟩ := PartitionLog.newestIndexed_openLog hnames hopened
    rw [hoptions]
    exact ⟨hnewest, rfl, rfl⟩
  · cases hfound
  · exact absurd hwaiter List.not_mem_nil

/-- When every notification finds no session that has fetched too early and is
still about to register, and no awaited append fails in its retention pass, no
waiter is left asleep on records that are there. -/
theorem run_noLostWakeup {S : Type*} [DecidableEq S] (Z : Zstd) (config : PollConfig)
    (logs : WaiterKey → Option PartitionLog) (hlogs : OpenedLogs Z config logs)
    (events : List (PollEvent S))
    (htimely : Along (PollState.step Z config) (Timely config) (PollState.initial logs) events)
    (s : PollState S)
    (hrun : run (PollState.step Z config) (PollState.initial logs) events = some s) :
    s.NoLostWakeup := by
  refine PollInvariant.noLostWakeup (run_invariant (Timely config) PollInvariant ?_ htimely hrun
    (PollInvariant.initial hlogs))
  intro s event t htimely hstep h
  exact h.step htimely hstep

def smallPolls : PollConfig :=
  { server := smallFrames 1048576 ServerConfig.defaultFrameBytes_ne
    maxFetchWaitMs := 1000
    maxLongPollWaiters := 4
    retentionPolicy := ⟨0, 0⟩ }

/-- The broker has one topic with one partition, and it is empty. -/
def oneTopic (key : WaiterKey) : Option PartitionLog :=
  if key = ⟨[116], 0⟩ then
    some (PartitionLog.emptyLog (smallPolls.server.logOptions [116] 0))
  else none

theorem openedLogs_oneTopic : OpenedLogs rawBlockZstd smallPolls oneTopic := by
  intro key log hlog
  rw [oneTopic] at hlog
  split_ifs at hlog with hkey
  subst hkey
  obtain rfl := Option.some.inj hlog
  exact ⟨{}, fun file hfile ↦ absurd hfile List.not_mem_nil,
    PartitionLog.openLog_empty ⟨by decide, by decide⟩ rawBlockZstd⟩

/-- A fetch that waits for a second. -/
def waitingRequest («from» : Bytes) : FetchRequest := ⟨[116], 0, «from», [], 1000⟩

def appendOne : PollEvent ℕ :=
  .runAppendBatch ⟨[116], 0⟩ stillClock none (retentionEnv false) ⟨[116], [], [118]⟩ []

theorem run_noLostWakeup_latest :
    ∃ s, run (PollState.step rawBlockZstd smallPolls) (PollState.initial oneTopic)
        [appendOne, .fetch 3 {} (waitingRequest latestSelector), .registerFetchWaiter 3] =
          some s ∧
      s.waiters = [⟨1, ⟨[116], 0⟩, 1⟩] ∧ s.NoLostWakeup := by
  have hwaiters : (run (PollState.step rawBlockZstd smallPolls) (PollState.initial oneTopic)
      [appendOne, .fetch 3 {} (waitingRequest latestSelector), .registerFetchWaiter 3]).map
        PollState.waiters = some [⟨1, ⟨[116], 0⟩, 1⟩] := by
    decide
  obtain ⟨s, hrun, hwaiters⟩ := Option.map_eq_some_iff.mp hwaiters
  refine ⟨s, hrun, hwaiters, run_noLostWakeup rawBlockZstd smallPolls oneTopic
    openedLogs_oneTopic _ ?_ s hrun⟩
  refine ⟨?_, fun _ _ ↦ ⟨trivial, fun _ _ ↦ ⟨trivial, fun _ _ ↦ trivial⟩⟩⟩
  rintro (⟨waiter, hwaiter, -⟩ | ⟨session, offset, hfound⟩)
  · exact absurd hwaiter List.not_mem_nil
  · cases hfound

/-- An append and its notification between a fetch and the registration. -/
def overtakenPoll : List (PollEvent ℕ) :=
  [.fetch 3 {} (waitingRequest beginningSelector), appendOne, .notifyFetchWaiters 0,
    .registerFetchWaiter 3]

theorem overtakenPoll_sleeps :
    OpenedLogs rawBlockZstd smallPolls oneTopic ∧
      ∃ s, run (PollState.step rawBlockZstd smallPolls) (PollState.initial oneTopic)
        overtakenPoll = some s ∧ ¬ s.NoLostWakeup := by
  refine ⟨openedLogs_oneTopic, ?_⟩
  have hend : (run (PollState.step rawBlockZstd smallPolls) (PollState.initial oneTopic)
      overtakenPoll).map (fun s ↦
        (s.waiters, s.notifying, (s.logs ⟨[116], 0⟩).map PartitionLog.nextOffset)) =
      some ([⟨1, ⟨[116], 0⟩, 0⟩], [], some 1) := by
    decide
  obtain ⟨s, hrun, hend⟩ := Option.map_eq_some_iff.mp hend
  obtain ⟨hwaiters, hend⟩ := Prod.mk.inj hend
  obtain ⟨hnotifying, hnext⟩ := Prod.mk.inj hend
  obtain ⟨log, hlog, hnext⟩ := Option.map_eq_some_iff.mp hnext
  refine ⟨s, hrun, fun hlost ↦ ?_⟩
  have hle := hlost ⟨1, ⟨[116], 0⟩, 0⟩ (by rw [hwaiters]; exact List.mem_singleton.mpr rfl)
    (fun ⟨call, hcall, _⟩ ↦ by rw [hnotifying] at hcall; cases hcall) log hlog
  rw [hnext] at hle
  exact absurd hle (by decide)

end PollState

end BoltStream.Broker
