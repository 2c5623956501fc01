import BoltStream.Broker.Handlers

/-!
# The authentication gate

On a broker with a token, a session that has not sent it gets nowhere: every
handler decodes and checks the payload and then refuses, without a call of the
runtime.  What such a session is sent depends on its own frames, the
configuration and the readiness of the server, and on nothing that is stored.
-/

namespace BoltStream.Broker

open BoltStream.Lib BoltStream.Protocol BoltStream.Compression BoltStream.Storage

variable {σ : Type}

/-- The frame is an `AuthRequest` with the broker's token. -/
def BrokerConfig.RightToken (config : BrokerConfig) (header payload : Bytes) : Prop :=
  (decodeHeader header config.maxFrameBytes).header.frameType = .authRequest ∧
    decodeAuthRequest payload = .ok ⟨config.brokerToken⟩

def SessionEvent.isVisible : SessionEvent σ → Bool
  | .elsewhere _ => false
  | _ => true

/-- What others have made of the stored state in the course of the events. -/
def changedElsewhere (events : List (SessionEvent σ)) (stored : σ) : σ :=
  events.foldl (fun stored event ↦ match event with
    | .elsewhere change => change stored
    | _ => stored) stored

namespace ProtocolSession

/-- Whatever is stored, the handler leaves it and the session alone and writes one and
the same frame. -/
def Refuses (session : ProtocolSession) (handler : σ → Handled σ) : Prop :=
  ∃ frameType payload closeAfterWrite, ∀ stored,
    handler stored = ⟨session, stored, .write frameType payload closeAfterWrite⟩

variable {session : ProtocolSession} {config : BrokerConfig}

theorem refuses_writeError (code : ErrorCode) (message : Bytes) (closeAfterWrite : Bool) :
    session.Refuses fun stored : σ ↦
      ⟨session, stored, config.writeError code message closeAfterWrite⟩ :=
  ⟨_, _, _, fun _ ↦ rfl⟩

section Unauthenticated

variable (hauth : session.authenticated = false)

include hauth

theorem refuses_withRequest {request : Type} (decode : Bytes → Except DecodeError request)
    (names : request → Option DecodeError) (payload : Bytes) (next : σ → request → Handled σ) :
    session.Refuses fun stored ↦
      withRequest config decode names session stored payload (next stored) := by
  unfold withRequest requireAuth
  cases decode payload with
  | error error => exact refuses_writeError _ _ _
  | ok request =>
      simp only [hauth]
      cases names request with
      | some error => exact refuses_writeError _ _ _
      | none => exact refuses_writeError _ _ _

theorem refuses_handleCall {request response : Type}
    (decode : Bytes → Except DecodeError request) (names : request → Option DecodeError)
    (call : Call σ request response) (frameType : FrameType) (encode : response → Bytes)
    (payload : Bytes) :
    session.Refuses fun stored ↦
      handleCall config decode names call frameType encode session stored payload :=
  refuses_withRequest hauth decode names payload _

theorem refuses_handleProduceBatch (Z : Zstd) (runtime : Runtime σ) (payload : Bytes) :
    session.Refuses fun stored ↦
      handleProduceBatch Z runtime config session stored payload := by
  unfold handleProduceBatch
  by_cases hversion : session.protocolVersion < 5
  · simp only [if_pos hversion]
    exact refuses_writeError _ _ _
  · simp only [if_neg hversion]
    exact refuses_withRequest hauth _ _ payload _

omit hauth in
theorem refuses_handleHealth (readiness : Readiness) (payload : Bytes) :
    session.Refuses fun stored : σ ↦ handleHealth config readiness session stored payload := by
  unfold handleHealth
  cases validateEmptyPayload payload with
  | error error => exact refuses_writeError _ _ _
  | ok _ => exact ⟨_, _, _, fun _ ↦ rfl⟩

omit hauth in
/-- Another token than the broker's is refused. -/
theorem refuses_handleAuth (htoken : config.brokerToken ≠ []) {payload : Bytes}
    (hright : decodeAuthRequest payload ≠ .ok ⟨config.brokerToken⟩) :
    session.Refuses fun stored : σ ↦ handleAuth config session stored payload := by
  unfold handleAuth
  cases hdecode : decodeAuthRequest payload with
  | error error => exact refuses_writeError _ _ _
  | ok request =>
      have hwrong : request.token ≠ config.brokerToken := by
        intro hsame
        exact hright (hdecode.trans (by rw [← hsame]))
      have hrefused : config.authenticate request.token = false := by
        simp [BrokerConfig.authenticate, BrokerConfig.authRequired, htoken, hwrong]
      simp only [hrefused, if_true]
      exact refuses_writeError _ _ _

/-- No request gets past the gate, and none is answered from what is stored. -/
theorem refuses_handleFrame (Z : Zstd) (runtime : Runtime σ) (htoken : config.brokerToken ≠ [])
    (readiness : Readiness) {frameType : FrameType} {payload : Bytes}
    (hright : ¬ (frameType = .authRequest ∧
      decodeAuthRequest payload = .ok ⟨config.brokerToken⟩)) :
    session.Refuses fun stored ↦
      handleFrame Z runtime config readiness session stored frameType payload := by
  cases frameType with
  | healthRequest => exact refuses_handleHealth readiness payload
  | authRequest => exact refuses_handleAuth htoken fun hsent ↦ hright ⟨rfl, hsent⟩
  | produceBatchRequest => exact refuses_handleProduceBatch hauth Z runtime payload
  | metadataRequest => exact refuses_withRequest hauth _ (fun _ ↦ none) payload _
  | produceRequest => exact refuses_withRequest hauth _ _ payload _
  | fetchRequest => exact refuses_withRequest hauth _ _ payload _
  | offsetCommitRequest => exact refuses_handleCall hauth _ _ _ _ _ payload
  | createTopicRequest => exact refuses_handleCall hauth _ (fun _ ↦ none) _ _ _ payload
  | joinGroupRequest => exact refuses_handleCall hauth _ _ _ _ _ payload
  | syncGroupRequest => exact refuses_handleCall hauth _ _ _ _ _ payload
  | heartbeatRequest => exact refuses_handleCall hauth _ _ _ _ _ payload
  | leaveGroupRequest => exact refuses_handleCall hauth _ _ _ _ _ payload
  | groupOffsetCommitRequest => exact refuses_handleCall hauth _ _ _ _ _ payload
  | listTopicsRequest => exact refuses_handleCall hauth _ (fun _ ↦ none) _ _ _ payload
  | describeTopicRequest => exact refuses_handleCall hauth _ _ _ _ _ payload
  | deleteTopicRequest => exact refuses_handleCall hauth _ _ _ _ _ payload
  | runRetentionRequest => exact refuses_handleCall hauth _ _ _ _ _ payload
  | describeGroupRequest => exact refuses_handleCall hauth _ _ _ _ _ payload
  | resetGroupOffsetRequest => exact refuses_handleCall hauth _ _ _ _ _ payload
  | _ => exact refuses_writeError _ _ _

end Unauthenticated

end ProtocolSession

namespace BrokerSession

/-- A session before the gate: it has not authenticated itself, and nothing of it is
left with the runtime. -/
structure Gated (s : BrokerSession σ) : Prop where
  authenticated : s.session.authenticated = false
  activeWaiterId : s.session.activeWaiterId = none
  phase : s.session.phase = .readHeader ∨ (∃ closeAfterWrite,
    s.session.phase = .writing closeAfterWrite) ∨ s.session.phase = .closed

def withStored (s : BrokerSession σ) (stored : σ) : BrokerSession σ :=
  { s with stored := stored }

variable {Z : Zstd} {runtime : Runtime σ} {config : BrokerConfig} {s : BrokerSession σ}

/-- A step that leaves the stored state alone and does not look at it, to a session
that is still before the gate. -/
def StepsBlindly (Z : Zstd) (runtime : Runtime σ) (config : BrokerConfig) (s : BrokerSession σ)
    (event : SessionEvent σ) : Prop :=
  ∃ t : BrokerSession σ, t.Gated ∧ ∀ stored,
    (s.withStored stored).step Z runtime config event = t.withStored stored

theorem gated_writeFrame (h : s.Gated) (frameType : FrameType) (correlationId : ℕ)
    (payload : Bytes) (closeAfterWrite : Bool) :
    (s.writeFrame frameType correlationId payload closeAfterWrite).Gated :=
  ⟨h.authenticated, h.activeWaiterId, Or.inr (Or.inl ⟨closeAfterWrite, rfl⟩)⟩

theorem gated_react_writeError (h : s.Gated) (config : BrokerConfig) (correlationId : ℕ)
    (code : ErrorCode) (message : Bytes) (closeAfterWrite : Bool) :
    (s.react correlationId (config.writeError code message closeAfterWrite)).Gated :=
  gated_writeFrame h _ _ _ _

theorem step_frame_blindly (h : s.Gated) (htoken : config.brokerToken ≠ [])
    (hphase : s.session.phase = .readHeader) {header payload : Bytes}
    (hright : ¬ config.RightToken header payload) :
    StepsBlindly Z runtime config s (.frame header payload) := by
  have hstep : ∀ stored, (s.withStored stored).step Z runtime config (.frame header payload) =
      (s.withStored stored).receive Z runtime config header payload := by
    intro stored
    simp only [step, withStored, hphase]
  simp only [StepsBlindly, hstep, receive]
  cases herror : (decodeHeader header config.maxFrameBytes).error with
  | some error =>
      exact ⟨_, gated_react_writeError h config
        (decodeHeader header config.maxFrameBytes).header.correlationId error.code
        (text error.message) true, fun _ ↦ rfl⟩
  | none =>
      by_cases hversion : s.session.protocolVersion ≠ 0 ∧ s.session.protocolVersion ≠
          (decodeHeader header config.maxFrameBytes).header.version
      · refine ⟨_, gated_react_writeError h config
          (decodeHeader header config.maxFrameBytes).header.correlationId .unsupportedVersion
          (text "protocol version changed within one connection") true, fun stored ↦ ?_⟩
        exact if_pos hversion
      · set session := { s.session with
          protocolVersion := (decodeHeader header config.maxFrameBytes).header.version }
          with hsession
        have hauth : session.authenticated = false := h.authenticated
        obtain ⟨frameType, answer, closeAfterWrite, hrefuses⟩ :=
          ProtocolSession.refuses_handleFrame hauth Z runtime htoken s.readiness hright
        have hgated : ({ s with session := session } : BrokerSession σ).Gated :=
          ⟨h.authenticated, h.activeWaiterId, h.phase⟩
        refine ⟨_, gated_writeFrame hgated frameType
          (decodeHeader header config.maxFrameBytes).header.correlationId answer
          closeAfterWrite, fun stored ↦ ?_⟩
        refine (if_neg hversion).trans ?_
        exact congrArg (conclude (s.withStored stored)
          (decodeHeader header config.maxFrameBytes).header.correlationId) (hrefuses stored)

theorem gated_close (h : s.Gated) : s.close.Gated :=
  ⟨h.authenticated, h.activeWaiterId, Or.inr (Or.inr rfl)⟩

theorem step_written_blindly (h : s.Gated) (failed : Bool) :
    StepsBlindly Z runtime config s (.written failed) := by
  rcases h.phase with hphase | ⟨closeAfterWrite, hphase⟩ | hphase
  · refine ⟨s, h, fun stored ↦ ?_⟩
    simp only [step, withStored, hphase]
  · cases failed with
    | true =>
        refine ⟨s.close, gated_close h, fun stored ↦ ?_⟩
        simp only [step, withStored, hphase, cancelActiveWaiter, h.activeWaiterId, if_true]
        rfl
    | false =>
        cases closeAfterWrite with
        | true =>
            refine ⟨s.close, gated_close h, fun stored ↦ ?_⟩
            simp only [step, withStored, hphase]
            rfl
        | false =>
            refine ⟨{ s with session := { s.session with phase := .readHeader } },
              ⟨h.authenticated, h.activeWaiterId, Or.inl rfl⟩, fun stored ↦ ?_⟩
            simp only [step, withStored, hphase]
            rfl
  · refine ⟨s, h, fun stored ↦ ?_⟩
    simp only [step, withStored, hphase]

theorem step_disconnected_blindly (h : s.Gated) :
    StepsBlindly Z runtime config s .disconnected := by
  rcases h.phase with hphase | ⟨closeAfterWrite, hphase⟩ | hphase
  · refine ⟨s.close, gated_close h, fun stored ↦ ?_⟩
    simp only [step, withStored, hphase]
    rfl
  · refine ⟨s, h, fun stored ↦ ?_⟩
    simp only [step, withStored, hphase]
  · refine ⟨s, h, fun stored ↦ ?_⟩
    simp only [step, withStored, hphase]

theorem step_blindly (h : s.Gated) (htoken : config.brokerToken ≠ []) {event : SessionEvent σ}
    (hvisible : event.isVisible = true)
    (hright : ∀ header payload, event = .frame header payload →
      ¬ config.RightToken header payload) :
    StepsBlindly Z runtime config s event := by
  cases event with
  | frame header payload =>
      by_cases hphase : s.session.phase = .readHeader
      · exact step_frame_blindly h htoken hphase (hright header payload rfl)
      · refine ⟨s, h, fun stored ↦ ?_⟩
        rcases h.phase with hread | ⟨closeAfterWrite, hother⟩ | hother
        · exact absurd hread hphase
        · simp only [step, withStored, hother]
        · simp only [step, withStored, hother]
  | written failed => exact step_written_blindly h failed
  | disconnected => exact step_disconnected_blindly h
  | readinessChanged readiness =>
      refine ⟨{ s with readiness := readiness },
        ⟨h.authenticated, h.activeWaiterId, h.phase⟩, fun stored ↦ rfl⟩
  | elsewhere change => cases hvisible
  -- No append and no long poll is under way.
  | appendCompleted result =>
      refine ⟨s, h, fun stored ↦ ?_⟩
      rcases h.phase with hphase | ⟨closeAfterWrite, hphase⟩ | hphase <;>
        cases result <;> simp only [step, withStored, hphase]
  | waiterNotified =>
      refine ⟨s, h, fun stored ↦ ?_⟩
      rcases h.phase with hphase | ⟨closeAfterWrite, hphase⟩ | hphase <;>
        simp only [step, withStored, hphase]
  | timerExpired =>
      refine ⟨s, h, fun stored ↦ ?_⟩
      rcases h.phase with hphase | ⟨closeAfterWrite, hphase⟩ | hphase <;>
        simp only [step, withStored, hphase]

/-- A run leaves to the stored state what others did to it.  All else is as in the run
on the visible events alone, on any stored state. -/
theorem run_blindly (htoken : config.brokerToken ≠ []) {events : List (SessionEvent σ)}
    (hright : ∀ header payload, .frame header payload ∈ events →
      ¬ config.RightToken header payload) (h : s.Gated) (stored other : σ) :
    (s.withStored stored).run Z runtime config events =
      ((s.withStored other).run Z runtime config
        (events.filter SessionEvent.isVisible)).withStored (changedElsewhere events stored) := by
  induction events generalizing s stored with
  | nil => rfl
  | cons event events ih =>
      have hrest : ∀ header payload, .frame header payload ∈ events →
          ¬ config.RightToken header payload :=
        fun header payload hmem ↦ hright header payload (List.mem_cons_of_mem event hmem)
      by_cases hvisible : event.isVisible = true
      · have hblind : StepsBlindly Z runtime config s event :=
          step_blindly h htoken hvisible fun header payload hevent ↦
            hright header payload (by simp [hevent])
        obtain ⟨t, ht, hstep⟩ := hblind
        have hchanged : changedElsewhere (event :: events) stored =
            changedElsewhere events stored := by
          cases event with
          | elsewhere change => cases hvisible
          | _ => rfl
        rw [List.filter_cons_of_pos hvisible, hchanged]
        simp only [run, List.foldl_cons, hstep]
        exact ih hrest ht stored
      · rw [List.filter_cons_of_neg hvisible]
        cases event with
        | elsewhere change => exact ih hrest h (change stored)
        | _ => exact absurd rfl hvisible

theorem gated_opened (htoken : config.brokerToken ≠ []) (readiness : Readiness) (stored : σ) :
    (opened config readiness stored).Gated := by
  refine ⟨?_, rfl, Or.inl rfl⟩
  simp [opened, ProtocolSession.opened, BrokerConfig.authRequired, htoken]

/-- Two sessions without the right token that are sent the same frames are answered
the same frames, whatever is stored and whatever others do to it; and what is stored
changes only by what others do. -/
theorem auth_gate_complete (Z : Zstd) (runtime : Runtime σ) {config : BrokerConfig}
    (htoken : config.brokerToken ≠ []) (readiness : Readiness) (stored stored' : σ)
    {events events' : List (SessionEvent σ)}
    (hvisible : events.filter SessionEvent.isVisible = events'.filter SessionEvent.isVisible)
    (hright : ∀ header payload, .frame header payload ∈ events →
      ¬ config.RightToken header payload) :
    ((opened config readiness stored).run Z runtime config events).responses =
        ((opened config readiness stored').run Z runtime config events').responses ∧
      ((opened config readiness stored).run Z runtime config events).stored =
        changedElsewhere events stored ∧
      ((opened config readiness stored').run Z runtime config events').stored =
        changedElsewhere events' stored' := by
  have hright' : ∀ header payload, .frame header payload ∈ events' →
      ¬ config.RightToken header payload := by
    intro header payload hmem
    have hfiltered : .frame header payload ∈ events'.filter SessionEvent.isVisible :=
      List.mem_filter.mpr ⟨hmem, rfl⟩
    rw [← hvisible] at hfiltered
    exact hright header payload (List.mem_filter.mp hfiltered).1
  have hgated := gated_opened htoken readiness stored
  have hrun : (opened config readiness stored).run Z runtime config events = _ :=
    run_blindly htoken hright hgated stored stored
  have hrun' : (opened config readiness stored').run Z runtime config events' = _ :=
    run_blindly htoken hright' hgated stored' stored
  rw [hrun, hrun', hvisible]
  exact ⟨rfl, rfl, rfl⟩

/-- A runtime that counts its calls. -/
def countingRuntime : Runtime ℕ :=
  { createTopic := fun _ calls ↦ (calls + 1, .error (.exception []))
    metadata := fun _ ↦ []
    asyncProduce := fun _ calls ↦ (calls + 1, .ok ())
    produceBatch := fun _ calls ↦ (calls + 1, .error (.exception []))
    fetch := fun _ calls ↦ (calls + 1, .error (.exception []))
    fetchEncodedBatch := fun _ calls ↦ (calls + 1, .ok none)
    registerFetchWaiter := fun _ _ calls ↦ (calls + 1, some calls)
    cancelFetchWaiter := fun _ calls ↦ calls + 1
    commitOffset := fun request calls ↦ (calls + 1, .ok request)
    joinGroup := fun _ calls ↦ (calls + 1, .error (.exception []))
    syncGroup := fun _ calls ↦ (calls + 1, .error (.exception []))
    heartbeatGroup := fun _ calls ↦ (calls + 1, .error (.exception []))
    leaveGroup := fun _ calls ↦ (calls + 1, .error (.exception []))
    commitGroupOffset := fun request calls ↦ (calls + 1, .ok request)
    listTopics := fun _ calls ↦ (calls + 1, .ok ⟨[]⟩)
    describeTopic := fun _ calls ↦ (calls + 1, .error (.exception []))
    deleteTopic := fun _ calls ↦ (calls + 1, .error (.exception []))
    runRetention := fun _ calls ↦ (calls + 1, .error (.exception []))
    describeGroup := fun _ calls ↦ (calls + 1, .error (.exception []))
    resetGroupOffset := fun _ calls ↦ (calls + 1, .error (.exception [])) }

def tokenConfig : BrokerConfig :=
  { brokerToken := [115]
    maxFrameBytes := 1024
    maxProduceBatchRecords := 16
    maxUncompressedBatchBytes := 512
    maxFetchWaitMs := 1000 }

/-- A request to list the topics, and a token that is not the broker's. -/
def uninvitedFrames : List (SessionEvent ℕ) :=
  [.frame (encodeFrame 5 .listTopicsRequest 1 [] 0) [], .written false,
    .frame (encodeFrame 5 .authRequest 2 [0, 0, 0, 1, 116] 0) [0, 0, 0, 1, 116]]

/-- Whatever the runtime has counted and others add to it, the session is answered the
same and adds nothing. -/
theorem auth_gate_uninvited :
    (∀ calls calls', ((opened tokenConfig ⟨true, []⟩ calls).run noZstd countingRuntime tokenConfig
        uninvitedFrames).responses = ((opened tokenConfig ⟨true, []⟩ calls').run noZstd
          countingRuntime tokenConfig (.elsewhere (· + 7) :: uninvitedFrames)).responses) ∧
      ∀ calls, ((opened tokenConfig ⟨true, []⟩ calls).run noZstd countingRuntime tokenConfig
        uninvitedFrames).stored = calls := by
  have hright : ∀ header payload, .frame header payload ∈ uninvitedFrames →
      ¬ tokenConfig.RightToken header payload := by
    intro header payload hmem hright
    have hpayload : payload = [] ∨ payload = [0, 0, 0, 1, 116] := by
      simp only [uninvitedFrames, List.mem_cons, SessionEvent.frame.injEq, List.not_mem_nil,
        reduceCtorEq, or_false, false_or] at hmem
      rcases hmem with ⟨-, rfl⟩ | ⟨-, rfl⟩
      · exact Or.inl rfl
      · exact Or.inr rfl
    have hwrong : ∀ payload ∈ [([] : Bytes), [0, 0, 0, 1, 116]],
        (decodeAuthRequest payload).toOption ≠ some ⟨[115]⟩ := by decide
    refine hwrong payload (by simpa using hpayload) ?_
    rw [hright.2]
    rfl
  have hsame : uninvitedFrames.filter SessionEvent.isVisible =
      (.elsewhere (· + 7) :: uninvitedFrames).filter SessionEvent.isVisible := rfl
  refine ⟨fun calls calls' ↦ ?_, fun calls ↦ ?_⟩
  · exact (auth_gate_complete noZstd countingRuntime (by decide) _ calls calls' hsame hright).1
  · exact (auth_gate_complete noZstd countingRuntime (by decide) _ calls calls rfl hright).2.1

end BrokerSession

end BoltStream.Broker
