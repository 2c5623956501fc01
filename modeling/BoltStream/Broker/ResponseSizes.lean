import BoltStream.Broker.AnswerSizes
import BoltStream.Broker.SessionVersions
import BoltStream.Broker.TopicFailures

/-!
# Responses beyond the maximum

A client with the maximum of the broker refuses a longer frame.  The broker measures
fetch responses and errors; the responses that grow with what is served, and those that
add to long names, it writes at any size.
-/

namespace BoltStream.Broker

open BoltStream.Lib BoltStream.Protocol BoltStream.Compression BoltStream.Storage

namespace ProtocolSession

/-- The size of the answer to a frame whose size is not bounded: from what the request
has and what is served before it.  There is none if the request is refused. -/
def answerBytes (config : RuntimeConfig) (env : OperationEnv) (readiness : Readiness)
    (session : ProtocolSession) (stored : BrokerRuntime) (frameType : FrameType)
    (payload : Bytes) : Option ℕ :=
  match frameType with
  | .healthRequest =>
      (validateEmptyPayload payload).toOption.map fun _ ↦
        8 + (text (if readiness.ready then "ready" else "not_ready")).length +
          readiness.detail.length
  | .metadataRequest =>
      (session.asked (decodeRequestedCodecs session.protocolVersion) (fun _ ↦ none)
        payload).map fun _ ↦ stored.metadataBytes session.protocolVersion
  | .listTopicsRequest =>
      (session.asked validateEmptyPayload (fun _ ↦ none) payload).map fun _ ↦
        stored.listTopicsBytes
  | .describeTopicRequest =>
      (session.asked decodeDescribeTopicRequest (fun request ↦ checkTopicName request.topic)
        payload).bind stored.describeTopicBytes
  | .describeGroupRequest =>
      (session.asked decodeDescribeGroupRequest
        (fun request ↦ checkGroupAndTopic request.group request.topic) payload).bind
          stored.describeGroupBytes
  | .runRetentionRequest =>
      (session.asked decodeRunRetentionRequest
        (fun request ↦ if request.topic.isEmpty then none else checkTopicName request.topic)
        payload).bind (stored.runRetentionBytes config env)
  | .joinGroupRequest =>
      (session.asked decodeJoinGroupRequest
        (fun request ↦ checkGroupAndTopic request.group request.topic) payload).bind
          stored.joinGroupBytes
  | .syncGroupRequest =>
      (session.asked decodeSyncGroupRequest
        (fun request ↦ checkGroupAndTopic request.group request.topic) payload).bind
          (stored.memberBytes (fun member ↦ 4 + 2 * member.assignment.length) env)
  | .heartbeatRequest =>
      (session.asked decodeHeartbeatRequest
        (fun request ↦ checkGroupAndTopic request.group request.topic) payload).bind
          (stored.memberBytes (fun _ ↦ 6) env)
  | .leaveGroupRequest =>
      (session.asked decodeLeaveGroupRequest
        (fun request ↦ checkGroupAndTopic request.group request.topic) payload).bind
          (stored.memberBytes (fun _ ↦ 8) env)
  | _ => none

section Frames

variable {Z : Zstd} {config : RuntimeConfig} {env : OperationEnv} {readiness : Readiness}
  {session : ProtocolSession} {stored : BrokerRuntime} {payload : Bytes}

theorem isValidGroupName_of_check {group topic : Bytes}
    (h : checkGroupAndTopic group topic = none) : isValidGroupName group = true := by
  have hgroup := (Option.or_eq_none_iff.mp h).1
  rw [checkGroupName] at hgroup
  split_ifs at hgroup with hvalid
  exact hvalid

theorem isValidTopicName_of_check {topic : Bytes} (h : checkTopicName topic = none) :
    isValidTopicName topic = true := by
  rw [checkTopicName] at h
  split_ifs at h with hvalid
  exact hvalid

/-- Health has no operation. -/
theorem fits_handleHealth_iff (hmax : kDefaultMaxFrameBytes ≤ config.session.maxFrameBytes) :
    (handleHealth config.session readiness session stored payload).reaction.Fits
        config.session.maxFrameBytes ↔
      ∀ bytes ∈ session.answerBytes config env readiness stored .healthRequest payload,
        kFrameHeaderBytes + bytes ≤ config.session.maxFrameBytes := by
  rw [handleHealth, answerBytes]
  cases hempty : validateEmptyPayload payload with
  | error error =>
      exact iff_of_true (fits_writeError hmax _ _ _) fun bytes hbytes ↦
        absurd hbytes (by simp [Except.toOption])
  | ok value =>
      simp only [Except.toOption, Option.map_some, Option.mem_def, Option.some.injEq,
        forall_eq', Reaction.Fits, encodeHealthResponse, List.length_append, length_writeBytes]
      rw [Nat.add_assoc 8, Nat.add_add_add_comm 4]

theorem fits_handleMetadata_iff (hmax : kDefaultMaxFrameBytes ≤ config.session.maxFrameBytes) :
    (handleMetadata (BrokerRuntime.operations Z config env) config.session session stored
        payload).reaction.Fits config.session.maxFrameBytes ↔
      ∀ bytes ∈ session.answerBytes config env readiness stored .metadataRequest payload,
        kFrameHeaderBytes + bytes ≤ config.session.maxFrameBytes := by
  rw [handleMetadata, fits_withRequest_iff hmax, answerBytes]
  have hsize : ∀ negotiated, (encodeMetadataResponse
      ⟨kSupportedCodecMask, negotiated, (BrokerRuntime.operations Z config env).metadata stored⟩
        session.protocolVersion).length = stored.metadataBytes session.protocolVersion :=
    fun negotiated ↦ stored.length_metadata kSupportedCodecMask negotiated _
  cases session.asked (decodeRequestedCodecs session.protocolVersion) (fun _ ↦ none)
      payload with
  | none => simp
  | some requestedCodecs => simp [Reaction.Fits, hsize]

/-- A frame of a type that has no unbounded answer. -/
theorem fits_iff_of_none {frameType : FrameType} {handled : Handled BrokerRuntime}
    (hnone : session.answerBytes config env readiness stored frameType payload = none)
    (hfits : handled.reaction.Fits config.session.maxFrameBytes) :
    handled.reaction.Fits config.session.maxFrameBytes ↔
      ∀ bytes ∈ session.answerBytes config env readiness stored frameType payload,
        kFrameHeaderBytes + bytes ≤ config.session.maxFrameBytes := by
  rw [hnone]
  exact iff_of_true hfits fun bytes hbytes ↦ absurd hbytes (by simp)

theorem size_sync (h : stored.Named) {request : GroupMember}
    (hgroup : isValidGroupName request.group = true) :
    (BrokerRuntime.syncGroup env request stored).2.toOption.map (fun response ↦
      (encodeSyncGroupResponse response).length) =
        stored.memberBytes (fun member ↦ 4 + 2 * member.assignment.length) env request :=
  BrokerRuntime.size_memberCall (fun assignment ↦ 4 + 2 * assignment.length) hgroup
    ((h.groups.expire _ _ _).sync_answer _ _ _ _ _) fun result ↦ by
      rw [length_encodeSyncGroupResponse]
      dsimp only
      omega

theorem length_ok : (text "ok").length = 2 := length_text _

theorem size_heartbeat (h : stored.Named) {request : GroupMember}
    (hgroup : isValidGroupName request.group = true) :
    (BrokerRuntime.heartbeatGroup env request stored).2.toOption.map (fun response ↦
      (encodeHeartbeatResponse response).length) =
        stored.memberBytes (fun _ ↦ 6) env request :=
  BrokerRuntime.size_memberCall (fun _ ↦ 6) hgroup
    ((h.groups.expire _ _ _).heartbeat_answer _ _ _ _ _) fun result ↦ by
      rw [encodeHeartbeatResponse, length_writeGroupMemberStatus]
      dsimp only
      rw [length_ok]
      omega

theorem length_left : (text "left").length = 4 := length_text _

theorem size_leave (h : stored.Named) {request : GroupMember}
    (hgroup : isValidGroupName request.group = true) :
    (BrokerRuntime.leaveGroup env request stored).2.toOption.map (fun response ↦
      (encodeLeaveGroupResponse response).length) =
        stored.memberBytes (fun _ ↦ 8) env request :=
  BrokerRuntime.size_memberCall (fun _ ↦ 8) hgroup
    ((h.groups.expire _ _ _).leave_answer _ _ _ _ _) fun result ↦ by
      rw [encodeLeaveGroupResponse, length_writeGroupMemberStatus]
      dsimp only
      rw [length_left]
      omega

/-- What a handler writes fits exactly if the size of the answer does. -/
theorem fits_handleFrame_iff (h : stored.Named)
    (hmax : kDefaultMaxFrameBytes ≤ config.session.maxFrameBytes)
    (hpayload : kFrameHeaderBytes + payload.length ≤ config.session.maxFrameBytes)
    (frameType : FrameType) :
    (session.handleFrame Z (BrokerRuntime.operations Z config env) config.session readiness
        stored frameType payload).reaction.Fits config.session.maxFrameBytes ↔
      ∀ bytes ∈ session.answerBytes config env readiness stored frameType payload,
        kFrameHeaderBytes + bytes ≤ config.session.maxFrameBytes := by
  have hroom : kFrameHeaderBytes + 1048544 ≤ config.session.maxFrameBytes := hmax
  cases frameType
  case healthRequest => exact fits_handleHealth_iff hmax
  case metadataRequest => exact fits_handleMetadata_iff hmax
  case produceRequest => exact fits_iff_of_none rfl (fits_handleProduce hmax payload)
  case produceBatchRequest =>
    refine fits_iff_of_none rfl (fits_handleProduceBatch Z hmax fun request response hcall ↦ ?_)
    have hshort := BrokerRuntime.length_produceBatch h hcall
    omega
  case fetchRequest => exact fits_iff_of_none rfl (fits_handleFetch hmax payload)
  case authRequest => exact fits_iff_of_none rfl (fits_handleAuth hmax payload)
  case createTopicRequest =>
    refine fits_iff_of_none rfl (fits_handleCall hmax fun request response _ hcall ↦ ?_)
    have hshort := BrokerRuntime.length_createTopic h hcall
    omega
  case deleteTopicRequest =>
    refine fits_iff_of_none rfl (fits_handleCall hmax fun request response _ hcall ↦ ?_)
    have hshort := BrokerRuntime.length_deleteTopic h hcall
    omega
  case resetGroupOffsetRequest =>
    refine fits_iff_of_none rfl (fits_handleCall hmax fun request response _ hcall ↦ ?_)
    have hshort := BrokerRuntime.length_resetGroupOffset h hcall
    omega
  case offsetCommitRequest =>
    refine fits_iff_of_none rfl (fits_handleCall hmax fun request response hdecode hcall ↦ ?_)
    rw [BrokerRuntime.commitOffset_ok hcall, encodeOffsetCommitResponse,
      ((decodePayload_exact offsetCommit_exact _ _).encode_decode _ _ hdecode).2]
    exact hpayload
  case groupOffsetCommitRequest =>
    refine fits_iff_of_none rfl (fits_handleCall hmax fun request response hdecode hcall ↦ ?_)
    rw [encodeGroupOffsetCommitResponse, BrokerRuntime.length_commitGroupOffset hcall,
      ((decodePayload_exact groupOffsetCommit_exact _ _).encode_decode _ _ hdecode).2]
    exact hpayload
  case listTopicsRequest =>
    refine (fits_handleCall_iff hmax (fun _ ↦ some stored.listTopicsBytes) fun request _ ↦
      BrokerRuntime.size_listTopics request stored).trans ?_
    rw [answerBytes, Option.map_eq_bind]
    rfl
  case describeTopicRequest =>
    exact fits_handleCall_iff hmax stored.describeTopicBytes fun request hrequest ↦
      BrokerRuntime.size_describeTopic (isValidTopicName_of_check (mem_asked hrequest).2)
  case describeGroupRequest =>
    exact fits_handleCall_iff hmax stored.describeGroupBytes fun request hrequest ↦
      BrokerRuntime.size_describeGroup (isValidGroupName_of_check (mem_asked hrequest).2)
  case runRetentionRequest =>
    refine fits_handleCall_iff hmax (stored.runRetentionBytes config env)
      fun request hrequest ↦ BrokerRuntime.size_runRetention fun hpresent ↦ ?_
    have hname := (mem_asked hrequest).2
    rw [hpresent] at hname
    exact isValidTopicName_of_check hname
  case joinGroupRequest =>
    exact fits_handleCall_iff hmax stored.joinGroupBytes fun request hrequest ↦
      BrokerRuntime.size_joinGroup h (isValidGroupName_of_check (mem_asked hrequest).2)
  case syncGroupRequest =>
    exact fits_handleCall_iff hmax _ fun request hrequest ↦
      size_sync h (isValidGroupName_of_check (mem_asked hrequest).2)
  case heartbeatRequest =>
    exact fits_handleCall_iff hmax _ fun request hrequest ↦
      size_heartbeat h (isValidGroupName_of_check (mem_asked hrequest).2)
  case leaveGroupRequest =>
    exact fits_handleCall_iff hmax _ fun request hrequest ↦
      size_leave h (isValidGroupName_of_check (mem_asked hrequest).2)
  all_goals exact fits_iff_of_none rfl (fits_writeError hmax _ _ _)

end Frames

end ProtocolSession

/-! ## Turns -/

/-- What happens next, and what the operations find then. -/
structure RuntimeTurn where
  env : OperationEnv
  event : SessionEvent BrokerRuntime

section Turns

variable (Z : Zstd) (config : RuntimeConfig)

def BrokerSession.turn (s : BrokerSession BrokerRuntime) (turn : RuntimeTurn) :
    BrokerSession BrokerRuntime :=
  s.step Z (BrokerRuntime.operations Z config turn.env) config.session turn.event

def BrokerSession.turns (s : BrokerSession BrokerRuntime) (turns : List RuntimeTurn) :
    BrokerSession BrokerRuntime :=
  turns.foldl (BrokerSession.turn Z config) s

/-- What happens to the runtime beside a session: events of other sessions, and the work
of the append threads. -/
inductive OtherWork : (BrokerRuntime → BrokerRuntime) → Prop
  | session (other : BrokerSession BrokerRuntime) (turn : RuntimeTurn)
      (hown : ∀ change, turn.event ≠ .elsewhere change) :
      OtherWork fun stored ↦ ({ other with stored := stored }.turn Z config turn).stored
  | append (env : OperationEnv) (topic : Bytes) (partition : ℕ) (clock : AppendClock)
      (jobs : List ProduceRequest) :
      OtherWork (BrokerRuntime.appendJobs config env topic partition clock jobs)

/-- The events of a broker: a payload has the length that its header announces, a produce
request is completed by an append to a log of its topic, and elsewhere is other work. -/
inductive Occurs : SessionEvent BrokerRuntime → Prop
  | frame (header payload : Bytes)
      (hlength : payload.length =
        (decodeHeader header config.session.maxFrameBytes).header.payloadBytes) :
      Occurs (.frame header payload)
  | written (failed : Bool) : Occurs (.written failed)
  | appended (log : PartitionLog) (clock : AppendClock) (fault : Option AppendFault)
      (env : RetentionEnv) (jobs : List ProduceRequest) (result : ProduceResult)
      (hdirectory : log.options.topic.length ≤ 255)
      (hresult : result ∈
        (runAppendBatch log clock fault env config.retentionPolicy jobs).results)
      (hok : result.ok = true) : Occurs (.appendCompleted (.ok result.response))
  | appendFailed (failure : Failure) : Occurs (.appendCompleted (.error failure))
  | waiterNotified : Occurs .waiterNotified
  | timerExpired : Occurs .timerExpired
  | disconnected : Occurs .disconnected
  | readinessChanged (readiness : Readiness) : Occurs (.readinessChanged readiness)
  | elsewhere (change : BrokerRuntime → BrokerRuntime) (hwork : OtherWork Z config change) :
      Occurs (.elsewhere change)

/-- The answer to a frame that the session accepts is not too long, if its size depends
on what is served or on the request. -/
def BrokerSession.TurnFits (s : BrokerSession BrokerRuntime) (turn : RuntimeTurn) : Prop :=
  match turn.event with
  | .frame _ payload =>
      ∀ header ∈ s.accepts config.session turn.event,
        ∀ bytes ∈ ({ s.session with protocolVersion := header.version } :
            ProtocolSession).answerBytes config turn.env s.readiness s.stored header.frameType
              payload,
          kFrameHeaderBytes + bytes ≤ config.session.maxFrameBytes
  | _ => True

end Turns

namespace BrokerSession

variable {Z : Zstd} {config : RuntimeConfig} {s : BrokerSession BrokerRuntime}
  {turn : RuntimeTurn}

theorem named_otherWork {change : BrokerRuntime → BrokerRuntime}
    (h : OtherWork Z config change) {stored : BrokerRuntime} (hstored : stored.Named) :
    (change stored).Named := by
  cases h with
  | session other turn hown =>
      exact stored_step Z (BrokerRuntime.operations_keep Z config turn.env) hstored hown
  | append env topic partition clock jobs => exact hstored.appendJobs _ _ _ _

/-- A turn keeps the names. -/
theorem named_turn (h : s.stored.Named) (hoccurs : Occurs Z config turn.event) :
    (s.turn Z config turn).stored.Named := by
  by_cases helsewhere : ∃ change, turn.event = .elsewhere change
  · obtain ⟨change, hchange⟩ := helsewhere
    rw [hchange] at hoccurs
    cases hoccurs with
    | elsewhere _ hwork =>
        have hnamed := named_otherWork hwork h
        rw [BrokerSession.turn, hchange]
        exact hnamed
  · exact stored_step Z (BrokerRuntime.operations_keep Z config turn.env) h
      fun change hchange ↦ helsewhere ⟨change, hchange⟩

theorem responses_cancelActiveWaiter {σ : Type} (runtime : Runtime σ) (s : BrokerSession σ) :
    (s.cancelActiveWaiter runtime).responses = s.responses := by
  rw [cancelActiveWaiter]
  split
  · rfl
  · rfl

theorem framesFit_congr {σ : Type} {maxFrameBytes : ℕ} {s t : BrokerSession σ}
    (h : t.responses = s.responses) : t.FramesFit maxFrameBytes ↔ s.FramesFit maxFrameBytes := by
  rw [FramesFit, FramesFit, h]

theorem framesFit_endPoll {σ : Type} {runtime : Runtime σ} {config : BrokerConfig}
    (hmax : kDefaultMaxFrameBytes ≤ config.maxFrameBytes) (s : BrokerSession σ)
    (correlationId : ℕ) (request : FetchRequest) :
    (s.endPoll runtime config correlationId request).FramesFit config.maxFrameBytes ↔
      s.FramesFit config.maxFrameBytes := by
  rw [endPoll, conclude, framesFit_react]
  exact and_iff_left (ProtocolSession.fits_fetchNow hmax request)

theorem accepts_frame {σ : Type} {config : BrokerConfig} {s : BrokerSession σ}
    (hphase : s.session.phase = .readHeader) (header payload : Bytes) :
    s.accepts config (.frame header payload) =
      if (decodeHeader header config.maxFrameBytes).error = none ∧
          (s.session.protocolVersion = 0 ∨ s.session.protocolVersion =
            (decodeHeader header config.maxFrameBytes).header.version) then
        some (decodeHeader header config.maxFrameBytes).header
      else none := by
  unfold accepts
  rw [hphase]

/-- A turn that is no accepted frame. -/
theorem and_turnFits_iff {P : Prop} (h : s.accepts config.session turn.event = none) :
    P ∧ s.TurnFits config turn ↔ P := by
  refine and_iff_left ?_
  rw [TurnFits]
  split
  · rw [h]
    exact fun header hheader ↦ absurd hheader (by simp)
  · trivial

/-- A received frame. -/
theorem framesFit_receive (h : s.stored.Named)
    (hmax : kDefaultMaxFrameBytes ≤ config.session.maxFrameBytes) {header payload : Bytes}
    (hlength : payload.length =
      (decodeHeader header config.session.maxFrameBytes).header.payloadBytes)
    (hevent : turn.event = .frame header payload) (hphase : s.session.phase = .readHeader) :
    (s.receive Z (BrokerRuntime.operations Z config turn.env) config.session header
        payload).FramesFit config.session.maxFrameBytes ↔
      s.FramesFit config.session.maxFrameBytes ∧ s.TurnFits config turn := by
  have haccepts : s.accepts config.session (.frame header payload) = _ :=
    accepts_frame hphase header payload
  rw [← hevent] at haccepts
  rw [receive]
  dsimp only
  cases herror : (decodeHeader header config.session.maxFrameBytes).error with
  | some error =>
      rw [herror, if_neg (by simp)] at haccepts
      dsimp only
      rw [and_turnFits_iff haccepts, framesFit_react]
      exact and_iff_left (fits_writeError hmax _ _ _)
  | none =>
      have hpayload := payloadBytes_le_of_decodeHeader herror
      rw [← hlength, Nat.add_comm] at hpayload
      dsimp only
      split_ifs with hversion
      · rw [if_neg (by rintro ⟨-, hzero | hsame⟩
                       · exact hversion.1 hzero
                       · exact hversion.2 hsame)] at haccepts
        rw [and_turnFits_iff haccepts, framesFit_react]
        exact and_iff_left (fits_writeError hmax _ _ _)
      · rw [if_pos ⟨herror, by
          rw [not_and_or, not_not, not_not] at hversion
          exact hversion⟩] at haccepts
        rw [conclude, framesFit_react, TurnFits, hevent]
        dsimp only
        rw [← hevent, haccepts]
        simp only [Option.mem_def, Option.some.injEq, forall_eq']
        exact and_congr_right' (ProtocolSession.fits_handleFrame_iff h hmax hpayload _)

/-- Only the answer to a frame can be too long. -/
theorem framesFit_turn (h : s.stored.Named)
    (hmax : kDefaultMaxFrameBytes ≤ config.session.maxFrameBytes)
    (hoccurs : Occurs Z config turn.event) :
    (s.turn Z config turn).FramesFit config.session.maxFrameBytes ↔
      s.FramesFit config.session.maxFrameBytes ∧ s.TurnFits config turn := by
  have hroom : kFrameHeaderBytes + 1048544 ≤ config.session.maxFrameBytes := hmax
  rw [BrokerSession.turn]
  unfold step
  split
  case h_1 header payload hevent hphase =>
    rw [hevent] at hoccurs
    cases hoccurs with
    | frame _ _ hlength => exact framesFit_receive h hmax hlength hevent hphase
  case h_2 failed closeAfterWrite hevent _ =>
    rw [and_turnFits_iff (by rw [hevent]; rfl)]
    split_ifs
    · exact framesFit_congr (responses_cancelActiveWaiter _ s)
    · exact framesFit_congr rfl
    · exact framesFit_congr rfl
  case h_3 response correlationId hevent _ =>
    rw [and_turnFits_iff (by rw [hevent]; rfl), framesFit_writeFrame]
    refine and_iff_left ?_
    rw [hevent] at hoccurs
    cases hoccurs with
    | appended log clock fault env jobs result hdirectory hresult hok =>
        rw [BrokerRuntime.length_encodeProduceResponse, topic_runAppendBatch hresult hok]
        omega
  case h_4 failure correlationId hevent _ =>
    rw [and_turnFits_iff (by rw [hevent]; rfl), framesFit_react]
    exact and_iff_left (fits_writeFailure hmax failure)
  case h_5 correlationId request hevent _ =>
    rw [and_turnFits_iff (by rw [hevent]; rfl)]
    exact framesFit_endPoll hmax s correlationId request
  case h_6 correlationId request hevent _ =>
    rw [and_turnFits_iff (by rw [hevent]; rfl)]
    exact (framesFit_endPoll hmax _ correlationId request).trans
      (framesFit_congr (responses_cancelActiveWaiter _ s))
  case h_7 hevent _ =>
    rw [and_turnFits_iff (by rw [hevent]; rfl)]
    exact framesFit_congr rfl
  case h_8 readiness hevent =>
    rw [and_turnFits_iff (by rw [hevent]; rfl)]
    exact framesFit_congr rfl
  case h_9 change hevent =>
    rw [and_turnFits_iff (by rw [hevent]; rfl)]
    exact framesFit_congr rfl
  case h_10 =>
    have hframe : ∀ header payload, turn.event = .frame header payload →
        s.session.phase = .readHeader → False := by assumption
    have hnone : s.accepts config.session turn.event = none := by
      cases haccepts : s.accepts config.session turn.event with
      | none => rfl
      | some header =>
          cases hevent : turn.event with
          | frame header payload =>
              exact (hframe header payload hevent (accepts_eq_some haccepts).1).elim
          | _ =>
              rw [hevent] at haccepts
              cases haccepts
    rw [and_turnFits_iff hnone]

theorem framesFit_turns (h : s.stored.Named)
    (hmax : kDefaultMaxFrameBytes ≤ config.session.maxFrameBytes) {turns : List RuntimeTurn}
    (hoccurs : ∀ turn ∈ turns, Occurs Z config turn.event) :
    (s.turns Z config turns).FramesFit config.session.maxFrameBytes ↔
      s.FramesFit config.session.maxFrameBytes ∧
        Along (fun s turn ↦ some (s.turn Z config turn)) (fun s turn ↦ s.TurnFits config turn) s
          turns := by
  induction turns generalizing s with
  | nil => exact (and_iff_left trivial).symm
  | cons turn turns ih =>
      have hfirst := hoccurs turn List.mem_cons_self
      have hrest := ih (named_turn h hfirst) fun other hother ↦
        hoccurs other (List.mem_cons_of_mem turn hother)
      rw [framesFit_turn h hmax hfirst, and_assoc] at hrest
      refine hrest.trans (and_congr_right' (and_congr_right' ?_))
      simp only [Option.some.injEq, forall_eq']

/-! ### What a client takes -/

/-- A frame that the broker writes is taken by a client with its maximum if it fits. -/
theorem decodeFrame_encodeFrame_iff {maxFrameBytes : UInt32} {version : ℕ}
    (hversion : version = 4 ∨ version = 5) (frameType : FrameType) (correlationId : ℕ)
    (payload : Bytes) :
    (encodeFrame version frameType correlationId payload 0).length ≤ maxFrameBytes.toNat ↔
      ∃ received, decodeFrame (encodeFrame version frameType correlationId payload 0)
        maxFrameBytes.toNat = .ok received := by
  constructor
  · intro hlength
    rw [length_encodeFrame] at hlength
    set wire : WireFrame maxFrameBytes :=
      ⟨version, UInt16.ofNat frameType.toField, UInt64.ofNat correlationId, payload, hversion,
        hlength⟩ with hwire
    have htype : writeU16 (FrameType.ofField wire.frameType.toNat).toField =
        writeU16 frameType.toField := by
      rw [FrameType.toField_ofField, hwire, UInt16.toNat_ofNat']
      exact beBytes_mod 2 frameType.toField 2 le_rfl
    have hcorrelation : writeU64 wire.correlationId.toNat = writeU64 correlationId := by
      rw [hwire, UInt64.toNat_ofNat']
      exact beBytes_mod 8 correlationId 8 le_rfl
    have hfields : headerFields version (.ofField wire.frameType.toNat) wire.correlationId.toNat
        payload.length 0 = headerFields version frameType correlationId payload.length 0 := by
      rw [headerFields, headerFields, htype, hcorrelation]
    have hframe : wire.encode = encodeFrame version frameType correlationId payload 0 := by
      rw [WireFrame.encode, encodeFrame, encodeFrame, hfields]
    exact ⟨wire.frame, hframe ▸ decodeFrame_encode wire⟩
  · rintro ⟨received, hreceived⟩
    obtain ⟨wire, hwire⟩ := exists_wireFrame hreceived
    rw [hwire, wire.length_encode]
    exact wire.fits

/-- The frames that were sent have a version that clients support. -/
structure Written {σ : Type} (s : BrokerSession σ) : Prop where
  version : s.session.protocolVersion = 0 ∨ s.session.protocolVersion = 4 ∨
    s.session.protocolVersion = 5
  frames : ∀ frame ∈ s.responses, ∃ version frameType correlationId payload,
    (version = 4 ∨ version = 5) ∧ frame = encodeFrame version frameType correlationId payload 0

theorem written_turn (h : s.Written) (turn : RuntimeTurn) : (s.turn Z config turn).Written := by
  obtain ⟨hversion, -, hresponses⟩ := s.step_advances Z
    (BrokerRuntime.operations Z config turn.env) config.session turn.event
  have hsupported : (s.turn Z config turn).session.protocolVersion = 0 ∨
      (s.turn Z config turn).session.protocolVersion = 4 ∨
      (s.turn Z config turn).session.protocolVersion = 5 := by
    rw [BrokerSession.turn, hversion]
    cases haccepts : s.accepts config.session turn.event with
    | none => exact h.version
    | some header => exact Or.inr (accepts_eq_some haccepts).2.1
  refine ⟨hsupported, fun frame hframe ↦ ?_⟩
  rcases hresponses with hsame | ⟨frameType, correlationId, payload, -, happend, -⟩
  · exact h.frames frame (hsame ▸ hframe)
  · rcases List.mem_append.mp (happend ▸ hframe) with hframe | hframe
    · exact h.frames frame hframe
    · refine ⟨_, frameType, correlationId, payload, ?_, List.mem_singleton.mp hframe⟩
      rw [ProtocolSession.writtenVersion]
      split_ifs with hzero
      · exact Or.inr rfl
      · exact hsupported.resolve_left hzero

theorem written_turns (h : s.Written) (turns : List RuntimeTurn) :
    (s.turns Z config turns).Written := by
  induction turns generalizing s with
  | nil => exact h
  | cons turn turns ih => exact ih (written_turn h turn)

end BrokerSession

/-- In every run, the frames that were sent fit the maximum exactly if every turn fits: no
request was accepted whose answer is too long for what is served and what it names.  A
client with the same maximum takes exactly the frames that fit. -/
theorem responses_fit_iff (Z : Zstd) {config : RuntimeConfig}
    (hmax : kDefaultMaxFrameBytes ≤ config.session.maxFrameBytes) (readiness : Readiness)
    {stored : BrokerRuntime} (hnamed : stored.Named) {turns : List RuntimeTurn}
    (hoccurs : ∀ turn ∈ turns, Occurs Z config turn.event) :
    (((BrokerSession.opened config.session readiness stored).turns Z config turns).FramesFit
        config.session.maxFrameBytes ↔
      Along (fun s turn ↦ some (s.turn Z config turn)) (fun s turn ↦ s.TurnFits config turn)
        (BrokerSession.opened config.session readiness stored) turns) ∧
      ∀ frame ∈ ((BrokerSession.opened config.session readiness stored).turns Z config
          turns).responses,
        frame.length ≤ config.session.maxFrameBytes ↔
          ∃ received, decodeFrame frame config.session.maxFrameBytes = .ok received := by
  have hwritten : (BrokerSession.opened config.session readiness stored).Written :=
    ⟨Or.inl rfl, fun frame hframe ↦ absurd hframe (by simp [BrokerSession.opened])⟩
  constructor
  · refine (BrokerSession.framesFit_turns hnamed hmax hoccurs).trans (and_iff_right ?_)
    exact fun frame hframe ↦ absurd hframe (by simp [BrokerSession.opened])
  · intro frame hframe
    obtain ⟨version, frameType, correlationId, payload, hversion, rfl⟩ :=
      (BrokerSession.written_turns hwritten turns).frames frame hframe
    exact BrokerSession.decodeFrame_encodeFrame_iff hversion frameType correlationId payload

/-! ## Two brokers -/

/-- Names that are too long for a file fail. -/
def longTopicFault (topic : Bytes) : Option TopicFault :=
  if 255 < topic.length then some ⟨{ done := 0 }, "File name too long"⟩ else none

def longGroupFault (group : Bytes) : Option OffsetStore.CommitFault :=
  if 255 < group.length then some (.createDirectory "File name too long") else none

theorem longTopicFault_done (topic : Bytes) (h : 255 < topic.length) :
    ∃ fault, longTopicFault topic = some fault ∧ fault.stop.done = 0 :=
  ⟨_, if_pos h, rfl⟩

theorem longGroupFault_ne (group : Bytes) (h : 255 < group.length) :
    longGroupFault group ≠ none := by
  rw [longGroupFault, if_pos h]
  exact Option.some_ne_none _

/-- Nothing else fails. -/
def sparingEnv : OperationEnv where
  utcNow := text "2024-01-01T00:00:00Z"
  first := 0
  second := 0
  timestamp := 0
  queueFull := false
  appendFault := none
  retention := fun _ _ ↦ ⟨fun _ ↦ ⟨none, 0⟩, fun _ ↦ false, fun _ ↦ false⟩
  topicFault := longTopicFault
  deleteFault := none
  commitFault := longGroupFault
  topicNames := longTopicFault_done
  groupNames := longGroupFault_ne

/-- The default limits, but for the partitions of a topic, and no token. -/
def wideTopics : RuntimeConfig where
  topics := { TopicStore.smallTopics with maxTopicPartitions := 65535 }
  brokerToken := []
  maxFetchWaitMs := 30000
  maxLongPollWaiters := 1024
  retentionPolicy := ⟨0, 0⟩

/-- A broker on an empty data directory. -/
def emptyRuntime : BrokerRuntime := ⟨TopicStore.emptyBroker, .initial⟩

/-- The broker after a request that creates a topic `t`. -/
def runtimeWith (partitionCount : ℕ) : BrokerRuntime :=
  (BrokerRuntime.createTopic noZstd wideTopics sparingEnv ⟨[116], partitionCount⟩ emptyRuntime).1

/-- The topic has as many partitions as there can be. -/
def wideRuntime : BrokerRuntime := runtimeWith 65535

def listTopicsTurn : RuntimeTurn :=
  ⟨sparingEnv, .frame ((encodeFrame 5 .listTopicsRequest 1 [] 0).take kFrameHeaderBytes) []⟩

def listening (stored : BrokerRuntime) : BrokerSession BrokerRuntime :=
  .opened wideTopics.session ⟨true, text "ready"⟩ stored

theorem maxFrameBytes_wideTopics : wideTopics.session.maxFrameBytes = 1048576 := rfl

theorem default_le_wideTopics : kDefaultMaxFrameBytes ≤ wideTopics.session.maxFrameBytes := by
  rw [maxFrameBytes_wideTopics, kDefaultMaxFrameBytes]

theorem named_emptyRuntime : emptyRuntime.Named :=
  ⟨fun topic served hserved ↦ absurd hserved (by simp [emptyRuntime, TopicStore.emptyBroker]),
    GroupCoordinator.named_empty⟩

theorem occurs_listTopicsTurn : Occurs noZstd wideTopics listTopicsTurn.event :=
  .frame _ _ (by decide)

/-- The session accepts the request, and its answer has the size of the list. -/
theorem turnFits_listTopicsTurn_iff (stored : BrokerRuntime) :
    (listening stored).TurnFits wideTopics listTopicsTurn ↔
      kFrameHeaderBytes + stored.listTopicsBytes ≤ wideTopics.session.maxFrameBytes := by
  set decoded := decodeHeader ((encodeFrame 5 .listTopicsRequest 1 [] 0).take kFrameHeaderBytes)
    wideTopics.session.maxFrameBytes with hdecoded
  have hheader : decoded.error = none ∧ decoded.header.frameType = .listTopicsRequest := by
    rw [hdecoded]
    decide +kernel
  have haccepts : (listening stored).accepts wideTopics.session listTopicsTurn.event =
      some decoded.header := by
    rw [listTopicsTurn, BrokerSession.accepts_frame rfl, ← hdecoded]
    exact if_pos ⟨hheader.1, Or.inl rfl⟩
  rw [BrokerSession.TurnFits]
  change (∀ header ∈ (listening stored).accepts wideTopics.session listTopicsTurn.event, _) ↔ _
  rw [haccepts]
  simp only [Option.mem_def, Option.some.injEq, forall_eq', hheader.2]
  exact ⟨fun h ↦ h _ rfl, fun h bytes hbytes ↦ Option.some.inj hbytes ▸ h⟩

theorem named_runtimeWith (partitionCount : ℕ) : (runtimeWith partitionCount).Named :=
  (BrokerRuntime.operations_keep noZstd wideTopics sparingEnv).createTopic _ emptyRuntime
    named_emptyRuntime

/-- A topic `t` is created with all its partitions. -/
theorem topics_createTopic {partitionCount : ℕ}
    (hcount : ¬ (partitionCount = 0 ∨
      partitionCount > wideTopics.topics.maxTopicPartitions.toNat)) :
    ∃ served : ServedTopic, served.partitions.length = partitionCount ∧
      (runtimeWith partitionCount).store.topics =
        (∅ : SortedMap Bytes ServedTopic).insert [116] served := by
  have hname : isValidTopicName [116] = true := by decide
  obtain ⟨served, hserved, -⟩ := openTopicState_ok noZstd wideTopics.topics
    (runSteps noZstd wideTopics.topics TopicStore.emptyBroker.data
      (manifestSteps ⟨[116], partitionCount, sparingEnv.utcNow⟩)) hname partitionCount
  refine ⟨served, ?_, ?_⟩
  · rw [← (openTopicState_opens hserved).length_eq, List.length_range]
  · have hfault : sparingEnv.topicFault [116] = none := by
      change longTopicFault [116] = none
      rw [longTopicFault]
      exact if_neg (by decide)
    have hempty : TopicStore.emptyBroker.topics.find? [116] = none := rfl
    rw [runtimeWith, BrokerRuntime.createTopic]
    dsimp only [emptyRuntime]
    rw [TopicStore.createTopic, if_neg (by simp [hname]), if_neg hcount]
    dsimp only
    rw [hempty, hfault]
    dsimp only [Option.bind_none]
    rw [hserved]
    rfl

/-- The topic takes 19 bytes, and each partition 30. -/
theorem listTopicsBytes_runtimeWith {partitionCount : ℕ}
    (hcount : ¬ (partitionCount = 0 ∨
      partitionCount > wideTopics.topics.maxTopicPartitions.toNat)) :
    (runtimeWith partitionCount).listTopicsBytes = 23 + 30 * partitionCount := by
  obtain ⟨served, hlength, htopics⟩ := topics_createTopic hcount
  rw [BrokerRuntime.listTopicsBytes, htopics]
  change 4 + (18 + 1 + 30 * served.partitions.length + 0) = 23 + 30 * partitionCount
  rw [hlength]
  omega

/-- The longest list of one topic that still fits. -/
theorem responses_fit_iff_longestList :
    ((listening (runtimeWith 34950)).turns noZstd wideTopics [listTopicsTurn]).FramesFit
      wideTopics.session.maxFrameBytes := by
  refine (responses_fit_iff noZstd default_le_wideTopics ⟨true, text "ready"⟩
    (named_runtimeWith 34950) (List.forall_mem_singleton.mpr occurs_listTopicsTurn)).1.mpr
      ⟨?_, fun _ _ ↦ trivial⟩
  refine (turnFits_listTopicsTurn_iff (runtimeWith 34950)).mpr ?_
  rw [listTopicsBytes_runtimeWith (by decide), maxFrameBytes_wideTopics,
    kFrameHeaderBytes]
  omega

/-- The list of one topic can be too long for the client that has asked for it. -/
theorem not_framesFit_wideRuntime :
    kDefaultMaxFrameBytes ≤ wideTopics.session.maxFrameBytes ∧ wideRuntime.Named ∧
      Occurs noZstd wideTopics listTopicsTurn.event ∧
      ¬ ((listening wideRuntime).turns noZstd wideTopics [listTopicsTurn]).FramesFit
        wideTopics.session.maxFrameBytes := by
  have hnamed : wideRuntime.Named := named_runtimeWith 65535
  refine ⟨default_le_wideTopics, hnamed, occurs_listTopicsTurn, ?_⟩
  rw [BrokerSession.framesFit_turns (s := listening wideRuntime) hnamed
    default_le_wideTopics (List.forall_mem_singleton.mpr occurs_listTopicsTurn)]
  rintro ⟨-, hfit, -⟩
  have hlist := (turnFits_listTopicsTurn_iff wideRuntime).mp hfit
  rw [wideRuntime, listTopicsBytes_runtimeWith (by decide), maxFrameBytes_wideTopics,
    kFrameHeaderBytes] at hlist
  omega

end BoltStream.Broker
