import BoltStream.Broker.AuthGate
import BoltStream.Protocol.Framing

/-!
# Versions and codecs of a session

The first frame that a session accepts fixes the version of all that follow it and of
every response.  Compressed batches go out and come in only on sessions of version 5
whose last metadata request has offered zstd.
-/

namespace BoltStream.Broker

open BoltStream.Lib BoltStream.Protocol BoltStream.Compression BoltStream.Storage

variable {σ : Type}

/-! ## The layouts of a fetch response -/

def IsPlain (payload : Bytes) : Prop := ∃ response, payload = encodeFetchResponse response

def IsCompressed (payload : Bytes) : Prop :=
  ∃ topic partition baseOffset nextOffset timestampUnixNs codec recordCount uncompressedBytes
    encodedRecords, payload = encodeCompressedFetchResponse topic partition baseOffset nextOffset
      timestampUnixNs codec recordCount uncompressedBytes encodedRecords

theorem mod_eq_of_beBytes {width n m : ℕ} (h : beBytes width n = beBytes width m) :
    n % 256 ^ width = m % 256 ^ width := by
  rw [← beNat_beBytes, ← beNat_beBytes, h]

/-- The last field of the front of a response can be read off. -/
theorem marker_of_head {topic topic' rest rest' : Bytes}
    {partition partition' fromOffset fromOffset' nextOffset nextOffset' marker marker' : ℕ}
    (htopic : topic.length < 2 ^ 32) (htopic' : topic'.length < 2 ^ 32)
    (h : fetchResponseHead topic partition fromOffset nextOffset marker ++ rest =
      fetchResponseHead topic' partition' fromOffset' nextOffset' marker' ++ rest') :
    marker % 2 ^ 32 = marker' % 2 ^ 32 := by
  simp only [fetchResponseHead, writeBytes, List.append_assoc] at h
  obtain ⟨hcount, h⟩ := List.append_inj h (by simp)
  have hlength : topic.length = topic'.length := by
    have hmod := mod_eq_of_beBytes hcount
    rwa [show 256 ^ 4 = 2 ^ 32 by norm_num, Nat.mod_eq_of_lt htopic, Nat.mod_eq_of_lt htopic']
      at hmod
  obtain ⟨-, h⟩ := List.append_inj h hlength
  obtain ⟨-, h⟩ := List.append_inj h (by simp)
  obtain ⟨-, h⟩ := List.append_inj h (by simp)
  obtain ⟨-, h⟩ := List.append_inj h (by simp)
  obtain ⟨hmarker, -⟩ := List.append_inj h (by simp)
  exact mod_eq_of_beBytes hmarker

theorem length_flatMap_encode_ge (records : List FetchRecord) :
    28 * records.length ≤ (records.flatMap FetchRecord.encode).length := by
  induction records with
  | nil => exact Nat.zero_le _
  | cons record records ih =>
      have hrecord : 28 ≤ record.encode.length := by
        simp only [FetchRecord.encode, writeBytes, List.length_append, length_writeU64,
          length_writeU32]
        omega
      rw [List.flatMap_cons, List.length_append, List.length_cons]
      omega

/-- A plain response that fits a frame is not one of the compressed layout: the marker
would count more records than fit. -/
theorem not_isCompressed_of_plain {response : FetchResponse}
    (hfits : (encodeFetchResponse response).length < 2 ^ 32) :
    ¬ IsCompressed (encodeFetchResponse response) := by
  rintro ⟨topic, partition, baseOffset, nextOffset, timestampUnixNs, codec, recordCount,
    uncompressedBytes, encodedRecords, hsame⟩
  have hlength := congrArg List.length hsame
  have htopic : response.topic.length ≤ (encodeFetchResponse response).length := by
    simp only [encodeFetchResponse, fetchResponseHead, writeBytes, List.length_append]
    omega
  have htopic' : topic.length ≤ (encodeFetchResponse response).length := by
    rw [hlength]
    simp only [encodeCompressedFetchResponse, fetchResponseHead, writeBytes, List.length_append]
    omega
  have hmarker := marker_of_head (htopic.trans_lt hfits) (htopic'.trans_lt hfits) hsame
  have hrecords := length_flatMap_encode_ge response.records
  have hmany : kCompressedFetchMarker ≤ response.records.length := by
    calc kCompressedFetchMarker = kCompressedFetchMarker % 2 ^ 32 := by decide
      _ = response.records.length % 2 ^ 32 := hmarker.symm
      _ ≤ response.records.length := Nat.mod_le _ _
  rw [encodeFetchResponse, List.length_append] at hfits
  rw [kCompressedFetchMarker] at hmany
  omega

/-! ## Sent frames -/

/-- The version that `write_frame` puts into a header. -/
def ProtocolSession.writtenVersion (session : ProtocolSession) : ℕ :=
  if session.protocolVersion = 0 then kProtocolVersion else session.protocolVersion

/-- The one response sent between two states is a fetch response with this payload. -/
def BrokerSession.SendsFetchResponse (before after : BrokerSession σ) (payload : Bytes) : Prop :=
  ∃ version correlationId, after.responses =
    before.responses ++ [encodeFrame version .fetchResponse correlationId payload 0]

theorem encodeFrame_inj {version version' correlationId correlationId' : ℕ}
    {frameType frameType' : FrameType} {payload payload' : Bytes}
    (h : encodeFrame version frameType correlationId payload 0 =
      encodeFrame version' frameType' correlationId' payload' 0) :
    frameType.toField % 2 ^ 16 = frameType'.toField % 2 ^ 16 ∧ payload = payload' := by
  simp only [encodeFrame] at h
  obtain ⟨hfields, h⟩ := List.append_inj h (by simp only [length_headerFields])
  obtain ⟨-, hpayload⟩ := List.append_inj h (by simp)
  refine ⟨?_, hpayload⟩
  simp only [headerFields] at hfields
  obtain ⟨-, hfields⟩ := List.append_inj hfields (by simp)
  obtain ⟨-, hfields⟩ := List.append_inj hfields (by simp)
  obtain ⟨htype, -⟩ := List.append_inj hfields (by simp)
  exact mod_eq_of_beBytes htype

theorem version_of_decodeHeader {bytes : Bytes} {maxFrameBytes : ℕ}
    (h : (decodeHeader bytes maxFrameBytes).error = none) :
    (decodeHeader bytes maxFrameBytes).header.version = 4 ∨
      (decodeHeader bytes maxFrameBytes).header.version = 5 := by
  rw [decodeHeader] at h ⊢
  split_ifs at h ⊢ with hshort
  simp only [headerError] at h ⊢
  split_ifs at h with hmagic hversion
  rw [kMinimumProtocolVersion, kProtocolVersion] at hversion
  omega

/-! ## Handlers -/

/-- What the session has offered lets batches pass that are compressed with zstd. -/
def ProtocolSession.Negotiated (session : ProtocolSession) : Prop :=
  5 ≤ session.protocolVersion ∧ session.negotiatedCodecs &&& kZstdMask ≠ 0

/-- The codecs after a metadata request. -/
def negotiate (requestedCodecs : ℕ) : ℕ := (requestedCodecs &&& kSupportedCodecMask) ||| kNoneMask

theorem negotiate_and_kZstdMask (requestedCodecs : ℕ) :
    negotiate requestedCodecs &&& kZstdMask = requestedCodecs &&& kZstdMask := by
  have hsupported : kSupportedCodecMask &&& kZstdMask = kZstdMask := by decide
  have hnone : kNoneMask &&& kZstdMask = 0 := by decide
  rw [negotiate, Nat.and_or_distrib_right, Nat.and_assoc, hsupported, hnone, Nat.or_zero]

/-- A fetch response is plain and fits a frame, or it is compressed and may be. -/
def Reaction.LaidOut (config : BrokerConfig) (negotiated : Prop) : Reaction → Prop
  | .write frameType payload _ =>
      frameType.toField % 2 ^ 16 = FrameType.fetchResponse.toField % 2 ^ 16 →
        (∃ response, payload = encodeFetchResponse response ∧
          payload.length ≤ config.maxFrameBytes) ∨ IsCompressed payload ∧ negotiated
  | _ => True

/-- What every handler keeps: the version, and the codecs unless new ones were offered. -/
structure Handled.Keeps (config : BrokerConfig) (session : ProtocolSession)
    (offered : Option ℕ) (handled : Handled σ) : Prop where
  version : handled.session.protocolVersion = session.protocolVersion
  codecs : handled.session.negotiatedCodecs =
    (offered.map negotiate).getD session.negotiatedCodecs
  laidOut : handled.reaction.LaidOut config session.Negotiated

namespace ProtocolSession

variable {config : BrokerConfig} {session : ProtocolSession} {stored : σ}

theorem laidOut_write {negotiated : Prop} {frameType : FrameType}
    (h : frameType.toField % 2 ^ 16 ≠ FrameType.fetchResponse.toField % 2 ^ 16)
    (payload : Bytes) (closeAfterWrite : Bool) :
    (Reaction.write frameType payload closeAfterWrite).LaidOut config negotiated :=
  fun hsame ↦ (h hsame).elim

theorem laidOut_writeError {negotiated : Prop} (code : ErrorCode) (message : Bytes)
    (closeAfterWrite : Bool) :
    (config.writeError code message closeAfterWrite).LaidOut config negotiated :=
  laidOut_write (by decide) _ closeAfterWrite

theorem laidOut_writeFailure {negotiated : Prop} (failure : Failure) :
    (config.writeFailure failure).LaidOut config negotiated := by
  cases failure with
  | request code message => exact laidOut_writeError code message false
  | exception message => exact laidOut_writeError .internalError message false

theorem keeps_unchanged {reaction : Reaction}
    (h : reaction.LaidOut config session.Negotiated) :
    (⟨session, stored, reaction⟩ : Handled σ).Keeps config session none :=
  ⟨rfl, rfl, h⟩

theorem keeps_writeError (code : ErrorCode) (message : Bytes) (closeAfterWrite : Bool) :
    (⟨session, stored, config.writeError code message closeAfterWrite⟩ : Handled σ).Keeps
      config session none :=
  keeps_unchanged (laidOut_writeError code message closeAfterWrite)

theorem keeps_writeFailure (failure : Failure) :
    (⟨session, stored, config.writeFailure failure⟩ : Handled σ).Keeps config session none :=
  keeps_unchanged (laidOut_writeFailure failure)

theorem keeps_withRequest {request : Type} (decode : Bytes → Except DecodeError request)
    (names : request → Option DecodeError) (payload : Bytes) {next : request → Handled σ}
    (hnext : ∀ request, (next request).Keeps config session none) :
    (withRequest config decode names session stored payload next).Keeps config session none := by
  unfold withRequest requireAuth
  cases decode payload with
  | error error => exact keeps_writeError _ _ _
  | ok request =>
      dsimp only
      cases names request with
      | some error => exact keeps_writeError _ _ _
      | none =>
          dsimp only
          split_ifs
          · exact hnext request
          · exact keeps_writeError _ _ _

theorem keeps_handleCall {request response : Type}
    (decode : Bytes → Except DecodeError request) (names : request → Option DecodeError)
    (call : Call σ request response) (frameType : FrameType)
    (htype : frameType.toField % 2 ^ 16 ≠ FrameType.fetchResponse.toField % 2 ^ 16)
    (encode : response → Bytes) (payload : Bytes) :
    (handleCall config decode names call frameType encode session stored payload).Keeps config
      session none := by
  apply keeps_withRequest
  intro request
  cases call request stored with
  | mk stored result =>
      cases result with
      | ok response => exact keeps_unchanged (laidOut_write htype _ _)
      | error failure => exact keeps_writeFailure failure

theorem keeps_handleHealth (readiness : Readiness) (payload : Bytes) :
    (handleHealth config readiness session stored payload).Keeps config session none := by
  unfold handleHealth
  cases validateEmptyPayload payload with
  | error error => exact keeps_writeError _ _ _
  | ok _ => exact keeps_unchanged (laidOut_write (by decide) _ _)

theorem keeps_handleAuth (payload : Bytes) :
    (handleAuth config session stored payload).Keeps config session none := by
  unfold handleAuth
  cases decodeAuthRequest payload with
  | error error => exact keeps_writeError _ _ _
  | ok request =>
      dsimp only
      split_ifs
      · exact keeps_writeError _ _ _
      · exact ⟨rfl, rfl, laidOut_write (by decide) _ _⟩
      · exact ⟨rfl, rfl, laidOut_write (by decide) _ _⟩

/-- The codecs that a metadata request offers, if it succeeds. -/
def offeredCodecs (session : ProtocolSession) (payload : Bytes) : Option ℕ :=
  if session.authenticated = true then
    (decodeRequestedCodecs session.protocolVersion payload).toOption
  else none

theorem keeps_handleMetadata (runtime : Runtime σ) (payload : Bytes) :
    (handleMetadata runtime config session stored payload).Keeps config session
      (session.offeredCodecs payload) := by
  unfold handleMetadata withRequest requireAuth offeredCodecs
  cases decodeRequestedCodecs session.protocolVersion payload with
  | error error =>
      split_ifs
      · exact keeps_writeError _ _ _
      · exact keeps_writeError _ _ _
  | ok requestedCodecs =>
      dsimp only
      split_ifs
      · exact ⟨rfl, rfl, laidOut_write (by decide) _ _⟩
      · exact keeps_writeError _ _ _

theorem keeps_handleProduce (runtime : Runtime σ) (payload : Bytes) :
    (handleProduce runtime config session stored payload).Keeps config session none := by
  apply keeps_withRequest
  intro request
  cases runtime.asyncProduce request stored with
  | mk stored result =>
      cases result with
      | ok _ => exact keeps_unchanged trivial
      | error failure => exact keeps_writeFailure failure

theorem keeps_produceBatchRecords (Z : Zstd) (runtime : Runtime σ)
    (request : ProduceBatchRequest) :
    (produceBatchRecords Z runtime config session stored request).Keeps config session none := by
  unfold produceBatchRecords
  cases decompress Z request.codec request.encodedRecords request.uncompressedBytes
      config.maxUncompressedBatchBytes with
  | error message => exact keeps_writeError _ _ _
  | ok raw =>
      dsimp only
      cases decodeRecordSetPayload request.recordCount raw with
      | error error => exact keeps_writeError _ _ _
      | ok records =>
          dsimp only
          cases runtime.produceBatch (request, records) stored with
          | mk stored result =>
              cases result with
              | ok response => exact keeps_unchanged (laidOut_write (by decide) _ _)
              | error failure =>
                  cases failure with
                  | request code message => exact keeps_writeError _ _ _
                  | exception message => exact keeps_writeError _ _ _

theorem keeps_handleProduceBatch (Z : Zstd) (runtime : Runtime σ) (payload : Bytes) :
    (handleProduceBatch Z runtime config session stored payload).Keeps config session none := by
  unfold handleProduceBatch
  split_ifs with hversion
  · exact keeps_writeError _ _ _
  apply keeps_withRequest
  intro request
  split_ifs
  · exact keeps_writeError _ _ _
  · exact keeps_writeError _ _ _
  · exact keeps_produceBatchRecords Z runtime request

theorem laidOut_writeFetchResponse {negotiated : Prop} (response : FetchResponse) :
    (writeFetchResponse config response).LaidOut config negotiated := by
  unfold writeFetchResponse
  dsimp only
  split_ifs with hnone hlarge hlarge
  · exact laidOut_writeError _ _ _
  · exact fun _ ↦ Or.inl ⟨response, rfl, by omega⟩
  · exact laidOut_writeError _ _ _
  · exact fun _ ↦ Or.inl ⟨response, rfl, by omega⟩

theorem keeps_fetchNow (runtime : Runtime σ) (request : FetchRequest) :
    (fetchNow runtime config session stored request).Keeps config session none := by
  unfold fetchNow
  cases runtime.fetch request stored with
  | mk stored result =>
      cases result with
      | ok response => exact keeps_unchanged (laidOut_writeFetchResponse response)
      | error failure => exact keeps_writeFailure failure

theorem keeps_registerLongPoll (runtime : Runtime σ) (request : FetchRequest)
    (fromOffset : ℕ) :
    (registerLongPoll runtime config session stored request fromOffset).Keeps config session
      none := by
  unfold registerLongPoll
  split_ifs
  · exact keeps_writeError _ _ _
  cases runtime.registerFetchWaiter request.topic request.partition stored with
  | mk stored waiterId =>
      cases waiterId with
      | none => exact keeps_writeError _ _ _
      | some waiterId => exact ⟨rfl, rfl, trivial⟩

theorem keeps_fetchPlain (runtime : Runtime σ) (request : FetchRequest) :
    (fetchPlain runtime config session stored request).Keeps config session none := by
  unfold fetchPlain
  cases runtime.fetch request stored with
  | mk stored result =>
      cases result with
      | ok response =>
          dsimp only
          split_ifs
          · exact keeps_registerLongPoll runtime request _
          · exact keeps_unchanged (laidOut_writeFetchResponse response)
      | error failure => exact keeps_writeFailure failure

theorem keeps_fetchOrWait (runtime : Runtime σ) (request : FetchRequest) :
    (fetchOrWait runtime config session stored request).Keeps config session none := by
  unfold fetchOrWait
  split_ifs with hnegotiated
  swap
  · exact keeps_fetchPlain runtime request
  cases runtime.fetchEncodedBatch request stored with
  | mk stored result =>
      cases result with
      | error failure => exact keeps_writeFailure failure
      | ok batch =>
          cases batch with
          | none => exact keeps_fetchPlain runtime request
          | some batch =>
              dsimp only
              split_ifs
              · apply keeps_unchanged
                exact fun _ ↦ Or.inr ⟨⟨_, _, _, _, _, _, _, _, _, rfl⟩, hnegotiated⟩
              · exact keeps_fetchPlain runtime request

theorem keeps_handleFetch (runtime : Runtime σ) (payload : Bytes) :
    (handleFetch runtime config session stored payload).Keeps config session none := by
  apply keeps_withRequest
  intro request
  exact keeps_fetchOrWait runtime _

/-- The codecs that a frame offers, if it is a metadata request and succeeds. -/
def frameOffers (session : ProtocolSession) (frameType : FrameType) (payload : Bytes) :
    Option ℕ :=
  if frameType = .metadataRequest then session.offeredCodecs payload else none

theorem keeps_handleFrame (Z : Zstd) (runtime : Runtime σ) (readiness : Readiness)
    (frameType : FrameType) (payload : Bytes) :
    (handleFrame Z runtime config readiness session stored frameType payload).Keeps config
      session (session.frameOffers frameType payload) := by
  cases frameType with
  | healthRequest => exact keeps_handleHealth readiness payload
  | metadataRequest => exact keeps_handleMetadata runtime payload
  | produceRequest => exact keeps_handleProduce runtime payload
  | produceBatchRequest => exact keeps_handleProduceBatch Z runtime payload
  | fetchRequest => exact keeps_handleFetch runtime payload
  | offsetCommitRequest =>
      exact keeps_handleCall _ _ _ .offsetCommitResponse (by decide) _ payload
  | authRequest => exact keeps_handleAuth payload
  | createTopicRequest =>
      exact keeps_handleCall _ (fun _ ↦ none) _ .createTopicResponse (by decide) _ payload
  | joinGroupRequest =>
      exact keeps_handleCall _ _ _ .joinGroupResponse (by decide) _ payload
  | syncGroupRequest =>
      exact keeps_handleCall _ _ _ .syncGroupResponse (by decide) _ payload
  | heartbeatRequest =>
      exact keeps_handleCall _ _ _ .heartbeatResponse (by decide) _ payload
  | leaveGroupRequest =>
      exact keeps_handleCall _ _ _ .leaveGroupResponse (by decide) _ payload
  | groupOffsetCommitRequest =>
      exact keeps_handleCall _ _ _ .groupOffsetCommitResponse (by decide) _ payload
  | listTopicsRequest =>
      exact keeps_handleCall _ (fun _ ↦ none) _ .listTopicsResponse (by decide) _ payload
  | describeTopicRequest =>
      exact keeps_handleCall _ _ _ .describeTopicResponse (by decide) _ payload
  | deleteTopicRequest =>
      exact keeps_handleCall _ _ _ .deleteTopicResponse (by decide) _ payload
  | runRetentionRequest =>
      exact keeps_handleCall _ _ _ .runRetentionResponse (by decide) _ payload
  | describeGroupRequest =>
      exact keeps_handleCall _ _ _ .describeGroupResponse (by decide) _ payload
  | resetGroupOffsetRequest =>
      exact keeps_handleCall _ _ _ .resetGroupOffsetResponse (by decide) _ payload
  | _ => exact keeps_writeError _ _ _

end ProtocolSession

/-! ## Steps -/

/-- What a session does at most in one step: it takes the version of an accepted frame and
the codecs of an offer, and sends one response. -/
structure BrokerSession.Advances (config : BrokerConfig) (s t : BrokerSession σ)
    (accepted offered : Option ℕ) : Prop where
  version : t.session.protocolVersion = accepted.getD s.session.protocolVersion
  codecs : t.session.negotiatedCodecs =
    (offered.map negotiate).getD s.session.negotiatedCodecs
  responses : t.responses = s.responses ∨
    ∃ frameType correlationId payload closeAfterWrite,
      t.responses = s.responses ++
        [encodeFrame t.session.writtenVersion frameType correlationId payload 0] ∧
      (Reaction.write frameType payload closeAfterWrite).LaidOut config
        (5 ≤ t.session.protocolVersion ∧ s.session.negotiatedCodecs &&& kZstdMask ≠ 0)

namespace BrokerSession

variable {config : BrokerConfig} {s t : BrokerSession σ}

/-- The header of a frame that the session accepts. -/
def accepts (config : BrokerConfig) (s : BrokerSession σ) (event : SessionEvent σ) :
    Option FrameHeader :=
  match event, s.session.phase with
  | .frame header _, .readHeader =>
      let decoded := decodeHeader header config.maxFrameBytes
      if decoded.error = none ∧ (s.session.protocolVersion = 0 ∨
          s.session.protocolVersion = decoded.header.version) then some decoded.header
      else none
  | _, _ => none

/-- The codecs that a successful metadata request offers. -/
def offers (config : BrokerConfig) (s : BrokerSession σ) (event : SessionEvent σ) : Option ℕ :=
  match event with
  | .frame _ payload =>
      (s.accepts config event).bind fun header ↦
        ({ s.session with protocolVersion := header.version } : ProtocolSession).frameOffers
          header.frameType payload
  | _ => none

theorem Advances.unchanged (hversion : t.session.protocolVersion = s.session.protocolVersion)
    (hcodecs : t.session.negotiatedCodecs = s.session.negotiatedCodecs)
    (hresponses : t.responses = s.responses) : s.Advances config t none none :=
  ⟨hversion, hcodecs, Or.inl hresponses⟩

/-- A reaction on a session that has taken over the version and the codecs. -/
theorem advances_react {u : BrokerSession σ} {accepted offered : Option ℕ}
    (hversion : u.session.protocolVersion = accepted.getD s.session.protocolVersion)
    (hcodecs : u.session.negotiatedCodecs =
      (offered.map negotiate).getD s.session.negotiatedCodecs)
    (hresponses : u.responses = s.responses) (correlationId : ℕ) {reaction : Reaction}
    (hlaid : reaction.LaidOut config
      (5 ≤ u.session.protocolVersion ∧ s.session.negotiatedCodecs &&& kZstdMask ≠ 0)) :
    s.Advances config (u.react correlationId reaction) accepted offered := by
  cases reaction with
  | write frameType payload closeAfterWrite =>
      refine ⟨hversion, hcodecs, Or.inr ⟨frameType, correlationId, payload, closeAfterWrite,
        ?_, hlaid⟩⟩
      rw [← hresponses]
      rfl
  | awaitAppend => exact ⟨hversion, hcodecs, Or.inl hresponses⟩
  | awaitPoll request waiterId => exact ⟨hversion, hcodecs, Or.inl hresponses⟩

theorem advances_conclude {u : BrokerSession σ} (session : ProtocolSession)
    {handled : Handled σ} {accepted offered : Option ℕ}
    (hversion : session.protocolVersion = accepted.getD s.session.protocolVersion)
    (hcodecs : session.negotiatedCodecs = s.session.negotiatedCodecs)
    (hresponses : u.responses = s.responses) (correlationId : ℕ)
    (h : handled.Keeps config session offered) :
    s.Advances config (u.conclude correlationId handled) accepted offered := by
  apply advances_react
  · exact h.version.trans hversion
  · exact hcodecs ▸ h.codecs
  · exact hresponses
  · have hlaid := h.laidOut
    rw [ProtocolSession.Negotiated, hcodecs] at hlaid
    simpa only [h.version] using hlaid

section Steps

variable (Z : Zstd) (runtime : Runtime σ)

theorem cancelActiveWaiter_kept (s : BrokerSession σ) :
    (s.cancelActiveWaiter runtime).session.protocolVersion = s.session.protocolVersion ∧
      (s.cancelActiveWaiter runtime).session.negotiatedCodecs = s.session.negotiatedCodecs ∧
      (s.cancelActiveWaiter runtime).responses = s.responses := by
  unfold cancelActiveWaiter
  cases s.session.activeWaiterId with
  | none => exact ⟨rfl, rfl, rfl⟩
  | some waiterId => exact ⟨rfl, rfl, rfl⟩

theorem advances_endPoll {u : BrokerSession σ}
    (hversion : u.session.protocolVersion = s.session.protocolVersion)
    (hcodecs : u.session.negotiatedCodecs = s.session.negotiatedCodecs)
    (hresponses : u.responses = s.responses) (correlationId : ℕ) (request : FetchRequest) :
    s.Advances config (u.endPoll runtime config correlationId request) none none := by
  apply advances_conclude { u.session with activeWaiterId := none }
  · exact hversion
  · exact hcodecs
  · exact hresponses
  · exact ProtocolSession.keeps_fetchNow runtime request

theorem advances_receive (hphase : s.session.phase = .readHeader) (header payload : Bytes) :
    s.Advances config (s.receive Z runtime config header payload)
      ((s.accepts config (.frame header payload)).map FrameHeader.version)
      (s.offers config (.frame header payload)) := by
  unfold receive offers accepts
  rw [hphase]
  dsimp only
  cases herror : (decodeHeader header config.maxFrameBytes).error with
  | some error =>
      dsimp only
      rw [if_neg (fun haccepted ↦ Option.some_ne_none error haccepted.1)]
      exact advances_react rfl rfl rfl _ (ProtocolSession.laidOut_writeError _ _ _)
  | none =>
      dsimp only
      split_ifs with hchanged hsame hsame
      · omega
      · exact advances_react rfl rfl rfl _ (ProtocolSession.laidOut_writeError _ _ _)
      · apply advances_conclude { s.session with
          protocolVersion := (decodeHeader header config.maxFrameBytes).header.version }
        · rfl
        · rfl
        · rfl
        · exact ProtocolSession.keeps_handleFrame Z runtime _ _ payload
      · exact (hsame ⟨rfl, by omega⟩).elim

/-- Only a frame is accepted, and between two requests. -/
theorem step_advances (config : BrokerConfig) (event : SessionEvent σ) :
    s.Advances config (s.step Z runtime config event)
      ((s.accepts config event).map FrameHeader.version) (s.offers config event) := by
  cases event with
  | frame header payload =>
      cases hphase : s.session.phase with
      | readHeader =>
          unfold step
          rw [hphase]
          exact advances_receive Z runtime hphase header payload
      | _ =>
          simp only [step, accepts, offers, hphase]
          exact .unchanged rfl rfl rfl
  | written failed =>
      change s.Advances config (s.step Z runtime config (.written failed)) none none
      unfold step
      cases s.session.phase with
      | writing closeAfterWrite =>
          dsimp only
          split_ifs
          · obtain ⟨hversion, hcodecs, hresponses⟩ := s.cancelActiveWaiter_kept runtime
            exact .unchanged hversion hcodecs hresponses
          · exact .unchanged rfl rfl rfl
          · exact .unchanged rfl rfl rfl
      | _ => exact .unchanged rfl rfl rfl
  | appendCompleted result =>
      change s.Advances config (s.step Z runtime config (.appendCompleted result)) none none
      unfold step
      cases s.session.phase with
      | appending correlationId =>
          cases result with
          | ok response =>
              exact advances_react rfl rfl rfl correlationId
                (ProtocolSession.laidOut_write (by decide) _ false)
          | error failure =>
              exact advances_react rfl rfl rfl correlationId
                (ProtocolSession.laidOut_writeFailure failure)
      | _ =>
          cases result with
          | ok response => exact .unchanged rfl rfl rfl
          | error failure => exact .unchanged rfl rfl rfl
  | waiterNotified =>
      change s.Advances config (s.step Z runtime config .waiterNotified) none none
      unfold step
      cases s.session.phase with
      | polling correlationId request =>
          exact advances_endPoll runtime rfl rfl rfl correlationId request
      | _ => exact .unchanged rfl rfl rfl
  | timerExpired =>
      change s.Advances config (s.step Z runtime config .timerExpired) none none
      unfold step
      cases s.session.phase with
      | polling correlationId request =>
          obtain ⟨hversion, hcodecs, hresponses⟩ := s.cancelActiveWaiter_kept runtime
          exact advances_endPoll runtime hversion hcodecs hresponses correlationId request
      | _ => exact .unchanged rfl rfl rfl
  | disconnected =>
      change s.Advances config (s.step Z runtime config .disconnected) none none
      unfold step
      cases s.session.phase with
      | readHeader => exact .unchanged rfl rfl rfl
      | _ => exact .unchanged rfl rfl rfl
  | readinessChanged readiness => exact .unchanged rfl rfl rfl
  | elsewhere change => exact .unchanged rfl rfl rfl

theorem accepts_eq_some {event : SessionEvent σ} {header : FrameHeader}
    (h : s.accepts config event = some header) :
    s.session.phase = .readHeader ∧ (header.version = 4 ∨ header.version = 5) ∧
      (s.session.protocolVersion = 0 ∨ s.session.protocolVersion = header.version) := by
  unfold accepts at h
  split at h
  · dsimp only at h
    split_ifs at h with haccepted
    obtain rfl := Option.some.inj h
    exact ⟨‹_›, version_of_decodeHeader haccepted.1, haccepted.2⟩
  · cases h

/-- Before the first accepted frame nothing has been sent, or the session is at its end. -/
def Starting (s : BrokerSession σ) : Prop :=
  s.session.phase = .readHeader ∧ s.responses = [] ∨ s.session.phase = .writing true ∨
    s.session.phase = .closed

theorem Starting.step (h : s.Starting) {event : SessionEvent σ}
    (hnone : s.accepts config event = none) : (s.step Z runtime config event).Starting := by
  rcases h with ⟨hphase, hresponses⟩ | hphase | hphase
  · cases event with
    | frame header payload =>
        refine Or.inr (Or.inl ?_)
        simp only [accepts, hphase] at hnone
        simp only [BrokerSession.step, hphase, receive]
        cases herror : (decodeHeader header config.maxFrameBytes).error with
        | some error => rfl
        | none =>
            dsimp only
            rw [herror] at hnone
            split_ifs at hnone with haccepted
            split_ifs with hchanged
            · rfl
            · exact (haccepted ⟨rfl, by omega⟩).elim
    | disconnected =>
        simp only [BrokerSession.step, hphase]
        exact Or.inr (Or.inr rfl)
    | _ =>
        simp only [BrokerSession.step, hphase]
        exact Or.inl ⟨hphase, hresponses⟩
  · cases event with
    | written failed =>
        simp only [BrokerSession.step, hphase]
        split_ifs
        · exact Or.inr (Or.inr rfl)
        · exact Or.inr (Or.inr rfl)
    | _ =>
        simp only [BrokerSession.step, hphase]
        exact Or.inr (Or.inl hphase)
  · cases event with
    | _ =>
        simp only [BrokerSession.step, hphase]
        exact Or.inr (Or.inr hphase)

end Steps

end BrokerSession

/-! ## Batches handed to the storage -/

/-- The runtime with another operation for batches. -/
def Runtime.withProduceBatch (runtime : Runtime σ)
    (call : Call σ (ProduceBatchRequest × List BatchRecord) ProduceBatchResponse) : Runtime σ :=
  { runtime with produceBatch := call }

/-- The operation does the same for every batch that is not compressed with zstd. -/
def Runtime.AgreesWithoutZstd (runtime : Runtime σ)
    (call : Call σ (ProduceBatchRequest × List BatchRecord) ProduceBatchResponse) : Prop :=
  ∀ request stored, request.1.codec ≠ .zstd →
    call request stored = runtime.produceBatch request stored

/-- A batch compressed with zstd goes to the storage in this step: it would come out
otherwise if the storage did something else with such batches, and only with them. -/
def BrokerSession.HandsOverZstd (Z : Zstd) (runtime : Runtime σ) (config : BrokerConfig)
    (s : BrokerSession σ) (event : SessionEvent σ) : Prop :=
  ∃ call, runtime.AgreesWithoutZstd call ∧
    s.step Z (runtime.withProduceBatch call) config event ≠ s.step Z runtime config event

namespace ProtocolSession

variable {Z : Zstd} {runtime : Runtime σ} {config : BrokerConfig} {session : ProtocolSession}
  {call : Call σ (ProduceBatchRequest × List BatchRecord) ProduceBatchResponse}

theorem produceBatchRecords_withProduceBatch (hcall : runtime.AgreesWithoutZstd call)
    (stored : σ) {request : ProduceBatchRequest} (hcodec : request.codec ≠ .zstd) :
    produceBatchRecords Z (runtime.withProduceBatch call) config session stored request =
      produceBatchRecords Z runtime config session stored request := by
  unfold produceBatchRecords
  cases decompress Z request.codec request.encodedRecords request.uncompressedBytes
      config.maxUncompressedBatchBytes with
  | error message => rfl
  | ok raw =>
      dsimp only
      cases decodeRecordSetPayload request.recordCount raw with
      | error error => rfl
      | ok records =>
          have hsame : (runtime.withProduceBatch call).produceBatch (request, records) stored =
              runtime.produceBatch (request, records) stored :=
            hcall (request, records) stored hcodec
          dsimp only
          rw [hsame]

/-- A session that has not negotiated zstd refuses the batch before. -/
theorem handleProduceBatch_withProduceBatch (hcall : runtime.AgreesWithoutZstd call)
    (hsession : ¬ session.Negotiated) (stored : σ) (payload : Bytes) :
    handleProduceBatch Z (runtime.withProduceBatch call) config session stored payload =
      handleProduceBatch Z runtime config session stored payload := by
  unfold handleProduceBatch
  split_ifs with hversion
  · rfl
  congr 1
  funext request
  split_ifs with hcodec hlimits
  · rfl
  · rfl
  · apply produceBatchRecords_withProduceBatch hcall
    intro hzstd
    rw [hzstd] at hcodec
    exact hsession ⟨Nat.le_of_not_lt hversion, hcodec⟩

theorem handleFrame_withProduceBatch (hcall : runtime.AgreesWithoutZstd call)
    (hsession : ¬ session.Negotiated) (readiness : Readiness) (stored : σ)
    (frameType : FrameType) (payload : Bytes) :
    handleFrame Z (runtime.withProduceBatch call) config readiness session stored frameType
        payload =
      handleFrame Z runtime config readiness session stored frameType payload := by
  cases frameType with
  | produceBatchRequest => exact handleProduceBatch_withProduceBatch hcall hsession stored payload
  | _ => rfl

end ProtocolSession

/-- The session has accepted the frame, and has negotiated zstd. -/
theorem BrokerSession.negotiated_of_handsOverZstd {Z : Zstd} {runtime : Runtime σ}
    {config : BrokerConfig} {s : BrokerSession σ} {event : SessionEvent σ}
    (h : s.HandsOverZstd Z runtime config event) :
    ∃ header, s.accepts config event = some header ∧ 5 ≤ header.version ∧
      s.session.negotiatedCodecs &&& kZstdMask ≠ 0 := by
  obtain ⟨call, hcall, hdiffers⟩ := h
  by_contra hnone
  apply hdiffers
  cases event with
  | frame header payload =>
      unfold step
      cases hphase : s.session.phase with
      | readHeader =>
          dsimp only
          unfold receive
          dsimp only
          cases herror : (decodeHeader header config.maxFrameBytes).error with
          | some error => rfl
          | none =>
              dsimp only
              split_ifs with hchanged
              · rfl
              rw [ProtocolSession.handleFrame_withProduceBatch hcall]
              rintro ⟨hversion, hcodecs⟩
              refine hnone ⟨_, ?_, hversion, hcodecs⟩
              simp only [accepts, hphase]
              exact if_pos ⟨herror, by omega⟩
      | _ => rfl
  | appendCompleted result =>
      unfold step
      cases result with
      | ok response =>
          cases s.session.phase with
          | _ => rfl
      | error failure =>
          cases s.session.phase with
          | _ => rfl
  | _ =>
      unfold step
      cases s.session.phase with
      | _ => rfl

/-! ## Whole sessions -/

/-- A session with the headers it has accepted and the codecs it has been offered. -/
structure Recording (σ : Type) where
  broker : BrokerSession σ
  frames : List FrameHeader := []
  offers : List ℕ := []

namespace Recording

/-- The version of the first frame. -/
def version (r : Recording σ) : Option ℕ := r.frames.head?.map FrameHeader.version

/-- The session is of version 5, and its last successful metadata request has offered
zstd. -/
def OffersZstd (r : Recording σ) : Prop :=
  r.version = some 5 ∧ ∃ codecs, r.offers.getLast? = some codecs ∧ codecs &&& kZstdMask ≠ 0

section Runs

variable (Z : Zstd) (runtime : Runtime σ) (config : BrokerConfig)

def step (r : Recording σ) (event : SessionEvent σ) : Recording σ :=
  { broker := r.broker.step Z runtime config event
    frames := r.frames ++ (r.broker.accepts config event).toList
    offers := r.offers ++ (r.broker.offers config event).toList }

def run (r : Recording σ) (events : List (SessionEvent σ)) : Recording σ :=
  events.foldl (step Z runtime config) r

theorem broker_run (r : Recording σ) (events : List (SessionEvent σ)) :
    (r.run Z runtime config events).broker = r.broker.run Z runtime config events := by
  induction events generalizing r with
  | nil => rfl
  | cons event events ih => exact ih (r.step Z runtime config event)

end Runs

/-- How the session stands to what it has accepted, been offered and sent. -/
structure Disciplined (config : BrokerConfig) (r : Recording σ) : Prop where
  version : r.broker.session.protocolVersion = r.version.getD 0
  frames : ∀ header ∈ r.frames,
    r.version = some header.version ∧ (header.version = 4 ∨ header.version = 5)
  codecs : r.broker.session.negotiatedCodecs = (r.offers.getLast?.map negotiate).getD kNoneMask
  offered : r.frames = [] → r.offers = []
  responses : ∀ bytes ∈ r.broker.responses, ∃ frameType correlationId payload,
    bytes = encodeFrame (r.version.getD kProtocolVersion) frameType correlationId payload 0
  starting : r.frames = [] → r.broker.Starting

variable {Z : Zstd} {runtime : Runtime σ} {config : BrokerConfig} {r : Recording σ}

theorem version_eq_none_iff : r.version = none ↔ r.frames = [] := by
  rw [version, Option.map_eq_none_iff, List.head?_eq_none_iff]

theorem version_step (event : SessionEvent σ) :
    (r.step Z runtime config event).version =
      r.version.or ((r.broker.accepts config event).map FrameHeader.version) := by
  simp only [version, step, List.head?_append, Option.map_or]
  cases r.broker.accepts config event with
  | none => rfl
  | some header => rfl

theorem offers_step (event : SessionEvent σ) :
    (r.step Z runtime config event).offers.getLast? =
      (r.broker.offers config event).or r.offers.getLast? := by
  simp only [step, List.getLast?_append]
  cases r.broker.offers config event with
  | none => rfl
  | some codecs => rfl

/-- Only an accepted frame offers codecs. -/
theorem offers_of_accepts_eq_none {s : BrokerSession σ} {event : SessionEvent σ}
    (h : s.accepts config event = none) : s.offers config event = none := by
  cases event with
  | frame header payload =>
      simp only [BrokerSession.offers, h]
      rfl
  | _ => rfl

theorem writtenVersion_eq (hversion : r.broker.session.protocolVersion = r.version.getD 0)
    (hframes : ∀ header ∈ r.frames,
      r.version = some header.version ∧ (header.version = 4 ∨ header.version = 5)) :
    r.broker.session.writtenVersion = r.version.getD kProtocolVersion := by
  rw [ProtocolSession.writtenVersion, hversion]
  cases hsome : r.version with
  | none => rfl
  | some version =>
      obtain ⟨header, hhead, rfl⟩ := Option.map_eq_some_iff.mp hsome
      have hsupported := (hframes header (List.mem_of_head? hhead)).2
      exact if_neg (show header.version ≠ 0 by omega)

/-- A session accepts the version it has. -/
theorem Disciplined.version_accepts (h : r.Disciplined config) {event : SessionEvent σ}
    {header : FrameHeader} (haccepts : r.broker.accepts config event = some header) :
    r.version = none ∧ r.broker.responses = [] ∨ r.version = some header.version := by
  obtain ⟨hphase, hsupported, hsame⟩ := BrokerSession.accepts_eq_some haccepts
  rw [h.version] at hsame
  cases hversion : r.version with
  | none =>
      rcases h.starting (version_eq_none_iff.mp hversion) with hstart | hstart | hstart
      · exact Or.inl ⟨rfl, hstart.2⟩
      · rw [hphase] at hstart
        cases hstart
      · rw [hphase] at hstart
        cases hstart
  | some version =>
      obtain ⟨first, hhead, hfirst⟩ := Option.map_eq_some_iff.mp hversion
      have hfirst' := (h.frames first (List.mem_of_head? hhead)).2
      rw [hversion, Option.getD_some] at hsame
      refine Or.inr (congrArg some ?_)
      omega

theorem Disciplined.frames_step (h : r.Disciplined config) (Z : Zstd) (runtime : Runtime σ)
    (event : SessionEvent σ) :
    ∀ header ∈ (r.step Z runtime config event).frames,
      (r.step Z runtime config event).version = some header.version ∧
        (header.version = 4 ∨ header.version = 5) := by
  intro header hmem
  rw [version_step]
  rcases List.mem_append.mp hmem with hmem | hmem
  · obtain ⟨hversion, hsupported⟩ := h.frames header hmem
    exact ⟨by rw [hversion, Option.some_or], hsupported⟩
  · have haccepts := Option.mem_toList.mp hmem
    refine ⟨?_, (BrokerSession.accepts_eq_some haccepts).2.1⟩
    rcases h.version_accepts haccepts with ⟨hversion, -⟩ | hversion
    · rw [hversion, haccepts]
      rfl
    · rw [hversion, Option.some_or]

/-- The version of the responses changes only before the first of them. -/
theorem Disciplined.version_sent (h : r.Disciplined config) (Z : Zstd) (runtime : Runtime σ)
    (event : SessionEvent σ) :
    r.broker.responses = [] ∨ (r.step Z runtime config event).version = r.version := by
  rw [version_step]
  cases haccepts : r.broker.accepts config event with
  | none => exact Or.inr Option.or_none
  | some header =>
      rcases h.version_accepts haccepts with ⟨-, hresponses⟩ | hversion
      · exact Or.inl hresponses
      · exact Or.inr (by rw [hversion, Option.some_or])

theorem frames_eq_nil_of_step {event : SessionEvent σ}
    (h : (r.step Z runtime config event).frames = []) :
    r.frames = [] ∧ r.broker.accepts config event = none := by
  obtain ⟨hframes, haccepts⟩ := List.append_eq_nil_iff.mp h
  exact ⟨hframes, Option.toList_eq_nil_iff.mp haccepts⟩

theorem Disciplined.version_after (h : r.Disciplined config) (Z : Zstd) (runtime : Runtime σ)
    (event : SessionEvent σ) :
    (r.step Z runtime config event).broker.session.protocolVersion =
      (r.step Z runtime config event).version.getD 0 := by
  have hversion := (r.broker.step_advances Z runtime config event).version
  rw [version_step]
  refine hversion.trans ?_
  rw [h.version]
  cases haccepts : r.broker.accepts config event with
  | none => simp
  | some header =>
      rcases h.version_accepts haccepts with ⟨hnone, -⟩ | hsome
      · rw [hnone]
        rfl
      · rw [hsome]
        rfl

theorem Disciplined.step (h : r.Disciplined config) (event : SessionEvent σ) :
    (r.step Z runtime config event).Disciplined config := by
  obtain ⟨-, hcodecs, hresponses⟩ := r.broker.step_advances Z runtime config event
  have hversion := h.version_after Z runtime event
  have hframes := h.frames_step Z runtime event
  refine ⟨hversion, hframes, ?_, fun hnil ↦ ?_, ?_, fun hnil ↦ ?_⟩
  · rw [offers_step]
    refine hcodecs.trans ?_
    rw [h.codecs]
    cases r.broker.offers config event with
    | none => rfl
    | some codecs => rfl
  · obtain ⟨hnil, hnone⟩ := frames_eq_nil_of_step hnil
    refine List.append_eq_nil_iff.mpr ⟨h.offered hnil, ?_⟩
    rw [offers_of_accepts_eq_none hnone]
    rfl
  · have hold : ∀ bytes ∈ r.broker.responses, ∃ frameType correlationId payload,
        bytes = encodeFrame ((r.step Z runtime config event).version.getD kProtocolVersion)
          frameType correlationId payload 0 := by
      intro bytes hmem
      rcases h.version_sent Z runtime event with hnone | hsame
      · rw [hnone] at hmem
        cases hmem
      · rw [hsame]
        exact h.responses bytes hmem
    rcases hresponses with hsame | ⟨frameType, correlationId, payload, _, happend, -⟩
    · intro bytes hmem
      exact hold bytes (hsame ▸ hmem)
    · intro bytes hmem
      rcases List.mem_append.mp (happend ▸ hmem) with hmem | hmem
      · exact hold bytes hmem
      · refine ⟨frameType, correlationId, payload, ?_⟩
        rw [← writtenVersion_eq hversion hframes]
        exact List.mem_singleton.mp hmem
  · obtain ⟨hnil, hnone⟩ := frames_eq_nil_of_step hnil
    exact (h.starting hnil).step Z runtime hnone

theorem disciplined_opened (readiness : Readiness) (stored : σ) :
    ({ broker := .opened config readiness stored } : Recording σ).Disciplined config := by
  refine ⟨rfl, ?_, rfl, fun _ ↦ rfl, ?_, fun _ ↦ Or.inl ⟨rfl, rfl⟩⟩
  · intro header hmem
    cases hmem
  · intro bytes hmem
    cases hmem

theorem Disciplined.run (h : r.Disciplined config) (events : List (SessionEvent σ)) :
    (r.run Z runtime config events).Disciplined config := by
  induction events generalizing r with
  | nil => exact h
  | cons event events ih => exact ih (h.step event)

/-- The codecs of a session that has negotiated zstd come from its last offer. -/
theorem Disciplined.offersZstd (h : r.Disciplined config) (Z : Zstd) (runtime : Runtime σ)
    (event : SessionEvent σ)
    (hversion : 5 ≤ (r.step Z runtime config event).version.getD 0)
    (hcodecs : r.broker.session.negotiatedCodecs &&& kZstdMask ≠ 0) : r.OffersZstd := by
  rw [h.codecs] at hcodecs
  cases hlast : r.offers.getLast? with
  | none =>
      rw [hlast] at hcodecs
      exact (hcodecs (by decide)).elim
  | some codecs =>
      rw [hlast, Option.map_some, Option.getD_some, negotiate_and_kZstdMask] at hcodecs
      refine ⟨?_, codecs, hlast, hcodecs⟩
      cases hframes : r.frames with
      | nil =>
          rw [h.offered hframes] at hlast
          cases hlast
      | cons header frames =>
          obtain ⟨hfirst, hsupported⟩ := h.frames header (hframes ▸ List.mem_cons_self)
          rw [version_step, hfirst, Option.some_or, Option.getD_some] at hversion
          rw [hfirst]
          refine congrArg some ?_
          omega

theorem Disciplined.fetchResponse (h : r.Disciplined config) {event : SessionEvent σ}
    {payload : Bytes}
    (hsends : r.broker.SendsFetchResponse (r.step Z runtime config event).broker payload) :
    (∃ response, payload = encodeFetchResponse response ∧
      payload.length ≤ config.maxFrameBytes) ∨ IsCompressed payload ∧ r.OffersZstd := by
  obtain ⟨version, correlationId, hsent⟩ := hsends
  rcases (r.broker.step_advances Z runtime config event).responses with hsame |
    ⟨frameType, correlationId', payload', closeAfterWrite, happend, hlaid⟩
  · have hlength := congrArg List.length (hsame.symm.trans hsent)
    rw [List.length_append, List.length_singleton] at hlength
    omega
  · have hframe := List.append_cancel_left (happend.symm.trans hsent)
    obtain ⟨htype, rfl⟩ := encodeFrame_inj (List.cons.inj hframe).1
    rcases hlaid htype with hplain | ⟨hcompressed, hversion, hcodecs⟩
    · exact Or.inl hplain
    · refine Or.inr ⟨hcompressed, h.offersZstd Z runtime event ?_ hcodecs⟩
      rw [← h.version_after Z runtime event]
      exact hversion

theorem Disciplined.handsOverZstd (h : r.Disciplined config) {event : SessionEvent σ}
    (hhands : r.broker.HandsOverZstd Z runtime config event) : r.OffersZstd := by
  obtain ⟨header, haccepts, hversion, hcodecs⟩ :=
    BrokerSession.negotiated_of_handsOverZstd hhands
  refine h.offersZstd Z runtime event ?_ hcodecs
  have hmem : header ∈ (r.step Z runtime config event).frames :=
    List.mem_append_right _ (Option.mem_toList.mpr haccepts)
  rw [(h.frames_step Z runtime event header hmem).1]
  exact hversion

end Recording

/-- The first frame accepted fixes the version of all frames and of every response.  A
compressed fetch response leaves, and a batch compressed with zstd is stored, only on a
session of version 5 whose last successful metadata request has offered zstd.  A session
of version 4 sends plain fetch responses, whoever sends them. -/
theorem session_discipline (Z : Zstd) (runtime : Runtime σ) {config : BrokerConfig}
    (hframe : config.maxFrameBytes < 2 ^ 32) (readiness : Readiness) (stored : σ)
    (events : List (SessionEvent σ)) :
    let opened := BrokerSession.opened config readiness stored
    let r := Recording.run Z runtime config { broker := opened } events
    r.broker = opened.run Z runtime config events ∧
      (∀ header ∈ r.frames, r.version = some header.version) ∧
      (∀ bytes ∈ r.broker.responses, ∃ frameType correlationId payload,
        bytes = encodeFrame (r.version.getD kProtocolVersion) frameType correlationId payload
          0) ∧
      ∀ event,
        (∀ payload,
          r.broker.SendsFetchResponse (r.broker.step Z runtime config event) payload →
            (IsCompressed payload → r.OffersZstd) ∧
            ((r.step Z runtime config event).version = some 4 →
              IsPlain payload ∧ ¬ IsCompressed payload)) ∧
        (r.broker.HandsOverZstd Z runtime config event → r.OffersZstd) := by
  intro opened r
  have h : r.Disciplined config := (Recording.disciplined_opened readiness stored).run events
  refine ⟨Recording.broker_run Z runtime config _ events, fun header hmem ↦
    (h.frames header hmem).1, h.responses, fun event ↦ ⟨fun payload hsends ↦ ?_,
      h.handsOverZstd⟩⟩
  rcases h.fetchResponse hsends with ⟨response, rfl, hlength⟩ | ⟨hcompressed, hoffers⟩
  · have hplain := not_isCompressed_of_plain (hlength.trans_lt hframe)
    exact ⟨fun hcompressed ↦ (hplain hcompressed).elim, fun _ ↦ ⟨⟨response, rfl⟩, hplain⟩⟩
  · refine ⟨fun _ ↦ hoffers, fun hfour ↦ ?_⟩
    rw [Recording.version_step, hoffers.1, Option.some_or] at hfour
    cases hfour

/-- A runtime whose storage has a compressed batch. -/
def forwardingRuntime : Runtime ℕ :=
  { BrokerSession.countingRuntime with
    fetchEncodedBatch := fun _ calls ↦
      (calls, .ok (some ⟨⟨[116], 0, 0, 1, 0, 1, 24, 3, 64, .zstd⟩, [40, 181, 47]⟩)) }

def openConfig : BrokerConfig := { BrokerSession.tokenConfig with brokerToken := [] }

/-- A metadata request that offers both codecs. -/
def offeringFrames : List (SessionEvent ℕ) :=
  [.frame (encodeFrame 5 .metadataRequest 1 (writeU32 3) 0) (writeU32 3), .written false]

def fetchFrame : SessionEvent ℕ :=
  .frame (encodeFrame 5 .fetchRequest 2 (encodeFetchRequest ⟨[116], 0, [48], [], 0⟩) 0)
    (encodeFetchRequest ⟨[116], 0, [48], [], 0⟩)

/-- After the offer the batch leaves as it is stored. -/
theorem session_discipline_forwarded :
    let opened := BrokerSession.opened openConfig ⟨true, []⟩ 0
    let r := Recording.run noZstd forwardingRuntime openConfig { broker := opened }
      offeringFrames
    let payload := encodeCompressedFetchResponse [116] 0 0 1 0 .zstd 1 24 [40, 181, 47]
    r.broker.SendsFetchResponse (r.broker.step noZstd forwardingRuntime openConfig fetchFrame)
        payload ∧ r.OffersZstd := by
  intro opened r payload
  have hsends : r.broker.SendsFetchResponse
      (r.broker.step noZstd forwardingRuntime openConfig fetchFrame) payload :=
    ⟨5, 2, by decide +kernel⟩
  have hdiscipline := session_discipline noZstd forwardingRuntime
    (show openConfig.maxFrameBytes < 2 ^ 32 by decide) ⟨true, []⟩ 0 offeringFrames
  have hcompressed : IsCompressed payload := ⟨_, _, _, _, _, _, _, _, _, rfl⟩
  exact ⟨hsends, ((hdiscipline.2.2.2 fetchFrame).1 payload hsends).1 hcompressed⟩

end BoltStream.Broker
