import BoltStream.Broker.HandledState
import BoltStream.Protocol.Framing

/-!
# Frames that fit

The handlers that measure what they write, or write no more than a text, fit every
maximum that is not very small.  What the others write is the encoded response of one
operation, and fits exactly if that response is short enough.
-/

namespace BoltStream.Broker

open BoltStream.Lib BoltStream.Protocol BoltStream.Compression BoltStream.Storage

/-- The frame that is written, if there is one, does not exceed the maximum. -/
def Reaction.Fits (maxFrameBytes : ℕ) : Reaction → Prop
  | .write _ payload _ => kFrameHeaderBytes + payload.length ≤ maxFrameBytes
  | _ => True

/-- Every frame that was sent fits. -/
def BrokerSession.FramesFit {σ : Type} (maxFrameBytes : ℕ) (s : BrokerSession σ) : Prop :=
  ∀ frame ∈ s.responses, frame.length ≤ maxFrameBytes

section Reactions

variable {σ : Type} {config : BrokerConfig}

theorem length_encodeFrame (version : ℕ) (frameType : FrameType) (correlationId : ℕ)
    (payload : Bytes) (flags : ℕ) :
    (encodeFrame version frameType correlationId payload flags).length =
      kFrameHeaderBytes + payload.length := by
  simp only [encodeFrame, List.length_append, length_headerFields, length_writeU32,
    kFrameHeaderBytes]
  omega

theorem framesFit_writeFrame {maxFrameBytes : ℕ} (s : BrokerSession σ) (frameType : FrameType)
    (correlationId : ℕ) (payload : Bytes) (closeAfterWrite : Bool) :
    (s.writeFrame frameType correlationId payload closeAfterWrite).FramesFit maxFrameBytes ↔
      s.FramesFit maxFrameBytes ∧ kFrameHeaderBytes + payload.length ≤ maxFrameBytes := by
  simp only [BrokerSession.FramesFit, BrokerSession.writeFrame, List.forall_mem_append,
    List.forall_mem_singleton, length_encodeFrame]

theorem framesFit_react {maxFrameBytes : ℕ} (s : BrokerSession σ) (correlationId : ℕ)
    (reaction : Reaction) :
    (s.react correlationId reaction).FramesFit maxFrameBytes ↔
      s.FramesFit maxFrameBytes ∧ reaction.Fits maxFrameBytes := by
  cases reaction with
  | write frameType payload closeAfterWrite => exact framesFit_writeFrame _ _ _ _ _
  | awaitAppend => exact (and_iff_left trivial).symm
  | awaitPoll request waiterId => exact (and_iff_left trivial).symm

theorem length_encodeErrorResponse (response : ErrorResponse) :
    (encodeErrorResponse response).length = 8 + response.message.length := by
  simp only [encodeErrorResponse, List.length_append, length_writeU32, length_writeBytes]
  omega

theorem length_errorCodeName (code : ErrorCode) :
    (text (errorCodeName code)).length ≤ 20 := by
  rw [length_text]
  cases code <;> decide

/-- A message that is too long is replaced by a short one. -/
theorem fits_writeError (hmax : kDefaultMaxFrameBytes ≤ config.maxFrameBytes) (code : ErrorCode)
    (message : Bytes) (closeAfterWrite : Bool) :
    (config.writeError code message closeAfterWrite).Fits config.maxFrameBytes := by
  have hname := length_errorCodeName code
  rw [kDefaultMaxFrameBytes] at hmax
  rw [BrokerConfig.writeError, Reaction.Fits]
  split_ifs with hlong
  · rw [length_encodeErrorResponse, kFrameHeaderBytes]
    dsimp only
    omega
  · rw [kFrameHeaderBytes] at hlong ⊢
    omega

theorem fits_writeFailure (hmax : kDefaultMaxFrameBytes ≤ config.maxFrameBytes)
    (failure : Failure) : (config.writeFailure failure).Fits config.maxFrameBytes := by
  cases failure with
  | request code message => exact fits_writeError hmax _ _ _
  | exception message => exact fits_writeError hmax _ _ _

/-- A fetch response is measured before it is written. -/
theorem fits_writeFetchResponse (hmax : kDefaultMaxFrameBytes ≤ config.maxFrameBytes)
    (response : FetchResponse) :
    (ProtocolSession.writeFetchResponse config response).Fits config.maxFrameBytes := by
  rw [ProtocolSession.writeFetchResponse]
  split_ifs with hsmall hlong hlong
  · exact fits_writeError hmax _ _ _
  · rw [kDefaultMaxFrameBytes] at hmax
    rw [kFrameHeaderBytes] at hsmall
    omega
  · exact fits_writeError hmax _ _ _
  · rw [Reaction.Fits, kFrameHeaderBytes]
    rw [kFrameHeaderBytes] at hsmall hlong
    omega

end Reactions

namespace ProtocolSession

section Handlers

variable {σ : Type} {config : BrokerConfig} {session : ProtocolSession} {stored : σ}

/-- The request that a handler goes on with. -/
def asked {request : Type} (session : ProtocolSession)
    (decode : Bytes → Except DecodeError request) (names : request → Option DecodeError)
    (payload : Bytes) : Option request :=
  (decode payload).toOption.filter fun request ↦ (names request).isNone && session.authenticated

theorem mem_asked {request : Type} {decode : Bytes → Except DecodeError request}
    {names : request → Option DecodeError} {payload : Bytes} {found : request}
    (h : found ∈ session.asked decode names payload) :
    decode payload = .ok found ∧ names found = none := by
  obtain ⟨hok, hnames⟩ := Option.mem_filter_iff.mp h
  rw [Bool.and_eq_true, Option.isNone_iff_eq_none] at hnames
  refine ⟨?_, hnames.1⟩
  cases hdecoded : decode payload with
  | error error => simp [hdecoded, Except.toOption] at hok
  | ok decoded =>
      rw [hdecoded] at hok
      rw [Option.some.inj hok]

/-- A refused request is answered by an error. -/
theorem fits_withRequest_iff {request : Type}
    (hmax : kDefaultMaxFrameBytes ≤ config.maxFrameBytes)
    (decode : Bytes → Except DecodeError request) (names : request → Option DecodeError)
    (payload : Bytes) (next : request → Handled σ) :
    (withRequest config decode names session stored payload next).reaction.Fits
        config.maxFrameBytes ↔
      ∀ request ∈ session.asked decode names payload,
        (next request).reaction.Fits config.maxFrameBytes := by
  rw [withRequest, asked]
  cases hdecode : decode payload with
  | error error =>
      exact iff_of_true (fits_writeError hmax _ _ _) fun request hrequest ↦
        absurd hrequest (by simp [Except.toOption])
  | ok request =>
      dsimp only
      cases hnames : names request with
      | some error =>
          refine iff_of_true (fits_writeError hmax _ _ _) fun other hother ↦ ?_
          simp [Except.toOption, Option.filter, hnames] at hother
      | none =>
          dsimp only [requireAuth]
          cases hauth : session.authenticated with
          | false =>
              refine iff_of_true (fits_writeError hmax _ _ _) fun other hother ↦ ?_
              simp [Except.toOption, Option.filter] at hother
          | true => simp [Except.toOption, Option.filter, hnames]

/-- What an operation returns fits if its size does. -/
theorem fits_handleCall_iff {request response : Type}
    (hmax : kDefaultMaxFrameBytes ≤ config.maxFrameBytes)
    {decode : Bytes → Except DecodeError request} {names : request → Option DecodeError}
    {call : Call σ request response} {frameType : FrameType} {encode : response → Bytes}
    {payload : Bytes} (size : request → Option ℕ)
    (hsize : ∀ request ∈ session.asked decode names payload,
      (call request stored).2.toOption.map (fun response ↦ (encode response).length) =
        size request) :
    (handleCall config decode names call frameType encode session stored
        payload).reaction.Fits config.maxFrameBytes ↔
      ∀ bytes ∈ (session.asked decode names payload).bind size,
        kFrameHeaderBytes + bytes ≤ config.maxFrameBytes := by
  rw [handleCall, fits_withRequest_iff hmax]
  cases hasked : session.asked decode names payload with
  | none => simp
  | some request =>
      rw [hasked] at hsize
      have hsize := hsize request rfl
      simp only [Option.mem_def, Option.some.injEq, forall_eq', Option.bind_some]
      rw [← hsize]
      cases hcall : call request stored with
      | mk after result =>
          cases result with
          | error failure =>
              exact iff_of_true (fits_writeFailure hmax _) fun bytes hbytes ↦
                absurd hbytes (by simp [Except.toOption])
          | ok response => simp [Except.toOption, Reaction.Fits]

/-- The handlers whose operation returns something short. -/
theorem fits_handleCall {request response : Type}
    (hmax : kDefaultMaxFrameBytes ≤ config.maxFrameBytes)
    {decode : Bytes → Except DecodeError request} {names : request → Option DecodeError}
    {call : Call σ request response} {frameType : FrameType} {encode : response → Bytes}
    {payload : Bytes}
    (hshort : ∀ request response, decode payload = .ok request →
      (call request stored).2 = .ok response →
        kFrameHeaderBytes + (encode response).length ≤ config.maxFrameBytes) :
    (handleCall config decode names call frameType encode session stored
      payload).reaction.Fits config.maxFrameBytes := by
  rw [handleCall, fits_withRequest_iff hmax]
  intro request hrequest
  obtain ⟨hdecode, -⟩ := mem_asked hrequest
  cases hcall : call request stored with
  | mk after result =>
      cases result with
      | error failure => exact fits_writeFailure hmax _
      | ok response => exact hshort request response hdecode (congrArg Prod.snd hcall)

variable {runtime : Runtime σ}

theorem fits_fetchNow (hmax : kDefaultMaxFrameBytes ≤ config.maxFrameBytes)
    (request : FetchRequest) :
    (fetchNow runtime config session stored request).reaction.Fits config.maxFrameBytes := by
  rw [fetchNow]
  split
  · exact fits_writeFetchResponse hmax _
  · exact fits_writeFailure hmax _

theorem fits_fetchPlain (hmax : kDefaultMaxFrameBytes ≤ config.maxFrameBytes)
    (request : FetchRequest) :
    (fetchPlain runtime config session stored request).reaction.Fits config.maxFrameBytes := by
  rw [fetchPlain]
  split
  · split_ifs
    · rw [registerLongPoll]
      split_ifs
      · exact fits_writeError hmax _ _ _
      · split
        · exact fits_writeError hmax _ _ _
        · trivial
    · exact fits_writeFetchResponse hmax _
  · exact fits_writeFailure hmax _

theorem fits_handleFetch (hmax : kDefaultMaxFrameBytes ≤ config.maxFrameBytes)
    (payload : Bytes) :
    (handleFetch runtime config session stored payload).reaction.Fits config.maxFrameBytes := by
  rw [handleFetch, fits_withRequest_iff hmax]
  intro request hrequest
  rw [fetchOrWait]
  split_ifs
  · split
    · exact fits_writeFailure hmax _
    · exact fits_fetchPlain hmax _
    · dsimp only
      split_ifs with hsmall
      · rw [Reaction.Fits, Nat.add_comm]
        exact hsmall
      · exact fits_fetchPlain hmax _
  · exact fits_fetchPlain hmax _

theorem fits_handleProduce (hmax : kDefaultMaxFrameBytes ≤ config.maxFrameBytes)
    (payload : Bytes) :
    (handleProduce runtime config session stored payload).reaction.Fits
      config.maxFrameBytes := by
  rw [handleProduce, fits_withRequest_iff hmax]
  intro request hrequest
  split
  · trivial
  · exact fits_writeFailure hmax _

/-- A batch whose response is short. -/
theorem fits_handleProduceBatch (Z : Zstd)
    (hmax : kDefaultMaxFrameBytes ≤ config.maxFrameBytes) {payload : Bytes}
    (hshort : ∀ request response, (runtime.produceBatch request stored).2 = .ok response →
      kFrameHeaderBytes + (encodeProduceBatchResponse response).length ≤ config.maxFrameBytes) :
    (handleProduceBatch Z runtime config session stored payload).reaction.Fits
      config.maxFrameBytes := by
  rw [handleProduceBatch]
  split_ifs
  · exact fits_writeError hmax _ _ _
  · rw [fits_withRequest_iff hmax]
    intro request hrequest
    split_ifs
    · exact fits_writeError hmax _ _ _
    · exact fits_writeError hmax _ _ _
    · rw [produceBatchRecords]
      split
      · exact fits_writeError hmax _ _ _
      · split
        · exact fits_writeError hmax _ _ _
        · split
          · next response heq => exact hshort _ response (congrArg Prod.snd heq)
          · exact fits_writeError hmax _ _ _
          · exact fits_writeError hmax _ _ _

theorem fits_handleAuth (hmax : kDefaultMaxFrameBytes ≤ config.maxFrameBytes)
    (payload : Bytes) :
    (handleAuth config session stored payload).reaction.Fits config.maxFrameBytes := by
  have hstatus : ∀ required : Bool,
      (text (if required then "authenticated" else "disabled")).length ≤ 13 := by
    intro required
    rw [length_text]
    cases required <;> decide
  rw [handleAuth]
  split
  · exact fits_writeError hmax _ _ _
  · split
    · exact fits_writeError hmax _ _ _
    · have hlength := hstatus config.authRequired
      rw [kDefaultMaxFrameBytes] at hmax
      rw [Reaction.Fits, encodeAuthResponse, length_writeBytes, kFrameHeaderBytes]
      dsimp only
      omega

end Handlers

end ProtocolSession

end BoltStream.Broker
