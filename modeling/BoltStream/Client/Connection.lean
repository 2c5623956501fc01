import BoltStream.Broker.SessionReads
import BoltStream.Client.AsyncClient
import BoltStream.Lib.FrameStream
import BoltStream.Protocol.Framing

/-!
# A connection

The asynchronous client and the session of the broker at the two ends of a connection.
All they exchange are bytes: a read that completes has taken the next bytes of the
stream the other side writes, once they are there, and neither side sees where a frame
ends.  What one end does comes in any order with what the other end does.

A write that has been started may have sent any part of its frame, so the frame counts
as there to be read.
-/

namespace BoltStream.Client

open BoltStream.Broker BoltStream.Lib BoltStream.Protocol

/-- A frame that one of the sides writes. -/
structure SentFrame where
  version : ℕ
  frameType : FrameType
  correlationId : ℕ
  payload : Bytes
  deriving DecidableEq, Repr

namespace SentFrame

def encode (f : SentFrame) : Bytes :=
  encodeFrame f.version f.frameType f.correlationId f.payload 0

/-- The header as the other side decodes it. -/
def header (f : SentFrame) : FrameHeader :=
  { version := f.version % 2 ^ 16
    frameType := .ofField (f.frameType.toField % 2 ^ 16)
    payloadBytes := f.payload.length % 2 ^ 32
    correlationId := f.correlationId % 2 ^ 64
    headerCrc32 := crc32
      (headerFields f.version f.frameType f.correlationId f.payload.length 0) }

def frame (f : SentFrame) : Frame := ⟨f.header, f.payload⟩

end SentFrame

structure Connection where
  client : AsyncClient
  session : Session
  /-- The requests the client has queued for writing, in order. -/
  sent : List SentFrame := []
  /-- The replies the session has written, in order. -/
  replies : List SentFrame := []
  /-- What the session has given to `handle_frame`. -/
  received : List Frame := []
  /-- How far the session has read. -/
  brokerPosition : ℕ := 0
  /-- How far the client has read. -/
  clientPosition : ℕ := 0

/-- An event of the session comes with the payload of what it may write. -/
inductive ConnectionEvent where
  | client (event : ClientEvent)
  | broker (event : Session.Event) (payload : Bytes)

def ConnectionEvent.replyPayload : ConnectionEvent → Bytes
  | client _ => []
  | broker _ payload => payload

namespace Connection

def requestFrames (s : Connection) : List Bytes := s.sent.map SentFrame.encode

def replyFrames (s : Connection) : List Bytes := s.replies.map SentFrame.encode

/-- Of the queue only the front is being written. -/
def requestStream (s : Connection) : Bytes :=
  (s.requestFrames.take (s.sent.length + 1 - s.client.writeQueue.length)).flatten

def replyStream (s : Connection) : Bytes := s.replyFrames.flatten

/-! ## Steps -/

/-- The client is connected already. -/
def clientReads (s : Connection) : ClientEvent → Option Connection
  | .connect => none
  | .resolved _ => none
  | .connected _ => none
  | .headerRead (some bytes) =>
      if nextSymbols s.replyStream s.clientPosition kFrameHeaderBytes = some bytes then
        some { s with clientPosition := s.clientPosition + kFrameHeaderBytes }
      else none
  | .payloadRead header (some payload) =>
      if nextSymbols s.replyStream s.clientPosition header.payloadBytes = some payload then
        some { s with clientPosition := s.clientPosition + header.payloadBytes }
      else none
  | _ => some s

def queued (client : AsyncClient) : ClientEvent → List SentFrame
  | .request frameType payload =>
      if client.accepts payload then
        [⟨client.protocolVersion, frameType, client.nextCorrelationId, payload⟩]
      else []
  | _ => []

def clientStep (s : Connection) (event : ClientEvent) : Option Connection :=
  (s.clientReads event).bind fun u ↦ (s.client.step event).map fun client ↦
    { u with client := client, sent := s.sent ++ queued s.client event }

def brokerReads (s : Connection) : Session.Event → Option Connection
  | .headerRead (some bytes) =>
      if nextSymbols s.requestStream s.brokerPosition kFrameHeaderBytes = some bytes then
        some { s with brokerPosition := s.brokerPosition + kFrameHeaderBytes }
      else none
  | .payloadRead header (some _) =>
      (nextSymbols s.requestStream s.brokerPosition header.payloadBytes).map fun payload ↦
        { s with
            brokerPosition := s.brokerPosition + header.payloadBytes
            received := s.received ++ [⟨header, payload⟩] }
  | _ => some s

/-- `write_frame` -/
def replyFrame (session : Session) (payload : Bytes) (response : Response) : SentFrame :=
  { version := if session.protocolVersion = 0 then kProtocolVersion else session.protocolVersion
    frameType := response.frameType
    correlationId := response.correlationId
    payload := payload }

def written (s t : Session) (payload : Bytes) : List SentFrame :=
  (t.responses.drop s.responses.length).map (replyFrame t payload)

def brokerStep (maxFrameBytes : ℕ) (s : Connection) (event : Session.Event) (payload : Bytes) :
    Option Connection :=
  (s.brokerReads event).bind fun u ↦ (s.session.step maxFrameBytes event).map fun session ↦
    { u with session := session, replies := s.replies ++ written s.session session payload }

def step (maxFrameBytes : ℕ) (s : Connection) : ConnectionEvent → Option Connection
  | .client event => s.clientStep event
  | .broker event payload => s.brokerStep maxFrameBytes event payload

/-- Both sides have started to read. -/
def established (maxFrameBytes protocolVersion : ℕ) (authRequired : Bool) : Connection :=
  { client := { AsyncClient.initial maxFrameBytes protocolVersion with
      socketOpen := true
      operations := [.header] }
    session := Session.opened authRequired }

end Connection

/-! ## Frames -/

namespace SentFrame

theorem length_encode (f : SentFrame) : f.encode.length = kFrameHeaderBytes + f.payload.length := by
  rw [encode, encodeFrame, List.length_append, List.length_append, length_headerFields,
    length_writeU32, kFrameHeaderBytes, ← Nat.add_assoc]

theorem encode_eq (f : SentFrame) :
    f.encode = (headerFields f.version f.frameType f.correlationId f.payload.length 0 ++
      writeU32 (crc32 (headerFields f.version f.frameType f.correlationId f.payload.length 0))) ++
        f.payload := by
  rw [encode, encodeFrame, List.append_assoc]

theorem drop_encode (f : SentFrame) : f.encode.drop kFrameHeaderBytes = f.payload := by
  rw [encode_eq]
  apply List.drop_left'
  rw [List.length_append, length_headerFields, length_writeU32, kFrameHeaderBytes]

theorem decodeHeader_encode (f : SentFrame) (maxFrameBytes : ℕ) :
    (decodeHeader (f.encode.take kFrameHeaderBytes) maxFrameBytes).header = f.header := by
  have hhead : f.encode.take kFrameHeaderBytes =
      headerFields f.version f.frameType f.correlationId f.payload.length 0 ++
        (writeU32 (crc32 (headerFields f.version f.frameType f.correlationId f.payload.length 0)) ++
          []) := by
    rw [encode_eq, List.append_nil]
    apply List.take_left'
    rw [List.length_append, length_headerFields, length_writeU32, kFrameHeaderBytes]
  have hlength : ¬(f.encode.take kFrameHeaderBytes).length < kFrameHeaderBytes := by
    rw [List.length_take, length_encode]
    omega
  obtain ⟨hmagic, hversion, htype, hbytes, hpayload, hcorrelation, hflags, hcrc⟩ :=
    headerFields_read f.version f.frameType f.correlationId f.payload.length 0 []
  rw [← hhead] at hmagic hversion htype hbytes hpayload hcorrelation hflags hcrc
  rw [decodeHeader, if_neg hlength]
  dsimp only
  rw [hmagic, hversion, htype, hbytes, hpayload, hcorrelation, hflags, hcrc]
  rfl

end SentFrame

namespace Connection

variable {maxFrameBytes : ℕ} {s t : Connection} {f : SentFrame} {k : ℕ}

/-- A reader at the start of a frame takes its header. -/
theorem takes_header {frames : List SentFrame} {m position : ℕ} {bytes : Bytes}
    (hposition : position = startOf (frames.map SentFrame.encode) k)
    (hread : nextSymbols ((frames.map SentFrame.encode).take m).flatten position
      kFrameHeaderBytes = some bytes) :
    ∃ f, frames[k]? = some f ∧ bytes = f.encode.take kFrameHeaderBytes := by
  have harrived : startOf (frames.map SentFrame.encode) k <
      ((frames.map SentFrame.encode).take m).flatten.length := by
    rw [nextSymbols] at hread
    split_ifs at hread with h
    rw [hposition] at h
    exact Nat.lt_of_lt_of_le (Nat.lt_add_of_pos_right (by decide)) h
  obtain ⟨frame, hframe⟩ := exists_frame harrived
  obtain ⟨f, hf, rfl⟩ := Option.map_eq_some_iff.mp (List.getElem?_map.symm.trans hframe)
  refine ⟨f, hf, ?_⟩
  have hbytes := @nextSymbols_within _ _ _ _ k m 0 kFrameHeaderBytes hframe
    (by rw [f.length_encode]; omega) (by rwa [Nat.add_zero, ← hposition])
  rwa [List.drop_zero] at hbytes

/-- Behind the header it takes the payload, and is at the start of the next frame. -/
theorem takes_payload {frames : List SentFrame} {m position : ℕ} {payload : Bytes}
    (hf : frames[k]? = some f) (hsmall : f.payload.length < 2 ^ 32)
    (hposition : position = startOf (frames.map SentFrame.encode) k + kFrameHeaderBytes)
    (hread : nextSymbols ((frames.map SentFrame.encode).take m).flatten position
      f.header.payloadBytes = some payload) :
    payload = f.payload ∧
      position + f.header.payloadBytes = startOf (frames.map SentFrame.encode) (k + 1) := by
  have hframe : (frames.map SentFrame.encode)[k]? = some f.encode := by
    rw [List.getElem?_map, hf, Option.map_some]
  have hannounced : f.header.payloadBytes = f.payload.length := Nat.mod_eq_of_lt hsmall
  rw [hannounced, hposition] at hread
  have hbytes := nextSymbols_within hframe (Nat.le_of_eq f.length_encode.symm) hread
  rw [f.drop_encode, List.take_length] at hbytes
  refine ⟨hbytes, ?_⟩
  rw [startOf_succ hframe, f.length_encode, hannounced, hposition, Nat.add_assoc]

/-! ## The broker's end -/

theorem prefix_concat {α : Type*} {l m : List α} {a : α} (h : l <+: m)
    (ha : m[l.length]? = some a) : l ++ [a] <+: m := by
  obtain ⟨rest, rfl⟩ := h
  rw [List.getElem?_append_right le_rfl, Nat.sub_self] at ha
  cases rest with
  | nil => cases ha
  | cons b rest =>
      obtain rfl := Option.some.inj ha
      exact ⟨rest, by rw [List.append_assoc, List.singleton_append]⟩

/-- The session is at the start of the frame that it has not read, or behind its header,
and has written the replies in order. -/
structure BrokerInStep (s : Connection) : Prop where
  ordered : ∃ live, s.session.Ordered live
  small : ∀ f ∈ s.sent, f.payload.length < 2 ^ 32
  requests : s.session.requests <+: s.sent.map SentFrame.header
  received : s.received <+: s.sent.map SentFrame.frame
  expecting : s.session.Expecting →
    s.brokerPosition = startOf s.requestFrames s.session.requests.length ∧
      s.received.length = s.session.requests.length
  reading : ∀ header, .payload header ∈ s.session.operations →
    (∃ f, s.sent[s.session.requests.length]? = some f ∧ header = f.header) ∧
      s.brokerPosition = startOf s.requestFrames s.session.requests.length + kFrameHeaderBytes ∧
      s.received.length = s.session.requests.length
  replies : s.replies.map SentFrame.correlationId =
    s.session.responses.map Response.correlationId

theorem BrokerInStep.established (maxFrameBytes protocolVersion : ℕ) (authRequired : Bool) :
    BrokerInStep (established maxFrameBytes protocolVersion authRequired) := by
  refine ⟨⟨none, Session.ordered_opened authRequired⟩, ?_, List.prefix_rfl, List.prefix_rfl,
    fun _ ↦ ⟨rfl, rfl⟩, fun header hmem ↦ ?_, rfl⟩
  · rintro f hf
    cases hf
  · cases List.mem_singleton.mp hmem

theorem BrokerInStep.length_le (h : BrokerInStep s) :
    s.session.requests.length ≤ s.sent.length := by
  have hle := h.requests.length_le
  rwa [List.length_map] at hle

/-- The client only adds to what is there to be read. -/
theorem BrokerInStep.send (h : BrokerInStep s) {queued : List SentFrame}
    (hsmall : ∀ f ∈ queued, f.payload.length < 2 ^ 32) (hsent : t.sent = s.sent ++ queued)
    (hsession : t.session = s.session) (hreceived : t.received = s.received)
    (hposition : t.brokerPosition = s.brokerPosition) (hreplies : t.replies = s.replies) :
    BrokerInStep t := by
  have hstart : startOf t.requestFrames s.session.requests.length =
      startOf s.requestFrames s.session.requests.length := by
    rw [requestFrames, hsent, List.map_append]
    apply startOf_append
    rw [List.length_map]
    exact h.length_le
  constructor
  · rw [hsession]
    exact h.ordered
  · rw [hsent]
    intro f hf
    exact (List.mem_append.mp hf).elim (h.small f) (hsmall f)
  · rw [hsession, hsent, List.map_append]
    exact h.requests.trans (List.prefix_append _ _)
  · rw [hreceived, hsent, List.map_append]
    exact h.received.trans (List.prefix_append _ _)
  · rw [hsession, hposition, hreceived, hstart]
    exact h.expecting
  · rw [hsession, hposition, hreceived, hstart]
    intro header hmem
    obtain ⟨⟨f, hf, hheader⟩, hrest⟩ := h.reading header hmem
    refine ⟨⟨f, ?_, hheader⟩, hrest⟩
    obtain ⟨hlt, -⟩ := List.getElem?_eq_some_iff.mp hf
    rw [hsent, List.getElem?_append_left hlt, hf]
  · rw [hreplies, hsession]
    exact h.replies

theorem map_written {u : Session} (hresponses : s.session.responses <+: u.responses)
    (hreplies : s.replies.map SentFrame.correlationId =
      s.session.responses.map Response.correlationId) (payload : Bytes) :
    (s.replies ++ written s.session u payload).map SentFrame.correlationId =
      u.responses.map Response.correlationId := by
  have hwritten : (written s.session u payload).map SentFrame.correlationId =
      (u.responses.drop s.session.responses.length).map Response.correlationId := by
    rw [written, List.map_map]
    rfl
  obtain ⟨rest, hrest⟩ := hresponses
  rw [List.map_append, hreplies, hwritten, ← hrest, List.drop_left, List.map_append]

/-- An event that reads nothing. -/
theorem BrokerInStep.calm (h : BrokerInStep s) {u : Session} (hordered : ∃ live, u.Ordered live)
    (hcalm : Session.Calm s.session u) (payload : Bytes) :
    BrokerInStep { s with session := u, replies := s.replies ++ written s.session u payload } := by
  refine ⟨hordered, h.small, ?_, h.received, ?_, ?_, map_written hcalm.responses h.replies payload⟩
  · rw [show ({ s with session := u, replies := s.replies ++ written s.session u payload } :
      Connection).session.requests = s.session.requests from hcalm.requests]
    exact h.requests
  · intro hexpecting
    have hread := h.expecting (hcalm.expecting hexpecting)
    rwa [← hcalm.requests] at hread
  · intro header hmem
    have hread := h.reading header (hcalm.reading header hmem)
    rwa [← hcalm.requests] at hread

theorem BrokerInStep.readHeader (h : BrokerInStep s) {bytes : Bytes}
    (hmem : .header ∈ s.session.operations)
    (hread : nextSymbols s.requestStream s.brokerPosition kFrameHeaderBytes = some bytes)
    {u : Session} (hordered : ∃ live, u.Ordered live)
    (htaken : Session.HeaderTaken s.session u (decodeHeader bytes maxFrameBytes).header)
    (payload : Bytes) :
    BrokerInStep { s with
      brokerPosition := s.brokerPosition + kFrameHeaderBytes
      session := u
      replies := s.replies ++ written s.session u payload } := by
  obtain ⟨hposition, hlength⟩ := h.expecting (Or.inr (Or.inl hmem))
  obtain ⟨f, hf, rfl⟩ := takes_header hposition hread
  rw [f.decodeHeader_encode] at htaken
  refine ⟨hordered, h.small, ?_, h.received, fun hexpecting ↦ absurd hexpecting htaken.ends, ?_,
    map_written htaken.responses h.replies payload⟩
  · rcases htaken.next with ⟨hrequests, -⟩ | ⟨hrequests, -⟩
    · change u.requests <+: _
      rw [hrequests]
      apply prefix_concat h.requests
      rw [List.getElem?_map, hf, Option.map_some]
    · change u.requests <+: _
      rw [hrequests]
      exact h.requests
  · intro header hheader
    rcases htaken.next with ⟨-, hnone⟩ | ⟨hrequests, hone⟩
    · exact absurd hheader (hnone header)
    · change (∃ f, s.sent[u.requests.length]? = some f ∧ header = f.header) ∧
        s.brokerPosition + kFrameHeaderBytes =
          startOf s.requestFrames u.requests.length + kFrameHeaderBytes ∧
        s.received.length = u.requests.length
      rw [hrequests, ← hposition]
      exact ⟨⟨f, hf, hone header hheader⟩, rfl, hlength⟩

theorem BrokerInStep.readPayload (h : BrokerInStep s) {header : FrameHeader} {bytes : Bytes}
    (hmem : .payload header ∈ s.session.operations)
    (hread : nextSymbols s.requestStream s.brokerPosition header.payloadBytes = some bytes)
    {u : Session} (hordered : ∃ live, u.Ordered live)
    (hrequests : u.requests = s.session.requests ++ [header])
    (hresponses : s.session.responses <+: u.responses)
    (hnone : ∀ other, .payload other ∉ u.operations) (payload : Bytes) :
    BrokerInStep { s with
      brokerPosition := s.brokerPosition + header.payloadBytes
      received := s.received ++ [⟨header, bytes⟩]
      session := u
      replies := s.replies ++ written s.session u payload } := by
  obtain ⟨⟨f, hf, rfl⟩, hposition, hlength⟩ := h.reading header hmem
  obtain ⟨rfl, hnext⟩ := takes_payload hf (h.small f (List.mem_of_getElem? hf)) hposition hread
  refine ⟨hordered, h.small, ?_, ?_, fun _ ↦ ?_, fun other hother ↦ absurd hother (hnone other),
    map_written hresponses h.replies payload⟩
  · change u.requests <+: _
    rw [hrequests]
    apply prefix_concat h.requests
    rw [List.getElem?_map, hf, Option.map_some]
  · apply prefix_concat h.received
    rw [hlength, List.getElem?_map, hf, Option.map_some]
    rfl
  · change s.brokerPosition + f.header.payloadBytes = startOf s.requestFrames u.requests.length ∧
      (s.received ++ [f.frame]).length = u.requests.length
    rw [hrequests, List.length_append, List.length_append, hlength]
    exact ⟨hnext, rfl⟩

theorem BrokerInStep.brokerStep (h : BrokerInStep s) {event : Session.Event} {payload : Bytes}
    (hstep : s.brokerStep maxFrameBytes event payload = some t) : BrokerInStep t := by
  obtain ⟨u, hreads, hstep⟩ := Option.bind_eq_some_iff.mp hstep
  obtain ⟨session, hsession, rfl⟩ := Option.map_eq_some_iff.mp hstep
  obtain ⟨live, hlive⟩ := h.ordered
  have hordered := hlive.step hsession
  have hcalm : Session.ReadsNothing event → u = s → BrokerInStep { u with
      session := session
      replies := s.replies ++ written s.session session payload } := by
    rintro hnothing rfl
    exact h.calm hordered (hlive.calm hnothing hsession) payload
  cases event with
  | headerRead bytes =>
      cases bytes with
      | none => exact hcalm ⟨by simp, by simp⟩ (Option.some.inj hreads).symm
      | some bytes =>
          simp only [brokerReads] at hreads
          split_ifs at hreads with hread
          obtain rfl := Option.some.inj hreads
          obtain ⟨v, htake, rfl⟩ := Option.map_eq_some_iff.mp hsession
          obtain ⟨hmem, rfl⟩ := Session.take_eq_some htake
          have hresting := hlive.take_turn hmem rfl (by simp)
          have htaken := hresting.onHeader_taken bytes maxFrameBytes
          exact h.readHeader hmem hread hordered
            ⟨htaken.responses, htaken.ends, htaken.next⟩ payload
  | payloadRead header input =>
      cases input with
      | none => exact hcalm ⟨by simp, by simp⟩ (Option.some.inj hreads).symm
      | some input =>
          obtain ⟨bytes, hread, rfl⟩ := Option.map_eq_some_iff.mp hreads
          obtain ⟨v, htake, rfl⟩ := Option.map_eq_some_iff.mp hsession
          obtain ⟨hmem, rfl⟩ := Session.take_eq_some htake
          have hresting := hlive.take_turn hmem rfl (by simp)
          obtain ⟨hrequests, hresponses, hnone⟩ := hresting.onPayload_keeps header input
          exact h.readPayload hmem hread hordered hrequests hresponses hnone payload
  | appendCompleted request correlationId error =>
      exact hcalm ⟨by simp, by simp⟩ (Option.some.inj hreads).symm
  | notified poll => exact hcalm ⟨by simp, by simp⟩ (Option.some.inj hreads).symm
  | callbackRun poll result => exact hcalm ⟨by simp, by simp⟩ (Option.some.inj hreads).symm
  | timerExpired poll => exact hcalm ⟨by simp, by simp⟩ (Option.some.inj hreads).symm
  | timerHandlerRun poll cancelled result =>
      exact hcalm ⟨by simp, by simp⟩ (Option.some.inj hreads).symm
  | writeCompleted closeAfterWrite failed =>
      exact hcalm ⟨by simp, by simp⟩ (Option.some.inj hreads).symm

/-- The replies carry the correlation ids of the requests, in the same order. -/
theorem BrokerInStep.reply (h : BrokerInStep s) {reply : SentFrame}
    (hreply : s.replies[k]? = some reply) :
    ∃ f, s.sent[k]? = some f ∧ reply.correlationId = f.correlationId % 2 ^ 64 := by
  obtain ⟨live, hordered⟩ := h.ordered
  have hids : (s.session.responses.map Response.correlationId)[k]? =
      some reply.correlationId := by
    rw [← h.replies, List.getElem?_map, hreply, Option.map_some]
  obtain ⟨response, hresponse, hid⟩ :=
    Option.map_eq_some_iff.mp (List.getElem?_map.symm.trans hids)
  obtain ⟨-, header, hheader, hcorrelation⟩ := hordered.answered k response hresponse
  obtain ⟨hlt, hget⟩ := List.getElem?_eq_some_iff.mp hheader
  have hsent : (s.sent.map SentFrame.header)[k]? = some header := by
    rw [← hget, h.requests.getElem hlt]
    exact List.getElem?_eq_getElem _
  obtain ⟨f, hf, rfl⟩ := Option.map_eq_some_iff.mp (List.getElem?_map.symm.trans hsent)
  exact ⟨f, hf, hid.symm.trans hcorrelation⟩

end Connection

end BoltStream.Client
