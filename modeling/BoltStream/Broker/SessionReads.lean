import BoltStream.Broker.SessionAnswers

/-!
# What a session has read

A session reads a header, then the payload that the header announces, and counts the
two as one request.  Of its other events none changes what was read, and after none of
them does it read on unless it was about to before.
-/

namespace BoltStream.Broker

open BoltStream.Lib BoltStream.Protocol

namespace Session

/-- The session is going to read another header. -/
def Expecting (s : Session) : Prop :=
  s.responses.length < s.requests.length ∨ .header ∈ s.operations ∨ .write false ∈ s.operations

/-- A step that reads nothing. -/
structure Calm (s t : Session) : Prop where
  requests : t.requests = s.requests
  responses : s.responses <+: t.responses
  expecting : t.Expecting → s.Expecting
  reading : ∀ header, .payload header ∈ t.operations → .payload header ∈ s.operations

variable {s t : Session} {live : Option LongPoll} {header : FrameHeader}

/-- Operations other than reads and writes come and go. -/
theorem calm_of_operations (hrequests : t.requests = s.requests)
    (hresponses : t.responses = s.responses)
    (hoperations : ∀ operation ∈ t.operations, operation.isTurn = true →
      operation ∈ s.operations) : Calm s t := by
  refine ⟨hrequests, hresponses ▸ List.prefix_rfl, ?_, fun header hmem ↦ hoperations _ hmem rfl⟩
  rintro (houtstanding | hheader | hwrite)
  · rw [hrequests, hresponses] at houtstanding
    exact Or.inl houtstanding
  · exact Or.inr (Or.inl (hoperations _ hheader rfl))
  · exact Or.inr (Or.inr (hoperations _ hwrite rfl))

theorem calm_take (s : Session) (operation : Operation) :
    Calm s { s with operations := s.operations.erase operation } :=
  calm_of_operations rfl rfl fun _ hmem _ ↦ List.mem_of_mem_erase hmem

/-- A response to the outstanding request. -/
theorem calm_writeFrame (houtstanding : s.Expecting) {u : Session}
    (hrequests : u.requests = s.requests) (hresponses : u.responses = s.responses)
    (hoperations : ∀ operation ∈ u.operations, operation.isTurn = true →
      operation ∈ s.operations) (request correlationId : ℕ) (frameType : FrameType)
    (error : Option ErrorCode) (closeAfterWrite : Bool) :
    Calm s (u.writeFrame request correlationId frameType error closeAfterWrite) := by
  refine ⟨hrequests, ?_, fun _ ↦ houtstanding, fun header hmem ↦ ?_⟩
  · rw [← hresponses]
    exact List.prefix_append _ _
  · rcases List.mem_append.mp hmem with hmem | hmem
    · exact hoperations _ hmem rfl
    · cases List.mem_singleton.mp hmem

theorem calm_finishPoll (houtstanding : s.Expecting) {u : Session}
    (hrequests : u.requests = s.requests) (hresponses : u.responses = s.responses)
    (hoperations : ∀ operation ∈ u.operations, operation.isTurn = true →
      operation ∈ s.operations) (poll : LongPoll) (result : CallResult) :
    Calm s (u.finishPoll poll result) := by
  cases result with
  | ok => exact calm_writeFrame houtstanding hrequests hresponses hoperations _ _ _ _ _
  | requestError code =>
      exact calm_writeFrame houtstanding hrequests hresponses hoperations _ _ _ _ _
  | exception => exact calm_writeFrame houtstanding hrequests hresponses hoperations _ _ _ _ _

/-- While a long poll waits, its request is outstanding. -/
theorem Ordered.expecting_of_poll (h : s.Ordered live) {operation : Operation}
    (hmem : operation ∈ s.operations) {poll : LongPoll} (hpoll : operation.poll? = some poll)
    (hflag : poll.request ∉ s.completed) : s.Expecting := by
  obtain rfl := h.live_of_not_completed hmem hpoll hflag
  cases h.turn with
  | poll _ _ _ hlength => exact Or.inl (by omega)

/-- An event delivers no bytes. -/
def ReadsNothing (event : Event) : Prop :=
  (∀ bytes, event ≠ .headerRead (some bytes)) ∧
    ∀ header input, event ≠ .payloadRead header (some input)

theorem Ordered.calm (h : s.Ordered live) {maxFrameBytes : ℕ} {event : Event}
    (hreads : ReadsNothing event) (hstep : s.step maxFrameBytes event = some t) : Calm s t := by
  cases event with
  | headerRead bytes =>
      obtain ⟨u, htake, rfl⟩ := Option.map_eq_some_iff.mp hstep
      obtain ⟨-, rfl⟩ := take_eq_some htake
      cases bytes with
      | none => exact calm_take s _
      | some bytes => exact absurd rfl (hreads.1 bytes)
  | payloadRead header input =>
      obtain ⟨u, htake, rfl⟩ := Option.map_eq_some_iff.mp hstep
      obtain ⟨-, rfl⟩ := take_eq_some htake
      cases input with
      | none => exact calm_take s _
      | some input => exact absurd rfl (hreads.2 header input)
  | appendCompleted request correlationId error =>
      obtain ⟨u, htake, rfl⟩ := Option.map_eq_some_iff.mp hstep
      obtain ⟨hmem, rfl⟩ := take_eq_some htake
      have hexpecting : s.Expecting := by
        obtain ⟨header, -, -, houtstanding⟩ := h.take_append hmem
        have hlength : s.requests.length = s.responses.length + 1 := houtstanding.length
        exact Or.inl (by omega)
      cases error with
      | none =>
          apply calm_writeFrame hexpecting
          · rfl
          · rfl
          · exact fun _ hother _ ↦ List.mem_of_mem_erase hother
      | some code =>
          apply calm_writeFrame hexpecting
          · rfl
          · rfl
          · exact fun _ hother _ ↦ List.mem_of_mem_erase hother
  | notified poll =>
      simp only [Session.step] at hstep
      split_ifs at hstep with hmem
      obtain rfl := Option.some.inj hstep
      refine calm_of_operations rfl rfl fun operation hoperation hturn ↦ ?_
      rcases List.mem_append.mp hoperation with hoperation | hoperation
      · exact hoperation
      · rw [List.mem_singleton.mp hoperation] at hturn
        cases hturn
  | callbackRun poll result =>
      obtain ⟨u, htake, rfl⟩ := Option.map_eq_some_iff.mp hstep
      obtain ⟨hmem, rfl⟩ := take_eq_some htake
      unfold Session.onCallback
      split_ifs with hflag
      · exact calm_take s _
      · apply calm_finishPoll (h.expecting_of_poll hmem rfl hflag)
        · rfl
        · rfl
        · intro operation hoperation hturn
          obtain ⟨source, hsource, rfl⟩ := List.mem_map.mp hoperation
          split_ifs at hturn ⊢ with htimer
          · cases hturn
          · exact List.mem_of_mem_erase hsource
  | timerExpired poll =>
      obtain ⟨u, htake, rfl⟩ := Option.map_eq_some_iff.mp hstep
      obtain ⟨-, rfl⟩ := take_eq_some htake
      refine calm_of_operations rfl rfl fun operation hoperation hturn ↦ ?_
      rcases List.mem_append.mp hoperation with hoperation | hoperation
      · exact List.mem_of_mem_erase hoperation
      · rw [List.mem_singleton.mp hoperation] at hturn
        cases hturn
  | timerHandlerRun poll cancelled result =>
      obtain ⟨u, htake, rfl⟩ := Option.map_eq_some_iff.mp hstep
      obtain ⟨hmem, rfl⟩ := take_eq_some htake
      unfold Session.onTimer
      split_ifs with hdone
      · exact calm_take s _
      · rw [not_or] at hdone
        apply calm_finishPoll (h.expecting_of_poll hmem rfl hdone.2)
        · rfl
        · rfl
        · exact fun operation hoperation _ ↦ List.mem_of_mem_erase hoperation
  | writeCompleted closeAfterWrite failed =>
      obtain ⟨u, htake, rfl⟩ := Option.map_eq_some_iff.mp hstep
      obtain ⟨hmem, rfl⟩ := take_eq_some htake
      have hresting := h.take_turn hmem rfl (by simp)
      unfold Session.onWritten
      split_ifs with hfailed hclose
      · rw [cancelActiveWaiter_of_none hresting.settled.active]
        exact calm_take s _
      · exact calm_take s _
      · have hwrite : .write false ∈ s.operations := by
          rwa [Bool.eq_false_of_not_eq_true hclose] at hmem
        refine ⟨rfl, List.prefix_rfl, fun _ ↦ Or.inr (Or.inr hwrite), fun header hmem ↦ ?_⟩
        rcases List.mem_append.mp hmem with hmem | hmem
        · exact List.mem_of_mem_erase hmem
        · cases List.mem_singleton.mp hmem

/-- A session at rest has started no read and no write. -/
theorem Resting.not_mem (h : s.Resting) {operation : Operation} (hturn : operation.isTurn = true) :
    operation ∉ s.operations := by
  intro hmem
  have hmem := mem_turns hmem hturn
  rw [h.turns] at hmem
  cases hmem

/-- The session has taken a header: it refuses it and reads no more, or goes on to the
payload. -/
structure HeaderTaken (s t : Session) (header : FrameHeader) : Prop where
  responses : s.responses <+: t.responses
  ends : ¬t.Expecting
  next : t.requests = s.requests ++ [header] ∧ (∀ other, .payload other ∉ t.operations) ∨
    t.requests = s.requests ∧ ∀ other, .payload other ∈ t.operations → other = header

theorem Resting.refuseHeader (h : s.Resting) (header : FrameHeader) (error : Option ErrorCode) :
    HeaderTaken s ((s.receive header).writeFrame s.requests.length header.correlationId
      .errorResponse error true) header := by
  set t := (s.receive header).writeFrame s.requests.length header.correlationId .errorResponse
    error true with ht
  have hlength := h.length
  have hoperations : ∀ operation : Operation, operation.isTurn = true →
      operation ≠ .write true → operation ∉ t.operations := by
    intro operation hturn hne hmem
    rcases List.mem_append.mp hmem with hmem | hmem
    · exact h.not_mem hturn hmem
    · exact hne (List.mem_singleton.mp hmem)
  refine ⟨List.prefix_append _ _, ?_, Or.inl ⟨rfl, fun other ↦
    hoperations (.payload other) rfl (by simp)⟩⟩
  rintro (houtstanding | hheader | hwrite)
  · simp only [ht, Session.writeFrame, Session.receive, List.length_append,
      List.length_singleton] at houtstanding
    omega
  · exact hoperations .header rfl (by simp) hheader
  · exact hoperations (.write false) rfl (by simp) hwrite

theorem Resting.acceptHeader (h : s.Resting) (header : FrameHeader) (protocolVersion : ℕ) :
    HeaderTaken s (Session.start { s with protocolVersion := protocolVersion } (.payload header))
      header := by
  set t := Session.start { s with protocolVersion := protocolVersion } (.payload header) with ht
  have hlength := h.length
  have hmem : ∀ operation ∈ t.operations, operation.isTurn = true →
      operation = .payload header := by
    intro operation hoperation hturn
    rcases List.mem_append.mp hoperation with hoperation | hoperation
    · exact absurd hoperation (h.not_mem hturn)
    · exact List.mem_singleton.mp hoperation
  refine ⟨List.prefix_rfl, ?_, Or.inr ⟨rfl, fun other hother ↦
    Operation.payload.inj (hmem _ hother rfl)⟩⟩
  rintro (houtstanding | hheader | hwrite)
  · simp only [ht, Session.start] at houtstanding
    omega
  · cases hmem _ hheader rfl
  · cases hmem _ hwrite rfl

theorem Resting.onHeader_taken (h : s.Resting) (bytes : Bytes) (maxFrameBytes : ℕ) :
    HeaderTaken s (s.onHeader bytes maxFrameBytes) (decodeHeader bytes maxFrameBytes).header := by
  simp only [Session.onHeader]
  cases (decodeHeader bytes maxFrameBytes).error with
  | some error => exact h.refuseHeader _ _
  | none =>
      dsimp only
      split_ifs
      · exact h.acceptHeader _ _
      · exact h.refuseHeader _ _
      · exact h.acceptHeader _ s.protocolVersion

/-- What a handler leads to: a response, an append job or a long poll. -/
theorem Outstanding.perform_keeps (h : s.Outstanding header) (waiterId : Option ℕ)
    (reply : Reply) :
    let t := s.perform s.responses.length header.correlationId waiterId reply
    t.requests = s.requests ∧ s.responses <+: t.responses ∧
      ∀ other, .payload other ∉ t.operations := by
  have hnone : ∀ other, .payload other ∉ s.operations := fun other hmem ↦ by
    have hmem := mem_turns hmem rfl
    rw [h.turns] at hmem
    cases hmem
  have hadded : ∀ operation : Operation, (∀ other, operation ≠ .payload other) →
      ∀ other, .payload other ∉ s.operations ++ [operation] := by
    intro operation hne other hmem
    rcases List.mem_append.mp hmem with hmem | hmem
    · exact hnone other hmem
    · exact hne other (List.mem_singleton.mp hmem).symm
  have hwrite : ∀ request correlationId frameType error closeAfterWrite,
      let t := s.writeFrame request correlationId frameType error closeAfterWrite
      t.requests = s.requests ∧ s.responses <+: t.responses ∧
        ∀ other, .payload other ∉ t.operations := fun _ _ _ _ _ ↦
    ⟨rfl, List.prefix_append _ _, hadded _ fun _ ↦ nofun⟩
  cases reply with
  | write frameType error closeAfterWrite => exact hwrite _ _ _ _ _
  | enqueue => exact ⟨rfl, List.prefix_rfl, hadded _ fun _ ↦ nofun⟩
  | longPoll =>
      simp only [Session.perform, Session.registerLongPoll]
      split_ifs
      · exact hwrite _ _ _ _ _
      · cases waiterId with
        | none => exact hwrite _ _ _ _ _
        | some waiterId => exact ⟨rfl, List.prefix_rfl, hadded _ fun _ ↦ nofun⟩

/-- A session that reads a payload has one request more. -/
theorem Resting.onPayload_keeps (h : s.Resting) (header : FrameHeader) (input : HandlerInput) :
    let t := s.onPayload header input
    t.requests = s.requests ++ [header] ∧ s.responses <+: t.responses ∧
      ∀ other, .payload other ∉ t.operations := by
  obtain ⟨houtstanding, -⟩ := h.receive header
  obtain ⟨authenticated, negotiatedCodecs, hsession⟩ :=
    (s.receive header).handleFrame_fst header.frameType input
  have hlength : s.requests.length = s.responses.length := h.length
  have hhandled : ((s.receive header).handleFrame header.frameType input).1.Outstanding header := by
    rw [hsession]
    exact ⟨houtstanding.answered, houtstanding.turns, houtstanding.length, houtstanding.request,
      houtstanding.settled.operations, houtstanding.settled.waiters, houtstanding.settled.active,
      houtstanding.settled.completed⟩
  have hperformed := hhandled.perform_keeps input.waiterId
    ((s.receive header).handleFrame header.frameType input).2
  rw [show ((s.receive header).handleFrame header.frameType input).1.responses.length =
    s.requests.length by rw [hsession, hlength]; rfl] at hperformed
  obtain ⟨hrequests, hresponses, hoperations⟩ := hperformed
  refine ⟨hrequests.trans ?_, List.IsPrefix.trans ?_ hresponses, hoperations⟩
  · rw [hsession]
    rfl
  · rw [hsession]
    exact List.prefix_rfl

end Session

end BoltStream.Broker
