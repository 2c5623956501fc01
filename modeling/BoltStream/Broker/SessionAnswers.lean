import BoltStream.Broker.Session
import BoltStream.Lib.Runs

/-!
# A session answers every request once

At any time a session has one turn: an operation that reads or writes, an append
job, or a long poll whose flag is not set.  A handler that finds its flag set does
nothing, so what is left over from earlier long polls is harmless.
-/

namespace BoltStream.Broker

open BoltStream.Lib BoltStream.Protocol

namespace Operation

/-- Operations of which a session has at most one. -/
def isTurn : Operation → Bool
  | header => true
  | payload _ => true
  | append _ _ => true
  | write _ => true
  | _ => false

def poll? : Operation → Option LongPoll
  | callback poll => some poll
  | timer poll => some poll
  | timerHandler poll _ => some poll
  | _ => none

end Operation

namespace Session

def turns (s : Session) : List Operation := s.operations.filter Operation.isTurn

/-- Responses come in the order of the requests, each with the correlation id of
its own. -/
def Answered (s : Session) : Prop :=
  ∀ (i : ℕ) (r : Response), s.responses[i]? = some r → r.request = i ∧
    ∃ header : FrameHeader, s.requests[i]? = some header ∧
      r.correlationId = header.correlationId

/-- Whose turn it is, with the long poll that is waiting. -/
inductive Turn (s : Session) : Option LongPoll → Prop
  | none (h : s.turns = []) (hlength : s.requests.length = s.responses.length) : Turn s none
  | header (h : s.turns = [.header]) (hlength : s.requests.length = s.responses.length) :
      Turn s none
  | payload (header : FrameHeader) (h : s.turns = [.payload header])
      (hlength : s.requests.length = s.responses.length) : Turn s none
  | write (closeAfterWrite : Bool) (h : s.turns = [.write closeAfterWrite])
      (hlength : s.requests.length = s.responses.length) : Turn s none
  | append (header : FrameHeader)
      (h : s.turns = [.append s.responses.length header.correlationId])
      (hlength : s.requests.length = s.responses.length + 1)
      (hheader : s.requests[s.responses.length]? = some header) : Turn s none
  | poll (poll : LongPoll) (header : FrameHeader) (h : s.turns = [])
      (hlength : s.requests.length = s.responses.length + 1)
      (hheader : s.requests[s.responses.length]? = some header)
      (hrequest : poll.request = s.responses.length)
      (hcorrelation : poll.correlationId = header.correlationId)
      (hflag : poll.request ∉ s.completed)
      (htimer : .timer poll ∈ s.operations ∨ .timerHandler poll false ∈ s.operations) :
      Turn s (some poll)

/-- What belongs to long polls other than `live` is settled. -/
structure Settled (s : Session) (live : Option LongPoll) : Prop where
  operations : ∀ operation ∈ s.operations, ∀ poll ∈ operation.poll?,
    poll.request ∈ s.completed ∨ live = some poll
  waiters : ∀ poll ∈ s.waiters, poll.request ∈ s.completed ∨ live = some poll
  active : s.activeWaiterId = live.map LongPoll.waiterId
  completed : ∀ request ∈ s.completed, request < s.requests.length

structure Ordered (s : Session) (live : Option LongPoll) : Prop where
  answered : s.Answered
  turn : s.Turn live
  settled : s.Settled live

/-- A session in which nothing is going on, beside what is left of long polls. -/
structure Resting (s : Session) : Prop where
  answered : s.Answered
  turns : s.turns = []
  length : s.requests.length = s.responses.length
  settled : s.Settled none

/-- A session whose last request waits for its response. -/
structure Outstanding (s : Session) (header : FrameHeader) : Prop where
  answered : s.Answered
  turns : s.turns = []
  length : s.requests.length = s.responses.length + 1
  request : s.requests[s.responses.length]? = some header
  settled : s.Settled none

variable {s t : Session} {live : Option LongPoll} {header : FrameHeader}

theorem turns_start (s : Session) (operation : Operation) :
    (s.start operation).turns =
      if operation.isTurn then s.turns ++ [operation] else s.turns := by
  simp only [turns, start, List.filter_append]
  cases h : operation.isTurn with
  | true => simp [h]
  | false => simp [h]

theorem Settled.start (h : s.Settled live) {operation : Operation}
    (hpoll : ∀ poll ∈ operation.poll?, poll.request ∈ s.completed ∨ live = some poll) :
    (s.start operation).Settled live := by
  refine ⟨fun other hother ↦ ?_, h.waiters, h.active, h.completed⟩
  rcases List.mem_append.mp hother with hother | hother
  · exact h.operations other hother
  · rw [List.mem_singleton.mp hother]
    exact hpoll

/-! ## Answering -/

/-- A response to the outstanding request. -/
theorem Outstanding.writeFrame (h : s.Outstanding header) (frameType : FrameType)
    (error : Option ErrorCode) (closeAfterWrite : Bool) :
    (s.writeFrame s.responses.length header.correlationId frameType error
      closeAfterWrite).Ordered none := by
  constructor
  · intro i r hr
    simp only [Session.writeFrame] at hr ⊢
    rw [List.getElem?_append] at hr
    split_ifs at hr with hi
    · exact h.answered i r hr
    · have hindex : i - s.responses.length = 0 := by
        by_contra hne
        rw [List.getElem?_eq_none (by simp; omega)] at hr
        cases hr
      have hi : i = s.responses.length := by omega
      subst hi
      rw [hindex] at hr
      obtain rfl := Option.some.inj hr
      exact ⟨rfl, header, h.request, rfl⟩
  · refine Turn.write closeAfterWrite ?_ ?_
    · have hturns := turns_start s (.write closeAfterWrite)
      rw [h.turns] at hturns
      exact hturns
    · simp only [Session.writeFrame, List.length_append, List.length_singleton, h.length]
  · have hsettled : (s.start (.write closeAfterWrite)).Settled none :=
      h.settled.start fun poll hpoll ↦ absurd hpoll (by simp [Operation.poll?])
    exact ⟨hsettled.operations, hsettled.waiters, hsettled.active, hsettled.completed⟩

theorem Outstanding.enqueue (h : s.Outstanding header) :
    (s.start (.append s.responses.length header.correlationId)).Ordered none := by
  refine ⟨h.answered, Turn.append header ?_ h.length h.request,
    h.settled.start fun poll hpoll ↦ absurd hpoll (by simp [Operation.poll?])⟩
  rw [turns_start, h.turns]
  rfl

/-- A long poll for the outstanding request, or a response if it is refused. -/
theorem Outstanding.registerLongPoll (h : s.Outstanding header)
    (hfresh : s.responses.length ∉ s.completed) (waiterId : Option ℕ) :
    ∃ live, (s.registerLongPoll s.responses.length header.correlationId waiterId).Ordered live := by
  have hactive : s.activeWaiterId = none := h.settled.active
  unfold Session.registerLongPoll
  rw [hactive, Option.isSome_none, if_neg Bool.false_ne_true]
  cases waiterId with
  | none => exact ⟨none, h.writeFrame _ _ _⟩
  | some waiterId =>
      set poll : LongPoll := ⟨s.responses.length, header.correlationId, waiterId⟩ with hpoll
      refine ⟨some poll, h.answered, ?_, ?_, ?_, rfl, h.settled.completed⟩
      · refine Turn.poll poll header ?_ h.length h.request rfl rfl hfresh (Or.inl ?_)
        · have hturns := turns_start s (.timer poll)
          rw [h.turns] at hturns
          exact hturns
        · exact List.mem_append_right _ (List.mem_singleton.mpr rfl)
      · intro operation hoperation other hother
        rcases List.mem_append.mp hoperation with hoperation | hoperation
        · exact Or.inl ((h.settled.operations operation hoperation other hother).resolve_right
            (by simp))
        · rw [List.mem_singleton.mp hoperation] at hother
          exact Or.inr hother
      · intro other hother
        rcases List.mem_append.mp hother with hother | hother
        · exact Or.inl ((h.settled.waiters other hother).resolve_right (by simp))
        · exact Or.inr (congrArg some (List.mem_singleton.mp hother).symm)

theorem Outstanding.perform (h : s.Outstanding header)
    (hfresh : s.responses.length ∉ s.completed) (waiterId : Option ℕ) (reply : Reply) :
    ∃ live, (s.perform s.responses.length header.correlationId waiterId reply).Ordered live := by
  cases reply with
  | write frameType error closeAfterWrite => exact ⟨none, h.writeFrame _ _ _⟩
  | enqueue => exact ⟨none, h.enqueue⟩
  | longPoll => exact h.registerLongPoll hfresh waiterId

/-! ## Taking an operation -/

theorem take_eq_some {operation : Operation} (h : s.take operation = some t) :
    operation ∈ s.operations ∧ t = { s with operations := s.operations.erase operation } := by
  rw [Session.take] at h
  split_ifs at h with hmem
  exact ⟨hmem, (Option.some.inj h).symm⟩

theorem Settled.take (h : s.Settled live) (operation : Operation) :
    { s with operations := s.operations.erase operation }.Settled live :=
  ⟨fun other hother ↦ h.operations other (List.mem_of_mem_erase hother), h.waiters, h.active,
    h.completed⟩

theorem turns_take (s : Session) (operation : Operation) :
    turns { s with operations := s.operations.erase operation } = s.turns.erase operation :=
  List.erase_filter.symm

theorem mem_turns {operation : Operation} (h : operation ∈ s.operations)
    (hturn : operation.isTurn = true) : operation ∈ s.turns :=
  List.mem_filter.mpr ⟨h, hturn⟩

/-- Taking the operation whose turn it is, with no response due. -/
theorem Ordered.take_turn (h : s.Ordered live) {operation : Operation}
    (hmem : operation ∈ s.operations) (hturn : operation.isTurn = true)
    (hne : ∀ request correlationId, operation ≠ .append request correlationId) :
    Resting { s with operations := s.operations.erase operation } := by
  have hmem := mem_turns hmem hturn
  have hturns := turns_take s operation
  have hrest : ∀ hlength : s.requests.length = s.responses.length, s.turns = [operation] →
      live = none → Resting { s with operations := s.operations.erase operation } := by
    intro hlength hone hlive
    rw [hone, List.erase_cons_head] at hturns
    exact ⟨h.answered, hturns, hlength, hlive ▸ h.settled.take operation⟩
  cases h.turn with
  | none hnil => rw [hnil] at hmem; cases hmem
  | header hone hlength =>
      rw [hone, List.mem_singleton] at hmem
      exact hrest hlength (hmem ▸ hone) rfl
  | payload header hone hlength =>
      rw [hone, List.mem_singleton] at hmem
      exact hrest hlength (hmem ▸ hone) rfl
  | write closeAfterWrite hone hlength =>
      rw [hone, List.mem_singleton] at hmem
      exact hrest hlength (hmem ▸ hone) rfl
  | append header hone hlength hheader =>
      rw [hone, List.mem_singleton] at hmem
      exact absurd hmem (hne _ _)
  | poll poll header hnil => rw [hnil] at hmem; cases hmem

/-- An append job belongs to the outstanding request. -/
theorem Ordered.take_append (h : s.Ordered live) {request correlationId : ℕ}
    (hmem : .append request correlationId ∈ s.operations) :
    ∃ header : FrameHeader, request = s.responses.length ∧ correlationId = header.correlationId ∧
      Outstanding { s with operations := s.operations.erase (.append request correlationId) }
        header := by
  have hmem := mem_turns hmem rfl
  have hturns := turns_take s (.append request correlationId)
  cases h.turn with
  | none hnil => rw [hnil] at hmem; cases hmem
  | header hone => rw [hone, List.mem_singleton] at hmem; cases hmem
  | payload header hone => rw [hone, List.mem_singleton] at hmem; cases hmem
  | write closeAfterWrite hone => rw [hone, List.mem_singleton] at hmem; cases hmem
  | poll poll header hnil => rw [hnil] at hmem; cases hmem
  | append header hone hlength hheader =>
      rw [hone, List.mem_singleton] at hmem
      rw [hone, hmem, List.erase_cons_head] at hturns
      obtain ⟨hrequest, hcorrelation⟩ := Operation.append.inj hmem
      exact ⟨header, hrequest, hcorrelation, h.answered, hmem ▸ hturns, hlength, hheader,
        h.settled.take _⟩

/-- The next request, fresh and waiting for its response. -/
theorem Resting.receive (h : s.Resting) (header : FrameHeader) :
    (s.receive header).Outstanding header ∧
      (s.receive header).responses.length ∉ (s.receive header).completed := by
  have hlength := h.length
  refine ⟨⟨fun i r hr ↦ ?_, h.turns, ?_, ?_, ?_⟩, fun hmem ↦ ?_⟩
  · obtain ⟨hrequest, other, hother, hcorrelation⟩ := h.answered i r hr
    refine ⟨hrequest, other, ?_, hcorrelation⟩
    obtain ⟨hi, -⟩ := List.getElem?_eq_some_iff.mp hother
    rw [Session.receive, List.getElem?_append_left hi, hother]
  · rw [Session.receive, List.length_append, List.length_singleton, hlength]
  · simp only [Session.receive]
    rw [← hlength, List.getElem?_concat_length]
  · refine ⟨h.settled.operations, h.settled.waiters, h.settled.active, fun request hrequest ↦ ?_⟩
    have hlt := h.settled.completed request hrequest
    rw [Session.receive, List.length_append]
    omega
  · have hlt := h.settled.completed _ hmem
    simp only [Session.receive] at hlt
    omega

theorem Resting.ordered (h : s.Resting) : s.Ordered none :=
  ⟨h.answered, Turn.none h.turns h.length, h.settled⟩

theorem Resting.start (h : s.Resting) {operation : Operation}
    (hoperation : operation = .header ∨ ∃ header, operation = .payload header) :
    (s.start operation).Ordered none := by
  have hturns := turns_start s operation
  rw [h.turns] at hturns
  rcases hoperation with rfl | ⟨header, rfl⟩
  · exact ⟨h.answered, Turn.header hturns h.length,
      h.settled.start fun poll hpoll ↦ absurd hpoll (by simp [Operation.poll?])⟩
  · exact ⟨h.answered, Turn.payload header hturns h.length,
      h.settled.start fun poll hpoll ↦ absurd hpoll (by simp [Operation.poll?])⟩

/-! ## Steps -/

/-- A handler changes what the session knows of its client, and no more. -/
theorem handleFrame_fst (s : Session) (frameType : FrameType) (input : HandlerInput) :
    ∃ authenticated negotiatedCodecs, (s.handleFrame frameType input).1 =
      { s with authenticated := authenticated, negotiatedCodecs := negotiatedCodecs } := by
  unfold Session.handleFrame
  split
  case h_2 =>
    unfold Session.handleMetadata
    split_ifs
    · exact ⟨_, _, rfl⟩
    · exact ⟨_, _, rfl⟩
  case h_7 =>
    unfold Session.handleAuth
    split_ifs
    · exact ⟨_, _, rfl⟩
    · exact ⟨_, _, rfl⟩
  all_goals exact ⟨_, _, rfl⟩

theorem Resting.onPayload (h : s.Resting) (header : FrameHeader) (input : HandlerInput) :
    ∃ live, (s.onPayload header input).Ordered live := by
  obtain ⟨houtstanding, hfresh⟩ := h.receive header
  obtain ⟨authenticated, negotiatedCodecs, hsession⟩ :=
    (s.receive header).handleFrame_fst header.frameType input
  have hlength : s.requests.length = (s.receive header).responses.length := h.length
  have hhandled : ((s.receive header).handleFrame header.frameType input).1.Outstanding header := by
    rw [hsession]
    exact ⟨houtstanding.answered, houtstanding.turns, houtstanding.length, houtstanding.request,
      houtstanding.settled.operations, houtstanding.settled.waiters, houtstanding.settled.active,
      houtstanding.settled.completed⟩
  have hperformed := hhandled.perform (by rw [hsession]; exact hfresh) input.waiterId
    ((s.receive header).handleFrame header.frameType input).2
  rw [Session.onPayload, hlength]
  rwa [show ((s.receive header).handleFrame header.frameType input).1.responses.length =
    (s.receive header).responses.length by rw [hsession]] at hperformed

theorem Resting.onHeader (h : s.Resting) (bytes : Bytes) (maxFrameBytes : ℕ) :
    (s.onHeader bytes maxFrameBytes).Ordered none := by
  have hrefused : ∀ (header : FrameHeader) error, ((s.receive header).writeFrame s.requests.length
      header.correlationId .errorResponse error true).Ordered none := by
    intro header error
    have hordered := (h.receive header).1.writeFrame .errorResponse error true
    rwa [show (s.receive header).responses.length = s.requests.length from h.length.symm]
      at hordered
  simp only [Session.onHeader]
  cases (decodeHeader bytes maxFrameBytes).error with
  | some error => exact hrefused _ _
  | none =>
      dsimp only
      split_ifs with hnew hchanged
      · have hversion : Resting { s with
            protocolVersion := (decodeHeader bytes maxFrameBytes).header.version } :=
          ⟨h.answered, h.turns, h.length, h.settled.operations, h.settled.waiters,
            h.settled.active, h.settled.completed⟩
        exact hversion.start (Or.inr ⟨_, rfl⟩)
      · exact hrefused _ _
      · exact h.start (Or.inr ⟨_, rfl⟩)

/-! ## Long polls -/

/-- Whose turn it is does not depend on what is left of long polls. -/
theorem Turn.congr (h : s.Turn live) (hturns : t.turns = s.turns)
    (hrequests : t.requests = s.requests) (hresponses : t.responses = s.responses)
    (hcompleted : t.completed = s.completed)
    (htimer : ∀ poll, live = some poll →
      .timer poll ∈ s.operations ∨ .timerHandler poll false ∈ s.operations →
        .timer poll ∈ t.operations ∨ .timerHandler poll false ∈ t.operations) : t.Turn live := by
  cases h with
  | none h hlength => exact .none (by rw [hturns, h]) (by rw [hrequests, hresponses, hlength])
  | header h hlength => exact .header (by rw [hturns, h]) (by rw [hrequests, hresponses, hlength])
  | payload header h hlength =>
      exact .payload header (by rw [hturns, h]) (by rw [hrequests, hresponses, hlength])
  | write closeAfterWrite h hlength =>
      exact .write closeAfterWrite (by rw [hturns, h]) (by rw [hrequests, hresponses, hlength])
  | append header h hlength hheader =>
      exact .append header (by rw [hturns, hresponses, h])
        (by rw [hrequests, hresponses, hlength]) (by rw [hrequests, hresponses, hheader])
  | poll poll header h hlength hheader hrequest hcorrelation hflag hpending =>
      exact .poll poll header (by rw [hturns, h]) (by rw [hrequests, hresponses, hlength])
        (by rw [hrequests, hresponses, hheader]) (by rw [hresponses, hrequest]) hcorrelation
        (by rw [hcompleted]; exact hflag) (htimer poll rfl hpending)

theorem turns_take_of_not_turn (s : Session) {operation : Operation}
    (h : operation.isTurn = false) :
    turns { s with operations := s.operations.erase operation } = s.turns := by
  rw [turns_take, List.erase_of_not_mem]
  intro hmem
  rw [(List.mem_filter.mp hmem).2] at h
  cases h

/-- A handler that finds its flag set, or its timer cancelled, does nothing. -/
theorem Ordered.take_leftover (h : s.Ordered live) {operation : Operation}
    (hturn : operation.isTurn = false)
    (hother : ∀ poll, live = some poll →
      operation ≠ .timer poll ∧ operation ≠ .timerHandler poll false) :
    { s with operations := s.operations.erase operation }.Ordered live := by
  refine ⟨h.answered, h.turn.congr (turns_take_of_not_turn s hturn) rfl rfl rfl ?_,
    h.settled.take operation⟩
  intro poll hlive hpending
  obtain ⟨htimer, hhandler⟩ := hother poll hlive
  exact hpending.imp (fun hmem ↦ (List.mem_erase_of_ne htimer.symm).mpr hmem)
    (fun hmem ↦ (List.mem_erase_of_ne hhandler.symm).mpr hmem)

/-- The long poll whose flag is not set is the one that is waiting. -/
theorem Ordered.live_of_not_completed (h : s.Ordered live) {operation : Operation}
    (hmem : operation ∈ s.operations) {poll : LongPoll} (hpoll : operation.poll? = some poll)
    (hflag : poll.request ∉ s.completed) : live = some poll :=
  (h.settled.operations operation hmem poll hpoll).resolve_left hflag

/-- The session while the handler of the waiting long poll runs: the flag is set,
and whatever else belongs to the long poll is left over. -/
theorem Ordered.finishPoll (h : s.Ordered live) {poll : LongPoll} (hlive : live = some poll)
    (ht : t.turns = s.turns) (hrequests : t.requests = s.requests)
    (hresponses : t.responses = s.responses)
    (hcompleted : t.completed = poll.request :: s.completed)
    (hactive : t.activeWaiterId = none)
    (hoperations : ∀ operation ∈ t.operations, ∀ other ∈ operation.poll?,
      ∃ source ∈ s.operations, other ∈ source.poll?)
    (hwaiters : ∀ other ∈ t.waiters, other ∈ s.waiters) (result : CallResult) :
    (t.finishPoll poll result).Ordered none := by
  subst hlive
  cases h.turn with
  | poll _ header hturns hlength hheader hrequest hcorrelation hflag hpending =>
      have hsettled : t.Settled none := by
        refine ⟨fun operation hoperation other hother ↦ ?_, fun other hother ↦ ?_, hactive,
          fun request hmem ↦ ?_⟩
        · obtain ⟨source, hsource, hother⟩ := hoperations operation hoperation other hother
          rw [hcompleted]
          refine Or.inl ((h.settled.operations source hsource other hother).elim
            (List.mem_cons_of_mem _) fun heq ↦ ?_)
          rw [Option.some.inj heq]
          exact List.mem_cons_self
        · rw [hcompleted]
          refine Or.inl ((h.settled.waiters other (hwaiters other hother)).elim
            (List.mem_cons_of_mem _) fun heq ↦ ?_)
          rw [Option.some.inj heq]
          exact List.mem_cons_self
        · rw [hcompleted] at hmem
          rw [hrequests]
          rcases List.mem_cons.mp hmem with rfl | hmem
          · omega
          · exact h.settled.completed request hmem
      have houtstanding : t.Outstanding header := by
        refine ⟨fun i r hr ↦ ?_, ht.trans hturns, by rw [hrequests, hresponses, hlength],
          by rw [hrequests, hresponses, hheader], hsettled⟩
        rw [hresponses] at hr
        rw [hrequests]
        exact h.answered i r hr
      have hnumber : poll.request = t.responses.length := by rw [hresponses, hrequest]
      cases result with
      | ok =>
          rw [Session.finishPoll, hnumber, hcorrelation]
          exact houtstanding.writeFrame _ _ _
      | requestError code =>
          rw [Session.finishPoll, hnumber, hcorrelation]
          exact houtstanding.writeFrame _ _ _
      | exception =>
          rw [Session.finishPoll, hnumber, hcorrelation]
          exact houtstanding.writeFrame _ _ _

theorem turns_cancelTimer (s : Session) (poll : LongPoll) :
    (s.cancelTimer poll).turns = s.turns := by
  simp only [turns, Session.cancelTimer]
  induction s.operations with
  | nil => rfl
  | cons operation operations ih =>
      by_cases htimer : operation = .timer poll
      · rw [htimer, List.map_cons, if_pos rfl, List.filter_cons_of_neg (by simp [Operation.isTurn]),
          List.filter_cons_of_neg (by simp [Operation.isTurn]), ih]
      · simp only [List.map_cons, if_neg htimer, List.filter_cons, ih]

theorem Ordered.onCallback (h : s.Ordered live) {poll : LongPoll}
    (hmem : .callback poll ∈ s.operations) (result : CallResult) :
    ∃ live, ({ s with operations := s.operations.erase (.callback poll) }.onCallback poll
      result).Ordered live := by
  unfold Session.onCallback
  split_ifs with hflag
  · exact ⟨live, h.take_leftover rfl fun other _ ↦ ⟨by simp, by simp⟩⟩
  · refine ⟨none, ?_⟩
    apply h.finishPoll (h.live_of_not_completed hmem rfl hflag)
    · rw [turns_cancelTimer]
      exact turns_take_of_not_turn s rfl
    · rfl
    · rfl
    · rfl
    · rfl
    · intro operation hoperation other hother
      obtain ⟨source, hsource, rfl⟩ := List.mem_map.mp hoperation
      refine ⟨source, List.mem_of_mem_erase hsource, ?_⟩
      split_ifs at hother with htimer
      · rw [htimer]
        exact hother
      · exact hother
    · exact fun _ hother ↦ hother

theorem Ordered.onTimer (h : s.Ordered live) {poll : LongPoll} {cancelled : Bool}
    (hmem : .timerHandler poll cancelled ∈ s.operations) (result : CallResult) :
    ∃ live, ({ s with operations := s.operations.erase (.timerHandler poll cancelled) }.onTimer
      poll cancelled result).Ordered live := by
  unfold Session.onTimer
  split_ifs with hdone
  · refine ⟨live, h.take_leftover rfl fun other hlive ↦ ⟨by simp, ?_⟩⟩
    rintro heq
    obtain ⟨rfl, rfl⟩ := Operation.timerHandler.inj heq
    rcases hdone with hcancelled | hflag
    · cases hcancelled
    · subst hlive
      cases h.turn with
      | poll _ _ _ _ _ _ _ hunset => exact hunset hflag
  · rw [not_or] at hdone
    refine ⟨none, ?_⟩
    apply h.finishPoll (h.live_of_not_completed hmem rfl hdone.2)
    · exact turns_take_of_not_turn s rfl
    · rfl
    · rfl
    · rfl
    · rfl
    · exact fun operation hoperation other hother ↦
        ⟨operation, List.mem_of_mem_erase hoperation, hother⟩
    · exact fun other hother ↦ List.mem_of_mem_filter hother

theorem cancelActiveWaiter_of_none (h : s.activeWaiterId = none) : s.cancelActiveWaiter = s := by
  unfold Session.cancelActiveWaiter
  split
  · rfl
  · rename_i waiterId hactive
    rw [h] at hactive
    cases hactive

/-- Every event keeps the order. -/
theorem Ordered.step {maxFrameBytes : ℕ} {event : Event} (h : s.Ordered live)
    (hstep : s.step maxFrameBytes event = some t) : ∃ live, t.Ordered live := by
  cases event with
  | headerRead bytes =>
      obtain ⟨u, htake, rfl⟩ := Option.map_eq_some_iff.mp hstep
      obtain ⟨hmem, rfl⟩ := take_eq_some htake
      have hresting := h.take_turn hmem rfl (by simp)
      cases bytes with
      | none => exact ⟨none, hresting.ordered⟩
      | some bytes => exact ⟨none, hresting.onHeader bytes maxFrameBytes⟩
  | payloadRead header input =>
      obtain ⟨u, htake, rfl⟩ := Option.map_eq_some_iff.mp hstep
      obtain ⟨hmem, rfl⟩ := take_eq_some htake
      have hresting := h.take_turn hmem rfl (by simp)
      cases input with
      | none => exact ⟨none, hresting.ordered⟩
      | some input => exact hresting.onPayload header input
  | appendCompleted request correlationId error =>
      obtain ⟨u, htake, rfl⟩ := Option.map_eq_some_iff.mp hstep
      obtain ⟨hmem, rfl⟩ := take_eq_some htake
      obtain ⟨header, rfl, rfl, houtstanding⟩ := h.take_append hmem
      cases error with
      | none => exact ⟨none, houtstanding.writeFrame _ _ _⟩
      | some code => exact ⟨none, houtstanding.writeFrame _ _ _⟩
  | notified poll =>
      simp only [Session.step] at hstep
      split_ifs at hstep with hmem
      obtain rfl := Option.some.inj hstep
      have hturns := turns_start s (.callback poll)
      have hsettled : (s.start (.callback poll)).Settled live :=
        h.settled.start fun other hother ↦ by
          obtain rfl : poll = other := Option.some.inj hother
          exact h.settled.waiters poll hmem
      refine ⟨live, h.answered, h.turn.congr hturns rfl rfl rfl ?_, hsettled.operations,
        fun other hother ↦ hsettled.waiters other (List.mem_of_mem_erase hother),
        hsettled.active, hsettled.completed⟩
      intro other _ hpending
      exact hpending.imp (List.mem_append_left _) (List.mem_append_left _)
  | callbackRun poll result =>
      obtain ⟨u, htake, rfl⟩ := Option.map_eq_some_iff.mp hstep
      obtain ⟨hmem, rfl⟩ := take_eq_some htake
      exact h.onCallback hmem result
  | timerExpired poll =>
      obtain ⟨u, htake, rfl⟩ := Option.map_eq_some_iff.mp hstep
      obtain ⟨hmem, rfl⟩ := take_eq_some htake
      have hturns : (Session.start { s with operations := s.operations.erase (.timer poll) }
          (.timerHandler poll false)).turns = s.turns :=
        (turns_start _ _).trans (turns_take_of_not_turn s rfl)
      refine ⟨live, h.answered, h.turn.congr hturns rfl rfl rfl ?_,
        (h.settled.take _).start
          fun other hother ↦ h.settled.operations (.timer poll) hmem other hother⟩
      intro other hlive hpending
      by_cases hsame : other = poll
      · rw [hsame]
        exact Or.inr (List.mem_append_right _ (List.mem_singleton.mpr rfl))
      · refine hpending.imp (fun hother ↦ List.mem_append_left _ ?_)
          (fun hother ↦ List.mem_append_left _ ?_)
        · exact (List.mem_erase_of_ne (by simp [hsame])).mpr hother
        · exact (List.mem_erase_of_ne (by simp)).mpr hother
  | timerHandlerRun poll cancelled result =>
      obtain ⟨u, htake, rfl⟩ := Option.map_eq_some_iff.mp hstep
      obtain ⟨hmem, rfl⟩ := take_eq_some htake
      exact h.onTimer hmem result
  | writeCompleted closeAfterWrite failed =>
      obtain ⟨u, htake, rfl⟩ := Option.map_eq_some_iff.mp hstep
      obtain ⟨hmem, rfl⟩ := take_eq_some htake
      have hresting := h.take_turn hmem rfl (by simp)
      unfold Session.onWritten
      split_ifs
      · rw [cancelActiveWaiter_of_none hresting.settled.active]
        exact ⟨none, hresting.ordered⟩
      · exact ⟨none, hresting.ordered⟩
      · exact ⟨none, hresting.start (Or.inl rfl)⟩

theorem ordered_opened (authRequired : Bool) : (opened authRequired).Ordered none :=
  ⟨fun i r hr ↦ absurd hr (by simp [opened]), Turn.header rfl rfl,
    by simp [opened, Operation.poll?], by simp [opened], rfl, by simp [opened]⟩

theorem run_ordered {maxFrameBytes : ℕ} {authRequired : Bool} {events : List Event}
    (hrun : run (step maxFrameBytes) (opened authRequired) events = some s) :
    ∃ live, s.Ordered live := by
  refine run_invariant (fun _ _ ↦ True) (fun s ↦ ∃ live, s.Ordered live) ?_
    (along_of_forall (fun _ _ _ ↦ trivial) _) hrun ⟨none, ordered_opened authRequired⟩
  rintro s event t - hstep ⟨live, h⟩
  exact h.step hstep

/-! ## Exactly one response -/

/-- What a client can rely on while it sends requests to a session. -/
structure AnswersOnce (maxFrameBytes : ℕ) (s : Session) : Prop where
  answered : s.Answered
  /-- At most one request is outstanding. -/
  outstanding : s.responses.length ≤ s.requests.length ∧
    s.requests.length ≤ s.responses.length + 1
  /-- Reads, writes and append jobs exclude each other. -/
  exclusive : s.turns.length ≤ 1
  /-- No frame is read before the last one has its response. -/
  beforeNext : .header ∈ s.operations ∨ (∃ header, .payload header ∈ s.operations) →
    s.responses.length = s.requests.length
  /-- The response to the outstanding request can always be reached. -/
  progress : s.responses.length < s.requests.length → ∃ events t,
    run (Session.step maxFrameBytes) s events = some t ∧ t.requests = s.requests ∧
      t.responses.length = s.requests.length
  /-- What belongs to an earlier request writes nothing. -/
  stale : ∀ (poll : LongPoll) (event : Event) (t : Session),
    (∃ result, event = .callbackRun poll result) ∨
      (∃ cancelled result, event = .timerHandlerRun poll cancelled result) →
    poll.request + 1 ≠ s.requests.length →
    Session.step maxFrameBytes s event = some t → t.responses = s.responses

theorem Ordered.outstanding (h : s.Ordered live) :
    s.responses.length ≤ s.requests.length ∧ s.requests.length ≤ s.responses.length + 1 := by
  cases h.turn with
  | none _ hlength => omega
  | header _ hlength => omega
  | payload _ _ hlength => omega
  | write _ _ hlength => omega
  | append _ _ hlength => omega
  | poll _ _ _ hlength => omega

theorem Ordered.exclusive (h : s.Ordered live) : s.turns.length ≤ 1 := by
  cases h.turn with
  | none hturns => rw [hturns]; exact Nat.zero_le 1
  | header hturns => rw [hturns]; exact Nat.le_refl 1
  | payload _ hturns => rw [hturns]; exact Nat.le_refl 1
  | write _ hturns => rw [hturns]; exact Nat.le_refl 1
  | append _ hturns => rw [hturns]; exact Nat.le_refl 1
  | poll _ _ hturns => rw [hturns]; exact Nat.zero_le 1

theorem Ordered.beforeNext (h : s.Ordered live)
    (hread : .header ∈ s.operations ∨ ∃ header, .payload header ∈ s.operations) :
    s.responses.length = s.requests.length := by
  rcases hread with hread | ⟨header, hread⟩
  · exact (h.take_turn hread rfl (by simp)).length.symm
  · exact (h.take_turn hread rfl (by simp)).length.symm

theorem requests_finishPoll (s : Session) (poll : LongPoll) (result : CallResult) :
    (s.finishPoll poll result).requests = s.requests := by
  cases result with
  | ok => rfl
  | requestError code => rfl
  | exception => rfl

theorem responses_finishPoll (s : Session) (poll : LongPoll) (result : CallResult) :
    (s.finishPoll poll result).responses.length = s.responses.length + 1 := by
  cases result with
  | ok => exact List.length_append
  | requestError code => exact List.length_append
  | exception => exact List.length_append

/-- The handler of a timer whose flag is not set writes the response. -/
theorem timerHandlerRun_progress (maxFrameBytes : ℕ) {poll : LongPoll}
    (hmem : .timerHandler poll false ∈ s.operations) (hflag : poll.request ∉ s.completed) :
    ∃ t, Session.step maxFrameBytes s (.timerHandlerRun poll false .ok) = some t ∧
      t.requests = s.requests ∧ t.responses.length = s.responses.length + 1 := by
  refine ⟨Session.onTimer { s with operations := s.operations.erase (.timerHandler poll false) }
    poll false .ok, ?_, ?_⟩
  · rw [Session.step, Session.take, if_pos hmem, Option.map_some]
  · rw [Session.onTimer, if_neg (by simp [hflag])]
    exact ⟨requests_finishPoll _ _ _, responses_finishPoll _ _ _⟩

theorem Ordered.progress (h : s.Ordered live) (maxFrameBytes : ℕ)
    (hlt : s.responses.length < s.requests.length) : ∃ events t,
      run (Session.step maxFrameBytes) s events = some t ∧ t.requests = s.requests ∧
        t.responses.length = s.requests.length := by
  cases h.turn with
  | none _ hlength => omega
  | header _ hlength => omega
  | payload _ _ hlength => omega
  | write _ _ hlength => omega
  | append header hturns hlength =>
      have hmem : .append s.responses.length header.correlationId ∈ s.operations := by
        have hturn : .append s.responses.length header.correlationId ∈ s.turns := by
          rw [hturns]
          exact List.mem_singleton.mpr rfl
        exact (List.mem_filter.mp hturn).1
      refine ⟨[.appendCompleted s.responses.length header.correlationId none],
        Session.writeFrame
          { s with
              operations :=
                s.operations.erase (.append s.responses.length header.correlationId) }
          s.responses.length header.correlationId .produceResponse none false, ?_, ?_⟩
      · rw [run, Session.step, Session.take, if_pos hmem]
        rfl
      · exact ⟨rfl, by rw [hlength]; exact List.length_append⟩
  | poll poll header hturns hlength hheader hrequest hcorrelation hflag htimer =>
      rcases htimer with htimer | htimer
      · -- The timer expires, and its handler finds the flag unset.
        obtain ⟨t, hstep, hrequests, hresponses⟩ := timerHandlerRun_progress maxFrameBytes
          (s := Session.start { s with operations := s.operations.erase (.timer poll) }
            (.timerHandler poll false))
          (List.mem_append_right _ (List.mem_singleton.mpr rfl)) hflag
        refine ⟨[.timerExpired poll, .timerHandlerRun poll false .ok], t, ?_, hrequests,
          hresponses.trans hlength.symm⟩
        have hexpired : Session.step maxFrameBytes s (.timerExpired poll) =
            some (Session.start { s with operations := s.operations.erase (.timer poll) }
              (.timerHandler poll false)) := by
          rw [Session.step, Session.take, if_pos htimer]
          rfl
        rw [run, hexpired, Option.bind_some, run, hstep]
        rfl
      · obtain ⟨t, hstep, hrequests, hresponses⟩ :=
          timerHandlerRun_progress maxFrameBytes htimer hflag
        refine ⟨[.timerHandlerRun poll false .ok], t, ?_, hrequests, hresponses.trans hlength.symm⟩
        rw [run, hstep]
        rfl

theorem Ordered.stale (h : s.Ordered live) {operation : Operation} {poll : LongPoll}
    (hmem : operation ∈ s.operations) (hpoll : operation.poll? = some poll)
    (hearlier : poll.request + 1 ≠ s.requests.length) : poll.request ∈ s.completed := by
  refine (h.settled.operations operation hmem poll hpoll).resolve_right fun hlive ↦ ?_
  subst hlive
  cases h.turn with
  | poll _ _ _ hlength _ hrequest => omega

/-- In every run of a session, every request has one response, in order and before
the next frame is read, and earlier long polls answer nothing. -/
theorem run_answersOnce {maxFrameBytes : ℕ} {authRequired : Bool} {events : List Event}
    (hrun : run (Session.step maxFrameBytes) (opened authRequired) events = some s) :
    s.AnswersOnce maxFrameBytes := by
  obtain ⟨live, h⟩ := run_ordered hrun
  refine ⟨h.answered, h.outstanding, h.exclusive, h.beforeNext, h.progress maxFrameBytes, ?_⟩
  rintro poll event t hevent hearlier hstep
  rcases hevent with ⟨result, rfl⟩ | ⟨cancelled, result, rfl⟩
  · obtain ⟨u, htake, rfl⟩ := Option.map_eq_some_iff.mp hstep
    obtain ⟨hmem, rfl⟩ := take_eq_some htake
    rw [Session.onCallback, if_pos (h.stale hmem rfl hearlier)]
  · obtain ⟨u, htake, rfl⟩ := Option.map_eq_some_iff.mp hstep
    obtain ⟨hmem, rfl⟩ := take_eq_some htake
    rw [Session.onTimer, if_pos (Or.inr (h.stale hmem rfl hearlier))]

/-- A fetch that finds nothing and is given the waiter `waiterId`. -/
def waitingFetch (waiterId : ℕ) : HandlerInput :=
  { decodeError := none, requestedCodecs := 0, tokenAccepted := false, codec := 0
    withinLimits := true, recordSetError := none, call := .ok, fetch := .nothing
    waiterId := some waiterId }

/-- Two long polls: the first is notified after its timer has expired, and the
timer's handler runs when the second is waiting already. -/
def overlappingPolls : List Event :=
  let first := encodeFrame 5 .fetchRequest 7 [] 0
  let second := encodeFrame 5 .fetchRequest 8 [] 0
  [.headerRead (some first), .payloadRead (decodeHeader first 1024).header (some (waitingFetch 1)),
    .timerExpired ⟨0, 7, 1⟩, .notified ⟨0, 7, 1⟩, .callbackRun ⟨0, 7, 1⟩ .ok,
    .writeCompleted false false, .headerRead (some second),
    .payloadRead (decodeHeader second 1024).header (some (waitingFetch 2)),
    .timerHandlerRun ⟨0, 7, 1⟩ false .ok]

theorem overlappingPolls_answersOnce :
    ∃ s, run (Session.step 1024) (opened false) overlappingPolls = some s ∧
      s.requests.length = 2 ∧ s.responses.length = 1 ∧ s.AnswersOnce 1024 := by
  have hrun : ((run (Session.step 1024) (opened false) overlappingPolls).map fun s ↦
      (s.requests.length, s.responses.length)) = some (2, 1) := by
    decide +kernel
  obtain ⟨s, hrun, hlength⟩ := Option.map_eq_some_iff.mp hrun
  obtain ⟨hrequests, hresponses⟩ := Prod.mk.inj hlength
  exact ⟨s, hrun, hrequests, hresponses, run_answersOnce hrun⟩

end Session

end BoltStream.Broker
