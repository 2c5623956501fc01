import BoltStream.Broker.SessionReads

/-!
# The end of a session

A session lives as long as something holds it: an operation that it has started or its
entry among the waiters of the runtime.  When no more bytes arrive, what is left of it
comes to an end by itself.
-/

namespace BoltStream.Broker

open BoltStream.Lib BoltStream.Protocol

/-- How many events can follow from an operation while nothing is read. -/
def Operation.weight : Operation → ℕ
  | header => 1
  | payload _ => 1
  | write _ => 2
  | append _ _ => 3
  | callback _ => 3
  | timerHandler _ _ => 3
  | timer _ => 4

namespace Session

def weight (s : Session) : ℕ := (s.operations.map Operation.weight).sum + 4 * s.waiters.length

/-- Nothing holds the session any more. -/
def Released (s : Session) : Prop := s.operations = [] ∧ s.waiters = []

instance (s : Session) : Decidable s.Released := inferInstanceAs (Decidable (_ ∧ _))

/-- An event that no other session and no append or deletion of a record brings about. -/
def OwnEvent (event : Event) : Prop := ∀ poll, event ≠ .notified poll

variable {s t : Session} {live : Option LongPoll} {maxFrameBytes : ℕ} {event : Event}

/-! ## Weight -/

theorem weight_pos (operation : Operation) : 0 < operation.weight := by
  cases operation <;> exact Nat.succ_pos _

theorem weight_take {operation : Operation} (hmem : operation ∈ s.operations) :
    weight { s with operations := s.operations.erase operation } + operation.weight =
      s.weight := by
  have hsum := List.sum_map_erase Operation.weight hmem
  simp only [weight]
  omega

theorem weight_start (s : Session) (operation : Operation) :
    (s.start operation).weight = s.weight + operation.weight := by
  simp only [weight, start, List.map_append, List.map_singleton, List.sum_append,
    List.sum_singleton]
  omega

theorem weight_writeFrame (s : Session) (request correlationId : ℕ) (frameType : FrameType)
    (error : Option ErrorCode) (closeAfterWrite : Bool) :
    (s.writeFrame request correlationId frameType error closeAfterWrite).weight =
      s.weight + 2 :=
  weight_start s (.write closeAfterWrite)

theorem weight_finishPoll (s : Session) (poll : LongPoll) (result : CallResult) :
    (s.finishPoll poll result).weight = s.weight + 2 := by
  cases result <;> exact weight_writeFrame _ _ _ _ _ _

theorem weight_cancelTimer_le (s : Session) (poll : LongPoll) :
    (s.cancelTimer poll).weight ≤ s.weight := by
  simp only [weight, cancelTimer, List.map_map, Nat.add_le_add_iff_right]
  apply List.sum_le_sum
  intro operation _
  rw [Function.comp_apply]
  split_ifs with htimer
  · rw [htimer]
    exact Nat.le_succ 3
  · exact le_rfl

theorem weight_cancelFetchWaiter_le (s : Session) (waiterId : ℕ) :
    (s.cancelFetchWaiter waiterId).weight ≤ s.weight := by
  have hlength := List.length_filter_le (fun poll ↦ decide (poll.waiterId ≠ waiterId)) s.waiters
  simp only [weight, cancelFetchWaiter]
  omega

theorem weight_cancelActiveWaiter_le (s : Session) : s.cancelActiveWaiter.weight ≤ s.weight := by
  unfold Session.cancelActiveWaiter
  split
  · exact le_rfl
  · exact s.weight_cancelFetchWaiter_le _

/-- Every event that reads nothing uses something up. -/
theorem weight_step (hreads : ReadsNothing event) (hstep : s.step maxFrameBytes event = some t) :
    t.weight < s.weight := by
  cases event with
  | headerRead bytes =>
      obtain ⟨u, htake, rfl⟩ := Option.map_eq_some_iff.mp hstep
      obtain ⟨hmem, rfl⟩ := take_eq_some htake
      have hweight := weight_take hmem
      have hpos := weight_pos .header
      cases bytes with
      | none =>
          dsimp only
          omega
      | some bytes => exact absurd rfl (hreads.1 bytes)
  | payloadRead header input =>
      obtain ⟨u, htake, rfl⟩ := Option.map_eq_some_iff.mp hstep
      obtain ⟨hmem, rfl⟩ := take_eq_some htake
      have hweight := weight_take hmem
      have hpos := weight_pos (.payload header)
      cases input with
      | none =>
          dsimp only
          omega
      | some input => exact absurd rfl (hreads.2 header input)
  | appendCompleted request correlationId error =>
      obtain ⟨u, htake, rfl⟩ := Option.map_eq_some_iff.mp hstep
      obtain ⟨hmem, rfl⟩ := take_eq_some htake
      have hweight : _ + 3 = s.weight := weight_take hmem
      cases error with
      | none =>
          dsimp only
          rw [weight_writeFrame]
          omega
      | some code =>
          dsimp only
          rw [weight_writeFrame]
          omega
  | notified poll =>
      simp only [Session.step] at hstep
      split_ifs at hstep with hmem
      obtain rfl := Option.some.inj hstep
      have hlength := List.length_erase_of_mem hmem
      have hpos := List.length_pos_of_mem hmem
      simp only [weight, start, List.map_append, List.map_singleton, List.sum_append,
        List.sum_singleton, Operation.weight, hlength]
      omega
  | callbackRun poll result =>
      obtain ⟨u, htake, rfl⟩ := Option.map_eq_some_iff.mp hstep
      obtain ⟨hmem, rfl⟩ := take_eq_some htake
      have hweight : _ + 3 = s.weight := weight_take hmem
      unfold Session.onCallback
      split_ifs
      · omega
      · rw [weight_finishPoll]
        refine (Nat.add_le_add_right (weight_cancelTimer_le _ poll) 2).trans_lt ?_
        change weight { s with operations := s.operations.erase (.callback poll) } + 2 < s.weight
        omega
  | timerExpired poll =>
      obtain ⟨u, htake, rfl⟩ := Option.map_eq_some_iff.mp hstep
      obtain ⟨hmem, rfl⟩ := take_eq_some htake
      have hweight : _ + 4 = s.weight := weight_take hmem
      rw [weight_start, Operation.weight]
      omega
  | timerHandlerRun poll cancelled result =>
      obtain ⟨u, htake, rfl⟩ := Option.map_eq_some_iff.mp hstep
      obtain ⟨hmem, rfl⟩ := take_eq_some htake
      have hweight : _ + 3 = s.weight := weight_take hmem
      unfold Session.onTimer
      split_ifs
      · omega
      · rw [weight_finishPoll]
        refine (Nat.add_le_add_right (weight_cancelFetchWaiter_le
          { s with
              operations := s.operations.erase (.timerHandler poll cancelled)
              completed := poll.request :: s.completed } poll.waiterId) 2).trans_lt ?_
        change weight { s with operations := s.operations.erase (.timerHandler poll cancelled) } +
          2 < s.weight
        omega
  | writeCompleted closeAfterWrite failed =>
      obtain ⟨u, htake, rfl⟩ := Option.map_eq_some_iff.mp hstep
      obtain ⟨hmem, rfl⟩ := take_eq_some htake
      have hweight : _ + 2 = s.weight := weight_take hmem
      unfold Session.onWritten
      split_ifs
      · exact (weight_cancelActiveWaiter_le _).trans_lt (by omega)
      · omega
      · rw [weight_start, Operation.weight]
        omega

/-! ## Waiters -/

/-- A long poll among the waiters was neither notified nor ended. -/
structure Waiting (s : Session) : Prop where
  one : s.waiters.length ≤ 1
  unset : ∀ poll ∈ s.waiters, poll.request ∉ s.completed
  quiet : ∀ poll ∈ s.waiters, .callback poll ∉ s.operations

theorem waiting_of_nil (h : s.waiters = []) : s.Waiting := by
  refine ⟨?_, ?_, ?_⟩
  · rw [h]
    exact Nat.zero_le 1
  · rw [h]
    exact fun poll hmem ↦ absurd hmem List.not_mem_nil
  · rw [h]
    exact fun poll hmem ↦ absurd hmem List.not_mem_nil

/-- Callbacks are posted for waiters that are taken from the list only. -/
theorem Waiting.congr (h : s.Waiting) (hwaiters : t.waiters.Sublist s.waiters)
    (hcompleted : t.completed = s.completed)
    (hoperations : ∀ poll, .callback poll ∈ t.operations → .callback poll ∈ s.operations) :
    t.Waiting := by
  refine ⟨hwaiters.length_le.trans h.one, ?_, ?_⟩
  · rw [hcompleted]
    exact fun poll hmem ↦ h.unset poll (hwaiters.subset hmem)
  · exact fun poll hmem hcallback ↦ h.quiet poll (hwaiters.subset hmem) (hoperations poll hcallback)

theorem Waiting.take (h : s.Waiting) (operation : Operation) :
    Waiting { s with operations := s.operations.erase operation } :=
  h.congr (List.Sublist.refl _) rfl fun _ hmem ↦ List.mem_of_mem_erase hmem

theorem Waiting.start (h : s.Waiting) {operation : Operation}
    (hoperation : ∀ poll, operation ≠ .callback poll) : (s.start operation).Waiting := by
  refine h.congr (List.Sublist.refl _) rfl fun poll hmem ↦ ?_
  rcases List.mem_append.mp hmem with hmem | hmem
  · exact hmem
  · exact absurd (List.mem_singleton.mp hmem).symm (hoperation poll)

theorem Waiting.writeFrame (h : s.Waiting) (request correlationId : ℕ) (frameType : FrameType)
    (error : Option ErrorCode) (closeAfterWrite : Bool) :
    (s.writeFrame request correlationId frameType error closeAfterWrite).Waiting := by
  have hstart : (s.start (.write closeAfterWrite)).Waiting := h.start (by simp)
  exact ⟨hstart.one, hstart.unset, hstart.quiet⟩

theorem Waiting.finishPoll (h : s.Waiting) (poll : LongPoll) (result : CallResult) :
    (s.finishPoll poll result).Waiting := by
  cases result <;> exact h.writeFrame _ _ _ _ _

/-- The long poll that waits is the one whose request is outstanding. -/
theorem Waiting.isLive (h : s.Waiting) (hordered : s.Ordered live) {poll : LongPoll}
    (hmem : poll ∈ s.waiters) : live = some poll :=
  (hordered.settled.waiters poll hmem).resolve_left (h.unset poll hmem)

theorem Waiting.nil_of_resting (h : s.Waiting) (hresting : s.Resting) : s.waiters = [] := by
  refine List.eq_nil_iff_forall_not_mem.mpr fun poll hmem ↦ ?_
  cases h.isLive hresting.ordered hmem

theorem Waiting.onHeader (h : s.Waiting) (bytes : Bytes) :
    (s.onHeader bytes maxFrameBytes).Waiting := by
  have hreceived : ∀ header, (s.receive header).Waiting := fun _ ↦ ⟨h.one, h.unset, h.quiet⟩
  simp only [Session.onHeader]
  cases (decodeHeader bytes maxFrameBytes).error with
  | some error => exact (hreceived _).writeFrame _ _ _ _ _
  | none =>
      dsimp only
      split_ifs
      · apply Waiting.start
        · exact ⟨h.one, h.unset, h.quiet⟩
        · simp
      · exact (hreceived _).writeFrame _ _ _ _ _
      · exact h.start (by simp)

theorem Waiting.onPayload (h : s.Waiting) (hresting : s.Resting) (header : FrameHeader)
    (input : HandlerInput) : (s.onPayload header input).Waiting := by
  obtain ⟨authenticated, negotiatedCodecs, hsession⟩ :=
    (s.receive header).handleFrame_fst header.frameType input
  have hnil := h.nil_of_resting hresting
  obtain ⟨houtstanding, hfresh⟩ := hresting.receive header
  have hhandled : ((s.receive header).handleFrame header.frameType input).1.Waiting := by
    apply waiting_of_nil
    rw [hsession]
    exact hnil
  rw [Session.onPayload]
  cases ((s.receive header).handleFrame header.frameType input).2 with
  | write frameType error closeAfterWrite => exact hhandled.writeFrame _ _ _ _ _
  | enqueue => exact hhandled.start (by simp)
  | longPoll =>
      simp only [Session.perform, Session.registerLongPoll]
      split_ifs
      · exact hhandled.writeFrame _ _ _ _ _
      · cases input.waiterId with
        | none => exact hhandled.writeFrame _ _ _ _ _
        | some waiterId =>
            dsimp only
            rw [hsession]
            have hunset : s.requests.length ∉ s.completed := by
              rw [hresting.length]
              exact hfresh
            constructor
            · simp [Session.receive, hnil]
            · simpa [Session.receive, hnil] using hunset
            · -- What is left of earlier long polls has its flag set.
              intro poll hmem hcallback
              have hpoll : poll = ⟨s.requests.length, header.correlationId, waiterId⟩ := by
                simpa [Session.receive, hnil] using hmem
              subst hpoll
              rcases List.mem_append.mp hcallback with hcallback | hcallback
              · rcases hresting.settled.operations _ hcallback _ rfl with hset | hlive
                · exact hunset hset
                · cases hlive
              · cases List.mem_singleton.mp hcallback

theorem Waiting.step (h : s.Waiting) (hordered : s.Ordered live)
    (hstep : s.step maxFrameBytes event = some t) : t.Waiting := by
  cases event with
  | headerRead bytes =>
      obtain ⟨u, htake, rfl⟩ := Option.map_eq_some_iff.mp hstep
      obtain ⟨-, rfl⟩ := take_eq_some htake
      cases bytes with
      | none => exact h.take _
      | some bytes => exact (h.take _).onHeader bytes
  | payloadRead header input =>
      obtain ⟨u, htake, rfl⟩ := Option.map_eq_some_iff.mp hstep
      obtain ⟨hmem, rfl⟩ := take_eq_some htake
      cases input with
      | none => exact h.take _
      | some input => exact (h.take _).onPayload (hordered.take_turn hmem rfl (by simp)) _ _
  | appendCompleted request correlationId error =>
      obtain ⟨u, htake, rfl⟩ := Option.map_eq_some_iff.mp hstep
      obtain ⟨-, rfl⟩ := take_eq_some htake
      cases error with
      | none => exact (h.take _).writeFrame _ _ _ _ _
      | some code => exact (h.take _).writeFrame _ _ _ _ _
  | notified poll =>
      simp only [Session.step] at hstep
      split_ifs at hstep with hmem
      obtain rfl := Option.some.inj hstep
      apply waiting_of_nil
      have hlength := List.length_erase_of_mem hmem
      have hone := h.one
      exact List.length_eq_zero_iff.mp (by dsimp only; omega)
  | callbackRun poll result =>
      obtain ⟨u, htake, rfl⟩ := Option.map_eq_some_iff.mp hstep
      obtain ⟨hmem, rfl⟩ := take_eq_some htake
      unfold Session.onCallback
      split_ifs with hflag
      · exact h.take _
      · apply Waiting.finishPoll
        apply waiting_of_nil
        refine List.eq_nil_iff_forall_not_mem.mpr fun other hother ↦ ?_
        have hlive := h.isLive hordered hother
        rw [hordered.live_of_not_completed hmem rfl hflag] at hlive
        exact h.quiet other hother (Option.some.inj hlive ▸ hmem)
  | timerExpired poll =>
      obtain ⟨u, htake, rfl⟩ := Option.map_eq_some_iff.mp hstep
      obtain ⟨-, rfl⟩ := take_eq_some htake
      exact (h.take _).start (by simp)
  | timerHandlerRun poll cancelled result =>
      obtain ⟨u, htake, rfl⟩ := Option.map_eq_some_iff.mp hstep
      obtain ⟨hmem, rfl⟩ := take_eq_some htake
      unfold Session.onTimer
      split_ifs with hdone
      · exact h.take _
      · rw [not_or] at hdone
        apply Waiting.finishPoll
        apply waiting_of_nil
        refine List.eq_nil_iff_forall_not_mem.mpr fun other hother ↦ ?_
        obtain ⟨hother, hid⟩ := List.mem_filter.mp hother
        have hlive := h.isLive hordered hother
        rw [hordered.live_of_not_completed hmem rfl hdone.2] at hlive
        rw [Option.some.inj hlive] at hid
        simp at hid
  | writeCompleted closeAfterWrite failed =>
      obtain ⟨u, htake, rfl⟩ := Option.map_eq_some_iff.mp hstep
      obtain ⟨-, rfl⟩ := take_eq_some htake
      unfold Session.onWritten
      split_ifs
      · unfold Session.cancelActiveWaiter
        split
        · exact h.take _
        · exact h.congr List.filter_sublist rfl fun _ hmem ↦ List.mem_of_mem_erase hmem
      · exact h.take _
      · exact (h.take _).start (by simp)

/-! ## Release -/

/-- A session that has an operation can complete it without any help. -/
theorem exists_ownEvent (maxFrameBytes : ℕ) {operation : Operation}
    (hmem : operation ∈ s.operations) :
    ∃ event, ReadsNothing event ∧ OwnEvent event ∧
      (Session.step maxFrameBytes s event).isSome = true := by
  have htake : s.take operation =
      some { s with operations := s.operations.erase operation } := if_pos hmem
  cases operation with
  | header =>
      refine ⟨.headerRead none, ⟨by simp, by simp⟩, by simp [OwnEvent], ?_⟩
      rw [Session.step, htake]
      rfl
  | payload header =>
      refine ⟨.payloadRead header none, ⟨by simp, by simp⟩, by simp [OwnEvent], ?_⟩
      rw [Session.step, htake]
      rfl
  | append request correlationId =>
      refine ⟨.appendCompleted request correlationId none, ⟨by simp, by simp⟩,
        by simp [OwnEvent], ?_⟩
      rw [Session.step, htake]
      rfl
  | callback poll =>
      refine ⟨.callbackRun poll .ok, ⟨by simp, by simp⟩, by simp [OwnEvent], ?_⟩
      rw [Session.step, htake]
      rfl
  | timer poll =>
      refine ⟨.timerExpired poll, ⟨by simp, by simp⟩, by simp [OwnEvent], ?_⟩
      rw [Session.step, htake]
      rfl
  | timerHandler poll cancelled =>
      refine ⟨.timerHandlerRun poll cancelled .ok, ⟨by simp, by simp⟩, by simp [OwnEvent], ?_⟩
      rw [Session.step, htake]
      rfl
  | write closeAfterWrite =>
      refine ⟨.writeCompleted closeAfterWrite true, ⟨by simp, by simp⟩, by simp [OwnEvent], ?_⟩
      rw [Session.step, htake]
      rfl

/-- The waiter of a long poll does not outlive its timer. -/
theorem Waiting.released (h : s.Waiting) (hordered : s.Ordered live) (hended : s.operations = []) :
    s.Released := by
  refine ⟨hended, List.eq_nil_iff_forall_not_mem.mpr fun poll hmem ↦ ?_⟩
  obtain rfl := h.isLive hordered hmem
  cases hordered.turn with
  | poll _ _ _ _ _ _ _ _ htimer =>
      rw [hended] at htimer
      rcases htimer with htimer | htimer <;> cases htimer

/-- What the holder of a session's slot can rely on: without bytes to read there is only
so much that the session still does, and when it does nothing more of its own it is
released. -/
structure EndsAlone (maxFrameBytes : ℕ) (s : Session) : Prop where
  bounded : ∀ events t, Along (Session.step maxFrameBytes) (fun _ event ↦ ReadsNothing event) s
    events → run (Session.step maxFrameBytes) s events = some t → events.length ≤ s.weight
  released : (∀ event, ReadsNothing event → OwnEvent event →
    Session.step maxFrameBytes s event = none) → s.Released

theorem Waiting.endsAlone (h : s.Waiting) (hordered : s.Ordered live) :
    s.EndsAlone maxFrameBytes := by
  constructor
  · intro events t hreads hrun
    have hlength := length_le_of_decreasing (fun _ event ↦ ReadsNothing event) weight
      (fun _ _ _ hreads hstep ↦ weight_step hreads hstep) hreads hrun
    omega
  · intro hstuck
    apply h.released hordered
    refine List.eq_nil_iff_forall_not_mem.mpr fun operation hmem ↦ ?_
    obtain ⟨event, hreads, hown, hstep⟩ := exists_ownEvent maxFrameBytes hmem
    rw [hstuck event hreads hown] at hstep
    cases hstep

theorem waiting_opened (authRequired : Bool) : (opened authRequired).Waiting := waiting_of_nil rfl

end Session

end BoltStream.Broker
