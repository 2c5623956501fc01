import BoltStream.Broker.Handlers

/-!
# What handlers keep

A session changes what the broker stores only through the operations of the runtime, so
that a property of the stored state that every operation keeps is kept by every event of
the session.
-/

namespace BoltStream.Broker

open BoltStream.Lib BoltStream.Protocol BoltStream.Compression BoltStream.Storage

/-- What the calls of an operation keep. -/
def Call.Keeps {σ request response : Type} (call : Call σ request response) (P : σ → Prop) :
    Prop :=
  ∀ request s, P s → P (call request s).1

/-- Every operation of the runtime keeps a property of its state. -/
structure Runtime.Keeps {σ : Type} (runtime : Runtime σ) (P : σ → Prop) : Prop where
  createTopic : Call.Keeps runtime.createTopic P
  asyncProduce : Call.Keeps runtime.asyncProduce P
  produceBatch : Call.Keeps runtime.produceBatch P
  fetch : Call.Keeps runtime.fetch P
  fetchEncodedBatch : Call.Keeps runtime.fetchEncodedBatch P
  registerFetchWaiter : ∀ topic partition s, P s →
    P (runtime.registerFetchWaiter topic partition s).1
  cancelFetchWaiter : ∀ waiterId s, P s → P (runtime.cancelFetchWaiter waiterId s)
  commitOffset : Call.Keeps runtime.commitOffset P
  joinGroup : Call.Keeps runtime.joinGroup P
  syncGroup : Call.Keeps runtime.syncGroup P
  heartbeatGroup : Call.Keeps runtime.heartbeatGroup P
  leaveGroup : Call.Keeps runtime.leaveGroup P
  commitGroupOffset : Call.Keeps runtime.commitGroupOffset P
  listTopics : Call.Keeps runtime.listTopics P
  describeTopic : Call.Keeps runtime.describeTopic P
  deleteTopic : Call.Keeps runtime.deleteTopic P
  runRetention : Call.Keeps runtime.runRetention P
  describeGroup : Call.Keeps runtime.describeGroup P
  resetGroupOffset : Call.Keeps runtime.resetGroupOffset P

section Frames

variable {σ : Type} {runtime : Runtime σ} {P : σ → Prop} {config : BrokerConfig}
  {session : ProtocolSession} {stored : σ}

theorem stored_withRequest {request : Type} {decode : Bytes → Except DecodeError request}
    {names : request → Option DecodeError} {payload : Bytes} {next : request → Handled σ}
    (h : P stored) (hnext : ∀ request, P (next request).stored) :
    P (ProtocolSession.withRequest config decode names session stored payload next).stored := by
  rw [ProtocolSession.withRequest]
  split
  · exact h
  · split
    · exact h
    · rw [ProtocolSession.requireAuth]
      split_ifs
      · exact hnext _
      · exact h

theorem stored_handleCall {request response : Type} {decode : Bytes → Except DecodeError request}
    {names : request → Option DecodeError} {call : Call σ request response}
    {frameType : FrameType} {encode : response → Bytes} {payload : Bytes}
    (hcall : Call.Keeps call P) (h : P stored) :
    P (ProtocolSession.handleCall config decode names call frameType encode session stored
      payload).stored := by
  refine stored_withRequest h fun request ↦ ?_
  have hkept := hcall request stored h
  split
  · next after response heq =>
      rw [heq] at hkept
      exact hkept
  · next after failure heq =>
      rw [heq] at hkept
      exact hkept

theorem stored_fetchNow (hruntime : runtime.Keeps P) (h : P stored) (request : FetchRequest) :
    P (ProtocolSession.fetchNow runtime config session stored request).stored := by
  have hkept := hruntime.fetch request stored h
  rw [ProtocolSession.fetchNow]
  split
  · next after response heq =>
      rw [heq] at hkept
      exact hkept
  · next after failure heq =>
      rw [heq] at hkept
      exact hkept

theorem stored_fetchPlain (hruntime : runtime.Keeps P) (h : P stored) (request : FetchRequest) :
    P (ProtocolSession.fetchPlain runtime config session stored request).stored := by
  have hkept := hruntime.fetch request stored h
  rw [ProtocolSession.fetchPlain]
  split
  · next after response heq =>
      rw [heq] at hkept
      split_ifs
      · have hregistered := hruntime.registerFetchWaiter request.topic request.partition after
          hkept
        rw [ProtocolSession.registerLongPoll]
        split_ifs
        · exact hkept
        · split
          · next registered heq =>
              rw [heq] at hregistered
              exact hregistered
          · next registered waiterId heq =>
              rw [heq] at hregistered
              exact hregistered
      · exact hkept
  · next after failure heq =>
      rw [heq] at hkept
      exact hkept

theorem stored_fetchOrWait (hruntime : runtime.Keeps P) (h : P stored)
    (request : FetchRequest) :
    P (ProtocolSession.fetchOrWait runtime config session stored request).stored := by
  have hkept := hruntime.fetchEncodedBatch request stored h
  rw [ProtocolSession.fetchOrWait]
  split_ifs
  · split
    · next after failure heq =>
        rw [heq] at hkept
        exact hkept
    · next after heq =>
        rw [heq] at hkept
        exact stored_fetchPlain hruntime hkept request
    · next after batch heq =>
        rw [heq] at hkept
        dsimp only
        split_ifs
        · exact hkept
        · exact stored_fetchPlain hruntime hkept request
  · exact stored_fetchPlain hruntime h request

theorem stored_handleProduceBatch (Z : Zstd) (hruntime : runtime.Keeps P) (h : P stored)
    (payload : Bytes) :
    P (ProtocolSession.handleProduceBatch Z runtime config session stored payload).stored := by
  rw [ProtocolSession.handleProduceBatch]
  split_ifs
  · exact h
  · refine stored_withRequest h fun request ↦ ?_
    split_ifs
    · exact h
    · exact h
    · rw [ProtocolSession.produceBatchRecords]
      split
      · exact h
      · split
        · exact h
        · next records _ =>
            have hkept := hruntime.produceBatch (request, records) stored h
            split
            · next after response heq =>
                rw [heq] at hkept
                exact hkept
            · next after code message heq =>
                rw [heq] at hkept
                exact hkept
            · next after message heq =>
                rw [heq] at hkept
                exact hkept

theorem stored_handleProduce (hruntime : runtime.Keeps P) (h : P stored) (payload : Bytes) :
    P (ProtocolSession.handleProduce runtime config session stored payload).stored := by
  refine stored_withRequest h fun request ↦ ?_
  have hkept := hruntime.asyncProduce request stored h
  split
  · next after accepted heq =>
      rw [heq] at hkept
      exact hkept
  · next after failure heq =>
      rw [heq] at hkept
      exact hkept

/-- A frame is handled by operations only. -/
theorem stored_handleFrame (Z : Zstd) (hruntime : runtime.Keeps P) (h : P stored)
    (readiness : Readiness) (frameType : FrameType) (payload : Bytes) :
    P (session.handleFrame Z runtime config readiness stored frameType payload).stored := by
  cases frameType
  case healthRequest =>
    rw [ProtocolSession.handleFrame, ProtocolSession.handleHealth]
    split
    · exact h
    · exact h
  case authRequest =>
    rw [ProtocolSession.handleFrame, ProtocolSession.handleAuth]
    split
    · exact h
    · split_ifs
      · exact h
      · exact h
      · exact h
  case metadataRequest => exact stored_withRequest h fun _ ↦ h
  case produceRequest => exact stored_handleProduce hruntime h payload
  case produceBatchRequest => exact stored_handleProduceBatch Z hruntime h payload
  case fetchRequest =>
    exact stored_withRequest h fun request ↦ stored_fetchOrWait hruntime h _
  case offsetCommitRequest => exact stored_handleCall hruntime.commitOffset h
  case createTopicRequest => exact stored_handleCall hruntime.createTopic h
  case joinGroupRequest => exact stored_handleCall hruntime.joinGroup h
  case syncGroupRequest => exact stored_handleCall hruntime.syncGroup h
  case heartbeatRequest => exact stored_handleCall hruntime.heartbeatGroup h
  case leaveGroupRequest => exact stored_handleCall hruntime.leaveGroup h
  case groupOffsetCommitRequest => exact stored_handleCall hruntime.commitGroupOffset h
  case listTopicsRequest => exact stored_handleCall hruntime.listTopics h
  case describeTopicRequest => exact stored_handleCall hruntime.describeTopic h
  case deleteTopicRequest => exact stored_handleCall hruntime.deleteTopic h
  case runRetentionRequest => exact stored_handleCall hruntime.runRetention h
  case describeGroupRequest => exact stored_handleCall hruntime.describeGroup h
  case resetGroupOffsetRequest => exact stored_handleCall hruntime.resetGroupOffset h
  all_goals exact h

section Steps

variable {s : BrokerSession σ}

theorem stored_react (correlationId : ℕ) (reaction : Reaction) :
    (s.react correlationId reaction).stored = s.stored := by
  cases reaction with
  | write frameType payload closeAfterWrite => rfl
  | awaitAppend => rfl
  | awaitPoll request waiterId => rfl

theorem stored_cancelActiveWaiter (hruntime : runtime.Keeps P) (h : P s.stored) :
    P (s.cancelActiveWaiter runtime).stored := by
  rw [BrokerSession.cancelActiveWaiter]
  split
  · exact h
  · exact hruntime.cancelFetchWaiter _ _ h

theorem stored_endPoll (hruntime : runtime.Keeps P) (h : P s.stored) (correlationId : ℕ)
    (request : FetchRequest) :
    P (s.endPoll runtime config correlationId request).stored := by
  rw [BrokerSession.endPoll, BrokerSession.conclude, stored_react]
  exact stored_fetchNow hruntime h request

theorem stored_receive (Z : Zstd) (hruntime : runtime.Keeps P) (h : P s.stored)
    (header payload : Bytes) : P (s.receive Z runtime config header payload).stored := by
  rw [BrokerSession.receive]
  dsimp only
  split
  · rw [stored_react]
    exact h
  · split_ifs
    · rw [stored_react]
      exact h
    · rw [BrokerSession.conclude, stored_react]
      exact stored_handleFrame Z hruntime h _ _ _

/-- The events of the session itself keep what the operations keep. -/
theorem stored_step (Z : Zstd) (hruntime : runtime.Keeps P) (h : P s.stored)
    {event : SessionEvent σ} (hevent : ∀ change, event ≠ .elsewhere change) :
    P (s.step Z runtime config event).stored := by
  unfold BrokerSession.step
  split
  · exact stored_receive Z hruntime h _ _
  · split_ifs
    · exact stored_cancelActiveWaiter hruntime h
    · exact h
    · exact h
  · exact h
  · rw [stored_react]
    exact h
  · exact stored_endPoll hruntime h _ _
  · exact stored_endPoll hruntime (stored_cancelActiveWaiter hruntime h) _ _
  · exact h
  · exact h
  · exact absurd rfl (hevent _)
  · exact h

end Steps

end Frames

end BoltStream.Broker
