import BoltStream.Lib.Runs
import BoltStream.Protocol.Frames
import Mathlib.Data.Multiset.AddSub
import Mathlib.Tactic.Abel

/-!
# The asynchronous client

The client as a machine over its socket operations.  An operation that was started
is outstanding until its completion handler runs, with success or with an error;
several can be outstanding, and they complete in any order.  Requests are numbered
in the order in which they get to the strand, and the number stands for the handler.
-/

namespace BoltStream.Client

open BoltStream.Lib BoltStream.Protocol

inductive ClientOperation where
  | resolve
  | connect
  | write
  | header
  | payload (header : FrameHeader)
  deriving DecidableEq, Repr

def ClientOperation.isRead : ClientOperation → Bool
  | header => true
  | payload _ => true
  | _ => false

/-- What a handler is called with: an error code, or a frame. -/
inductive RequestResult where
  | notConnected
  | messageSize
  | protocolError
  /-- The error of the operation that has failed. -/
  | operationError
  | response (header : FrameHeader) (payload : Bytes)
  deriving DecidableEq, Repr

structure AsyncClient where
  maxFrameBytes : ℕ
  protocolVersion : ℕ
  socketOpen : Bool := false
  operations : List ClientOperation := []
  nextCorrelationId : ℕ := 1
  writeQueue : List Bytes := []
  /-- Correlation ids and handlers. -/
  pending : List (ℕ × ℕ) := []
  /-- How many requests there were. -/
  requests : ℕ := 0
  /-- The requests that were sent, with the correlation ids they carry. -/
  carried : List (ℕ × ℕ) := []
  /-- The handlers that were called, in order. -/
  calls : List (ℕ × RequestResult) := []

inductive ClientEvent where
  | connect
  | resolved (ok : Bool)
  | connected (ok : Bool)
  | request (frameType : FrameType) (payload : Bytes)
  | written (ok : Bool)
  /-- A read completes with these bytes, or fails. -/
  | headerRead (bytes : Option Bytes)
  | payloadRead (header : FrameHeader) (payload : Option Bytes)
  | close

namespace AsyncClient

def start (s : AsyncClient) (operation : ClientOperation) : AsyncClient :=
  { s with operations := s.operations ++ [operation] }

/-- Take a completed operation from the list. -/
def take (s : AsyncClient) (operation : ClientOperation) : Option AsyncClient :=
  if operation ∈ s.operations then
    some { s with operations := s.operations.erase operation }
  else none

def startWrite (s : AsyncClient) : AsyncClient :=
  if s.writeQueue.isEmpty then s else s.start .write

/-- The outstanding operations complete later. -/
def closeSocket (s : AsyncClient) : AsyncClient := { s with socketOpen := false }

def failPending (s : AsyncClient) (result : RequestResult) : AsyncClient :=
  { s with
      pending := []
      calls := s.calls ++ s.pending.map fun entry ↦ (entry.2, result) }

def dispatchResponse (s : AsyncClient) (header : FrameHeader) (payload : Bytes) : AsyncClient :=
  match s.pending.find? fun entry ↦ entry.1 = header.correlationId with
  | none => s
  | some entry =>
      { s with
          pending := s.pending.erase entry
          calls := s.calls ++ [(entry.2, .response header payload)] }

/-- `async_request_impl` accepts the request. -/
def accepts (s : AsyncClient) (payload : Bytes) : Bool :=
  s.socketOpen && decide (kFrameHeaderBytes ≤ s.maxFrameBytes ∧
    payload.length ≤ s.maxFrameBytes - kFrameHeaderBytes)

/-- `pending_.emplace` does nothing for an id that is there already. -/
def emplace (pending : List (ℕ × ℕ)) (correlationId handler : ℕ) : List (ℕ × ℕ) :=
  if correlationId ∈ pending.map Prod.fst then pending else pending ++ [(correlationId, handler)]

def asyncRequest (s : AsyncClient) (frameType : FrameType) (payload : Bytes) : AsyncClient :=
  let handler := s.requests
  let s := { s with requests := s.requests + 1 }
  if s.socketOpen = false then { s with calls := s.calls ++ [(handler, .notConnected)] }
  else if s.accepts payload = false then { s with calls := s.calls ++ [(handler, .messageSize)] }
  else
    let correlationId := s.nextCorrelationId
    let queued : AsyncClient :=
      { s with
          nextCorrelationId := (correlationId + 1) % 2 ^ 64
          pending := emplace s.pending correlationId handler
          carried := s.carried ++ [(handler, correlationId)]
          writeQueue := s.writeQueue ++
            [encodeFrame s.protocolVersion frameType correlationId payload 0] }
    if queued.writeQueue.length = 1 then queued.startWrite else queued

def onWritten (s : AsyncClient) (ok : Bool) : AsyncClient :=
  if ok then { s with writeQueue := s.writeQueue.tail }.startWrite
  else (s.failPending .operationError).closeSocket

/-- An error of a read leaves the socket open. -/
def onHeader (s : AsyncClient) : Option Bytes → AsyncClient
  | none => s.failPending .operationError
  | some bytes =>
      let decoded := decodeHeader bytes s.maxFrameBytes
      if decoded.error.isSome then (s.failPending .protocolError).closeSocket
      else s.start (.payload decoded.header)

def onPayload (s : AsyncClient) (header : FrameHeader) : Option Bytes → AsyncClient
  | none => s.failPending .operationError
  | some payload => (s.dispatchResponse header payload).start .header

/-- `async_connect` opens the socket; what becomes of it when no endpoint accepts is
for the next write to find out. -/
def onResolved (s : AsyncClient) (ok : Bool) : AsyncClient :=
  if ok then { s with socketOpen := true }.start .connect else s

def onConnected (s : AsyncClient) (ok : Bool) : AsyncClient :=
  if ok then s.start .header else s

def step (s : AsyncClient) : ClientEvent → Option AsyncClient
  | .connect => some (s.start .resolve)
  | .resolved ok => (s.take .resolve).map fun s ↦ s.onResolved ok
  | .connected ok => (s.take .connect).map fun s ↦ s.onConnected ok
  | .request frameType payload => some (s.asyncRequest frameType payload)
  | .written ok => (s.take .write).map fun s ↦ s.onWritten ok
  | .headerRead bytes => (s.take .header).map fun s ↦ s.onHeader bytes
  | .payloadRead header payload => (s.take (.payload header)).map fun s ↦ s.onPayload header payload
  | .close => some s.closeSocket

def initial (maxFrameBytes protocolVersion : ℕ) : AsyncClient :=
  { maxFrameBytes := maxFrameBytes, protocolVersion := protocolVersion }

/-! ## Handlers -/

/-- Handlers are called once, and with the response to their own request. -/
structure Routed (s : AsyncClient) : Prop where
  once : (s.pending.map Prod.snd ++ s.calls.map Prod.fst).Nodup
  handlers : ∀ handler ∈ s.pending.map Prod.snd ++ s.calls.map Prod.fst, handler < s.requests
  carriedOnce : (s.carried.map Prod.fst).Nodup
  carriedHandlers : ∀ handler ∈ s.carried.map Prod.fst, handler < s.requests
  carries : ∀ entry ∈ s.pending, (entry.2, entry.1) ∈ s.carried
  answered : ∀ handler header payload, (handler, .response header payload) ∈ s.calls →
    (handler, header.correlationId) ∈ s.carried

variable {s t : AsyncClient}

theorem routed_initial (maxFrameBytes protocolVersion : ℕ) :
    (initial maxFrameBytes protocolVersion).Routed :=
  { once := List.nodup_nil
    handlers := nofun
    carriedOnce := List.nodup_nil
    carriedHandlers := nofun
    carries := nofun
    answered := nofun }

/-- Operations, the socket and the write queue do not matter. -/
theorem Routed.congr (h : s.Routed) (hpending : t.pending = s.pending) (hcalls : t.calls = s.calls)
    (hrequests : t.requests = s.requests) (hcarried : t.carried = s.carried) : t.Routed := by
  refine ⟨?_, ?_, ?_, ?_, ?_, ?_⟩
  · rw [hpending, hcalls]
    exact h.once
  · rw [hpending, hcalls, hrequests]
    exact h.handlers
  · rw [hcarried]
    exact h.carriedOnce
  · rw [hcarried, hrequests]
    exact h.carriedHandlers
  · rw [hpending, hcarried]
    exact h.carries
  · rw [hcalls, hcarried]
    exact h.answered

theorem Routed.start (h : s.Routed) (operation : ClientOperation) : (s.start operation).Routed :=
  h.congr rfl rfl rfl rfl

theorem Routed.closeSocket (h : s.Routed) : s.closeSocket.Routed := h.congr rfl rfl rfl rfl

theorem Routed.take (h : s.Routed) {operation : ClientOperation}
    (htake : s.take operation = some t) : t.Routed := by
  rw [AsyncClient.take] at htake
  split_ifs at htake
  exact Option.some.inj htake ▸ h.congr rfl rfl rfl rfl

theorem Routed.startWrite (h : s.Routed) : s.startWrite.Routed := by
  rw [AsyncClient.startWrite]
  split_ifs
  · exact h
  · exact h.start .write

theorem Routed.failPending (h : s.Routed) {result : RequestResult}
    (hresult : ∀ header payload, result ≠ .response header payload) :
    (s.failPending result).Routed := by
  have hcalled : (s.pending.map fun entry ↦ (entry.2, result)).map Prod.fst =
      s.pending.map Prod.snd := by
    rw [List.map_map]
    rfl
  have hperm : (([] : List (ℕ × ℕ)).map Prod.snd ++
      (s.calls ++ s.pending.map fun entry ↦ (entry.2, result)).map Prod.fst).Perm
        (s.pending.map Prod.snd ++ s.calls.map Prod.fst) := by
    rw [List.map_nil, List.nil_append, List.map_append, hcalled]
    exact List.perm_append_comm
  refine ⟨hperm.nodup_iff.mpr h.once, fun handler hmem ↦ h.handlers handler (hperm.subset hmem),
    h.carriedOnce, h.carriedHandlers, nofun, fun handler header payload hmem ↦ ?_⟩
  rcases List.mem_append.mp hmem with hmem | hmem
  · exact h.answered handler header payload hmem
  · obtain ⟨entry, -, hentry⟩ := List.mem_map.mp hmem
    exact absurd (Prod.mk.inj hentry).2 (hresult header payload)

theorem Routed.dispatchResponse (h : s.Routed) (header : FrameHeader) (payload : Bytes) :
    (s.dispatchResponse header payload).Routed := by
  rw [AsyncClient.dispatchResponse]
  split
  · exact h
  · next entry hfind =>
      have hmem := List.mem_of_find?_eq_some hfind
      have hid : entry.1 = header.correlationId := by simpa using List.find?_some hfind
      have hperm : ((s.pending.erase entry).map Prod.snd ++
          (s.calls ++ [(entry.2, RequestResult.response header payload)]).map Prod.fst).Perm
            (s.pending.map Prod.snd ++ s.calls.map Prod.fst) := by
        have hpending := (List.perm_cons_erase hmem).map Prod.snd
        rw [← Multiset.coe_eq_coe] at hpending ⊢
        simp only [List.map_append, List.map_cons, List.map_nil, ← Multiset.coe_add,
          ← Multiset.cons_coe, Multiset.coe_nil] at hpending ⊢
        rw [hpending, ← Multiset.singleton_add, ← Multiset.singleton_add]
        abel
      refine ⟨hperm.nodup_iff.mpr h.once, fun handler hhandler ↦ h.handlers handler
        (hperm.subset hhandler), h.carriedOnce, h.carriedHandlers, fun other hother ↦
          h.carries other (List.mem_of_mem_erase hother), fun handler header' payload' hcall ↦ ?_⟩
      rcases List.mem_append.mp hcall with hcall | hcall
      · exact h.answered handler header' payload' hcall
      · obtain ⟨rfl, hresponse⟩ := Prod.mk.inj (List.mem_singleton.mp hcall)
        obtain ⟨rfl, -⟩ := RequestResult.response.inj hresponse
        rw [← hid]
        exact h.carries entry hmem

/-- A request that is refused at once. -/
theorem Routed.refuse (h : s.Routed) {result : RequestResult}
    (hresult : ∀ header payload, result ≠ .response header payload) :
    Routed { s with
      requests := s.requests + 1
      calls := s.calls ++ [(s.requests, result)] } := by
  have hnew : s.requests ∉ s.pending.map Prod.snd ++ s.calls.map Prod.fst := fun hmem ↦
    (h.handlers _ hmem).false
  refine ⟨?_, fun handler hmem ↦ ?_, h.carriedOnce, fun handler hmem ↦
    (h.carriedHandlers handler hmem).trans (Nat.lt_succ_self _), h.carries,
    fun handler header payload hmem ↦ ?_⟩
  · rw [List.map_append, ← List.append_assoc]
    exact h.once.append (List.nodup_singleton _) (List.disjoint_singleton.mpr hnew)
  · rw [List.map_append, ← List.append_assoc] at hmem
    rcases List.mem_append.mp hmem with hmem | hmem
    · exact (h.handlers handler hmem).trans (Nat.lt_succ_self _)
    · rw [List.mem_singleton.mp hmem]
      exact Nat.lt_succ_self _
  · rcases List.mem_append.mp hmem with hmem | hmem
    · exact h.answered handler header payload hmem
    · exact absurd (Prod.mk.inj (List.mem_singleton.mp hmem)).2.symm (hresult header payload)

/-- A request that is sent. -/
theorem Routed.send (h : s.Routed) (nextCorrelationId : ℕ) (writeQueue : List Bytes) :
    Routed { s with
      requests := s.requests + 1
      nextCorrelationId := nextCorrelationId
      pending := emplace s.pending s.nextCorrelationId s.requests
      carried := s.carried ++ [(s.requests, s.nextCorrelationId)]
      writeQueue := writeQueue } := by
  have hnew : s.requests ∉ s.pending.map Prod.snd ++ s.calls.map Prod.fst := fun hmem ↦
    (h.handlers _ hmem).false
  have hemplace : ∀ entry ∈ emplace s.pending s.nextCorrelationId s.requests,
      entry ∈ s.pending ∨ entry = (s.nextCorrelationId, s.requests) := by
    intro entry hentry
    rw [emplace] at hentry
    split_ifs at hentry
    · exact Or.inl hentry
    · exact (List.mem_append.mp hentry).imp_right List.mem_singleton.mp
  have hcarried : s.requests ∉ s.carried.map Prod.fst := fun hmem ↦
    (h.carriedHandlers _ hmem).false
  refine ⟨?_, fun handler hmem ↦ ?_, ?_, fun handler hmem ↦ ?_, fun entry hentry ↦ ?_,
    fun handler header payload hmem ↦ List.mem_append_left _
      (h.answered handler header payload hmem)⟩
  · dsimp only
    rw [emplace]
    split_ifs
    · exact h.once
    · have hperm : ((s.pending ++ [(s.nextCorrelationId, s.requests)]).map Prod.snd ++
          s.calls.map Prod.fst).Perm
            (s.requests :: (s.pending.map Prod.snd ++ s.calls.map Prod.fst)) := by
        rw [List.map_append, List.append_assoc]
        exact List.perm_middle
      exact hperm.nodup_iff.mpr (List.nodup_cons.mpr ⟨hnew, h.once⟩)
  · rcases List.mem_append.mp hmem with hmem | hmem
    · obtain ⟨entry, hentry, rfl⟩ := List.mem_map.mp hmem
      rcases hemplace entry hentry with hentry | rfl
      · exact (h.handlers _ (List.mem_append_left _ (List.mem_map_of_mem hentry))).trans
          (Nat.lt_succ_self _)
      · exact Nat.lt_succ_self _
    · exact (h.handlers _ (List.mem_append_right _ hmem)).trans (Nat.lt_succ_self _)
  · rw [List.map_append]
    exact h.carriedOnce.append (List.nodup_singleton _) (List.disjoint_singleton.mpr hcarried)
  · rw [List.map_append] at hmem
    rcases List.mem_append.mp hmem with hmem | hmem
    · exact (h.carriedHandlers handler hmem).trans (Nat.lt_succ_self _)
    · rw [List.mem_singleton.mp hmem]
      exact Nat.lt_succ_self _
  · rcases hemplace entry hentry with hentry | rfl
    · exact List.mem_append_left _ (h.carries entry hentry)
    · exact List.mem_append_right _ (List.mem_singleton_self _)

theorem Routed.asyncRequest (h : s.Routed) (frameType : FrameType) (payload : Bytes) :
    (s.asyncRequest frameType payload).Routed := by
  rw [AsyncClient.asyncRequest]
  dsimp only
  split_ifs
  · exact h.refuse fun _ _ ↦ nofun
  · exact h.refuse fun _ _ ↦ nofun
  · exact (h.send _ _).startWrite
  · exact h.send _ _

theorem Routed.step (h : s.Routed) {event : ClientEvent} (hstep : s.step event = some t) :
    t.Routed := by
  cases event with
  | connect => exact Option.some.inj hstep ▸ h.start .resolve
  | request frameType payload =>
      exact Option.some.inj hstep ▸ h.asyncRequest frameType payload
  | close => exact Option.some.inj hstep ▸ h.closeSocket
  | resolved ok =>
      obtain ⟨u, htake, rfl⟩ := Option.map_eq_some_iff.mp hstep
      have hu := h.take htake
      cases ok with
      | false => exact hu
      | true =>
          exact (hu.congr rfl rfl rfl rfl : Routed { u with socketOpen := true }).start .connect
  | connected ok =>
      obtain ⟨u, htake, rfl⟩ := Option.map_eq_some_iff.mp hstep
      have hu := h.take htake
      cases ok with
      | false => exact hu
      | true => exact hu.start .header
  | written ok =>
      obtain ⟨u, htake, rfl⟩ := Option.map_eq_some_iff.mp hstep
      have hu := h.take htake
      cases ok with
      | false =>
          refine (hu.failPending ?_).closeSocket
          exact fun _ _ ↦ nofun
      | true =>
          exact (hu.congr rfl rfl rfl rfl :
            Routed { u with writeQueue := u.writeQueue.tail }).startWrite
  | headerRead bytes =>
      obtain ⟨u, htake, rfl⟩ := Option.map_eq_some_iff.mp hstep
      have hu := h.take htake
      cases bytes with
      | none => exact hu.failPending fun _ _ ↦ nofun
      | some bytes =>
          rw [AsyncClient.onHeader]
          split_ifs
          · refine (hu.failPending ?_).closeSocket
            exact fun _ _ ↦ nofun
          · exact hu.start _
  | payloadRead header payload =>
      obtain ⟨u, htake, rfl⟩ := Option.map_eq_some_iff.mp hstep
      have hu := h.take htake
      cases payload with
      | none => exact hu.failPending fun _ _ ↦ nofun
      | some payload => exact (hu.dispatchResponse header payload).start .header

/-! ## Stranded requests -/

/-- A read is outstanding. -/
def Reading (s : AsyncClient) : Prop := ∃ operation ∈ s.operations, operation.isRead = true

/-- A request is only sent while a read is outstanding: not while the client is
connecting, and not after a read has failed. -/
def SendsWhileReading (s : AsyncClient) (event : ClientEvent) : Prop :=
  ∀ frameType payload, event = .request frameType payload → s.accepts payload = true → s.Reading

/-- Handlers are called once, with their own responses, and none is left behind with
no read, write or connect outstanding. -/
structure NeverStrands (s : AsyncClient) : Prop where
  calledOnce : (s.calls.map Prod.fst).Nodup
  answered : ∀ handler header payload, (handler, .response header payload) ∈ s.calls →
    (handler, header.correlationId) ∈ s.carried
  carriedOnce : (s.carried.map Prod.fst).Nodup
  outstanding : s.pending ≠ [] → ∃ operation ∈ s.operations, operation ≠ .resolve

/-- Whoever waits for a response waits for a read. -/
def Served (s : AsyncClient) : Prop := s.pending ≠ [] → s.Reading

theorem Reading.mono (h : s.Reading) (hsub : s.operations ⊆ t.operations) : t.Reading := by
  obtain ⟨operation, hmem, hread⟩ := h
  exact ⟨operation, hsub hmem, hread⟩

theorem reading_start {operation : ClientOperation} (hread : operation.isRead = true) :
    (s.start operation).Reading :=
  ⟨operation, List.mem_append_right _ (List.mem_singleton_self _), hread⟩

theorem Served.mono (h : s.Served) (hpending : t.pending ≠ [] → s.pending ≠ [])
    (hsub : s.operations ⊆ t.operations) : t.Served := fun hne ↦
  (h (hpending hne)).mono hsub

/-- An operation that is no read was taken. -/
theorem Served.take (h : s.Served) {operation : ClientOperation}
    (hread : operation.isRead = false) (htake : s.take operation = some t) : t.Served := by
  rw [AsyncClient.take] at htake
  split_ifs at htake
  obtain rfl := Option.some.inj htake
  intro hne
  obtain ⟨other, hmem, hother⟩ := h hne
  have hdiffers : other ≠ operation := fun heq ↦ by
    rw [heq, hread] at hother
    cases hother
  exact ⟨other, (List.mem_erase_of_ne hdiffers).mpr hmem, hother⟩

theorem served_failPending (s : AsyncClient) (result : RequestResult) :
    (s.failPending result).Served := fun hne ↦ absurd rfl hne

theorem Served.startWrite (h : s.Served) : s.startWrite.Served := by
  rw [AsyncClient.startWrite]
  split_ifs
  · exact h
  · exact h.mono (fun hne ↦ hne) (List.subset_append_left _ _)

theorem Served.asyncRequest (h : s.Served) (frameType : FrameType) (payload : Bytes)
    (hreading : s.accepts payload = true → s.Reading) :
    (s.asyncRequest frameType payload).Served := by
  rw [AsyncClient.asyncRequest]
  dsimp only
  split_ifs with hclosed hrefused
  · exact h
  · exact h
  · have haccepts : s.accepts payload = true := by simpa [accepts] using hrefused
    exact Served.startWrite fun _ ↦ hreading haccepts
  · have haccepts : s.accepts payload = true := by simpa [accepts] using hrefused
    exact fun _ ↦ hreading haccepts

theorem Served.step (h : s.Served) {event : ClientEvent} (hsends : s.SendsWhileReading event)
    (hstep : s.step event = some t) : t.Served := by
  cases event with
  | connect =>
      exact Option.some.inj hstep ▸ h.mono (fun hne ↦ hne) (List.subset_append_left _ _)
  | request frameType payload =>
      exact Option.some.inj hstep ▸ h.asyncRequest frameType payload
        (hsends frameType payload rfl)
  | close => exact Option.some.inj hstep ▸ h
  | resolved ok =>
      obtain ⟨u, htake, rfl⟩ := Option.map_eq_some_iff.mp hstep
      have hu := h.take rfl htake
      cases ok with
      | false => exact hu
      | true => exact hu.mono (fun hne ↦ hne) (List.subset_append_left _ _)
  | connected ok =>
      obtain ⟨u, htake, rfl⟩ := Option.map_eq_some_iff.mp hstep
      have hu := h.take rfl htake
      cases ok with
      | false => exact hu
      | true => exact fun _ ↦ reading_start rfl
  | written ok =>
      obtain ⟨u, htake, rfl⟩ := Option.map_eq_some_iff.mp hstep
      have hu := h.take rfl htake
      cases ok with
      | false => exact served_failPending u .operationError
      | true => exact Served.startWrite hu
  | headerRead bytes =>
      obtain ⟨u, htake, rfl⟩ := Option.map_eq_some_iff.mp hstep
      cases bytes with
      | none => exact served_failPending u _
      | some bytes =>
          rw [AsyncClient.onHeader]
          split_ifs
          · exact served_failPending u .protocolError
          · exact fun _ ↦ reading_start rfl
  | payloadRead header payload =>
      obtain ⟨u, htake, rfl⟩ := Option.map_eq_some_iff.mp hstep
      cases payload with
      | none => exact served_failPending u _
      | some payload => exact fun _ ↦ reading_start rfl

/-- In every run in which requests are only sent while a read is outstanding, no
request is stranded, and while one waits a read is outstanding. -/
theorem never_strands (maxFrameBytes protocolVersion : ℕ) (events : List ClientEvent)
    (s : AsyncClient)
    (hsends : Along step SendsWhileReading (initial maxFrameBytes protocolVersion) events)
    (hrun : run step (initial maxFrameBytes protocolVersion) events = some s) :
    s.NeverStrands ∧ s.Served := by
  have h : s.Routed ∧ s.Served := by
    refine run_invariant SendsWhileReading (fun s ↦ s.Routed ∧ s.Served) ?_ hsends hrun
      ⟨routed_initial maxFrameBytes protocolVersion, fun hne ↦ absurd rfl hne⟩
    rintro s event t hok hstep ⟨hrouted, hserved⟩
    exact ⟨hrouted.step hstep, hserved.step hok hstep⟩
  refine ⟨⟨(List.nodup_append.mp h.1.once).2.1, h.1.answered, h.1.carriedOnce, fun hne ↦ ?_⟩, h.2⟩
  obtain ⟨operation, hmem, hread⟩ := h.2 hne
  refine ⟨operation, hmem, ?_⟩
  rintro rfl
  cases hread

/-- A connection, a request and its response. -/
def oneResponse : List ClientEvent :=
  [.connect, .resolved true, .connected true, .request .healthRequest [], .written true,
    .headerRead (some (encodeFrame 5 .healthResponse 1 [0] 0)),
    .payloadRead (decodeHeader (encodeFrame 5 .healthResponse 1 [0] 0) 1024).header (some [0])]

theorem sendsWhileReading_of_ne_request {event : ClientEvent}
    (h : ∀ frameType payload, event ≠ .request frameType payload) : s.SendsWhileReading event :=
  fun frameType payload hevent ↦ absurd hevent (h frameType payload)

theorem never_strands_oneResponse :
    ∃ s, run step (initial 1024 5) oneResponse = some s ∧ (s.NeverStrands ∧ s.Served) ∧
      s.calls.map Prod.fst = [0] ∧ s.pending = [] := by
  have hends : (run step (initial 1024 5) oneResponse).map (fun s ↦
      decide (s.calls.map Prod.fst = [0] ∧ s.pending = [])) = some true := by
    decide +kernel
  obtain ⟨s, hrun, hends⟩ := Option.map_eq_some_iff.mp hends
  refine ⟨s, hrun, never_strands 1024 5 oneResponse s ?_ hrun, of_decide_eq_true hends⟩
  refine along_cons (sendsWhileReading_of_ne_request nofun) rfl ?_
  refine along_cons (sendsWhileReading_of_ne_request nofun) rfl ?_
  refine along_cons (sendsWhileReading_of_ne_request nofun) rfl ?_
  refine along_cons (fun _ _ _ _ ↦ ⟨.header, List.mem_singleton_self _, rfl⟩) rfl ?_
  refine along_of_forall (fun event hevent s ↦ ?_) _
  fin_cases hevent <;> exact sendsWhileReading_of_ne_request fun _ _ ↦ nofun

/-- The server closes the connection, and the client sends another request. -/
def requestAfterFailedRead : List ClientEvent :=
  [.connect, .resolved true, .connected true, .headerRead none, .request .healthRequest [],
    .written true]

/-- The handler waits, and nothing is outstanding. -/
theorem requestAfterFailedRead_strands :
    ∃ s, run step (initial 1024 5) requestAfterFailedRead = some s ∧ ¬ s.NeverStrands := by
  refine ⟨_, rfl, fun h ↦ ?_⟩
  obtain ⟨operation, hmem, -⟩ := h.outstanding (by decide)
  cases hmem

theorem pending_startWrite (s : AsyncClient) : s.startWrite.pending = s.pending := by
  rw [AsyncClient.startWrite]
  split_ifs <;> rfl

theorem isRead_startWrite (h : ∀ operation ∈ s.operations, operation.isRead = false) :
    ∀ operation ∈ s.startWrite.operations, operation.isRead = false := by
  rw [AsyncClient.startWrite]
  split_ifs
  · exact h
  · intro operation hmem
    rcases List.mem_append.mp hmem with hmem | hmem
    · exact h operation hmem
    · rw [List.mem_singleton.mp hmem]
      rfl

/-- Without a read the operations can end, one after the other, and nobody is called. -/
theorem exists_ended (work : ℕ) (s : AsyncClient)
    (hwork : s.writeQueue.length + s.operations.length ≤ work)
    (hreads : ∀ operation ∈ s.operations, operation.isRead = false) :
    ∃ events t, run step s events = some t ∧ t.pending = s.pending ∧ t.operations = [] := by
  induction work generalizing s with
  | zero =>
      refine ⟨[], s, rfl, rfl, List.length_eq_zero_iff.mp ?_⟩
      omega
  | succ work ih =>
      cases hoperations : s.operations with
      | nil => exact ⟨[], s, rfl, rfl, hoperations⟩
      | cons operation rest =>
          have htake : s.take operation = some { s with operations := rest } := by
            rw [AsyncClient.take, hoperations, if_pos List.mem_cons_self, List.erase_cons_head]
          rw [hoperations, List.length_cons] at hwork
          rw [hoperations] at hreads
          have hrest : ∀ other ∈ rest, other.isRead = false := fun other hother ↦
            hreads other (List.mem_cons_of_mem _ hother)
          have hgo : ∀ (event : ClientEvent) (u : AsyncClient), s.step event = some u →
              u.pending = s.pending → u.writeQueue.length + u.operations.length ≤ work →
              (∀ other ∈ u.operations, other.isRead = false) →
              ∃ events t, run step s events = some t ∧ t.pending = s.pending ∧
                t.operations = [] := by
            intro event u hstep hpending hless hnone
            obtain ⟨events, t, hrun, hkept, hended⟩ := ih u hless hnone
            refine ⟨event :: events, t, ?_, hkept.trans hpending, hended⟩
            rw [run, hstep]
            exact hrun
          cases operation with
          | resolve =>
              refine hgo (.resolved false) { s with operations := rest }
                (by rw [AsyncClient.step, htake]; rfl) rfl ?_ hrest
              dsimp only
              omega
          | connect =>
              refine hgo (.connected false) { s with operations := rest }
                (by rw [AsyncClient.step, htake]; rfl) rfl ?_ hrest
              dsimp only
              omega
          | write =>
              set u : AsyncClient :=
                { s with operations := rest, writeQueue := s.writeQueue.tail } with hu
              refine hgo (.written true) u.startWrite (by rw [AsyncClient.step, htake]; rfl)
                (pending_startWrite u) ?_ (isRead_startWrite hrest)
              rw [AsyncClient.startWrite]
              split_ifs with hempty
              · simp only [hu, List.length_tail]
                omega
              · have hlength : 0 < u.writeQueue.length := by
                  rw [List.isEmpty_iff] at hempty
                  exact List.length_pos_iff.mpr hempty
                simp only [hu, AsyncClient.start, List.length_tail, List.length_append,
                  List.length_singleton] at hlength ⊢
                omega
          | header => exact absurd (hreads _ List.mem_cons_self) (by decide)
          | payload header =>
              exact absurd (hreads _ List.mem_cons_self) (by simp [ClientOperation.isRead])

/-- The condition leaves out no request that is safe: one that is sent without a read
can be stranded. -/
theorem exists_stranded (s : AsyncClient) (frameType : FrameType) {payload : Bytes}
    (haccepts : s.accepts payload = true) (hreading : ¬ s.Reading) :
    ∃ events t, run step s (.request frameType payload :: events) = some t ∧
      ¬ t.NeverStrands := by
  have hreads : ∀ operation ∈ s.operations, operation.isRead = false := by
    intro operation hmem
    by_contra hread
    exact hreading ⟨operation, hmem, by simpa using hread⟩
  have hsent : (s.asyncRequest frameType payload).pending ≠ [] ∧
      ∀ operation ∈ (s.asyncRequest frameType payload).operations,
        operation.isRead = false := by
    have hemplaced : emplace s.pending s.nextCorrelationId s.requests ≠ [] := by
      rw [emplace]
      split_ifs with hmem
      · rintro hnil
        rw [hnil] at hmem
        cases hmem
      · simp
    have hopen : s.socketOpen = true := by
      rw [accepts, Bool.and_eq_true] at haccepts
      exact haccepts.1
    rw [asyncRequest]
    dsimp only
    rw [if_neg (by simp [hopen])]
    split_ifs with hrefused
    · exact absurd haccepts (by simpa [accepts] using hrefused)
    · refine ⟨?_, isRead_startWrite hreads⟩
      rw [pending_startWrite]
      exact hemplaced
    · exact ⟨hemplaced, hreads⟩
  obtain ⟨events, t, hrun, hpending, hended⟩ := exists_ended _ (s.asyncRequest frameType payload)
    le_rfl hsent.2
  refine ⟨events, t, hrun, fun h ↦ ?_⟩
  obtain ⟨operation, hmem, -⟩ := h.outstanding (by rw [hpending]; exact hsent.1)
  rw [hended] at hmem
  cases hmem

end AsyncClient

end BoltStream.Client
