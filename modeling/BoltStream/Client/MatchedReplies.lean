import BoltStream.Client.Connection

/-!
# Replies and their requests

Over one connection every reply reaches the handler of its own request.  The client
reads the replies in the order in which it has sent the requests, finds each under its
correlation id, and passes over those whose handlers were told of an error before.
-/

namespace BoltStream.Client

open BoltStream.Broker BoltStream.Lib BoltStream.Protocol

def RequestResult.isResponse : RequestResult → Bool
  | response _ _ => true
  | _ => false

namespace AsyncClient

/-- The handlers that were called with a response. -/
def answers (client : AsyncClient) : List (ℕ × RequestResult) :=
  client.calls.filter fun call ↦ call.2.isResponse

/-- Requests and replies in the order in which they were sent. -/
def exchanged (carried : List (ℕ × ℕ)) (replies : List SentFrame) : List (ℕ × RequestResult) :=
  List.zipWith (fun entry reply ↦ (entry.1, .response reply.header reply.payload)) carried replies

/-- No handler was told of a failed operation or of a frame that is none. -/
def Untroubled (client : AsyncClient) : Prop :=
  ∀ call ∈ client.calls, call.2 ≠ .operationError ∧ call.2 ≠ .protocolError

/-- Correlation ids count the requests that were sent. -/
structure Numbered (client : AsyncClient) (sent : List SentFrame) : Prop where
  ids : sent.map SentFrame.correlationId = (List.range sent.length).map fun k ↦ (k + 1) % 2 ^ 64
  next : client.nextCorrelationId = (sent.length + 1) % 2 ^ 64
  carried : client.carried.map Prod.snd = sent.map SentFrame.correlationId

/-- The client is at the start of the reply that it has not read, or behind its header. -/
structure Placed (client : AsyncClient) (replies : List SentFrame) (position delivered : ℕ) :
    Prop where
  le : delivered ≤ replies.length
  small : ∀ f ∈ replies, f.payload.length < 2 ^ 32
  reads : (client.operations.filter ClientOperation.isRead).length ≤ 1
  header : .header ∈ client.operations →
    position = startOf (replies.map SentFrame.encode) delivered
  payload : ∀ header, .payload header ∈ client.operations →
    (∃ f, replies[delivered]? = some f ∧ header = f.header) ∧
      position = startOf (replies.map SentFrame.encode) delivered + kFrameHeaderBytes

/-- Of the first requests some were answered, and of the others some wait: all of them,
unless an error was reported. -/
structure Matched (client : AsyncClient) (replies : List SentFrame) (delivered : ℕ) : Prop where
  pending : client.pending.Sublist ((client.carried.drop delivered).map Prod.swap)
  answers : client.answers.Sublist ((exchanged client.carried replies).take delivered)
  complete : client.Untroubled →
    client.pending = (client.carried.drop delivered).map Prod.swap ∧
      client.answers = (exchanged client.carried replies).take delivered

variable {s t : AsyncClient} {sent replies : List SentFrame} {position delivered : ℕ}

/-! ## Correlation ids -/

theorem Numbered.congr (h : s.Numbered sent) (hnext : t.nextCorrelationId = s.nextCorrelationId)
    (hcarried : t.carried = s.carried) : t.Numbered sent :=
  ⟨h.ids, hnext.trans h.next, (congrArg (List.map Prod.snd) hcarried).trans h.carried⟩

theorem Numbered.length_carried (h : s.Numbered sent) : s.carried.length = sent.length := by
  have hlength := congrArg List.length h.carried
  rwa [List.length_map, List.length_map] at hlength

/-- While they have not come round, correlation ids are distinct. -/
theorem Numbered.nodup (h : s.Numbered sent) (hfew : sent.length ≤ 2 ^ 64) :
    (s.carried.map Prod.snd).Nodup := by
  rw [h.carried, h.ids]
  apply List.Nodup.map_on
  · intro i hi j hj hij
    rw [List.mem_range] at hi hj
    omega
  · exact List.nodup_range

theorem Numbered.fresh (h : s.Numbered sent) (hfew : sent.length < 2 ^ 64) :
    s.nextCorrelationId ∉ s.carried.map Prod.snd := by
  rw [h.carried, h.ids, h.next]
  intro hmem
  obtain ⟨k, hk, hid⟩ := List.mem_map.mp hmem
  rw [List.mem_range] at hk
  omega

theorem Numbered.lt (h : s.Numbered sent) {f : SentFrame} (hf : f ∈ sent) :
    f.correlationId < 2 ^ 64 := by
  have hid : f.correlationId ∈ sent.map SentFrame.correlationId := List.mem_map_of_mem hf
  rw [h.ids] at hid
  obtain ⟨k, -, hk⟩ := List.mem_map.mp hid
  rw [← hk]
  exact Nat.mod_lt _ (by norm_num)

theorem Numbered.send (h : s.Numbered sent) {f : SentFrame}
    (hf : f.correlationId = s.nextCorrelationId)
    (hnext : t.nextCorrelationId = (s.nextCorrelationId + 1) % 2 ^ 64) {handler : ℕ}
    (hcarried : t.carried = s.carried ++ [(handler, s.nextCorrelationId)]) :
    t.Numbered (sent ++ [f]) := by
  constructor
  · rw [List.map_append, h.ids, List.length_append, List.length_singleton, List.range_succ,
      List.map_append, List.map_singleton, List.map_singleton, hf, h.next]
  · rw [hnext, h.next, List.length_append, List.length_singleton, Nat.mod_add_mod]
  · rw [hcarried, List.map_append, h.carried, List.map_append, List.map_singleton,
      List.map_singleton, hf]

/-! ## Positions -/

theorem reads_erase (operations : List ClientOperation) (operation : ClientOperation) :
    ((operations.erase operation).filter ClientOperation.isRead).length ≤
      (operations.filter ClientOperation.isRead).length :=
  (List.erase_sublist.filter _).length_le

/-- Operations other than reads come and go. -/
theorem Placed.congr (h : s.Placed replies position delivered)
    (hlength : (t.operations.filter ClientOperation.isRead).length ≤
      (s.operations.filter ClientOperation.isRead).length)
    (hreads : ∀ operation ∈ t.operations, operation.isRead = true → operation ∈ s.operations) :
    t.Placed replies position delivered :=
  ⟨h.le, h.small, hlength.trans h.reads, fun hmem ↦ h.header (hreads _ hmem rfl),
    fun header hmem ↦ h.payload header (hreads _ hmem rfl)⟩

theorem Placed.erase (h : s.Placed replies position delivered) {operation : ClientOperation}
    (hoperations : t.operations = s.operations.erase operation) :
    t.Placed replies position delivered := by
  apply h.congr
  · rw [hoperations]
    exact reads_erase _ _
  · rw [hoperations]
    exact fun _ hmem _ ↦ List.mem_of_mem_erase hmem

theorem Placed.startWrite (h : s.Placed replies position delivered) :
    s.startWrite.Placed replies position delivered := by
  rw [AsyncClient.startWrite]
  split_ifs
  · exact h
  · apply h.congr
    · rw [AsyncClient.start, List.filter_append, List.length_append]
      exact le_rfl
    · intro operation hmem hread
      rcases List.mem_append.mp hmem with hmem | hmem
      · exact hmem
      · rw [List.mem_singleton.mp hmem] at hread
        cases hread

theorem Placed.asyncRequest (h : s.Placed replies position delivered) (frameType : FrameType)
    (payload : Bytes) : (s.asyncRequest frameType payload).Placed replies position delivered := by
  rw [AsyncClient.asyncRequest]
  dsimp only
  split_ifs
  · exact ⟨h.le, h.small, h.reads, h.header, h.payload⟩
  · exact ⟨h.le, h.small, h.reads, h.header, h.payload⟩
  · apply Placed.startWrite
    exact ⟨h.le, h.small, h.reads, h.header, h.payload⟩
  · exact ⟨h.le, h.small, h.reads, h.header, h.payload⟩

/-- Once its read is taken, the client has none left. -/
theorem Placed.no_reads (h : s.Placed replies position delivered) {operation : ClientOperation}
    (hmem : operation ∈ s.operations) (hread : operation.isRead = true) :
    ∀ other ∈ s.operations.erase operation, other.isRead = false := by
  have hone : s.operations.filter ClientOperation.isRead = [operation] := by
    obtain ⟨other, hother⟩ := List.length_eq_one_iff.mp (le_antisymm h.reads
      (List.length_pos_iff_exists_mem.mpr ⟨operation, List.mem_filter.mpr ⟨hmem, hread⟩⟩))
    have hin : operation ∈ [other] := hother ▸ List.mem_filter.mpr ⟨hmem, hread⟩
    rw [hother, List.mem_singleton.mp hin]
  intro other hother
  by_contra htrue
  have hin : other ∈ (s.operations.filter ClientOperation.isRead).erase operation := by
    rw [List.erase_filter]
    exact List.mem_filter.mpr ⟨hother, by simpa using htrue⟩
  rw [hone, List.erase_cons_head] at hin
  cases hin

/-- A client that has just started to read a header. -/
theorem placed_header (hle : delivered ≤ replies.length)
    (hsmall : ∀ f ∈ replies, f.payload.length < 2 ^ 32)
    (hnone : ∀ other ∈ s.operations, other.isRead = false)
    (hposition : position = startOf (replies.map SentFrame.encode) delivered) :
    (s.start .header).Placed replies position delivered := by
  have hreads : s.operations.filter ClientOperation.isRead = [] :=
    List.filter_eq_nil_iff.mpr fun other hother ↦ by simp [hnone other hother]
  refine ⟨hle, hsmall, ?_, fun _ ↦ hposition, fun header hmem ↦ ?_⟩
  · rw [AsyncClient.start, List.filter_append, hreads]
    exact le_rfl
  · rcases List.mem_append.mp hmem with hmem | hmem
    · cases hnone _ hmem
    · cases List.mem_singleton.mp hmem

theorem placed_payload {f : SentFrame} (hf : replies[delivered]? = some f)
    (hsmall : ∀ f ∈ replies, f.payload.length < 2 ^ 32)
    (hnone : ∀ other ∈ s.operations, other.isRead = false)
    (hposition : position =
      startOf (replies.map SentFrame.encode) delivered + kFrameHeaderBytes) :
    (s.start (.payload f.header)).Placed replies position delivered := by
  have hreads : s.operations.filter ClientOperation.isRead = [] :=
    List.filter_eq_nil_iff.mpr fun other hother ↦ by simp [hnone other hother]
  obtain ⟨hlt, -⟩ := List.getElem?_eq_some_iff.mp hf
  refine ⟨hlt.le, hsmall, ?_, fun hmem ↦ ?_, fun header hmem ↦ ⟨⟨f, hf, ?_⟩, hposition⟩⟩
  · rw [AsyncClient.start, List.filter_append, hreads]
    exact le_rfl
  · rcases List.mem_append.mp hmem with hmem | hmem
    · cases hnone _ hmem
    · cases List.mem_singleton.mp hmem
  · rcases List.mem_append.mp hmem with hmem | hmem
    · cases hnone _ hmem
    · exact ClientOperation.payload.inj (List.mem_singleton.mp hmem)

/-- A client that reads no more. -/
theorem placed_of_no_reads (hle : delivered ≤ replies.length)
    (hsmall : ∀ f ∈ replies, f.payload.length < 2 ^ 32)
    (hnone : ∀ other ∈ s.operations, other.isRead = false) :
    s.Placed replies position delivered := by
  refine ⟨hle, hsmall, ?_, fun hmem ↦ ?_, fun header hmem ↦ ?_⟩
  · rw [List.filter_eq_nil_iff.mpr fun other hother ↦ by simp [hnone other hother]]
    exact Nat.zero_le 1
  · cases hnone _ hmem
  · cases hnone _ hmem

theorem Placed.reply (h : s.Placed replies position delivered) {more : List SentFrame}
    (hsmall : ∀ f ∈ more, f.payload.length < 2 ^ 32) :
    s.Placed (replies ++ more) position delivered := by
  have hstart : startOf ((replies ++ more).map SentFrame.encode) delivered =
      startOf (replies.map SentFrame.encode) delivered := by
    rw [List.map_append]
    apply startOf_append
    rw [List.length_map]
    exact h.le
  refine ⟨?_, fun f hf ↦ (List.mem_append.mp hf).elim (h.small f) (hsmall f), h.reads, ?_,
    fun header hmem ↦ ?_⟩
  · rw [List.length_append]
    exact h.le.trans (Nat.le_add_right _ _)
  · rw [hstart]
    exact h.header
  · obtain ⟨⟨f, hf, hheader⟩, hposition⟩ := h.payload header hmem
    obtain ⟨hlt, -⟩ := List.getElem?_eq_some_iff.mp hf
    rw [hstart]
    exact ⟨⟨f, by rw [List.getElem?_append_left hlt, hf], hheader⟩, hposition⟩

/-! ## Calls -/

theorem take_exchanged (carried : List (ℕ × ℕ)) (replies : List SentFrame) (delivered : ℕ) :
    (exchanged carried replies).take delivered =
      exchanged (carried.take delivered) (replies.take delivered) := List.take_zipWith

theorem exchanged_append {carried : List (ℕ × ℕ)} (hcarried : delivered ≤ carried.length)
    (hreplies : delivered ≤ replies.length) (entries : List (ℕ × ℕ)) (more : List SentFrame) :
    (exchanged (carried ++ entries) (replies ++ more)).take delivered =
      (exchanged carried replies).take delivered := by
  rw [take_exchanged, take_exchanged, List.take_append_of_le_length hcarried,
    List.take_append_of_le_length hreplies]

theorem Untroubled.of_append {calls : List (ℕ × RequestResult)} (h : t.Untroubled)
    (hcalls : t.calls = s.calls ++ calls) : s.Untroubled := fun call hmem ↦
  h call (hcalls ▸ List.mem_append_left _ hmem)

theorem answers_of_append {calls : List (ℕ × RequestResult)} (hcalls : t.calls = s.calls ++ calls)
    (hnone : ∀ call ∈ calls, call.2.isResponse = false) : t.answers = s.answers := by
  have hfiltered : calls.filter (fun call ↦ call.2.isResponse) = [] :=
    List.filter_eq_nil_iff.mpr fun call hcall ↦ by simp [hnone call hcall]
  rw [AsyncClient.answers, hcalls, List.filter_append, hfiltered, List.append_nil]
  rfl

/-- Calls that give no response. -/
theorem Matched.congr (h : s.Matched replies delivered) (hpending : t.pending = s.pending)
    (hcarried : t.carried = s.carried) {calls : List (ℕ × RequestResult)}
    (hcalls : t.calls = s.calls ++ calls) (hnone : ∀ call ∈ calls, call.2.isResponse = false) :
    t.Matched replies delivered := by
  have hanswers := answers_of_append hcalls hnone
  constructor
  · rw [hpending, hcarried]
    exact h.pending
  · rw [hanswers, hcarried]
    exact h.answers
  · rw [hpending, hanswers, hcarried]
    exact fun huntroubled ↦ h.complete (huntroubled.of_append hcalls)

theorem Matched.failPending (h : s.Matched replies delivered) {result : RequestResult}
    (hresult : result = .operationError ∨ result = .protocolError) :
    (s.failPending result).Matched replies delivered := by
  have hnone : ∀ call ∈ s.pending.map fun entry ↦ (entry.2, result),
      call.2.isResponse = false := by
    intro call hcall
    obtain ⟨entry, -, rfl⟩ := List.mem_map.mp hcall
    rcases hresult with rfl | rfl <;> rfl
  have hanswers : (s.failPending result).answers = s.answers := answers_of_append rfl hnone
  refine ⟨List.nil_sublist _, hanswers ▸ h.answers, fun huntroubled ↦ ?_⟩
  -- Without an error reported nobody was waiting.
  have hempty : s.pending = [] := by
    refine List.eq_nil_iff_forall_not_mem.mpr fun entry hentry ↦ ?_
    have hcall := huntroubled (entry.2, result)
      (List.mem_append_right _ (List.mem_map_of_mem hentry))
    rcases hresult with rfl | rfl
    · exact hcall.1 rfl
    · exact hcall.2 rfl
  obtain ⟨hpending, hcomplete⟩ := h.complete (huntroubled.of_append rfl)
  exact ⟨hempty.symm.trans hpending, hanswers.trans hcomplete⟩

/-- A request that is sent waits behind the others. -/
theorem Matched.send (h : s.Matched replies delivered) (hnumbered : s.Numbered sent)
    (hfew : sent.length < 2 ^ 64) (hle : delivered ≤ s.carried.length)
    (hreplies : delivered ≤ replies.length) {handler : ℕ}
    (hpending : t.pending = emplace s.pending s.nextCorrelationId handler)
    (hcarried : t.carried = s.carried ++ [(handler, s.nextCorrelationId)])
    (hcalls : t.calls = s.calls) : t.Matched replies delivered := by
  have hfresh : s.nextCorrelationId ∉ s.pending.map Prod.fst := by
    intro hmem
    obtain ⟨entry, hentry, hid⟩ := List.mem_map.mp hmem
    obtain ⟨source, hsource, rfl⟩ := List.mem_map.mp (h.pending.subset hentry)
    exact hnumbered.fresh hfew (List.mem_map.mpr ⟨source, List.mem_of_mem_drop hsource, hid⟩)
  rw [emplace, if_neg hfresh] at hpending
  have hdrop : (t.carried.drop delivered).map Prod.swap =
      (s.carried.drop delivered).map Prod.swap ++ [(s.nextCorrelationId, handler)] := by
    rw [hcarried, List.drop_append_of_le_length hle, List.map_append]
    rfl
  have hexchanged : (exchanged t.carried replies).take delivered =
      (exchanged s.carried replies).take delivered := by
    have happend := exchanged_append hle hreplies [(handler, s.nextCorrelationId)] []
    rwa [← hcarried, List.append_nil] at happend
  have hanswers : t.answers = s.answers := by
    rw [AsyncClient.answers, hcalls, AsyncClient.answers]
  constructor
  · rw [hpending, hdrop]
    exact h.pending.append (List.Sublist.refl _)
  · rw [hanswers, hexchanged]
    exact h.answers
  · intro huntroubled
    obtain ⟨hwaiting, hcomplete⟩ := h.complete fun call hmem ↦ huntroubled call (hcalls ▸ hmem)
    rw [hpending, hdrop, hanswers, hexchanged, hwaiting]
    exact ⟨rfl, hcomplete⟩

theorem Matched.startWrite (h : s.Matched replies delivered) :
    s.startWrite.Matched replies delivered := by
  rw [AsyncClient.startWrite]
  split_ifs
  · exact h
  · exact ⟨h.pending, h.answers, h.complete⟩

theorem Matched.asyncRequest (h : s.Matched replies delivered) (hnumbered : s.Numbered sent)
    (hfew : sent.length < 2 ^ 64) (hle : delivered ≤ s.carried.length)
    (hreplies : delivered ≤ replies.length) (frameType : FrameType) (payload : Bytes) :
    (s.asyncRequest frameType payload).Matched replies delivered := by
  rw [AsyncClient.asyncRequest]
  dsimp only
  split_ifs
  · exact h.congr rfl rfl rfl fun call hcall ↦ by rw [List.mem_singleton.mp hcall]; rfl
  · exact h.congr rfl rfl rfl fun call hcall ↦ by rw [List.mem_singleton.mp hcall]; rfl
  · apply Matched.startWrite
    exact h.send hnumbered hfew hle hreplies rfl rfl rfl
  · exact h.send hnumbered hfew hle hreplies rfl rfl rfl

/-- The reply to the first request that is left. -/
theorem Matched.dispatchResponse (h : s.Matched replies delivered)
    (hnodup : (s.carried.map Prod.snd).Nodup) {f : SentFrame}
    (hf : replies[delivered]? = some f) {entry : ℕ × ℕ}
    (hentry : s.carried[delivered]? = some entry) (hid : f.header.correlationId = entry.2) :
    (s.dispatchResponse f.header f.payload).Matched replies (delivered + 1) := by
  obtain ⟨hlt, hget⟩ := List.getElem?_eq_some_iff.mp hentry
  have hdrop : s.carried.drop delivered = entry :: s.carried.drop (delivered + 1) := by
    rw [List.drop_eq_getElem_cons hlt, hget]
  have htake : (exchanged s.carried replies).take (delivered + 1) =
      (exchanged s.carried replies).take delivered ++
        [(entry.1, .response f.header f.payload)] := by
    have hnext : (exchanged s.carried replies)[delivered]? =
        some (entry.1, .response f.header f.payload) := by
      rw [exchanged, List.getElem?_zipWith, hentry, hf]
    rw [List.take_add_one, hnext]
    rfl
  have hothers : ∀ other ∈ (s.carried.drop (delivered + 1)).map Prod.swap,
      other.1 ≠ f.header.correlationId := by
    intro other hother heq
    obtain ⟨source, hsource, rfl⟩ := List.mem_map.mp hother
    have hrest : ((s.carried.drop delivered).map Prod.snd).Nodup :=
      hnodup.sublist ((List.drop_sublist _ _).map _)
    rw [hdrop, List.map_cons, List.nodup_cons] at hrest
    rw [hid] at heq
    exact hrest.1 (heq ▸ List.mem_map_of_mem hsource)
  have hpending := h.pending
  rw [hdrop, List.map_cons] at hpending
  rcases List.sublist_cons_iff.mp hpending with hlost | ⟨rest, hwaits, hrest⟩
  · -- The handler was told of an error before.
    have hnone : (s.pending.find? fun entry ↦ entry.1 = f.header.correlationId) = none :=
      List.find?_eq_none.mpr fun other hother ↦ by simp [hothers other (hlost.subset hother)]
    rw [AsyncClient.dispatchResponse, hnone]
    refine ⟨hlost, ?_, fun huntroubled ↦ ?_⟩
    · rw [htake]
      exact h.answers.trans (List.sublist_append_left _ _)
    · have hall := (h.complete huntroubled).1
      rw [hdrop, List.map_cons] at hall
      have hlength := hlost.length_le
      rw [hall, List.length_cons] at hlength
      exact absurd hlength (Nat.not_succ_le_self _)
  · have hfound : (s.pending.find? fun entry ↦ entry.1 = f.header.correlationId) =
        some entry.swap := by
      rw [hwaits, List.find?_cons_of_pos (by simp [hid])]
    rw [AsyncClient.dispatchResponse, hfound]
    dsimp only
    have herase : s.pending.erase entry.swap = rest := by rw [hwaits, List.erase_cons_head]
    have hanswers : (s.calls ++ [(entry.swap.2, RequestResult.response f.header f.payload)]).filter
        (fun call ↦ call.2.isResponse) =
          s.answers ++ [(entry.1, RequestResult.response f.header f.payload)] := by
      rw [List.filter_append]
      rfl
    refine ⟨herase ▸ hrest, ?_, fun huntroubled ↦ ?_⟩
    · rw [AsyncClient.answers, hanswers, htake]
      exact h.answers.append (List.Sublist.refl _)
    · obtain ⟨hall, hcomplete⟩ := h.complete (huntroubled.of_append rfl)
      rw [hdrop, List.map_cons, hwaits] at hall
      rw [AsyncClient.answers, hanswers, htake, hcomplete]
      exact ⟨herase.trans (List.cons.inj hall).2, rfl⟩

theorem Matched.reply (h : s.Matched replies delivered) (hle : delivered ≤ s.carried.length)
    (hreplies : delivered ≤ replies.length) (more : List SentFrame) :
    s.Matched (replies ++ more) delivered := by
  have hexchanged := exchanged_append hle hreplies [] more
  rw [List.append_nil] at hexchanged
  refine ⟨h.pending, ?_, fun huntroubled ↦ ?_⟩
  · rw [hexchanged]
    exact h.answers
  · rw [hexchanged]
    exact h.complete huntroubled

theorem Matched.start (h : s.Matched replies delivered) (operation : ClientOperation) :
    (s.start operation).Matched replies delivered := ⟨h.pending, h.answers, h.complete⟩

theorem Matched.closeSocket (h : s.Matched replies delivered) :
    s.closeSocket.Matched replies delivered := ⟨h.pending, h.answers, h.complete⟩

/-! ## Steps -/

theorem take_eq_some {operation : ClientOperation} (h : s.take operation = some t) :
    operation ∈ s.operations ∧ t = { s with operations := s.operations.erase operation } := by
  rw [AsyncClient.take] at h
  split_ifs at h with hmem
  exact ⟨hmem, (Option.some.inj h).symm⟩

theorem startWrite_keeps (s : AsyncClient) :
    s.startWrite.maxFrameBytes = s.maxFrameBytes ∧
      s.startWrite.nextCorrelationId = s.nextCorrelationId ∧ s.startWrite.pending = s.pending ∧
      s.startWrite.carried = s.carried ∧ s.startWrite.calls = s.calls := by
  rw [AsyncClient.startWrite]
  split_ifs <;> exact ⟨rfl, rfl, rfl, rfl, rfl⟩

theorem dispatchResponse_keeps (s : AsyncClient) (header : FrameHeader) (payload : Bytes) :
    (s.dispatchResponse header payload).maxFrameBytes = s.maxFrameBytes ∧
      (s.dispatchResponse header payload).nextCorrelationId = s.nextCorrelationId ∧
      (s.dispatchResponse header payload).carried = s.carried ∧
      (s.dispatchResponse header payload).operations = s.operations := by
  rw [AsyncClient.dispatchResponse]
  split <;> exact ⟨rfl, rfl, rfl, rfl⟩

theorem asyncRequest_refused {payload : Bytes} (h : s.accepts payload = false)
    (frameType : FrameType) :
    (s.asyncRequest frameType payload).maxFrameBytes = s.maxFrameBytes ∧
      (s.asyncRequest frameType payload).nextCorrelationId = s.nextCorrelationId ∧
      (s.asyncRequest frameType payload).carried = s.carried := by
  rw [AsyncClient.asyncRequest]
  dsimp only
  split_ifs with hclosed hrefused
  · exact ⟨rfl, rfl, rfl⟩
  · exact ⟨rfl, rfl, rfl⟩
  · exact absurd h hrefused
  · exact absurd h hrefused

/-- A request that is accepted takes the next correlation id. -/
theorem asyncRequest_accepted {payload : Bytes} (h : s.accepts payload = true)
    (frameType : FrameType) :
    (s.asyncRequest frameType payload).maxFrameBytes = s.maxFrameBytes ∧
      (s.asyncRequest frameType payload).nextCorrelationId =
        (s.nextCorrelationId + 1) % 2 ^ 64 ∧
      (s.asyncRequest frameType payload).carried =
        s.carried ++ [(s.requests, s.nextCorrelationId)] := by
  have hopen : s.socketOpen ≠ false := by
    rw [accepts, Bool.and_eq_true] at h
    simp [h.1]
  rw [AsyncClient.asyncRequest]
  dsimp only
  split_ifs with hclosed hrefused
  · exact absurd hclosed hopen
  · rw [show s.accepts payload = false from hrefused] at h
    cases h
  · obtain ⟨hmax, hnext, -, hcarried, -⟩ := startWrite_keeps
      { s with
          requests := s.requests + 1
          nextCorrelationId := (s.nextCorrelationId + 1) % 2 ^ 64
          pending := emplace s.pending s.nextCorrelationId s.requests
          carried := s.carried ++ [(s.requests, s.nextCorrelationId)]
          writeQueue := s.writeQueue ++
            [encodeFrame s.protocolVersion frameType s.nextCorrelationId payload 0] }
    exact ⟨hmax, hnext, hcarried⟩
  · exact ⟨rfl, rfl, rfl⟩

theorem length_of_accepts {payload : Bytes} (h : s.accepts payload = true) :
    payload.length ≤ s.maxFrameBytes := by
  rw [accepts, Bool.and_eq_true, decide_eq_true_iff] at h
  omega

end AsyncClient

namespace Connection

open AsyncClient

/-- Both ends agree on the frames that went over the connection. -/
structure EndsAgree (s : Connection) (delivered : ℕ) : Prop where
  limit : s.client.maxFrameBytes < 2 ^ 32
  few : s.sent.length ≤ 2 ^ 64
  broker : BrokerInStep s
  numbered : s.client.Numbered s.sent
  placed : s.client.Placed s.replies s.clientPosition delivered
  matched : s.client.Matched s.replies delivered

/-- Correlation ids have not come round, and the payload of a reply fits the length
field of its header. -/
def Fits (s : Connection) (event : ConnectionEvent) : Prop :=
  s.sent.length < 2 ^ 64 ∧ event.replyPayload.length < 2 ^ 32

instance (s : Connection) (event : ConnectionEvent) : Decidable (s.Fits event) :=
  inferInstanceAs (Decidable (_ ∧ _))

variable {maxFrameBytes : ℕ} {s t : Connection} {delivered : ℕ}

theorem endsAgree_established {maxFrameBytes' : ℕ} (hmax : maxFrameBytes' < 2 ^ 32)
    (protocolVersion : ℕ) (authRequired : Bool) :
    (established maxFrameBytes' protocolVersion authRequired).EndsAgree 0 := by
  refine ⟨hmax, Nat.zero_le _, BrokerInStep.established _ _ _, ⟨rfl, rfl, rfl⟩, ?_, ?_⟩
  · exact @placed_header { AsyncClient.initial maxFrameBytes' protocolVersion with
      socketOpen := true } [] 0 0 le_rfl (fun f hf ↦ absurd hf List.not_mem_nil)
        (fun other hother ↦ absurd hother List.not_mem_nil) rfl
  · exact ⟨List.Sublist.refl _, List.Sublist.refl _, fun _ ↦ ⟨rfl, rfl⟩⟩

theorem EndsAgree.length_replies (h : s.EndsAgree delivered) :
    s.replies.length ≤ s.sent.length := by
  obtain ⟨live, hordered⟩ := h.broker.ordered
  have hlength := congrArg List.length h.broker.replies
  rw [List.length_map, List.length_map] at hlength
  rw [hlength]
  exact hordered.outstanding.1.trans h.broker.length_le

theorem EndsAgree.delivered_le (h : s.EndsAgree delivered) :
    delivered ≤ s.client.carried.length := by
  rw [h.numbered.length_carried]
  exact h.placed.le.trans h.length_replies

/-- A step of the client that sends nothing. -/
theorem EndsAgree.clientStep (h : s.EndsAgree delivered) {client : AsyncClient} {position : ℕ}
    {delivered' : ℕ} (hmax : client.maxFrameBytes = s.client.maxFrameBytes)
    (hnext : client.nextCorrelationId = s.client.nextCorrelationId)
    (hcarried : client.carried = s.client.carried)
    (hplaced : client.Placed s.replies position delivered')
    (hmatched : client.Matched s.replies delivered') :
    EndsAgree { s with client := client, sent := s.sent ++ [], clientPosition := position }
      delivered' := by
  rw [List.append_nil]
  refine ⟨hmax.trans_lt h.limit, h.few, ?_, h.numbered.congr hnext hcarried, hplaced, hmatched⟩
  exact h.broker.send (fun f hf ↦ absurd hf List.not_mem_nil) (List.append_nil _).symm rfl rfl
    rfl rfl

theorem EndsAgree.request (h : s.EndsAgree delivered) (hfew : s.sent.length < 2 ^ 64)
    (frameType : FrameType) (payload : Bytes) :
    EndsAgree { s with
      client := s.client.asyncRequest frameType payload
      sent := s.sent ++ queued s.client (.request frameType payload) } delivered := by
  have hplaced := h.placed.asyncRequest frameType payload
  have hmatched := h.matched.asyncRequest h.numbered hfew h.delivered_le h.placed.le frameType
    payload
  cases haccepts : s.client.accepts payload with
  | false =>
      obtain ⟨hmax, hnext, hcarried⟩ := asyncRequest_refused haccepts frameType
      rw [queued, if_neg (by simp [haccepts])]
      exact h.clientStep hmax hnext hcarried hplaced hmatched
  | true =>
      obtain ⟨hmax, hnext, hcarried⟩ := asyncRequest_accepted haccepts frameType
      rw [queued, if_pos haccepts]
      refine ⟨hmax.trans_lt h.limit, ?_, ?_, h.numbered.send rfl hnext hcarried, hplaced,
        hmatched⟩
      · rw [List.length_append]
        exact hfew
      refine h.broker.send (fun f hf ↦ ?_) rfl rfl rfl rfl rfl
      rw [List.mem_singleton.mp hf]
      exact (length_of_accepts haccepts).trans_lt h.limit

theorem EndsAgree.taken (h : s.EndsAgree delivered) (operation : ClientOperation) :
    { s.client with operations := s.client.operations.erase operation }.Matched s.replies
      delivered := ⟨h.matched.pending, h.matched.answers, h.matched.complete⟩

theorem next_header {position : ℕ} {bytes : Bytes}
    (hposition : position = startOf s.replyFrames delivered)
    (hread : nextSymbols s.replyStream position kFrameHeaderBytes = some bytes) :
    ∃ f, s.replies[delivered]? = some f ∧ bytes = f.encode.take kFrameHeaderBytes := by
  rw [replyStream, ← List.take_length (l := s.replyFrames)] at hread
  exact takes_header hposition hread

/-- The client takes the payload of a reply. -/
theorem EndsAgree.response (h : s.EndsAgree delivered) (hfew : s.sent.length < 2 ^ 64)
    {header : FrameHeader} {payload : Bytes} (hmem : .payload header ∈ s.client.operations)
    (hread : nextSymbols s.replyStream s.clientPosition header.payloadBytes = some payload)
    (hnone : ∀ other ∈ s.client.operations.erase (.payload header), other.isRead = false) :
    EndsAgree { s with
      client := ({ s.client with
        operations := s.client.operations.erase (.payload header) }.dispatchResponse header
          payload).start .header
      sent := s.sent ++ []
      clientPosition := s.clientPosition + header.payloadBytes } (delivered + 1) := by
  obtain ⟨⟨f, hf, rfl⟩, hposition⟩ := h.placed.payload header hmem
  rw [replyStream, ← List.take_length (l := s.replyFrames)] at hread
  obtain ⟨rfl, hnext⟩ := takes_payload hf (h.placed.small f (List.mem_of_getElem? hf)) hposition
    hread
  obtain ⟨request, hrequest, hid⟩ := h.broker.reply hf
  obtain ⟨entry, hentry, hcarried⟩ := Option.map_eq_some_iff.mp (List.getElem?_map.symm.trans
    ((congrArg (fun ids ↦ ids[delivered]?) h.numbered.carried).trans
      (List.getElem?_map.trans (congrArg (Option.map _) hrequest))))
  have hsame : f.header.correlationId = entry.2 := by
    have hlt := h.numbered.lt (List.mem_of_getElem? hrequest)
    rw [hcarried, SentFrame.header, hid, Nat.mod_mod, Nat.mod_eq_of_lt hlt]
  obtain ⟨hmax, hnextId, hsent, hoperations⟩ := dispatchResponse_keeps
    { s.client with operations := s.client.operations.erase (.payload f.header) } f.header f.payload
  obtain ⟨hlt, -⟩ := List.getElem?_eq_some_iff.mp hf
  refine h.clientStep hmax hnextId hsent ?_ ?_
  · apply placed_header hlt h.placed.small
    · rw [hoperations]
      exact hnone
    · exact hnext
  · apply Matched.start
    exact (h.taken _).dispatchResponse (h.numbered.nodup hfew.le) hf hentry hsame

theorem EndsAgree.client (h : s.EndsAgree delivered) (hfew : s.sent.length < 2 ^ 64)
    {event : ClientEvent} (hstep : s.clientStep event = some t) :
    ∃ delivered, t.EndsAgree delivered := by
  obtain ⟨u, hreads, hstep⟩ := Option.bind_eq_some_iff.mp hstep
  obtain ⟨client, hclient, rfl⟩ := Option.map_eq_some_iff.mp hstep
  cases event with
  | connect => cases hreads
  | resolved ok => cases hreads
  | connected ok => cases hreads
  | request frameType payload =>
      obtain rfl := Option.some.inj hreads
      obtain rfl := Option.some.inj hclient
      exact ⟨delivered, h.request hfew frameType payload⟩
  | close =>
      obtain rfl := Option.some.inj hreads
      obtain rfl := Option.some.inj hclient
      exact ⟨delivered, h.clientStep rfl rfl rfl (h.placed.congr le_rfl fun _ hmem _ ↦ hmem)
        (h.matched.congr rfl rfl (List.append_nil _).symm fun _ hcall ↦
          absurd hcall List.not_mem_nil)⟩
  | written ok =>
      obtain rfl := Option.some.inj hreads
      obtain ⟨v, htake, rfl⟩ := Option.map_eq_some_iff.mp hclient
      obtain ⟨-, rfl⟩ := AsyncClient.take_eq_some htake
      have hmatched := h.taken .write
      cases ok with
      | true =>
          obtain ⟨hmax, hnext, -, hcarried, -⟩ := startWrite_keeps
            { s.client with
                operations := s.client.operations.erase .write
                writeQueue := s.client.writeQueue.tail }
          refine ⟨delivered, h.clientStep hmax hnext hcarried ?_ ?_⟩
          · apply Placed.startWrite
            exact h.placed.erase rfl
          · apply Matched.startWrite
            exact ⟨hmatched.pending, hmatched.answers, hmatched.complete⟩
      | false =>
          refine ⟨delivered, h.clientStep rfl rfl rfl (h.placed.erase rfl) ?_⟩
          exact (hmatched.failPending (Or.inl rfl)).closeSocket
  | headerRead bytes =>
      obtain ⟨v, htake, rfl⟩ := Option.map_eq_some_iff.mp hclient
      obtain ⟨hmem, rfl⟩ := AsyncClient.take_eq_some htake
      have hmatched := h.taken .header
      have hnone := h.placed.no_reads hmem rfl
      cases bytes with
      | none =>
          obtain rfl := Option.some.inj hreads
          exact ⟨delivered, h.clientStep rfl rfl rfl
            (placed_of_no_reads h.placed.le h.placed.small hnone)
            (hmatched.failPending (Or.inl rfl))⟩
      | some bytes =>
          simp only [clientReads] at hreads
          split_ifs at hreads with hread
          obtain rfl := Option.some.inj hreads
          obtain ⟨f, hf, hbytes⟩ := next_header (h.placed.header hmem) hread
          rw [AsyncClient.onHeader, hbytes]
          dsimp only
          split_ifs
          · exact ⟨delivered, h.clientStep rfl rfl rfl
              (placed_of_no_reads h.placed.le h.placed.small hnone)
              (hmatched.failPending (Or.inr rfl)).closeSocket⟩
          · rw [f.decodeHeader_encode]
            refine ⟨delivered, h.clientStep rfl rfl rfl
              (placed_payload hf h.placed.small hnone ?_) (hmatched.start _)⟩
            rw [h.placed.header hmem]
  | payloadRead header payload =>
      obtain ⟨v, htake, rfl⟩ := Option.map_eq_some_iff.mp hclient
      obtain ⟨hmem, rfl⟩ := AsyncClient.take_eq_some htake
      have hmatched := h.taken (.payload header)
      have hnone := h.placed.no_reads hmem rfl
      cases payload with
      | none =>
          obtain rfl := Option.some.inj hreads
          exact ⟨delivered, h.clientStep rfl rfl rfl
            (placed_of_no_reads h.placed.le h.placed.small hnone)
            (hmatched.failPending (Or.inl rfl))⟩
      | some payload =>
          simp only [clientReads] at hreads
          split_ifs at hreads with hread
          obtain rfl := Option.some.inj hreads
          exact ⟨delivered + 1, h.response hfew hmem hread hnone⟩

theorem brokerReads_keeps {event : Session.Event} (h : s.brokerReads event = some t) :
    t.client = s.client ∧ t.sent = s.sent ∧ t.clientPosition = s.clientPosition := by
  unfold brokerReads at h
  split at h
  · split_ifs at h
    exact Option.some.inj h ▸ ⟨rfl, rfl, rfl⟩
  · obtain ⟨bytes, -, rfl⟩ := Option.map_eq_some_iff.mp h
    exact ⟨rfl, rfl, rfl⟩
  · exact Option.some.inj h ▸ ⟨rfl, rfl, rfl⟩

theorem EndsAgree.brokerStep (h : s.EndsAgree delivered) {event : Session.Event} {payload : Bytes}
    (hsmall : payload.length < 2 ^ 32)
    (hstep : s.brokerStep maxFrameBytes event payload = some t) : t.EndsAgree delivered := by
  have hbroker := h.broker.brokerStep hstep
  obtain ⟨u, hreads, hstep⟩ := Option.bind_eq_some_iff.mp hstep
  obtain ⟨session, -, rfl⟩ := Option.map_eq_some_iff.mp hstep
  obtain ⟨hclient, hsent, hposition⟩ := brokerReads_keeps hreads
  have hwritten : ∀ f ∈ written s.session session payload, f.payload.length < 2 ^ 32 := by
    intro f hf
    obtain ⟨response, -, rfl⟩ := List.mem_map.mp hf
    exact hsmall
  refine ⟨?_, ?_, hbroker, ?_, ?_, ?_⟩
  · dsimp only
    rw [hclient]
    exact h.limit
  · dsimp only
    rw [hsent]
    exact h.few
  · dsimp only
    rw [hclient, hsent]
    exact h.numbered
  · dsimp only
    rw [hclient, hposition]
    exact h.placed.reply hwritten
  · dsimp only
    rw [hclient]
    exact h.matched.reply h.delivered_le h.placed.le _

/-- The client's part of a step is a step of the client. -/
theorem routed_step {event : ConnectionEvent} (h : s.client.Routed)
    (hstep : s.step maxFrameBytes event = some t) : t.client.Routed := by
  cases event with
  | client event =>
      obtain ⟨u, -, hstep⟩ := Option.bind_eq_some_iff.mp hstep
      obtain ⟨client, hclient, rfl⟩ := Option.map_eq_some_iff.mp hstep
      exact h.step hclient
  | broker event payload =>
      obtain ⟨u, hreads, hstep⟩ := Option.bind_eq_some_iff.mp hstep
      obtain ⟨session, -, rfl⟩ := Option.map_eq_some_iff.mp hstep
      dsimp only
      rw [(brokerReads_keeps hreads).1]
      exact h

theorem run_endsAgree {s : Connection} (hinit : s.EndsAgree 0) (hrouted : s.client.Routed)
    {events : List ConnectionEvent} (hfits : Along (step maxFrameBytes) Fits s events)
    (hrun : run (step maxFrameBytes) s events = some t) :
    (∃ delivered, t.EndsAgree delivered) ∧ t.client.Routed := by
  refine run_invariant Fits (fun s ↦ (∃ delivered, s.EndsAgree delivered) ∧ s.client.Routed) ?_
    hfits hrun ⟨⟨0, hinit⟩, hrouted⟩
  rintro s event t hok hstep ⟨⟨delivered, h⟩, hrouted⟩
  refine ⟨?_, routed_step hrouted hstep⟩
  cases event with
  | client event => exact h.client hok.1 hstep
  | broker event payload => exact ⟨delivered, h.brokerStep hok.2 hstep⟩

/-! ## What is said over a connection -/

/-- What the two ends can rely on. -/
structure Exchanges (s : Connection) : Prop where
  /-- Every request that was sent has a handler and a correlation id of its own. -/
  distinct : s.client.carried.map Prod.snd = s.sent.map SentFrame.correlationId ∧
    (s.sent.map SentFrame.correlationId).Nodup ∧ (s.client.carried.map Prod.fst).Nodup
  /-- The session handles the frames that were sent, from the first one on, with every
  byte of them. -/
  handled : s.received <+: s.sent.map SentFrame.frame
  /-- The reply with number `k` is the reply to request number `k`. -/
  replied : s.replies.map SentFrame.correlationId <+: s.sent.map SentFrame.correlationId
  /-- In the order of the requests handlers are called with their own replies. -/
  answered : s.client.answers.Sublist (exchanged s.client.carried s.replies)
  /-- Unless the client reports an error, no reply is passed over, and the handlers that
  were not called are those that wait. -/
  complete : s.client.Untroubled →
    s.client.answers <+: exchanged s.client.carried s.replies ∧
      s.client.pending.map Prod.snd =
        (s.client.carried.drop s.client.answers.length).map Prod.fst

theorem EndsAgree.replied (h : s.EndsAgree delivered) :
    s.replies.map SentFrame.correlationId <+: s.sent.map SentFrame.correlationId := by
  rw [List.prefix_iff_getElem?]
  intro k hk
  rw [List.length_map] at hk
  obtain ⟨request, hrequest, hid⟩ := h.broker.reply (List.getElem?_eq_getElem hk)
  have hlt := h.numbered.lt (List.mem_of_getElem? hrequest)
  rw [List.getElem?_map, hrequest, Option.map_some, List.getElem_map, hid, Nat.mod_eq_of_lt hlt]

theorem EndsAgree.complete (h : s.EndsAgree delivered) (huntroubled : s.client.Untroubled) :
    s.client.answers <+: exchanged s.client.carried s.replies ∧
      s.client.pending.map Prod.snd =
        (s.client.carried.drop s.client.answers.length).map Prod.fst := by
  obtain ⟨hpending, hanswers⟩ := h.matched.complete huntroubled
  have hlength : s.client.answers.length = delivered := by
    rw [hanswers, List.length_take, exchanged, List.length_zipWith]
    exact Nat.min_eq_left (Nat.le_min.mpr ⟨h.delivered_le, h.placed.le⟩)
  refine ⟨hanswers ▸ List.take_prefix _ _, ?_⟩
  rw [hlength, hpending, List.map_map]
  rfl

/-- Over a connection every reply reaches the handler of its own request, whatever the
order in which the two ends read, write, wait, fail and close. -/
theorem run_exchanges (maxFrameBytes : ℕ) {maxFrameBytes' : ℕ} (hmax : maxFrameBytes' < 2 ^ 32)
    (protocolVersion : ℕ) (authRequired : Bool) {events : List ConnectionEvent}
    (hfits : Along (step maxFrameBytes) Fits
      (established maxFrameBytes' protocolVersion authRequired) events)
    (hrun : run (step maxFrameBytes) (established maxFrameBytes' protocolVersion authRequired)
      events = some t) : t.Exchanges := by
  have hrouted : (established maxFrameBytes' protocolVersion authRequired).client.Routed :=
    (routed_initial maxFrameBytes' protocolVersion).congr rfl rfl rfl rfl
  obtain ⟨⟨delivered, h⟩, hrouted⟩ :=
    run_endsAgree (endsAgree_established hmax protocolVersion authRequired) hrouted hfits hrun
  refine ⟨⟨h.numbered.carried, ?_, hrouted.carriedOnce⟩, h.broker.received, h.replied,
    h.matched.answers.trans (List.take_sublist _ _), h.complete⟩
  rw [← h.numbered.carried]
  exact h.numbered.nodup h.few

def fetchSent : SentFrame := ⟨5, .fetchRequest, 1, [7]⟩

def healthSent : SentFrame := ⟨5, .healthRequest, 2, []⟩

def fetchReply : SentFrame := ⟨5, .fetchResponse, 1, [9]⟩

def healthReply : SentFrame := ⟨5, .healthResponse, 2, [0]⟩

/-- The health request waits behind a long poll, and its reply is read while the client
still believes to be writing. -/
def requestBehindPoll : List ConnectionEvent :=
  [.client (.request .fetchRequest [7]), .client (.request .healthRequest []),
    .broker (.headerRead (some (fetchSent.encode.take kFrameHeaderBytes))) [],
    .client (.written true),
    .broker (.payloadRead fetchSent.header (some (Session.waitingFetch 1))) [],
    .broker (.timerExpired ⟨0, 1, 1⟩) [], .broker (.timerHandlerRun ⟨0, 1, 1⟩ false .ok) [9],
    .client (.headerRead (some (fetchReply.encode.take kFrameHeaderBytes))),
    .broker (.writeCompleted false false) [],
    .broker (.headerRead (some (healthSent.encode.take kFrameHeaderBytes))) [],
    .client (.payloadRead fetchReply.header (some [9])),
    .broker (.payloadRead healthSent.header (some (Session.waitingFetch 2))) [0],
    .client (.headerRead (some (healthReply.encode.take kFrameHeaderBytes))),
    .client (.payloadRead healthReply.header (some [0])), .client (.written true)]

theorem run_exchanges_requestBehindPoll :
    ∃ s, run (step 1024) (established 1024 5 false) requestBehindPoll = some s ∧
      s.client.calls = [(0, .response fetchReply.header [9]),
        (1, .response healthReply.header [0])] ∧ s.Exchanges := by
  have hends : (run (step 1024) (established 1024 5 false) requestBehindPoll).map
      (fun s ↦ s.client.calls) = some [(0, .response fetchReply.header [9]),
        (1, .response healthReply.header [0])] := by
    decide +kernel
  obtain ⟨s, hrun, hcalls⟩ := Option.map_eq_some_iff.mp hends
  exact ⟨s, hrun, hcalls, run_exchanges 1024 (by decide) 5 false (by decide +kernel) hrun⟩

end Connection

end BoltStream.Client
