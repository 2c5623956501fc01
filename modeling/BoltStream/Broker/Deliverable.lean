import BoltStream.Broker.Accepting
import BoltStream.Broker.FetchWalk

/-!
# Delivering what was accepted

The maximum frame size bounds a produce request and a fetch response alike, but
the response has more fields around the record.  A record is delivered exactly
when a response with it alone fits a frame.
-/

namespace BoltStream.Broker

open BoltStream.Lib BoltStream.Protocol BoltStream.Compression BoltStream.Storage PartitionLog

/-! ## Sizes of responses -/

/-- The bytes of a record in a response. -/
def responseRecordBytes (record : FetchRecord) : ℕ :=
  28 + record.key.length + record.message.length

theorem fetchRecordPayloadBytes_eq (record : Record) :
    fetchRecordPayloadBytes record = responseRecordBytes (fetchRecord record) := by
  simp only [fetchRecordPayloadBytes, responseRecordBytes, fetchRecord]
  omega

theorem length_encodeFetchResponse (response : FetchResponse) :
    (encodeFetchResponse response).length =
      fetchPayloadBaseBytes response.topic + (response.records.map responseRecordBytes).sum := by
  have hencode : ∀ record : FetchRecord, record.encode.length = responseRecordBytes record := by
    intro record
    simp only [FetchRecord.encode, responseRecordBytes, List.length_append, length_writeU64,
      length_writeBytes, length_writeU32]
    omega
  simp only [encodeFetchResponse, fetchResponseHead, fetchPayloadBaseBytes, List.length_append,
    length_writeBytes, length_writeU16, length_writeU64, length_writeU32, List.length_flatMap,
    hencode]

example : (encodeFetchResponse ⟨[116], 0, 0, 1, [⟨0, 7, [], [118], 45⟩]⟩).length = 27 + 29 := by
  decide +kernel

/-- What the loop packs stays within the maximum. -/
theorem packRecords_size {maxPayloadBytes : ℕ} (base : ℕ) (records : List Record) :
    ∀ {packed out : List FetchRecord} {payloadBytes : ℕ},
      payloadBytes = base + (packed.map responseRecordBytes).sum →
      payloadBytes ≤ maxPayloadBytes →
      packRecords maxPayloadBytes packed payloadBytes records = .ok out →
      base + (out.map responseRecordBytes).sum ≤ maxPayloadBytes := by
  induction records with
  | nil =>
      intro packed out payloadBytes hsize hle h
      obtain rfl := Except.ok.inj h
      omega
  | cons record records ih =>
      intro packed out payloadBytes hsize hle h
      simp only [packRecords] at h
      split_ifs at h with hfull hempty
      · obtain rfl := Except.ok.inj h
        omega
      · refine ih ?_ (by omega) h
        rw [hsize, fetchRecordPayloadBytes_eq, List.map_append, List.sum_append, List.map_singleton,
          List.sum_singleton]
        omega

/-- The first record decides whether the loop fails. -/
theorem packRecords_cons (maxPayloadBytes payloadBytes : ℕ) (record : Record)
    (records : List Record) :
    if payloadBytes + fetchRecordPayloadBytes record ≤ maxPayloadBytes then
      ∃ rest, packRecords maxPayloadBytes [] payloadBytes (record :: records) =
        .ok (fetchRecord record :: rest)
    else ∃ message, packRecords maxPayloadBytes [] payloadBytes (record :: records) =
      .error (.request .invalidLength message) := by
  simp only [packRecords]
  split_ifs with hfits hfull hfull
  · omega
  · rcases packRecords_cases maxPayloadBytes records ([] ++ [fetchRecord record])
      (payloadBytes + fetchRecordPayloadBytes record) with ⟨hnil, -⟩ | ⟨taken, hpacked, -⟩
    · simp at hnil
    · exact ⟨_, hpacked⟩
  · exact ⟨_, rfl⟩
  · omega

/-! ## Fetching one record -/

section Record

variable {Z : Zstd} {log : PartitionLog} {layout : Layout} {limits : FetchLimits}
  {request : FetchRequest}

/-- From a record's offset on, the record itself comes first. -/
theorem filter_from_record (hrep : log.Represents Z layout) {r : StoredRecord}
    (hr : r ∈ layout.records) :
    ∃ rest, (layout.records.filter fun other ↦ r.offset ≤ other.offset) = r :: rest := by
  obtain ⟨before, after, hsplit⟩ := List.append_of_mem hr
  have hsorted := hrep.placed.records_sorted
  rw [hsplit, List.pairwise_append] at hsorted
  have hbefore : (before.filter fun other ↦ r.offset ≤ other.offset) = [] := by
    rw [List.filter_eq_nil_iff]
    intro other hother
    have hlt := hsorted.2.2 other hother r List.mem_cons_self
    simp only [decide_eq_true_eq]
    omega
  refine ⟨after.filter fun other ↦ r.offset ≤ other.offset, ?_⟩
  rw [hsplit, List.filter_append, hbefore, List.nil_append,
    List.filter_cons_of_pos (by simp)]

/-- A fetch returns retained records only, in a response that fits a frame. -/
theorem fetch_ok (hrep : log.Represents Z layout)
    (hdecodable : ∀ e ∈ layout.entries, e.Decodable log.options.maxUncompressedBatchBytes)
    (hrecords : 0 < limits.maxFetchRecords.toNat) {offsets : OffsetStore}
    {response : FetchResponse} (h : fetch Z limits offsets log request = .ok response) :
    (∀ record ∈ response.records, received record ∈ layout.records) ∧
      (encodeFetchResponse response).length ≤ limits.maxFetchPayloadBytes := by
  refine ⟨fun record hrecord ↦ ?_, ?_⟩
  · obtain ⟨-, -, taken, htaken⟩ := fetch_take hrep hdecodable hrecords h
    have hmem := List.mem_map_of_mem (f := received) hrecord
    rw [htaken] at hmem
    exact (List.mem_filter.mp (List.mem_of_mem_take hmem)).1
  · obtain ⟨position, -, h⟩ := bind_eq_ok h
    split_ifs at h with hbase
    obtain ⟨records, -, h⟩ := bind_eq_ok h
    obtain ⟨packed, hpacked, rfl⟩ := map_eq_ok h
    rw [length_encodeFetchResponse]
    exact packRecords_size (fetchPayloadBaseBytes request.topic) records (by simp) (by omega)
      hpacked

/-- A fetch at a record's offset returns it, if a response with it alone fits. -/
theorem fetch_record (hrep : log.Represents Z layout)
    (hdecodable : ∀ e ∈ layout.entries, e.Decodable log.options.maxUncompressedBatchBytes)
    (hrecords : 0 < limits.maxFetchRecords.toNat) (offsets : OffsetStore) {r : StoredRecord}
    (hr : r ∈ layout.records) (hfrom : request.from = decimal r.offset) :
    if 54 + request.topic.length + r.key.length + r.value.length ≤ limits.maxFetchPayloadBytes then
      ∃ response, fetch Z limits offsets log request = .ok response ∧
        ∃ record ∈ response.records, received record = r
    else ∃ message, fetch Z limits offsets log request =
      .error (.request .invalidLength message) := by
  obtain ⟨e, he, hre⟩ := List.mem_flatMap.mp hr
  have hlt : r.offset < log.nextOffset :=
    (Layout.mem_entry_records hre).2.trans_le (hrep.placed.stop_le e he)
  rw [fetch, resolveFetchOffset_decimal request hfrom offsets (earliestOffset_le hrep hr) hlt.le
    hrep.bound, ok_bind]
  obtain ⟨records, taken, hread, hstored, htaken⟩ :=
    hrep.readFrom_take hdecodable r.offset hrecords limits.maxFetchBytes.toNat
  obtain ⟨rest, hfilter⟩ := filter_from_record hrep hr
  rw [hfilter, ← Nat.succ_pred_eq_of_pos htaken, List.take_succ_cons,
    List.map_eq_cons_iff] at hstored
  obtain ⟨first, others, rfl, rfl, -⟩ := hstored
  have hbytes : fetchPayloadBaseBytes request.topic + fetchRecordPayloadBytes first =
      54 + request.topic.length + first.stored.key.length + first.stored.value.length := by
    simp only [fetchPayloadBaseBytes, fetchRecordPayloadBytes, Record.stored]
    omega
  have hpack := packRecords_cons limits.maxFetchPayloadBytes
    (fetchPayloadBaseBytes request.topic) first
    others
  rw [hbytes] at hpack
  split_ifs at hpack ⊢ with hfits hbase hbase
  · omega
  · obtain ⟨packed, hpacked⟩ := hpack
    rw [hread, storageCall, Except.mapError, ok_bind, hpacked, ok_map]
    exact ⟨_, rfl, _, List.mem_cons_self, rfl⟩
  · exact ⟨_, rfl⟩
  · obtain ⟨message, herror⟩ := hpack
    rw [hread, storageCall, Except.mapError, ok_bind, herror, error_map]
    exact ⟨message, rfl⟩

end Record

/-! ## Delivery -/

/-- A plain fetch succeeds, its response is sent, and the record is in it. -/
def Delivers (Z : Zstd) (limits : FetchLimits) (offsets : OffsetStore) (log : PartitionLog)
    (request : FetchRequest) (r : StoredRecord) : Prop :=
  ∃ response payload, fetch Z limits offsets log request = .ok response ∧
    writeFetchResponse limits response = .ok payload ∧
    ∃ record ∈ response.records, received record = r

/-- A fetch at the offset of an accepted record delivers it exactly when retention
has not removed it and a response with it alone fits the maximum frame. -/
theorem accepted_delivered_iff (Z : Zstd) (config : ServerConfig) (topic : Bytes) (partition : ℕ)
    (log₀ : PartitionLog) (hopened : openLog Z (config.logOptions topic partition) {} = .ok log₀)
    (ops : List LogOp) (hops : ∀ op ∈ ops, AcceptedOp Z config topic partition op)
    (state : LogState) (hrun : run (LogState.step Z) ⟨log₀, []⟩ ops = some state)
    (hbound : state.acked.length < 2 ^ 64)
    (hfetchBytes : config.limits.maxFrameBytes ≤ config.limits.maxFetchBytes)
    (offsets : OffsetStore) (request : FetchRequest) (htopic : request.topic = topic)
    (r : StoredRecord) (hacked : r ∈ state.acked) (hfrom : request.from = decimal r.offset) :
    Delivers Z config.limits offsets state.log request r ↔
      r ∈ state.retained ∧
        86 + topic.length + r.key.length + r.value.length ≤ config.limits.maxFrameBytes.toNat := by
  obtain ⟨layout, htracks, hdecodable⟩ := LogState.run_tracksDecodable hopened
    (fun op hop ↦ (hops op hop).sized.1) (fun op hop ↦ (hops op hop).sized.2) hrun hbound
  have hrep := htracks.represents
  rw [← htracks.options] at hdecodable
  have hrecords : 0 < config.limits.maxFetchRecords.toNat := by
    rw [Nat.pos_iff_ne_zero]
    exact fun h ↦ config.maxFetchRecords_ne (UInt32.toNat_inj.mp h)
  have hfetchBytes : config.limits.maxFrameBytes.toNat ≤ config.limits.maxFetchBytes.toNat :=
    hfetchBytes
  have hmax : config.limits.maxFetchPayloadBytes =
      config.limits.maxFrameBytes.toNat - kFrameHeaderBytes := by
    rw [FetchLimits.maxFetchPayloadBytes]
    split_ifs with hsmall
    · omega
    · exact min_eq_right (by omega)
  have hheader : kFrameHeaderBytes = 32 := rfl
  rw [htracks.retained_eq]
  constructor
  · rintro ⟨response, payload, hfetch, -, record, hrecord, rfl⟩
    have hmem := (fetch_ok hrep hdecodable hrecords hfetch).1 record hrecord
    refine ⟨hmem, ?_⟩
    have hone := fetch_record hrep hdecodable hrecords offsets hmem hfrom
    rw [htopic] at hone
    split_ifs at hone with hfits
    · omega
    · obtain ⟨message, herror⟩ := hone
      rw [herror] at hfetch
      cases hfetch
  · rintro ⟨hmem, hsize⟩
    have hone := fetch_record hrep hdecodable hrecords offsets hmem hfrom
    rw [htopic, if_pos (by omega)] at hone
    obtain ⟨response, hfetch, hrecord⟩ := hone
    have hsent := (fetch_ok hrep hdecodable hrecords hfetch).2
    refine ⟨response, encodeFetchResponse response, hfetch, ?_, hrecord⟩
    rw [writeFetchResponse, if_neg (by omega)]

/-- A broker whose frames have at most `maxFrameBytes` bytes. -/
def smallFrames (maxFrameBytes : UInt32) (h : maxFrameBytes ≠ 0) : ServerConfig where
  limits := ⟨maxFrameBytes, 100, 1048576⟩
  maxProduceBatchRecords := 1024
  maxUncompressedBatchBytes := 1048576
  segmentBytes := 268435456
  segmentMaxAgeSeconds := 3600
  maxFrameBytes_ne := h
  maxFetchRecords_ne := show (100 : UInt32) ≠ 0 by decide
  maxFetchBytes_ne := ServerConfig.defaultFrameBytes_ne
  maxProduceBatchRecords_ne := ServerConfig.defaultBatchRecords_ne
  maxProduceBatchRecords_le := ServerConfig.defaultBatchRecords_le
  maxUncompressedBatchBytes_ne := ServerConfig.defaultFrameBytes_ne
  segmentBytes_ne := ServerConfig.defaultSegmentBytes_ne

/-- The header of a produce request for the topic `t` with an empty key. -/
def produceHeader (value : Bytes) : Bytes :=
  (encodeFrame 5 .produceRequest 1 (encodeProduceRequest [116] [] value) 0).take 32

/-- The record of a produce request for the topic `t` is accepted. -/
theorem acceptedRecord_of_decide {config : ServerConfig} {value : Bytes}
    (h : config.Receives .produceRequest (produceHeader value)
      (encodeProduceRequest [116] [] value) ∧
      acceptProduce (encodeProduceRequest [116] [] value) = .ok ⟨[116], [], value⟩) :
    AcceptedRecord config [116] ⟨[], value⟩ :=
  ⟨_, _, _, h.1, h.2, rfl, rfl⟩

/-- A request for the first record of the topic `t`. -/
def firstRequest : FetchRequest := ⟨[116], 0, decimal 0, [], 0⟩

theorem accepted_delivered_small :
    ∃ state r, run (LogState.step noZstd)
        ⟨emptyLog ((smallFrames 1048576 (by decide)).logOptions [116] 0), []⟩
        [.append stillClock [] [118]] = some state ∧ state.acked = [r] ∧
      Delivers noZstd (smallFrames 1048576 (by decide)).limits {} state.log firstRequest r := by
  have hchecks : (run (LogState.step noZstd)
      ⟨emptyLog ((smallFrames 1048576 (by decide)).logOptions [116] 0), []⟩
      [.append stillClock [] [118]]).map (fun state ↦ (state.acked, state.retained)) =
        some ([⟨0, 7, [], [118]⟩], [⟨0, 7, [], [118]⟩]) := by decide
  obtain ⟨state, hrun, hstate⟩ := Option.map_eq_some_iff.mp hchecks
  obtain ⟨hacked, hretained⟩ := Prod.mk.inj hstate
  refine ⟨state, ⟨0, 7, [], [118]⟩, hrun, hacked, ?_⟩
  rw [accepted_delivered_iff noZstd (smallFrames 1048576 (by decide)) [116] 0 _
    (openLog_empty ⟨by decide, by decide⟩ noZstd) [.append stillClock [] [118]] ?_ state hrun
    (by rw [hacked]; decide) (by decide) {} firstRequest rfl _ (by rw [hacked]; simp) rfl]
  · exact ⟨by rw [hretained]; simp, by decide⟩
  · intro op hop
    rw [List.mem_singleton.mp hop]
    exact acceptedRecord_of_decide (by decide +kernel)

/-- A record of twenty bytes is accepted in frames of a hundred bytes, and no
fetch returns it. -/
theorem accepted_not_delivered :
    AcceptedOp noZstd (smallFrames 100 (by decide)) [116] 0
      (.append stillClock [] (List.replicate 20 118)) ∧
    (smallFrames 100 (by decide)).limits.maxFrameBytes ≤
      (smallFrames 100 (by decide)).limits.maxFetchBytes ∧
    ∃ state r, run (LogState.step noZstd)
        ⟨emptyLog ((smallFrames 100 (by decide)).logOptions [116] 0), []⟩
        [.append stillClock [] (List.replicate 20 118)] = some state ∧ state.acked = [r] ∧
      state.retained = [r] ∧
      ¬ Delivers noZstd (smallFrames 100 (by decide)).limits {} state.log firstRequest r := by
  have hchecks : (run (LogState.step noZstd)
      ⟨emptyLog ((smallFrames 100 (by decide)).logOptions [116] 0), []⟩
      [.append stillClock [] (List.replicate 20 118)]).map (fun state ↦
        (state.acked, state.retained, (fetch noZstd (smallFrames 100 (by decide)).limits {}
          state.log firstRequest).toBool)) =
        some ([⟨0, 7, [], List.replicate 20 118⟩], [⟨0, 7, [], List.replicate 20 118⟩], false) := by
    decide +kernel
  obtain ⟨state, hrun, hstate⟩ := Option.map_eq_some_iff.mp hchecks
  obtain ⟨hacked, hstate⟩ := Prod.mk.inj hstate
  obtain ⟨hretained, hfails⟩ := Prod.mk.inj hstate
  refine ⟨acceptedRecord_of_decide (by decide +kernel), by decide, state, _, hrun, hacked,
    hretained, ?_⟩
  rintro ⟨response, payload, hfetch, -⟩
  rw [hfetch] at hfails
  cases hfails

end BoltStream.Broker
