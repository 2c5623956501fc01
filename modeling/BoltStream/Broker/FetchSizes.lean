import BoltStream.Broker.Deliverable

/-!
# Counting the bytes of a fetch response

`fetch` predicts the size of its response from a formula and stops packing when
the next record would not fit.  The prediction is the length of what
`encode_fetch_response` writes, so the check that follows never fails.
-/

namespace BoltStream.Broker

open BoltStream.Lib BoltStream.Protocol BoltStream.Compression BoltStream.Storage PartitionLog

/-- The record loop of `fetch`, with the `payload_bytes` it ends with. -/
def packCounted (maxPayloadBytes : ℕ) :
    List FetchRecord → ℕ → List Record → Except BrokerError (List FetchRecord × ℕ)
  | packed, payloadBytes, [] => .ok (packed, payloadBytes)
  | packed, payloadBytes, record :: rest =>
      let recordPayloadBytes := fetchRecordPayloadBytes record
      if payloadBytes + recordPayloadBytes > maxPayloadBytes then
        if packed = [] then
          .error (.request .invalidLength
            "single fetch record exceeds configured maximum response size")
        else .ok (packed, payloadBytes)
      else
        packCounted maxPayloadBytes (packed ++ [fetchRecord record])
          (payloadBytes + recordPayloadBytes) rest

theorem packCounted_fst (maxPayloadBytes : ℕ) (records : List Record) :
    ∀ packed payloadBytes,
      (packCounted maxPayloadBytes packed payloadBytes records).map Prod.fst =
        packRecords maxPayloadBytes packed payloadBytes records := by
  induction records with
  | nil =>
      intro packed payloadBytes
      rfl
  | cons record records ih =>
      intro packed payloadBytes
      simp only [packCounted, packRecords]
      split_ifs with hfull hempty
      · rfl
      · rfl
      · exact ih _ _

/-- The records that the loop leaves behind do not begin with one that would fit. -/
def Maximal (maxPayloadBytes payloadBytes : ℕ) (behind : List FetchRecord) : Prop :=
  ∀ next ∈ behind.head?, maxPayloadBytes < payloadBytes + responseRecordBytes next

/-- One run of the loop counts what it packs, within the maximum, and stops where
the next record would pass it. -/
theorem packCounted_ok {maxPayloadBytes : ℕ} (records : List Record) :
    ∀ {packed out : List FetchRecord} {payloadBytes counted : ℕ},
      payloadBytes ≤ maxPayloadBytes →
      packCounted maxPayloadBytes packed payloadBytes records = .ok (out, counted) →
      ∃ added behind, out = packed ++ added ∧ records.map fetchRecord = added ++ behind ∧
        counted = payloadBytes + (added.map responseRecordBytes).sum ∧
        counted ≤ maxPayloadBytes ∧ Maximal maxPayloadBytes counted behind := by
  induction records with
  | nil =>
      intro packed out payloadBytes counted hle h
      obtain ⟨rfl, rfl⟩ := Prod.mk.inj (Except.ok.inj h)
      refine ⟨[], [], (List.append_nil _).symm, rfl, rfl, hle, ?_⟩
      intro next hnext
      cases hnext
  | cons record records ih =>
      intro packed out payloadBytes counted hle h
      simp only [packCounted] at h
      have hsize := fetchRecordPayloadBytes_eq record
      split_ifs at h with hfull hempty
      · obtain ⟨rfl, rfl⟩ := Prod.mk.inj (Except.ok.inj h)
        refine ⟨[], (record :: records).map fetchRecord, (List.append_nil _).symm, rfl, rfl, hle,
          ?_⟩
        intro next hnext
        obtain rfl := Option.some.inj hnext
        omega
      · obtain ⟨added, behind, rfl, hrecords, hcounted, hfits, hmaximal⟩ := ih (by omega) h
        refine ⟨fetchRecord record :: added, behind, by rw [List.append_assoc]; rfl,
          by rw [List.map_cons, hrecords]; rfl, ?_, hfits, hmaximal⟩
        rw [hcounted, List.map_cons, List.sum_cons]
        omega

theorem maxFetchPayloadBytes_eq (limits : FetchLimits) :
    limits.maxFetchPayloadBytes =
      min limits.maxFetchBytes.toNat (limits.maxFrameBytes.toNat - kFrameHeaderBytes) := by
  rw [FetchLimits.maxFetchPayloadBytes]
  split_ifs with hsmall
  · omega
  · rfl

/-- The bytes a fetch counts are those of its response, which is within both
limits and holds as many of the records read as they allow. -/
theorem fetch_counts_exactly (Z : Zstd) (limits : FetchLimits) (offsets : OffsetStore)
    (log : PartitionLog) (request : FetchRequest) (response : FetchResponse)
    (h : fetch Z limits offsets log request = .ok response) :
    let maximum := min limits.maxFetchBytes.toNat (limits.maxFrameBytes.toNat - kFrameHeaderBytes)
    ∃ records payloadBytes,
      log.readFrom Z response.fromOffset limits.maxFetchRecords.toNat limits.maxFetchBytes.toNat =
        .ok records ∧
      packCounted maximum [] (fetchPayloadBaseBytes request.topic) records =
        .ok (response.records, payloadBytes) ∧
      payloadBytes = (encodeFetchResponse response).length ∧ payloadBytes ≤ maximum ∧
      (∃ behind, records.map fetchRecord = response.records ++ behind ∧
        ∀ next ∈ behind.head?, maximum <
          (encodeFetchResponse { response with records := response.records ++ [next] }).length) ∧
      writeFetchResponse limits response = .ok (encodeFetchResponse response) := by
  intro maximum
  have hmaximum : limits.maxFetchPayloadBytes = maximum := maxFetchPayloadBytes_eq limits
  rw [fetch, hmaximum] at h
  obtain ⟨position, hposition, h⟩ := bind_eq_ok h
  split_ifs at h with hbase
  obtain ⟨records, hread, h⟩ := bind_eq_ok h
  obtain ⟨packed, hpacked, hresponse⟩ := map_eq_ok h
  rw [← packCounted_fst] at hpacked
  obtain ⟨⟨added, payloadBytes⟩, hcounted, rfl⟩ := map_eq_ok hpacked
  obtain ⟨_, behind, rfl, hrecords, hsum, hfits, hmaximal⟩ :=
    packCounted_ok records (Nat.not_lt.mp hbase) hcounted
  subst hresponse
  have hlength := length_encodeFetchResponse
    { topic := request.topic
      partition := request.partition
      fromOffset := position
      nextOffset := responseNextOffset position added
      records := added }
  rw [← hsum] at hlength
  refine ⟨records, payloadBytes, ?_, hcounted, hlength.symm, hfits, ⟨behind, hrecords, ?_⟩, ?_⟩
  · cases hlog : log.readFrom Z position limits.maxFetchRecords.toNat
        limits.maxFetchBytes.toNat with
    | error message =>
        rw [hlog] at hread
        cases hread
    | ok found =>
        rw [hlog] at hread
        exact congrArg Except.ok (Except.ok.inj hread)
  · intro next hnext
    rw [length_encodeFetchResponse]
    dsimp only
    rw [List.map_append, List.sum_append, List.map_singleton, List.sum_singleton]
    have hpast := hmaximal next hnext
    omega
  · rw [writeFetchResponse]
    dsimp only
    rw [if_neg]
    rw [hlength]
    omega

/-- A log of two records of twenty bytes. -/
def twoRecords : PartitionLog :=
  ((emptyLog smallSegments).appendBatch stillClock none
    [⟨[], List.replicate 20 118⟩, ⟨[], List.replicate 20 119⟩]).1

/-- Frames of a hundred and ten bytes have room for one of the two records. -/
theorem fetch_counts_first :
    ∃ response records payloadBytes,
      packCounted 78 [] (fetchPayloadBaseBytes [116]) records =
        .ok (response.records, payloadBytes) ∧
      records.length = 2 ∧ response.records.length = 1 ∧
      payloadBytes = (encodeFetchResponse response).length ∧ payloadBytes ≤ 78 := by
  have hfetched : ((fetch noZstd ⟨110, 10, 1000⟩ {} twoRecords firstRequest).toOption.map
      fun response ↦ (response.records.length, (twoRecords.readFrom noZstd response.fromOffset 10
        1000).toOption.map List.length)) = some (1, some 2) := by decide +kernel
  cases hresponse : fetch noZstd ⟨110, 10, 1000⟩ {} twoRecords firstRequest with
  | error error =>
      rw [hresponse] at hfetched
      cases hfetched
  | ok response =>
      obtain ⟨records, payloadBytes, hread, hpacked, hlength, hfits, -⟩ :=
        fetch_counts_exactly noZstd ⟨110, 10, 1000⟩ {} twoRecords firstRequest response hresponse
      rw [hresponse] at hfetched
      obtain ⟨hone, htwo⟩ := Prod.mk.inj (Option.some.inj hfetched)
      change (twoRecords.readFrom noZstd response.fromOffset 10 1000) = .ok records at hread
      rw [hread] at htwo
      exact ⟨response, records, payloadBytes, hpacked, Option.some.inj htwo, hone, hlength, hfits⟩

end BoltStream.Broker
