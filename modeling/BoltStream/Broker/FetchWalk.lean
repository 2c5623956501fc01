import BoltStream.Broker.Fetch
import BoltStream.Storage.PagedReading

/-!
# Walking a partition by fetch

A client starts at the earliest offset and continues each time from the next
offset of the last response.  Every page is a stretch of the retained records,
whichever path answers it, so the walk returns each of them once and in order.
-/

namespace BoltStream.Broker

open BoltStream.Lib BoltStream.Protocol BoltStream.Compression BoltStream.Storage PartitionLog

/-- The record that a client has received. -/
def received (record : FetchRecord) : StoredRecord :=
  ⟨record.offset, record.timestampUnixNs, record.key, record.message⟩

/-- Why a page is missing: the broker's error, or a payload that the client
cannot decode. -/
inductive FetchFailure where
  | broker (error : BrokerError)
  | client (error : DecodeError)
  deriving DecidableEq, Repr

/-- The response in the client's hands.  A forwarded batch is opened under the
client's limit. -/
def openAnswer (Z : Zstd) (limit : ℕ) : FetchAnswer → Except FetchFailure FetchResponse
  | .plain response => .ok response
  | .compressed payload => (decodeFetchResponseWithin Z limit payload).mapError .client

/-- A request for the records from an offset on. -/
def offsetRequest (log : PartitionLog) (position : ℕ) : FetchRequest :=
  { topic := log.options.topic
    partition := log.options.partitionId
    «from» := decimal position
    group := []
    maxWaitMs := 0 }

/-- One step of the walk.  `negotiated` says which of the steps are made on a
session with zstd. -/
def fetchPage (Z : Zstd) (limits : FetchLimits) (limit : ℕ) (offsets : OffsetStore)
    (log : PartitionLog) (negotiated : ℕ → Bool) (position : ℕ) :
    Except FetchFailure (List FetchRecord × ℕ) :=
  ((answerFetch Z limits offsets log (negotiated position)
    (offsetRequest log position)).mapError .broker).bind fun answer ↦
      (openAnswer Z limit answer).map fun response ↦ (response.records, response.nextOffset)

/-! ## Resolving an offset -/

theorem decimal_ne_of_head {n : ℕ} {b : UInt8} {rest : Bytes} (h : isDigit b = false) :
    decimal n ≠ b :: rest := by
  intro heq
  have hmem : b ∈ decimal n := by
    rw [heq]
    exact List.mem_cons_self
  rw [isDigit_of_mem_decimal hmem] at h
  cases h

theorem resolveFetchOffset_decimal (request : FetchRequest) {earliest next position : ℕ}
    (hfrom : request.from = decimal position) (offsets : OffsetStore)
    (hearliest : earliest ≤ position) (hnext : position ≤ next) (hbound : next < 2 ^ 64) :
    resolveFetchOffset request offsets earliest next = .ok position := by
  have hbeginning : decimal position ≠ beginningSelector := decimal_ne_of_head (by decide)
  have hlatest : decimal position ≠ latestSelector := decimal_ne_of_head (by decide)
  have hcommitted : decimal position ≠ committedSelector := decimal_ne_of_head (by decide)
  rw [resolveFetchOffset, hfrom, if_neg hbeginning, if_neg hlatest, if_neg hcommitted,
    parseDecimal_decimal (by omega)]
  simp only [checkOffsetRange]
  rw [if_neg (by omega), if_neg (by omega)]

/-! ## The plain path -/

/-- The loop packs the first records, and at least one, or fails because the first
is too large. -/
theorem packRecords_cases (maxPayloadBytes : ℕ) (records : List Record) :
    ∀ packed payloadBytes,
      (packed = [] ∧ packRecords maxPayloadBytes packed payloadBytes records =
        .error (.request .invalidLength
          "single fetch record exceeds configured maximum response size")) ∨
      ∃ taken, packRecords maxPayloadBytes packed payloadBytes records =
          .ok (packed ++ (records.take taken).map fetchRecord) ∧
        (packed = [] → records ≠ [] → 0 < taken) := by
  induction records with
  | nil =>
      intro packed payloadBytes
      exact Or.inr ⟨0, by simp [packRecords], fun _ h ↦ absurd rfl h⟩
  | cons record records ih =>
      intro packed payloadBytes
      simp only [packRecords]
      split_ifs with hfull hempty
      · exact Or.inl ⟨hempty, rfl⟩
      · exact Or.inr ⟨0, by simp, fun h ↦ absurd h hempty⟩
      · rcases ih (packed ++ [fetchRecord record])
            (payloadBytes + fetchRecordPayloadBytes record) with ⟨hnil, -⟩ | ⟨taken, hpacked, -⟩
        · simp at hnil
        · refine Or.inr ⟨taken + 1, ?_, fun _ _ ↦ Nat.succ_pos taken⟩
          rw [hpacked, List.take_succ_cons, List.map_cons, List.append_assoc]
          rfl

section Page

variable {Z : Zstd} {log : PartitionLog} {layout : Layout}

/-- A plain fetch returns the first of the retained records from its start on. -/
theorem fetch_take (hrep : log.Represents Z layout)
    (hdecodable : ∀ e ∈ layout.entries, e.Decodable log.options.maxUncompressedBatchBytes)
    {limits : FetchLimits} (hrecords : 0 < limits.maxFetchRecords.toNat) {offsets : OffsetStore}
    {request : FetchRequest} {response : FetchResponse}
    (h : fetch Z limits offsets log request = .ok response) :
    resolveFetchOffset request offsets log.earliestOffset log.nextOffset =
        .ok response.fromOffset ∧
      response.partition = request.partition ∧
      ∃ taken, response.records.map received =
        (layout.records.filter fun r ↦ response.fromOffset ≤ r.offset).take taken := by
  rw [fetch] at h
  cases hresolved : resolveFetchOffset request offsets log.earliestOffset log.nextOffset with
  | error error =>
      rw [hresolved, error_bind] at h
      cases h
  | ok position =>
      rw [hresolved, ok_bind] at h
      split_ifs at h with hbase
      obtain ⟨records, taken, hread, hstored, -⟩ :=
        hrep.readFrom_take hdecodable position hrecords limits.maxFetchBytes.toNat
      rw [hread, storageCall, Except.mapError, ok_bind] at h
      rcases packRecords_cases limits.maxFetchPayloadBytes records []
          (fetchPayloadBaseBytes request.topic) with ⟨-, herror⟩ | ⟨packed, hpacked, -⟩
      · rw [herror, error_map] at h
        cases h
      · rw [hpacked, ok_map, List.nil_append] at h
        obtain rfl := Except.ok.inj h
        refine ⟨rfl, rfl, min packed taken, ?_⟩
        dsimp only
        rw [List.map_map, show received ∘ fetchRecord = Record.stored from rfl, List.map_take,
          hstored, List.take_take]

/-- What a page below the next offset holds. -/
def PageOf (layout : Layout) (position high : ℕ) (found : List FetchRecord) (next : ℕ) : Prop :=
  position < next ∧ next ≤ high ∧
    found.map received = itemsWithin StoredRecord.offset layout.records position next

theorem fetch_page (hrep : log.Represents Z layout)
    (hdecodable : ∀ e ∈ layout.entries, e.Decodable log.options.maxUncompressedBatchBytes)
    {limits : FetchLimits} (hrecords : 0 < limits.maxFetchRecords.toNat) (offsets : OffsetStore)
    (request : FetchRequest) {position : ℕ} (hfrom : request.from = decimal position)
    (hearliest : log.earliestOffset ≤ position) (hposition : position < log.nextOffset) :
    (∃ message, fetch Z limits offsets log request =
        .error (.request .invalidLength message)) ∨
      ∃ response, fetch Z limits offsets log request = .ok response ∧
        response.fromOffset = position ∧
        PageOf layout position log.nextOffset response.records response.nextOffset := by
  have hsorted := hrep.placed.records_sorted
  have hcount : ∀ e ∈ layout.entries, 0 < e.count := fun e he ↦ (hrep.written e he).count_pos
  rw [fetch, resolveFetchOffset_decimal request hfrom offsets hearliest hposition.le hrep.bound,
    ok_bind]
  by_cases hbase : fetchPayloadBaseBytes request.topic > limits.maxFetchPayloadBytes
  · exact Or.inl ⟨_, by rw [if_pos hbase]⟩
  rw [if_neg hbase]
  obtain ⟨records, taken, hread, hstored, htaken⟩ :=
    hrep.readFrom_take hdecodable position hrecords limits.maxFetchBytes.toNat
  rw [hread, storageCall, Except.mapError, ok_bind]
  rcases packRecords_cases limits.maxFetchPayloadBytes records []
      (fetchPayloadBaseBytes request.topic) with ⟨-, herror⟩ | ⟨packed, hpacked, hpos⟩
  · exact Or.inl ⟨_, by rw [herror, error_map]⟩
  rw [hpacked, ok_map, List.nil_append]
  refine Or.inr ⟨_, rfl, rfl, ?_⟩
  -- The packed records are the first of the retained ones from the position on.
  set page := (records.take packed).map fetchRecord with hpage
  set behind := layout.records.filter fun r ↦ position ≤ r.offset with hbehind
  have hne : behind ≠ [] := hrep.placed.exists_record hcount hposition
  have hview : page.map received = behind.take (min packed taken) := by
    rw [hpage, List.map_map, show received ∘ fetchRecord = Record.stored from rfl,
      List.map_take, hstored, List.take_take]
  have hrecordsNe : records ≠ [] := by
    intro hnil
    rw [hnil, List.map_nil, eq_comm, List.take_eq_nil_iff] at hstored
    exact hstored.elim htaken.ne' hne
  have hpagePos : 0 < min packed taken := lt_min (hpos rfl hrecordsNe) htaken
  have hpageNe : page.map received ≠ [] := by
    rw [hview, Ne, List.take_eq_nil_iff, not_or]
    exact ⟨hpagePos.ne', hne⟩
  obtain ⟨front, last, hsplit⟩ :=
    (List.eq_nil_or_concat page).resolve_left fun hnil ↦ hpageNe (by rw [hnil]; rfl)
  rw [List.concat_eq_append] at hsplit
  have hlast : (behind.take (min packed taken)).getLast? = some (received last) := by
    rw [← hview, hsplit, List.map_append, List.map_singleton, List.getLast?_concat]
  have hmem : received last ∈ behind := List.mem_of_mem_take (List.mem_of_getLast? hlast)
  obtain ⟨hmem, hfirst⟩ := List.mem_filter.mp hmem
  have hfirst : position ≤ last.offset := of_decide_eq_true hfirst
  obtain ⟨e, he, hr⟩ := List.mem_flatMap.mp hmem
  have hlt : last.offset < log.nextOffset :=
    (Layout.mem_entry_records hr).2.trans_le (hrep.placed.stop_le e he)
  have hbound := hrep.bound
  have hnext : responseNextOffset position page = last.offset + 1 := by
    rw [responseNextOffset, hsplit, List.getLast?_concat]
    exact Nat.mod_eq_of_lt (by omega)
  refine ⟨by simp only [hnext]; omega, by simp only [hnext]; omega, ?_⟩
  simp only [hnext]
  rw [hview, take_eq_itemsWithin hsorted hlast]
  rfl

/-! ## The compressed path -/

section Forwarded

variable {baseOffset timestamp : ℕ} {codec : Codec} {encoded : Bytes} {records : List BatchRecord}

/-- A stored batch as `read_encoded_batch` returns it. -/
def forwardedBatch (topic : Bytes) (partition baseOffset timestamp : ℕ) (codec : Codec)
    (encoded : Bytes) (records : List BatchRecord) : PartitionLog.EncodedBatch :=
  { metadata := storedBatchMetadata topic partition baseOffset timestamp codec records.length
      (encodeRecordSet records).length encoded
    encodedRecords := encoded }

/-- The records a client makes of a forwarded batch. -/
def forwardedRecords (baseOffset timestamp : ℕ) (encoded : Bytes) (records : List BatchRecord) :
    List FetchRecord :=
  records.mapIdx fun index record ↦
    { offset := (baseOffset + index) % 2 ^ 64
      timestampUnixNs := timestamp
      key := record.key
      message := record.message
      encodedByteSize := encoded.length / records.length % 2 ^ 32 }

theorem received_forwardedRecords (codec : Codec) (hstop : baseOffset + records.length < 2 ^ 64) :
    (forwardedRecords baseOffset timestamp encoded records).map received =
      (Entry.batch baseOffset timestamp codec encoded records).records := by
  refine List.ext_getElem (by simp [forwardedRecords, Entry.records]) fun i hi hi' ↦ ?_
  have hi : i < records.length := by
    simpa [forwardedRecords] using hi
  simp only [forwardedRecords, Entry.records, List.getElem_map, List.getElem_mapIdx, received]
  rw [Nat.mod_eq_of_lt (by omega)]

/-- The client opens a forwarded batch exactly when its limit admits it. -/
theorem decode_forwardedBatch (topic : Bytes) (partition limit : ℕ)
    (hwritten : (Entry.batch baseOffset timestamp codec encoded records).Written Z)
    (hvalues : ∀ r ∈ records, r.message ≠ [])
    (hsize : (encodedBatchPayload (forwardedBatch topic partition baseOffset timestamp codec
      encoded records)).length < 2 ^ 32) :
    decodeFetchResponseWithin Z limit (encodedBatchPayload (forwardedBatch topic partition
      baseOffset timestamp codec encoded records)) =
        if (encodeRecordSet records).length ≤ limit then
          .ok { topic := topic
                partition := partition % 2 ^ 16
                fromOffset := baseOffset
                nextOffset := baseOffset + records.length
                records := forwardedRecords baseOffset timestamp encoded records }
        else .error ⟨.invalidBatch, "uncompressed batch exceeds configured limit"⟩ := by
  obtain ⟨⟨hstop, hbytes, htimestamp, huncompressed⟩, limit₀, -, hdecompress⟩ := hwritten
  have hstop : baseOffset + records.length < 2 ^ 64 := hstop
  have hcodec := isSupported_of_decompress hdecompress
  have hcount : records.length < 2 ^ 32 := (length_lt_encodeRecordSet records).trans huncompressed
  have hnext : (baseOffset + records.length) % 2 ^ 64 = baseOffset + records.length :=
    Nat.mod_eq_of_lt hstop
  simp only [encodedBatchPayload, forwardedBatch, storedBatchMetadata, hnext,
    encodeCompressedFetchResponse, fetchResponseHead, List.length_append, length_writeBytes,
    length_writeU16, length_writeU32, length_writeU64] at hsize
  have hhead : ∀ rest, readFetchResponseHead (fetchResponseHead topic partition baseOffset
      (baseOffset + records.length) kCompressedFetchMarker ++ rest) =
        some (⟨topic, partition % 2 ^ 16, baseOffset, baseOffset + records.length, []⟩,
          kCompressedFetchMarker, rest) :=
    readFetchResponseHead_head (by omega) (by omega) hstop (by decide)
  have hfields := readForwardedBatch_fields hcodec htimestamp hcount huncompressed
    encoded (by omega)
  have hpayload : encodedBatchPayload (forwardedBatch topic partition baseOffset timestamp codec
      encoded records) = fetchResponseHead topic partition baseOffset
        (baseOffset + records.length) kCompressedFetchMarker ++
      (writeU16 codec.toField ++ (writeU64 timestamp ++ (writeU32 records.length ++
        (writeU32 (encodeRecordSet records).length ++ writeBytes encoded)))) := by
    rw [encodedBatchPayload, forwardedBatch, storedBatchMetadata, hnext,
      encodeCompressedFetchResponse]
  rw [hpayload, decodeFetchResponseWithin_of_head (hhead _),
    readCompressedRecords_of_batch hfields]
  have hopened := decodeRecordSet_encodeRecordSet huncompressed
  rw [if_pos hvalues] at hopened
  by_cases hlimit : (encodeRecordSet records).length ≤ limit
  · rw [decompress_of_le (decompress_le hdecompress) hlimit,
      ← Codec.ofField_toField hcodec] at hdecompress
    rw [if_pos hlimit, openForwardedBatch_of_records hdecompress hopened, ok_map]
    rfl
  · rw [if_neg hlimit, openForwardedBatch_of_error
      (decompress_of_lt (Nat.lt_of_not_le hlimit)), error_map]

/-- What a negotiated session answers: a forwarded batch, or what the plain path
answers. -/
theorem answerFetch_cases (hrep : log.Represents Z layout)
    (hdecodable : ∀ e ∈ layout.entries, e.Decodable log.options.maxUncompressedBatchBytes)
    (limits : FetchLimits) (offsets : OffsetStore) (negotiated : Bool) {request : FetchRequest}
    {position : ℕ} (hresolved : resolveFetchOffset request offsets log.earliestOffset
      log.nextOffset = .ok position) :
    answerFetch Z limits offsets log negotiated request =
        (fetch Z limits offsets log request).map FetchAnswer.plain ∨
      ∃ timestamp encoded records,
        Entry.batch position timestamp .zstd encoded records ∈ layout.entries ∧
        log.readEncodedBatch Z position = .ok (some (forwardedBatch log.options.topic
          log.options.partitionId position timestamp .zstd encoded records)) ∧
        answerFetch Z limits offsets log negotiated request =
          .ok (.compressed (encodedBatchPayload (forwardedBatch log.options.topic
            log.options.partitionId position timestamp .zstd encoded records))) ∧
        (encodedBatchPayload (forwardedBatch log.options.topic log.options.partitionId position
          timestamp .zstd encoded records)).length + kFrameHeaderBytes ≤
            limits.maxFrameBytes.toNat := by
  cases negotiated with
  | false => exact Or.inl rfl
  | true =>
      rcases hrep.readEncodedBatch_cases hdecodable position with
        hnone | ⟨timestamp, codec, encoded, records, he, hbatch⟩
      · refine Or.inl (answerFetch_of_none ?_)
        rw [fetchEncodedBatch, hresolved, ok_bind, hnone]
        rfl
      · have hfetched : fetchEncodedBatch Z limits offsets log request =
            .ok ((some (forwardedBatch log.options.topic log.options.partitionId position
              timestamp codec encoded records)).filter fun batch ↦
                decide (batch.metadata.codec = .zstd ∧
                  batch.metadata.recordCount ≤ limits.maxFetchRecords.toNat ∧
                  batch.metadata.encodedBytes ≤ limits.maxFetchBytes.toNat)) := by
          rw [fetchEncodedBatch, hresolved, ok_bind, hbatch]
          rfl
        rw [Option.filter_some] at hfetched
        split_ifs at hfetched with hallowed
        · obtain ⟨hzstd, -, -⟩ := of_decide_eq_true hallowed
          have hzstd : codec = .zstd := hzstd
          subst hzstd
          rw [answerFetch_of_some hfetched]
          by_cases hframe : (encodedBatchPayload (forwardedBatch log.options.topic
              log.options.partitionId position timestamp .zstd encoded records)).length +
              kFrameHeaderBytes ≤ limits.maxFrameBytes.toNat
          · exact Or.inr ⟨timestamp, encoded, records, he, hbatch, if_pos hframe, hframe⟩
          · exact Or.inl (if_neg hframe)
        · exact Or.inl (answerFetch_of_none hfetched)

end Forwarded

/-- A client's limit that admits every stored batch. -/
def AdmitsBatches (Z : Zstd) (log : PartitionLog) (limit : ℕ) : Prop :=
  ∀ position batch, log.readEncodedBatch Z position = .ok (some batch) →
    batch.metadata.logicalBytes ≤ limit

/-- The failure that a limit may cause. -/
def ExceedsLimit (failure : FetchFailure) : Prop :=
  ∃ message, failure = .broker (.request .invalidLength message)

theorem fetchPage_page (hrep : log.Represents Z layout)
    (hdecodable : ∀ e ∈ layout.entries, e.Decodable log.options.maxUncompressedBatchBytes)
    {limits : FetchLimits} (hrecords : 0 < limits.maxFetchRecords.toNat) {limit : ℕ}
    (hlimit : AdmitsBatches Z log limit) (offsets : OffsetStore) (negotiated : ℕ → Bool)
    {position : ℕ} (hearliest : log.earliestOffset ≤ position)
    (hposition : position < log.nextOffset) :
    (∃ failure, fetchPage Z limits limit offsets log negotiated position = .error failure ∧
        ExceedsLimit failure) ∨
      ∃ found next, fetchPage Z limits limit offsets log negotiated position = .ok (found, next) ∧
        PageOf layout position log.nextOffset found next := by
  have hresolved := resolveFetchOffset_decimal (offsetRequest log position) rfl offsets
    hearliest hposition.le hrep.bound
  rcases answerFetch_cases hrep hdecodable limits offsets (negotiated position) hresolved with
    hplain | ⟨timestamp, encoded, records, he, hbatch, hanswer, hframe⟩
  · rw [fetchPage, hplain]
    rcases fetch_page hrep hdecodable hrecords offsets (offsetRequest log position) rfl
      hearliest hposition with ⟨message, herror⟩ | ⟨response, hresponse, -, hpage⟩
    · rw [herror]
      exact Or.inl ⟨_, rfl, message, rfl⟩
    · rw [hresponse]
      exact Or.inr ⟨_, _, rfl, hpage⟩
  · have hwritten := hrep.written _ he
    have hstop : position + records.length < 2 ^ 64 := hwritten.stop_lt
    have hpayload : (encodedBatchPayload (forwardedBatch log.options.topic log.options.partitionId
        position timestamp .zstd encoded records)).length < 2 ^ 32 := by
      have hmax := limits.maxFrameBytes.toNat_lt
      omega
    have hdecoded := decode_forwardedBatch log.options.topic log.options.partitionId limit hwritten
      (hdecodable _ he).2 hpayload
    have hadmitted : (encodeRecordSet records).length ≤ limit := hlimit _ _ hbatch
    rw [if_pos hadmitted] at hdecoded
    rw [fetchPage, hanswer, Except.mapError, ok_bind, openAnswer, hdecoded]
    refine Or.inr ⟨_, _, rfl, ?_, hrep.placed.stop_le _ he, ?_⟩
    · have hcount : 0 < records.length := hwritten.count_pos
      dsimp only
      omega
    · rw [received_forwardedRecords .zstd hstop]
      exact (hrep.placed.records_entry he).symm

/-- Nothing is stored below the earliest offset. -/
theorem earliestOffset_le (hrep : log.Represents Z layout) {r : StoredRecord}
    (hr : r ∈ layout.records) : log.earliestOffset ≤ r.offset := by
  have hoffsets := Layout.map_offset_index fun e he ↦ (hrep.written e he).stop_lt
  rw [← hrep.index] at hoffsets
  have hsorted := hrep.placed.offsets_increase
  have hmem := List.mem_map_of_mem (f := StoredRecord.offset) hr
  rw [← hoffsets] at hsorted hmem
  rw [PartitionLog.earliestOffset]
  cases hindex : log.index with
  | nil =>
      rw [hindex] at hmem
      cases hmem
  | cons entry rest =>
      rw [hindex, List.map_cons] at hmem hsorted
      dsimp only [List.head?_cons]
      rcases List.mem_cons.mp hmem with heq | hmem
      · exact heq.ge
      · exact ((List.pairwise_cons.mp hsorted).1 _ hmem).le

end Page

/-! ## The walk -/

/-- Fetch after fetch, from the earliest offset up to the high watermark. -/
def fetchWalk (Z : Zstd) (limits : FetchLimits) (limit : ℕ) (offsets : OffsetStore)
    (log : PartitionLog) (negotiated : ℕ → Bool) (fuel : ℕ) :
    List FetchRecord × WalkEnd FetchFailure :=
  walk (fetchPage Z limits limit offsets log negotiated) log.nextOffset fuel log.earliestOffset

/-- Every successful step goes on, and a walk of enough steps returns the retained
records, all of them or those in front of a step that fails for its length. -/
structure WalksRetained (Z : Zstd) (limits : FetchLimits) (limit : ℕ) (offsets : OffsetStore)
    (state : LogState) (negotiated : ℕ → Bool) : Prop where
  advances : ∀ position found next, state.log.earliestOffset ≤ position →
    position < state.log.nextOffset →
    fetchPage Z limits limit offsets state.log negotiated position = .ok (found, next) →
    position < next ∧ next ≤ state.log.nextOffset
  returns : ∀ fuel, state.log.nextOffset - state.log.earliestOffset < fuel →
    ((fetchWalk Z limits limit offsets state.log negotiated fuel).2 = .finished ∧
        (fetchWalk Z limits limit offsets state.log negotiated fuel).1.map received =
          state.retained) ∨
      ∃ failure stop,
        (fetchWalk Z limits limit offsets state.log negotiated fuel).2 = .failed failure ∧
        ExceedsLimit failure ∧
        (fetchWalk Z limits limit offsets state.log negotiated fuel).1.map received =
          state.retained.filter fun r ↦ r.offset < stop

theorem earliestOffset_le_nextOffset {Z : Zstd} {log : PartitionLog} {layout : Layout}
    (hrep : log.Represents Z layout) : log.earliestOffset ≤ log.nextOffset := by
  rw [PartitionLog.earliestOffset]
  cases hindex : log.index with
  | nil => exact le_rfl
  | cons entry rest => exact (hrep.offset_lt entry (by rw [hindex]; simp)).le

/-- In every log reached by calls whose batches fit their byte count and have
values, walking by fetch loses and repeats nothing. -/
theorem walk_returns_retained (Z : Zstd) (options : PartitionLogOptions) (log₀ : PartitionLog)
    (hopened : openLog Z options {} = .ok log₀) (ops : List LogOp)
    (hsized : ∀ op ∈ ops, op.Sized) (hvalues : ∀ op ∈ ops, op.ValuesPresent) (state : LogState)
    (hrun : run (LogState.step Z) ⟨log₀, []⟩ ops = some state)
    (hbound : state.acked.length < 2 ^ 64) (limits : FetchLimits)
    (hrecords : 1 ≤ limits.maxFetchRecords) (limit : ℕ)
    (hlimit : AdmitsBatches Z state.log limit) (offsets : OffsetStore) (negotiated : ℕ → Bool) :
    WalksRetained Z limits limit offsets state negotiated := by
  obtain ⟨layout, htracks, hdecodable⟩ :=
    LogState.run_tracksDecodable hopened hsized hvalues hrun hbound
  have hrep := htracks.represents
  rw [← htracks.options] at hdecodable
  have hpages : Pages (fetchPage Z limits limit offsets state.log negotiated) received
      StoredRecord.offset layout.records state.log.earliestOffset state.log.nextOffset
      ExceedsLimit :=
    ⟨hrep.placed.records_sorted, fun position hearliest hposition ↦
      fetchPage_page hrep hdecodable hrecords hlimit offsets negotiated hearliest hposition⟩
  have hbelow : ∀ stop, itemsWithin StoredRecord.offset layout.records
      state.log.earliestOffset stop = state.retained.filter fun r ↦ r.offset < stop := by
    intro stop
    rw [htracks.retained_eq, itemsWithin]
    refine List.filter_congr fun r hr ↦ ?_
    simp [earliestOffset_le hrep hr]
  have hall : (state.retained.filter fun r ↦ r.offset < state.log.nextOffset) =
      state.retained := by
    rw [htracks.retained_eq, List.filter_eq_self]
    intro r hr
    obtain ⟨e, he, hr⟩ := List.mem_flatMap.mp hr
    have hlt := (Layout.mem_entry_records hr).2
    have hle := hrep.placed.stop_le e he
    simp only [decide_eq_true_eq]
    omega
  constructor
  · intro position found next hearliest hposition hpage
    rcases hpages.page position hearliest hposition with
      ⟨failure, herror, -⟩ | ⟨found', next', hpage', hlt, hle, -⟩
    · rw [herror] at hpage
      cases hpage
    · rw [hpage'] at hpage
      obtain ⟨-, rfl⟩ := Prod.mk.inj (Except.ok.inj hpage)
      exact ⟨hlt, hle⟩
  · intro fuel hfuel
    rcases hpages.walk fuel _ le_rfl (earliestOffset_le_nextOffset hrep) hfuel with
      ⟨hfinished, hitems⟩ | ⟨failure, stop, hfailed, hexceeds, -, -, hitems⟩
    · exact Or.inl ⟨hfinished, by rw [fetchWalk, hitems, hbelow, hall]⟩
    · exact Or.inr ⟨failure, stop, hfailed, hexceeds, by rw [fetchWalk, hitems, hbelow]⟩

/-- Limits that let pages of two records through. -/
def smallLimits : FetchLimits := ⟨1048576, 2, 1048576⟩

/-- A record and two compressed batches. -/
def recordAndBatches : List LogOp :=
  [.append stillClock [107] [118],
    .appendEncodedBatch .zstd
      ([40, 181, 47, 253, 32, 14, 113, 0, 0] ++ encodeRecordSet [⟨[97], [98]⟩]) 14
      [⟨[97], [98]⟩] 8,
    .appendEncodedBatch .none (encodeRecordSet [⟨[99], [100]⟩, ⟨[101], [102]⟩]) 24
      [⟨[99], [100]⟩, ⟨[101], [102]⟩] 9]

theorem walk_returns_retained_small :
    ∃ state, run (LogState.step rawBlockZstd) ⟨emptyLog smallSegments, []⟩ recordAndBatches =
        some state ∧ state.acked.length = 4 ∧
      WalksRetained rawBlockZstd smallLimits 1048576 {} state fun position ↦ position = 1 := by
  have hchecks : (run (LogState.step rawBlockZstd) ⟨emptyLog smallSegments, []⟩
      recordAndBatches).map (fun state ↦ state.acked.length) = some 4 := by decide
  obtain ⟨state, hrun, hacked⟩ := Option.map_eq_some_iff.mp hchecks
  have hopened : openLog rawBlockZstd smallSegments {} = .ok (emptyLog smallSegments) :=
    openLog_empty ⟨by decide, by decide⟩ rawBlockZstd
  have hsized : ∀ op ∈ recordAndBatches, op.Sized := by
    simp only [recordAndBatches, List.mem_cons, List.not_mem_nil, or_false, forall_eq_or_imp,
      forall_eq, LogOp.Sized, true_and]
    decide
  have hvalues : ∀ op ∈ recordAndBatches, op.ValuesPresent := by
    simp only [recordAndBatches, List.mem_cons, List.not_mem_nil, or_false, forall_eq_or_imp,
      forall_eq, LogOp.ValuesPresent, true_and]
    decide
  have hbound : state.acked.length < 2 ^ 64 := by
    rw [hacked]
    norm_num
  refine ⟨state, hrun, hacked, walk_returns_retained rawBlockZstd smallSegments _ hopened
    recordAndBatches hsized hvalues state hrun hbound smallLimits (by decide) 1048576 ?_ {} _⟩
  -- The client's limit is that of the log, so it admits what the log has decoded.
  obtain ⟨layout, htracks, hdecodable⟩ :=
    LogState.run_tracksDecodable hopened hsized hvalues hrun hbound
  rw [← htracks.options] at hdecodable
  intro position batch hbatch
  rcases htracks.represents.readEncodedBatch_cases hdecodable position with
    hnone | ⟨timestamp, codec, encoded, records, he, hstored⟩
  · rw [hnone] at hbatch
    cases hbatch
  · rw [hstored] at hbatch
    rw [← Option.some.inj (Except.ok.inj hbatch)]
    have hle := (hdecodable _ he).1
    rw [htracks.options] at hle
    exact hle

/-- An entry whose byte count wraps to two is taken for one of two bytes, and those
are too few for a batch and for a record. -/
theorem readFrom_of_wraps (Z : Zstd) {log : PartitionLog} {e : Entry} {recordBytes : ℕ}
    (hindex : log.index = [⟨0, 0, recordBytes, 0, 0, 1⟩]) (hlogs : log.dir.logs = [(0, e.bytes)])
    (hwraps : e.recordBytes % 2 ^ 32 = 2) {maxRecords : ℕ} (hmax : 0 < maxRecords)
    (maxBytes : ℕ) : ∃ message, log.readFrom Z 0 maxRecords maxBytes = .error message := by
  have hcount : readU32Be e.bytes 0 = 2 := by
    rw [Entry.bytes_eq, readU32Be_front, hwraps]
  have hlength : e.bytes.length = 4 + e.recordBytes := Entry.length_bytes e
  have hrest : (e.bytes.drop 4).length = e.recordBytes := by
    rw [List.length_drop, hlength, Nat.add_sub_cancel_left]
  have hle : 2 ≤ e.recordBytes := hwraps ▸ Nat.mod_le e.recordBytes (2 ^ 32)
  have hstored : log.readStored ⟨0, 0, recordBytes, 0, 0, 1⟩ =
      .ok (2, (e.bytes.drop 4).take 2) := by
    rw [readStored, hlogs, FileTable.content?_cons_self, orError_some, ok_bind]
    simp only [List.drop_zero, hcount]
    rw [if_neg (by omega), if_neg (by omega)]
  have hentry : ∃ message, log.readEntry Z ⟨0, 0, recordBytes, 0, 0, 1⟩ = .error message := by
    rw [readEntry, hstored, ok_bind, if_neg (lt_irrefl 2)]
    split
    case isTrue =>
      refine ⟨"invalid batch length", ?_⟩
      rw [decodeBatch, if_pos (Or.inr (show 2 < kFixedBatchBodyBytes + 4 by decide)), error_bind]
    case isFalse =>
      refine ⟨"invalid record length", ?_⟩
      rw [decodeRecord, if_pos (Or.inr (show 2 < kMinimumRecordBytes by decide)), error_map]
  obtain ⟨message, hentry⟩ := hentry
  refine ⟨message, ?_⟩
  rw [readFrom, hindex, readLoop, if_neg (by omega), if_neg (by omega), if_neg (by simp), hentry,
    error_bind]

theorem not_walksRetained_of_wraps (Z : Zstd) {state : LogState} {e : Entry} {recordBytes : ℕ}
    (hoptions : state.log.options = unlimitedOptions)
    (hindex : state.log.index = [⟨0, 0, recordBytes, 0, 0, 1⟩])
    (hnext : state.log.nextOffset = 1) (hlogs : state.log.dir.logs = [(0, e.bytes)])
    (hwraps : e.recordBytes % 2 ^ 32 = 2) (limit : ℕ) :
    ¬ WalksRetained Z smallLimits limit {} state fun _ ↦ false := by
  intro h
  have hearliest : state.log.earliestOffset = 0 := by
    rw [earliestOffset, hindex]
    rfl
  obtain ⟨message, hread⟩ := readFrom_of_wraps Z hindex hlogs hwraps
    (show 0 < smallLimits.maxFetchRecords.toNat by decide) smallLimits.maxFetchBytes.toNat
  have hresolved : resolveFetchOffset (offsetRequest state.log 0) {} 0 1 = .ok 0 :=
    resolveFetchOffset_decimal _ rfl {} le_rfl (Nat.zero_le 1) (by norm_num)
  have hpage : fetchPage Z smallLimits limit {} state.log (fun _ ↦ false) 0 =
      .error (.broker (.exception message)) := by
    have hfetch : fetch Z smallLimits {} state.log (offsetRequest state.log 0) =
        .error (.exception message) := by
      have hbase : ¬ fetchPayloadBaseBytes (offsetRequest state.log 0).topic >
          smallLimits.maxFetchPayloadBytes := by
        rw [offsetRequest, hoptions]
        decide
      rw [fetch, hearliest, hnext, hresolved, ok_bind, if_neg hbase, hread]
      rfl
    rw [fetchPage, answerFetch, if_neg Bool.false_ne_true, hfetch]
    rfl
  have hwalk : (fetchWalk Z smallLimits limit {} state.log (fun _ ↦ false) 2).2 =
      .failed (.broker (.exception message)) := by
    rw [fetchWalk, hearliest, hnext, walk, if_neg Nat.zero_ne_one, hpage]
  rcases h.returns 2 (by rw [hnext]; omega) with ⟨hfinished, -⟩ |
    ⟨failure, stop, hfailed, hlimit, -⟩
  · rw [hwalk] at hfinished
    cases hfinished
  · rw [hwalk] at hfailed
    obtain ⟨message', rfl⟩ := hlimit
    cases hfailed

theorem exists_not_walksRetained (value : Bytes) (uncompressedBytes : UInt32)
    (hvalue : value.length = 2 ^ 32 - 50) (hsize : uncompressedBytes.toNat = 2 ^ 32 - 38) :
    ∃ state, run (LogState.step noZstd) ⟨emptyLog unlimitedOptions, []⟩
        [oneRecordBatch value uncompressedBytes] = some state ∧
      ¬ WalksRetained noZstd smallLimits (2 ^ 32) {} state fun _ ↦ false := by
  obtain ⟨state, hstep, hoptions, hnext, -, ⟨recordBytes, hindex⟩, hlogs⟩ :=
    step_oneRecordBatch noZstd unlimitedOptions value uncompressedBytes (by omega)
      (by rw [hvalue, unlimitedOptions]; norm_num)
  refine ⟨state, by rw [run, hstep]; rfl,
    not_walksRetained_of_wraps noZstd hoptions hindex hnext hlogs ?_ (2 ^ 32)⟩
  rw [recordBytes_batchEntry, length_encodeRecordSet]
  simp only [List.map_cons, List.map_nil, List.sum_cons, List.sum_nil, List.length_nil, hvalue]
  norm_num

/-- Behind a batch whose byte count wraps the walk stops with an exception. -/
theorem walk_stopped_by_exception :
    openLog noZstd unlimitedOptions {} = .ok (emptyLog unlimitedOptions) ∧
    (oneRecordBatch (List.replicate (2 ^ 32 - 50) 0)
      (UInt32.ofNat (2 ^ 32 - 38))).ValuesPresent ∧
    ∃ state, run (LogState.step noZstd) ⟨emptyLog unlimitedOptions, []⟩
        [oneRecordBatch (List.replicate (2 ^ 32 - 50) 0) (UInt32.ofNat (2 ^ 32 - 38))] =
          some state ∧
      ¬ WalksRetained noZstd smallLimits (2 ^ 32) {} state fun _ ↦ false := by
  refine ⟨openLog_empty openOptions_unlimited noZstd, ?_,
    exists_not_walksRetained _ _ List.length_replicate (by decide)⟩
  intro record hrecord
  rw [List.mem_singleton.mp hrecord]
  exact fun h ↦ absurd (congrArg List.length h) (by rw [List.length_replicate]; decide)

end BoltStream.Broker
