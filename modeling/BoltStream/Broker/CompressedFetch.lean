import BoltStream.Broker.Accepting
import BoltStream.Broker.FetchWalk

/-!
# Compressed and plain fetch

A forwarded batch reaches the client as it was produced.  The broker opens
batches under its configured limit, the client under a constant: the two paths
agree on batches within that constant.
-/

namespace BoltStream.Broker

open BoltStream.Lib BoltStream.Protocol BoltStream.Compression BoltStream.Storage PartitionLog

/-- The client decodes the payload to what `read_from` returns for the same
offsets. -/
def AgreesWithPlain (Z : Zstd) (log : PartitionLog) (position : ℕ) (payload : Bytes) : Prop :=
  ∃ response, decodeFetchResponse Z payload = .ok response ∧ response.fromOffset = position ∧
    response.records ≠ [] ∧
    (log.readFrom Z position response.records.length 0).map (List.map Record.stored) =
      .ok (response.records.map received)

/-- A batch that the client's constant admits, if it is ever forwarded. -/
def ClientOpens : LogOp → Prop
  | .appendEncodedBatch .zstd _ uncompressedBytes _ _ =>
      uncompressedBytes.toNat ≤ kDefaultMaxFrameBytes
  | _ => True

/-- The same of a stored entry. -/
def ClientOpensEntry : Entry → Prop
  | .batch _ _ .zstd _ records => (encodeRecordSet records).length ≤ kDefaultMaxFrameBytes
  | _ => True

section Runs

variable {Z : Zstd} {options : PartitionLogOptions} {state state' : LogState}

theorem clientOpensEntry_recordEntries (clock : AppendClock) (next : ℕ)
    (records : List AppendRecord) :
    ∀ i, ∀ e ∈ recordEntries clock next i records, ClientOpensEntry e := by
  induction records with
  | nil => exact fun i e he ↦ absurd he List.not_mem_nil
  | cons record records ih =>
      intro i e he
      rcases List.mem_cons.mp he with rfl | he
      · trivial
      · exact ih (i + 1) e he

/-- The entries of a call that the client opens. -/
theorem clientOpensEntry_of_step {op : LogOp} (hopens : ClientOpens op)
    (hstep : state.step Z op = some state') (next : ℕ) :
    ∀ e ∈ op.entries next, ClientOpensEntry e := by
  cases op with
  | append clock key value => exact clientOpensEntry_recordEntries clock next _ 0
  | appendBatch clock records => exact clientOpensEntry_recordEntries clock next records 0
  | applyRetention => exact fun e he ↦ absurd he List.not_mem_nil
  | reopen => exact fun e he ↦ absurd he List.not_mem_nil
  | appendEncodedBatch codec encodedRecords uncompressedBytes decodedRecords timestamp =>
      intro e he
      rw [List.mem_singleton.mp he]
      cases codec with
      | none => trivial
      | other => trivial
      | zstd =>
          obtain ⟨metadata, happend, -⟩ := LogState.step_appendEncodedBatch hstep
          obtain ⟨-, -, hsize, -⟩ :=
            validateEncodedBatch_ok (LogState.validate_of_appendEncodedBatch happend)
          exact hsize.trans_le hopens

/-- In a run of accepted requests that the client opens, so are the stored
entries. -/
theorem run_clientOpens {log : PartitionLog} {ops : List LogOp}
    (hopened : openLog Z options {} = .ok log) (hsized : ∀ op ∈ ops, op.Sized ∧ op.ValuesPresent)
    (hopens : ∀ op ∈ ops, ClientOpens op)
    (hrun : run (LogState.step Z) ⟨log, []⟩ ops = some state)
    (hbound : state.acked.length < 2 ^ 64) :
    ∃ layout, LogState.TracksDecodable Z options state layout ∧
      ∀ e ∈ layout.entries, ClientOpensEntry e := by
  refine run_invariant (fun _ op ↦ (op.Sized ∧ op.ValuesPresent) ∧ ClientOpens op)
    (fun state ↦ state.acked.length < 2 ^ 64 →
      ∃ layout, LogState.TracksDecodable Z options state layout ∧
        ∀ e ∈ layout.entries, ClientOpensEntry e) ?_
    (along_of_forall (fun op hop _ ↦ ⟨hsized op hop, hopens op hop⟩) _) hrun ?_ hbound
  · rintro state op state' ⟨⟨hsized, hvalues⟩, hopens⟩ hstep hinv hbound
    have hlength := LogState.length_acked_step hstep
    obtain ⟨layout, hlayout, hentries⟩ := hinv (by omega)
    obtain ⟨layout', hlayout', hfollows⟩ := hlayout.step
      (LogState.openOptions_of_openLog hopened) hsized hvalues hbound hstep
    refine ⟨layout', hlayout', fun e he ↦ ?_⟩
    rcases List.mem_append.mp (hfollows.entries.subset he) with he | he
    · exact hentries e he
    · exact clientOpensEntry_of_step hopens hstep _ e he
  · intro _
    obtain ⟨layout, hlayout, hnil⟩ := LogState.tracks_opened hopened
    exact ⟨layout, ⟨hlayout, by simp [hnil]⟩, by simp [hnil]⟩

end Runs

section Answer

variable {Z : Zstd} {log : PartitionLog} {layout : Layout}

theorem exists_resolved {limits : FetchLimits} {offsets : OffsetStore} {request : FetchRequest}
    {payload : Bytes}
    (h : answerFetch Z limits offsets log true request = .ok (.compressed payload)) :
    ∃ position, resolveFetchOffset request offsets log.earliestOffset log.nextOffset =
      .ok position := by
  cases hresolved : resolveFetchOffset request offsets log.earliestOffset log.nextOffset with
  | ok position => exact ⟨position, rfl⟩
  | error error =>
      have hfetch : fetchEncodedBatch Z limits offsets log request = .error error := by
        rw [fetchEncodedBatch, hresolved, error_bind]
      rw [answerFetch, if_pos rfl, hfetch, error_bind] at h
      cases h

/-- A forwarded batch, read by the plain path. -/
theorem readFrom_batch (hrep : log.Represents Z layout)
    (hdecodable : ∀ e ∈ layout.entries, e.Decodable log.options.maxUncompressedBatchBytes)
    {position timestamp : ℕ} {codec : Codec} {encoded : Bytes} {records : List BatchRecord}
    (he : Entry.batch position timestamp codec encoded records ∈ layout.entries) :
    (log.readFrom Z position records.length 0).map (List.map Record.stored) =
      .ok (Entry.batch position timestamp codec encoded records).records := by
  set e := Entry.batch position timestamp codec encoded records with hbatch
  obtain ⟨before, after, hsplit⟩ := List.append_of_mem he
  have hchain := hrep.placed.chain
  rw [hsplit, List.pairwise_append, List.pairwise_cons] at hchain
  obtain ⟨-, ⟨hafter, -⟩, hbefore⟩ := hchain
  have hfilter : (layout.records.filter fun r ↦ position ≤ r.offset) =
      e.records ++ after.flatMap Entry.records := by
    have hold : ((before.flatMap Entry.records).filter fun r ↦ position ≤ r.offset) = [] := by
      rw [List.filter_eq_nil_iff]
      intro r hr
      obtain ⟨f, hf, hr⟩ := List.mem_flatMap.mp hr
      have hstop : f.stop ≤ position := hbefore f hf e List.mem_cons_self
      have hlt := (Layout.mem_entry_records hr).2
      simp only [decide_eq_true_eq]
      omega
    have hnew : ((e.records ++ after.flatMap Entry.records).filter fun r ↦ position ≤ r.offset) =
        e.records ++ after.flatMap Entry.records := by
      rw [List.filter_eq_self]
      intro r hr
      simp only [decide_eq_true_eq]
      rcases List.mem_append.mp hr with hr | hr
      · exact (Layout.mem_entry_records hr).1
      · obtain ⟨f, hf, hr⟩ := List.mem_flatMap.mp hr
        have hstop : position + records.length ≤ f.first := hafter f hf
        have hle := (Layout.mem_entry_records hr).1
        omega
    rw [Layout.records, hsplit, List.flatMap_append, List.flatMap_cons, List.filter_append, hold,
      List.nil_append, hnew]
  have hlength : e.records.length = records.length := Entry.length_records e
  rw [readFrom_readsAs (hrep.readsAs hdecodable), hfilter, ← hlength, List.take_left]

/-- The two paths agree on a forwarded batch exactly when the client's constant
admits it. -/
theorem agreesWithPlain_iff (hrep : log.Represents Z layout)
    (hdecodable : ∀ e ∈ layout.entries, e.Decodable log.options.maxUncompressedBatchBytes)
    {position timestamp : ℕ} {encoded : Bytes} {records : List BatchRecord}
    (he : Entry.batch position timestamp .zstd encoded records ∈ layout.entries)
    (hsize : (encodedBatchPayload (forwardedBatch log.options.topic log.options.partitionId
      position timestamp .zstd encoded records)).length < 2 ^ 32) :
    AgreesWithPlain Z log position (encodedBatchPayload (forwardedBatch log.options.topic
      log.options.partitionId position timestamp .zstd encoded records)) ↔
        (encodeRecordSet records).length ≤ kDefaultMaxFrameBytes := by
  have hwritten := hrep.written _ he
  have hstop : position + records.length < 2 ^ 64 := hwritten.stop_lt
  have hcount : 0 < records.length := hwritten.count_pos
  have hdecoded := decode_forwardedBatch log.options.topic log.options.partitionId
    kDefaultMaxFrameBytes hwritten (hdecodable _ he).2 hsize
  constructor
  · rintro ⟨response, hresponse, -⟩
    by_contra hlarge
    rw [if_neg hlarge] at hdecoded
    rw [decodeFetchResponse, hdecoded] at hresponse
    cases hresponse
  · intro hadmitted
    rw [if_pos hadmitted] at hdecoded
    have hlength : (forwardedRecords position timestamp encoded records).length =
        records.length := by simp [forwardedRecords]
    refine ⟨_, hdecoded, rfl, ?_, ?_⟩
    · rw [← List.length_pos_iff]
      exact hlength.symm ▸ hcount
    · rw [hlength, readFrom_batch hrep hdecodable he,
        received_forwardedRecords .zstd hstop]

end Answer

/-- In every run of accepted requests whose compressed batches are within the
client's constant, a compressed response decodes to what the plain path reads. -/
theorem compressedFetch_agrees (Z : Zstd) (config : ServerConfig) (topic : Bytes) (partition : ℕ)
    (log₀ : PartitionLog) (hopened : openLog Z (config.logOptions topic partition) {} = .ok log₀)
    (ops : List LogOp) (hops : ∀ op ∈ ops, AcceptedOp Z config topic partition op)
    (hopens : ∀ op ∈ ops, ClientOpens op) (state : LogState)
    (hrun : run (LogState.step Z) ⟨log₀, []⟩ ops = some state)
    (hbound : state.acked.length < 2 ^ 64) (offsets : OffsetStore) (request : FetchRequest)
    (payload : Bytes)
    (hanswer : answerFetch Z config.limits offsets state.log true request =
      .ok (.compressed payload)) :
    ∃ position, resolveFetchOffset request offsets state.log.earliestOffset
        state.log.nextOffset = .ok position ∧
      AgreesWithPlain Z state.log position payload := by
  obtain ⟨layout, ⟨htracks, hdecodable⟩, hentries⟩ :=
    run_clientOpens hopened (fun op hop ↦ (hops op hop).sized) hopens hrun hbound
  have hrep := htracks.represents
  rw [← htracks.options] at hdecodable
  obtain ⟨position, hresolved⟩ := exists_resolved hanswer
  refine ⟨position, hresolved, ?_⟩
  rcases answerFetch_cases hrep hdecodable config.limits offsets true hresolved with
    hplain | ⟨timestamp, encoded, records, he, -, hforwarded, hframe⟩
  · rw [hplain] at hanswer
    cases hfetch : fetch Z config.limits offsets state.log request with
    | error error =>
        rw [hfetch, error_map] at hanswer
        cases hanswer
    | ok response =>
        rw [hfetch, ok_map] at hanswer
        cases hanswer
  · rw [hforwarded] at hanswer
    have hpayload := FetchAnswer.compressed.inj (Except.ok.inj hanswer)
    have hmax := config.limits.maxFrameBytes.toNat_lt
    rw [← hpayload]
    exact (agreesWithPlain_iff hrep hdecodable he (by omega)).mpr (hentries _ he)

/-- A broker that admits batches of two mebibytes. -/
def largeBatches : ServerConfig where
  limits := ⟨1048576, 100, 1048576⟩
  maxProduceBatchRecords := 1024
  maxUncompressedBatchBytes := 2097152
  segmentBytes := 268435456
  segmentMaxAgeSeconds := 3600
  maxFrameBytes_ne := ServerConfig.defaultFrameBytes_ne
  maxFetchRecords_ne := by decide
  maxFetchBytes_ne := ServerConfig.defaultFrameBytes_ne
  maxProduceBatchRecords_ne := ServerConfig.defaultBatchRecords_ne
  maxProduceBatchRecords_le := ServerConfig.defaultBatchRecords_le
  maxUncompressedBatchBytes_ne := by decide
  segmentBytes_ne := ServerConfig.defaultSegmentBytes_ne

/-- A request to append one record of the topic `t` in a compressed batch. -/
def oneRecordRequest (encodedRecords : Bytes) (uncompressedBytes : ℕ) : ProduceBatchRequest :=
  ⟨[116], 0, .zstd, 1, uncompressedBytes, encodedRecords⟩

def produceBatchHeader (request : ProduceBatchRequest) : Bytes :=
  (encodeFrame 5 .produceBatchRequest 1 (encodeProduceBatchRequest request) 0).take 32

/-- The record set with the key `a` and the value `b`, in a raw block. -/
def smallFrame : Bytes := [40, 181, 47, 253, 32, 14, 113, 0, 0] ++ encodeRecordSet [⟨[97], [98]⟩]

theorem compressedFetch_agrees_small :
    ∃ state payload, run (LogState.step rawBlockZstd)
        ⟨emptyLog (largeBatches.logOptions [116] 0), []⟩
        [.appendEncodedBatch .zstd smallFrame 14 [⟨[97], [98]⟩] 8] = some state ∧
      answerFetch rawBlockZstd largeBatches.limits {} state.log true
        ⟨[116], 0, decimal 0, [], 0⟩ = .ok (.compressed payload) ∧
      ∃ position, resolveFetchOffset ⟨[116], 0, decimal 0, [], 0⟩ {} state.log.earliestOffset
          state.log.nextOffset = .ok position ∧
        AgreesWithPlain rawBlockZstd state.log position payload := by
  have hchecks : (run (LogState.step rawBlockZstd)
      ⟨emptyLog (largeBatches.logOptions [116] 0), []⟩
      [.appendEncodedBatch .zstd smallFrame 14 [⟨[97], [98]⟩] 8]).map (fun state ↦
        (state.acked.length, match answerFetch rawBlockZstd largeBatches.limits {} state.log true
            ⟨[116], 0, decimal 0, [], 0⟩ with
          | .ok (.compressed _) => true
          | _ => false)) = some (1, true) := by decide +kernel
  obtain ⟨state, hrun, hstate⟩ := Option.map_eq_some_iff.mp hchecks
  obtain ⟨hacked, hcompressed⟩ := Prod.mk.inj hstate
  obtain ⟨payload, hanswer⟩ : ∃ payload, answerFetch rawBlockZstd largeBatches.limits {} state.log
      true ⟨[116], 0, decimal 0, [], 0⟩ = .ok (.compressed payload) := by
    split at hcompressed
    · exact ⟨_, by assumption⟩
    · cases hcompressed
  refine ⟨state, payload, hrun, hanswer, compressedFetch_agrees rawBlockZstd largeBatches [116] 0 _
    (openLog_empty ⟨by decide, by decide⟩ rawBlockZstd) _ ?_ ?_ state hrun
    (by rw [hacked]; norm_num) {} _ payload hanswer⟩
  · intro op hop
    rw [List.mem_singleton.mp hop]
    refine ⟨produceBatchHeader (oneRecordRequest smallFrame 14),
      encodeProduceBatchRequest (oneRecordRequest smallFrame 14), 5, 3,
      oneRecordRequest smallFrame 14, by decide +kernel, by decide +kernel, rfl, rfl, rfl, rfl,
      rfl⟩
  · intro op hop
    rw [List.mem_singleton.mp hop]
    exact show (14 : UInt32).toNat ≤ kDefaultMaxFrameBytes by decide

/-! ## A batch that no client opens -/

/-- The blocks of a zstd frame that are raw or repeat one byte. -/
def decodeBlocks : ℕ → Bytes → Option Bytes
  | fuel + 1, b₀ :: b₁ :: b₂ :: rest =>
      let header := b₀.toNat + 256 * b₁.toNat + 65536 * b₂.toNat
      let size := header / 8
      let block : Option (Bytes × Bytes) :=
        match header / 2 % 4 with
        | 0 => if rest.length < size then none else some (rest.take size, rest.drop size)
        | 1 => rest.head?.map fun byte ↦ (List.replicate size byte, rest.drop 1)
        | _ => none
      block.bind fun block ↦
        if header % 2 = 1 then if block.2 = [] then some block.1 else none
        else (decodeBlocks fuel block.2).map fun more ↦ block.1 ++ more
  | _, _ => none

/-- The part of zstd that reads frames of such blocks, with a content size of four
bytes in front. -/
def runLengthZstd : Zstd where
  compress _ _ := .error "Allocation error : not enough memory"
  decompress capacity frame :=
    if frame.take 5 ≠ [40, 181, 47, 253, 160] then .error "Unknown frame descriptor"
    else
      match decodeBlocks frame.length (frame.drop 9) with
      | none => .error "Data corruption detected"
      | some content =>
          if beNat ((frame.drop 5).take 4).reverse ≠ content.length then
            .error "Data corruption detected"
          else if content.length > capacity then .error "Destination buffer is too small"
          else .ok content

/-- One block that repeats a zero byte three times. -/
example : (runLengthZstd.decompress 3 [40, 181, 47, 253, 160, 3, 0, 0, 0, 27, 0, 0, 0]).toOption =
    some [0, 0, 0] := by decide +kernel

/-- A block of 131072 zero bytes that is not the last. -/
def zeroBlock : Bytes := [2, 0, 16, 0]

theorem decodeBlocks_zeroBlocks (fuel : ℕ) (rest : Bytes) :
    ∀ count, decodeBlocks (fuel + count) ((List.replicate count zeroBlock).flatten ++ rest) =
      (decodeBlocks fuel rest).map fun more ↦ List.replicate (count * 131072) 0 ++ more := by
  intro count
  induction count with
  | zero => simp
  | succ count ih =>
      have hblock : ∀ behind, decodeBlocks (fuel + count + 1) (zeroBlock ++ behind) =
          (decodeBlocks (fuel + count) behind).map fun more ↦
            List.replicate 131072 0 ++ more := fun behind ↦ rfl
      rw [List.replicate_succ, List.flatten_cons, List.append_assoc, ← Nat.add_assoc, hblock, ih,
        Option.map_map]
      congr 1
      funext more
      rw [Function.comp_apply, ← List.append_assoc, List.replicate_append_replicate]
      congr 2
      omega

/-- A value of 1179648 zero bytes. -/
@[irreducible] def zeroValue : Bytes := List.replicate 1179648 0

/-- Its record set in a frame of 60 bytes: a raw block and nine of zeros. -/
def zeroFrame : Bytes :=
  [40, 181, 47, 253, 160, 12, 0, 18, 0] ++ ([96, 0, 0, 0, 0, 0, 1, 0, 0, 0, 0, 0, 18, 0, 0] ++
    ((List.replicate 8 zeroBlock).flatten ++ [3, 0, 16, 0]))

theorem length_zeroValue : zeroValue.length = 1179648 := by
  rw [zeroValue, List.length_replicate]

theorem encodeRecordSet_zeroValue :
    encodeRecordSet [⟨[], zeroValue⟩] = [0, 0, 0, 1, 0, 0, 0, 0, 0, 18, 0, 0] ++ zeroValue := by
  have hcount : writeU32 1 = [0, 0, 0, 1] := by decide
  have hkey : writeU32 0 = [0, 0, 0, 0] := by decide
  have hvalue : writeU32 1179648 = [0, 18, 0, 0] := by decide
  simp only [encodeRecordSet, List.flatMap_cons, List.flatMap_nil, List.append_nil,
    BatchRecord.encode, writeBytes, List.length_cons, List.length_nil, length_zeroValue,
    Nat.zero_add,
    hcount, hkey, hvalue, List.cons_append, List.nil_append]

theorem length_zeroSet : (encodeRecordSet [⟨[], zeroValue⟩]).length = 1179660 := by
  rw [encodeRecordSet_zeroValue, List.length_append, length_zeroValue]
  rfl

theorem decodeBlocks_zeroFrame :
    decodeBlocks zeroFrame.length (zeroFrame.drop 9) =
      some (encodeRecordSet [⟨[], zeroValue⟩]) := by
  have hlength : zeroFrame.length = 51 + 8 + 1 := rfl
  have hdrop : zeroFrame.drop 9 = [96, 0, 0, 0, 0, 0, 1, 0, 0, 0, 0, 0, 18, 0, 0] ++
      ((List.replicate 8 zeroBlock).flatten ++ [3, 0, 16, 0]) := rfl
  have hfirst : ∀ fuel rest, decodeBlocks (fuel + 1)
      ([96, 0, 0, 0, 0, 0, 1, 0, 0, 0, 0, 0, 18, 0, 0] ++ rest) =
        (decodeBlocks fuel rest).map fun more ↦
          [0, 0, 0, 1, 0, 0, 0, 0, 0, 18, 0, 0] ++ more := fun fuel rest ↦ rfl
  have hlast : decodeBlocks 51 [3, 0, 16, 0] = some (List.replicate 131072 0) := rfl
  rw [hlength, hdrop, hfirst, decodeBlocks_zeroBlocks, hlast, Option.map_some, Option.map_some,
    List.replicate_append_replicate, encodeRecordSet_zeroValue, zeroValue]

theorem decompress_zeroFrame {limit : ℕ} (hlimit : 1179660 ≤ limit) :
    decompress runLengthZstd .zstd zeroFrame 1179660 limit =
      .ok (encodeRecordSet [⟨[], zeroValue⟩]) := by
  have hframe : runLengthZstd.decompress 1179660 zeroFrame =
      .ok (encodeRecordSet [⟨[], zeroValue⟩]) := by
    have hmagic : ¬ zeroFrame.take 5 ≠ [40, 181, 47, 253, 160] := by decide
    have hsize : beNat ((zeroFrame.drop 5).take 4).reverse = 1179660 := by decide
    simp only [runLengthZstd]
    rw [if_neg hmagic, decodeBlocks_zeroFrame]
    dsimp only
    rw [hsize, length_zeroSet, if_neg (by simp), if_neg (by simp)]
  unfold decompress
  rw [if_neg (by omega)]
  dsimp only
  rw [hframe, Except.mapError, ok_bind, if_neg (not_not.mpr length_zeroSet)]

/-- The batch as the broker appends it. -/
def zeroBatch : LogOp := .appendEncodedBatch .zstd zeroFrame 1179660 [⟨[], zeroValue⟩] 0

theorem zeroValue_ne_nil : zeroValue ≠ [] := by
  rw [← List.length_pos_iff, length_zeroValue]
  norm_num

theorem acceptedOp_zeroBatch : AcceptedOp runLengthZstd largeBatches [116] 0 zeroBatch := by
  have hdecode : decodeProduceBatchRequest (encodeProduceBatchRequest
      (oneRecordRequest zeroFrame 1179660)) = .ok (oneRecordRequest zeroFrame 1179660) := by
    decide
  refine ⟨produceBatchHeader (oneRecordRequest zeroFrame 1179660),
    encodeProduceBatchRequest (oneRecordRequest zeroFrame 1179660), 5, 3,
    oneRecordRequest zeroFrame 1179660, by decide +kernel, ?_, rfl, rfl, rfl, rfl, rfl⟩
  have hset : decodeRecordSet (encodeRecordSet [⟨[], zeroValue⟩]) 1 = .ok [⟨[], zeroValue⟩] := by
    refine (decodeRecordSet_encodeRecordSet (by rw [length_zeroSet]; norm_num)).trans (if_pos ?_)
    simpa using zeroValue_ne_nil
  rw [acceptProduceBatch, if_neg (by omega), hdecode, ok_bind, if_neg (by decide),
    if_neg (by decide)]
  simp only [oneRecordRequest]
  rw [decompress_zeroFrame (by decide), ok_bind, hset]
  rfl

theorem validate_zeroBatch :
    validateEncodedBatch runLengthZstd (largeBatches.logOptions [116] 0) .zstd zeroFrame 1179660
      [⟨[], zeroValue⟩] = .ok () := by
  have hsize : ¬ (encodeRecordSet [⟨[], zeroValue⟩]).length ≠ (1179660 : UInt32).toNat :=
    not_not.mpr length_zeroSet
  have hdecompress : decompress runLengthZstd .zstd zeroFrame (1179660 : UInt32).toNat
      (largeBatches.logOptions [116] 0).maxUncompressedBatchBytes =
        .ok (encodeRecordSet [⟨[], zeroValue⟩]) := decompress_zeroFrame (by decide)
  unfold validateEncodedBatch
  rw [if_neg (by simp)]
  simp only [List.map_cons, List.map_nil]
  rw [if_neg hsize, hdecompress, ok_bind, if_neg (not_not.mpr rfl)]

/-- Without a fault only the validation decides whether a batch is appended. -/
theorem exists_step_of_validate {Z : Zstd} (state : LogState) {codec : Codec}
    {encodedRecords : Bytes} {uncompressedBytes : UInt32} {decodedRecords : List AppendRecord}
    (h : validateEncodedBatch Z state.log.options codec encodedRecords uncompressedBytes
      decodedRecords = .ok ()) (timestamp : UInt64) :
    ∃ state', state.step Z (.appendEncodedBatch codec encodedRecords uncompressedBytes
      decodedRecords timestamp) = some state' := by
  unfold LogState.step PartitionLog.appendEncodedBatch
  simp only [h]
  exact ⟨_, rfl⟩

/-- The broker accepts the batch and forwards it, and the client refuses it. -/
theorem forwarded_batch_refused :
    AcceptedOp runLengthZstd largeBatches [116] 0 zeroBatch ∧
    ∃ state payload, run (LogState.step runLengthZstd)
        ⟨emptyLog (largeBatches.logOptions [116] 0), []⟩ [zeroBatch] = some state ∧
      answerFetch runLengthZstd largeBatches.limits {} state.log true
        ⟨[116], 0, decimal 0, [], 0⟩ = .ok (.compressed payload) ∧
      ∀ position, ¬ AgreesWithPlain runLengthZstd state.log position payload := by
  have hopened : openLog runLengthZstd (largeBatches.logOptions [116] 0) {} =
      .ok (emptyLog (largeBatches.logOptions [116] 0)) :=
    openLog_empty ⟨by decide, by decide⟩ runLengthZstd
  obtain ⟨layout, htracks, hnil⟩ := LogState.tracks_opened hopened
  obtain ⟨state, hstep⟩ := exists_step_of_validate
    ⟨emptyLog (largeBatches.logOptions [116] 0), []⟩ validate_zeroBatch 0
  have hsized := acceptedOp_zeroBatch.sized
  have hacked := LogState.length_acked_step hstep
  obtain ⟨layout', ⟨htracks', hdecodable⟩, hfollows⟩ :=
    LogState.TracksDecodable.step ⟨htracks, by simp [hnil]⟩
      (LogState.openOptions_of_openLog hopened) hsized.1 hsized.2
      (by rw [hacked]; exact (by norm_num : 0 + 1 < 2 ^ 64)) hstep
  have hrep := htracks'.represents
  rw [← htracks'.options] at hdecodable
  have hentries : layout'.entries = [] ++ [.batch 0 0 .zstd zeroFrame [⟨[], zeroValue⟩]] := by
    rw [hfollows.appended trivial, hnil]
    rfl
  have he : Entry.batch 0 0 .zstd zeroFrame [⟨[], zeroValue⟩] ∈ layout'.entries := by
    rw [hentries]
    exact List.mem_singleton.mpr rfl
  have hfirst : (⟨0, 0, [], zeroValue⟩ : StoredRecord) ∈ layout'.records :=
    List.mem_flatMap.mpr ⟨_, he, List.mem_singleton.mpr rfl⟩
  have hresolved := resolveFetchOffset_decimal ⟨[116], 0, decimal 0, [], 0⟩ rfl {}
    (earliestOffset_le hrep hfirst) (Nat.zero_le _) hrep.bound
  set batch := forwardedBatch state.log.options.topic state.log.options.partitionId 0 0 .zstd
    zeroFrame [⟨[], zeroValue⟩] with hbatch
  have hcount : 1 ≤ largeBatches.limits.maxFetchRecords.toNat := by decide
  have hbytes : zeroFrame.length ≤ largeBatches.limits.maxFetchBytes.toNat := by decide
  have hfetched : fetchEncodedBatch runLengthZstd largeBatches.limits {} state.log
      ⟨[116], 0, decimal 0, [], 0⟩ = .ok (some batch) := by
    rw [fetchEncodedBatch, hresolved, ok_bind,
      hrep.readEncodedBatch_last hentries (hdecodable _ he), storageCall, Except.mapError, ok_map,
      Option.filter_some, if_pos (decide_eq_true ⟨rfl, hcount, hbytes⟩)]
    rfl
  have hlength : (encodedBatchPayload batch).length = 109 := by
    have htopic : state.log.options.topic = [116] := by rw [htracks'.options]; rfl
    simp only [hbatch, encodedBatchPayload, forwardedBatch, storedBatchMetadata, htopic,
      encodeCompressedFetchResponse, fetchResponseHead, List.length_append, length_writeBytes,
      length_writeU16, length_writeU32, length_writeU64]
    rfl
  refine ⟨acceptedOp_zeroBatch, state, encodedBatchPayload batch, ?_, ?_, ?_⟩
  · rw [run, zeroBatch, hstep]
    rfl
  · rw [answerFetch_of_some hfetched, hlength, if_pos (by decide)]
  · rintro position ⟨response, hresponse, -⟩
    have hdecoded := decode_forwardedBatch state.log.options.topic state.log.options.partitionId
      kDefaultMaxFrameBytes (hrep.written _ he) (hdecodable _ he).2
      (by rw [← hbatch, hlength]; norm_num)
    rw [if_neg (by rw [length_zeroSet]; decide), ← hbatch] at hdecoded
    rw [decodeFetchResponse, hdecoded] at hresponse
    cases hresponse

end BoltStream.Broker
