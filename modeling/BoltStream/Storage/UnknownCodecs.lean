import BoltStream.Protocol.RecordMessages
import BoltStream.Storage.Format

/-!
# Unknown codecs

The codec field has sixteen bits and the codec itself eight.  The three decoders
that read the field convert it first and then ask whether the codec is supported,
so they reject the fields whose low byte is not a codec, and only those.
-/

namespace BoltStream.Storage

open BoltStream.Lib BoltStream.Protocol BoltStream.Compression

theorem isSupported_ofField {field : ℕ} :
    isSupported (Codec.ofField field) = true ↔ field % 256 = 0 ∨ field % 256 = 1 := by
  rw [Codec.ofField]
  split
  · rename_i hfield
    simp [isSupported, hfield]
  · rename_i hfield
    simp [isSupported, hfield]
  · rename_i hzero hone
    simp only [isSupported, Bool.or_eq_true, beq_iff_eq, reduceCtorEq, or_self, false_iff, not_or]
    exact ⟨hzero, hone⟩

/-! ## Where the field stands -/

/-- The codec field of a produce-batch payload that reaches so far. -/
def produceBatchCodecField (payload : Bytes) : Option ℕ :=
  (PayloadReader.readBytes payload).bind fun topic ↦
    (PayloadReader.readU16 topic.2).bind fun partition ↦
      (PayloadReader.readU16 partition.2).map Prod.fst

/-- The codec field of a fetch response that forwards a batch. -/
def forwardedCodecField (payload : Bytes) : Option ℕ :=
  (readFetchResponseHead payload).bind fun read ↦
    if read.2.1 = kCompressedFetchMarker then (PayloadReader.readU16 read.2.2).map Prod.fst
    else none

theorem codec_of_readProduceBatchRequest {payload : Bytes} {request : ProduceBatchRequest}
    {field : ℕ} (hread : readProduceBatchRequest payload = some request)
    (hfield : produceBatchCodecField payload = some field) :
    request.codec = Codec.ofField field := by
  obtain ⟨topic, htopic, hread⟩ := Option.bind_eq_some_iff.mp hread
  obtain ⟨partition, hpartition, hread⟩ := Option.bind_eq_some_iff.mp hread
  obtain ⟨codec, hcodec, hread⟩ := Option.bind_eq_some_iff.mp hread
  obtain ⟨count, -, hread⟩ := Option.bind_eq_some_iff.mp hread
  obtain ⟨uncompressed, -, hread⟩ := Option.bind_eq_some_iff.mp hread
  obtain ⟨encoded, -, hread⟩ := Option.bind_eq_some_iff.mp hread
  split_ifs at hread with hend
  rw [produceBatchCodecField, htopic, Option.bind_some, hpartition, Option.bind_some, hcodec,
    Option.map_some] at hfield
  rw [← Option.some.inj hread, ← Option.some.inj hfield]

theorem codecValue_of_readForwardedBatch {rest : Bytes} {batch : ForwardedBatch} {field : ℕ}
    (hread : readForwardedBatch rest = some batch)
    (hfield : (PayloadReader.readU16 rest).map Prod.fst = some field) :
    batch.codecValue = field := by
  obtain ⟨codec, hcodec, hread⟩ := Option.bind_eq_some_iff.mp hread
  obtain ⟨timestamp, -, hread⟩ := Option.bind_eq_some_iff.mp hread
  obtain ⟨count, -, hread⟩ := Option.bind_eq_some_iff.mp hread
  obtain ⟨uncompressed, -, hread⟩ := Option.bind_eq_some_iff.mp hread
  obtain ⟨encoded, -, hread⟩ := Option.bind_eq_some_iff.mp hread
  split_ifs at hread with hend
  rw [hcodec, Option.map_some] at hfield
  rw [← Option.some.inj hread, ← Option.some.inj hfield]

/-! ## The decoders -/

section Rejects

variable {Z : Zstd} {field : ℕ}

theorem decodeProduceBatchRequest_unsupported
    (hcodec : isSupported (Codec.ofField field) = false) {payload : Bytes}
    (hfield : produceBatchCodecField payload = some field) :
    ∃ error, decodeProduceBatchRequest payload = .error error := by
  rw [decodeProduceBatchRequest]
  cases hread : readProduceBatchRequest payload with
  | none => exact ⟨_, rfl⟩
  | some request =>
      rw [← codec_of_readProduceBatchRequest hread hfield] at hcodec
      dsimp only
      split_ifs
      · exact ⟨_, rfl⟩
      · exact ⟨_, rfl⟩

theorem decodeBatch_unsupported (hcodec : isSupported (Codec.ofField field) = false)
    {topic : Bytes} {partition batchBytes maximum : ℕ} {bodyAndCrc : Bytes}
    (hfield : readU16Be bodyAndCrc 4 = field) :
    ∃ message, decodeBatch Z topic partition batchBytes bodyAndCrc maximum = .error message := by
  rw [decodeBatch, hfield]
  dsimp only
  split_ifs with hlength hcrc hheader hfields
  · exact ⟨_, rfl⟩
  · exact ⟨_, rfl⟩
  · exact ⟨_, rfl⟩
  · exact ⟨_, rfl⟩
  · exact absurd (Or.inl (by simp [hcodec])) hfields

theorem openForwardedBatch_unsupported {limit fromOffset : ℕ} {batch : ForwardedBatch}
    (hcodec : isSupported (Codec.ofField batch.codecValue) = false) :
    ∃ error, openForwardedBatch Z limit fromOffset batch = .error error := by
  rw [openForwardedBatch]
  cases hraw : decompress Z (Codec.ofField batch.codecValue) batch.encoded batch.uncompressed
      limit with
  | error message => exact ⟨_, rfl⟩
  | ok raw =>
      rw [isSupported_of_decompress hraw] at hcodec
      cases hcodec

theorem decodeFetchResponse_unsupported (hcodec : isSupported (Codec.ofField field) = false)
    {payload : Bytes} (hfield : forwardedCodecField payload = some field) :
    ∃ error, decodeFetchResponse Z payload = .error error := by
  obtain ⟨⟨head, count, rest⟩, hhead, hrest⟩ := Option.bind_eq_some_iff.mp hfield
  split_ifs at hrest with hmarker
  obtain rfl : count = kCompressedFetchMarker := hmarker
  rw [decodeFetchResponse, decodeFetchResponseWithin_of_head hhead, readCompressedRecords]
  cases hread : readForwardedBatch rest with
  | none => exact ⟨_, rfl⟩
  | some batch =>
      rw [← codecValue_of_readForwardedBatch hread hrest] at hcodec
      obtain ⟨error, herror⟩ := @openForwardedBatch_unsupported Z kDefaultMaxFrameBytes
        head.fromOffset batch hcodec
      exact ⟨error, by simp only [herror]; rfl⟩

end Rejects

/-- No byte string with this codec field is accepted by a decoder. -/
structure RejectsField (Z : Zstd) (field : ℕ) : Prop where
  produceBatch : ∀ payload, produceBatchCodecField payload = some field →
    ∃ error, decodeProduceBatchRequest payload = .error error
  batch : ∀ topic partition batchBytes bodyAndCrc maximum, readU16Be bodyAndCrc 4 = field →
    ∃ message, decodeBatch Z topic partition batchBytes bodyAndCrc maximum = .error message
  fetchResponse : ∀ payload, forwardedCodecField payload = some field →
    ∃ error, decodeFetchResponse Z payload = .error error

/-- A request for one record whose codec field is written as it is. -/
def requestWithField (field : ℕ) : ProduceBatchRequest :=
  ⟨[116], 0, .other field, 1, 14, encodeRecordSet [⟨[97], [98]⟩]⟩

theorem readProduceBatchRequest_withField {field : ℕ} (hfield : field < 2 ^ 16) :
    produceBatchCodecField (encodeProduceBatchRequest (requestWithField field)) = some field ∧
      readProduceBatchRequest (encodeProduceBatchRequest (requestWithField field)) =
        some { requestWithField field with codec := Codec.ofField field } := by
  have htopic : ([116] : Bytes).length < 2 ^ 32 := by norm_num
  have hrecords : (encodeRecordSet [⟨[97], [98]⟩]).length < 2 ^ 32 := by decide
  have hlast := PayloadReader.readBytes_writeBytes hrecords []
  rw [List.append_nil] at hlast
  constructor
  · rw [produceBatchCodecField, requestWithField, encodeProduceBatchRequest,
      PayloadReader.readBytes_writeBytes htopic, Option.bind_some, PayloadReader.readU16_writeU16,
      Option.bind_some, PayloadReader.readU16_writeU16, Option.map_some]
    exact congrArg some (Nat.mod_eq_of_lt hfield)
  · rw [readProduceBatchRequest, requestWithField, encodeProduceBatchRequest,
      PayloadReader.readBytes_writeBytes htopic, Option.bind_some, PayloadReader.readU16_writeU16,
      Option.bind_some, PayloadReader.readU16_writeU16, Option.bind_some,
      PayloadReader.readU32_writeU32, Option.bind_some, PayloadReader.readU32_writeU32,
      Option.bind_some, hlast, Option.bind_some, if_pos rfl]
    rw [Codec.toField, Nat.mod_eq_of_lt hfield]
    rfl

/-- A field that is no codec is rejected everywhere exactly when its low byte is
none either. -/
theorem rejectsField_iff (Z : Zstd) (field : ℕ) (hfield : field < 2 ^ 16) :
    RejectsField Z field ↔ field % 256 ≠ 0 ∧ field % 256 ≠ 1 := by
  rw [← not_or, ← isSupported_ofField, Bool.not_eq_true]
  constructor
  · intro hrejects
    obtain ⟨hthere, hread⟩ := readProduceBatchRequest_withField hfield
    obtain ⟨error, herror⟩ := hrejects.produceBatch _ hthere
    by_contra hsupported
    rw [Bool.not_eq_false] at hsupported
    rw [decodeProduceBatchRequest, hread] at herror
    dsimp only at herror
    have hpresent : ¬ ((requestWithField field).topic = [] ∨
        (requestWithField field).recordCount = 0 ∨
        (requestWithField field).uncompressedBytes = 0 ∨
        (requestWithField field).encodedRecords = []) := by
      change ¬ ([116] = ([] : Bytes) ∨ 1 = 0 ∨ 14 = 0 ∨ encodeRecordSet [⟨[97], [98]⟩] = [])
      decide
    rw [if_neg hpresent, if_neg (by simp [hsupported])] at herror
    cases herror
  · intro hcodec
    exact ⟨fun _ ↦ decodeProduceBatchRequest_unsupported hcodec,
      fun _ _ _ _ _ ↦ decodeBatch_unsupported hcodec,
      fun _ ↦ decodeFetchResponse_unsupported hcodec⟩

/-- Two is no codec, in the low byte either. -/
theorem rejectsField_two : RejectsField noZstd 2 :=
  (rejectsField_iff noZstd 2 (by norm_num)).mpr ⟨by decide, by decide⟩

/-- The field 256 is taken for no compression. -/
theorem field_256_accepted :
    produceBatchCodecField (encodeProduceBatchRequest (requestWithField 256)) = some 256 ∧
      decodeProduceBatchRequest (encodeProduceBatchRequest (requestWithField 256)) =
        .ok { requestWithField 256 with codec := .none } ∧
      (let body := batchBody 0 7 (.other 256) 1 14 (encodeRecordSet [⟨[97], [98]⟩])
       (decodeBatch noZstd [116] 0 54 (body ++ writeU32 (crc32 body)) 1048576).isOk = true) := by
  refine ⟨by decide, by decide, by decide +kernel⟩

end BoltStream.Storage
