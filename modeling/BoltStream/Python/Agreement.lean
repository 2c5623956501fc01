import BoltStream.Protocol.Framing
import BoltStream.Protocol.RecordMessages
import BoltStream.Protocol.StandardCrc
import BoltStream.Protocol.TopicMessages
import BoltStream.Python.Client

/-!
# Two implementations of the wire format

The Python client accepts the frames that `decode_frame` accepts, and what it
sends is read as it was meant, unless a field is empty that must not be.
-/

namespace BoltStream.Python

open BoltStream.Lib BoltStream.Protocol Python.Client

/-! ## Packing -/

theorem structPack_cons {width : ℕ} {value : ℤ} {fields : List (ℕ × ℤ)} {packed : Bytes}
    (h : structPack ((width, value) :: fields) = .ok packed) :
    0 ≤ value ∧ value < 256 ^ width ∧ ∃ rest, structPack fields = .ok rest ∧
      packed = beBytes width value.toNat ++ rest := by
  rw [structPack] at h
  split_ifs at h with hrange
  obtain ⟨rest, hrest, rfl⟩ := map_eq_ok h
  exact ⟨hrange.1, hrange.2, rest, hrest, rfl⟩

theorem structPack_one {width : ℕ} {value : ℤ} {packed : Bytes}
    (h : structPack [(width, value)] = .ok packed) :
    0 ≤ value ∧ value < 256 ^ width ∧ packed = beBytes width value.toNat := by
  obtain ⟨hle, hlt, rest, hrest, rfl⟩ := structPack_cons h
  obtain rfl := Except.ok.inj hrest
  exact ⟨hle, hlt, List.append_nil _⟩

/-- A number that was packed is the one the other side reads. -/
theorem toNat_of_range {value : ℤ} {bound : ℕ} (hle : 0 ≤ value) (hlt : value < bound) :
    (value.toNat : ℤ) = value ∧ value.toNat < bound :=
  ⟨Int.toNat_of_nonneg hle, by omega⟩

theorem bytes_ok {value packed : Bytes} (h : bytes value = .ok packed) :
    packed = writeBytes value ∧ Short value := by
  obtain ⟨size, hsize, rfl⟩ := map_eq_ok h
  obtain ⟨-, hlt, rfl⟩ := structPack_one hsize
  refine ⟨rfl, ?_⟩
  norm_num at hlt
  exact hlt

theorem text_ok {value : String} {packed : Bytes} (h : text value = .ok packed) :
    packed = writeBytes (utf8Encode value) ∧ Short (utf8Encode value) :=
  bytes_ok h

theorem u16_ok {value : ℤ} {packed : Bytes} (h : u16 value = .ok packed) :
    packed = writeU16 value.toNat ∧ (value.toNat : ℤ) = value ∧ value.toNat < 2 ^ 16 := by
  obtain ⟨hle, hlt, rfl⟩ := structPack_one h
  obtain ⟨hcast, hfits⟩ := @toNat_of_range value (2 ^ 16) hle (by norm_num at hlt ⊢; exact hlt)
  exact ⟨rfl, hcast, hfits⟩

theorem u32_ok {value : ℤ} {packed : Bytes} (h : u32 value = .ok packed) :
    packed = writeU32 value.toNat ∧ (value.toNat : ℤ) = value ∧ value.toNat < 2 ^ 32 := by
  obtain ⟨hle, hlt, rfl⟩ := structPack_one h
  obtain ⟨hcast, hfits⟩ := @toNat_of_range value (2 ^ 32) hle (by norm_num at hlt ⊢; exact hlt)
  exact ⟨rfl, hcast, hfits⟩

theorem concat_cons {part : Except Exception Bytes} {parts : List (Except Exception Bytes)}
    {payload : Bytes} (h : concat (part :: parts) = .ok payload) :
    ∃ front rest, part = .ok front ∧ concat parts = .ok rest ∧ payload = front ++ rest := by
  obtain ⟨front, hfront, h⟩ := bind_eq_ok h
  obtain ⟨rest, hrest, rfl⟩ := map_eq_ok h
  exact ⟨front, rest, hfront, hrest, rfl⟩

theorem concat_one {part : Except Exception Bytes} {payload : Bytes}
    (h : concat [part] = .ok payload) : part = .ok payload := by
  obtain ⟨front, rest, hfront, hrest, rfl⟩ := concat_cons h
  obtain rfl := Except.ok.inj hrest
  rw [hfront, List.append_nil]

theorem utf8Encode_eq_nil {value : String} : utf8Encode value = [] ↔ value = "" := by
  rw [utf8Encode, Array.toList_eq_nil_iff]
  constructor
  · intro h
    rw [← String.toByteArray_inj]
    exact ByteArray.ext h
  · rintro rfl
    rfl

/-! ## Request payloads -/

/-- A payload is read as the value, unless a part of it is missing. -/
def ReadAs {α : Type} (decode : Bytes → Except DecodeError α) (payload : Bytes) (value : α)
    (missing : Prop) : Prop :=
  (missing → ∃ error, decode payload = .error error) ∧ (¬ missing → decode payload = .ok value)

theorem ReadAs.of_checks {α : Type} {write : α → Bytes} {read : PayloadReader α}
    {Fits : α → Prop} (h : Exact write read Fits) (malformed : String)
    (checks : α → List (Bool × String)) (value : α) (hfits : Fits value) {missing : Prop}
    (hmissing : missing ↔ ∃ check ∈ checks value, check.1 = true) :
    ReadAs (decodePayload read malformed checks) (write value) value missing := by
  have hread := h.read_write value trivial hfits []
  rw [List.append_nil] at hread
  constructor
  · intro hgone
    obtain ⟨check, hcheck⟩ := Option.isSome_iff_exists.mp
      (List.find?_isSome.mpr (hmissing.mp hgone))
    exact ⟨⟨.malformedPayload, check.2⟩, by simp only [decodePayload, hread, hcheck]⟩
  · intro hpresent
    have hnone : (checks value).find? Prod.fst = none :=
      List.find?_eq_none.mpr fun check hcheck hfails ↦
        hpresent (hmissing.mpr ⟨check, hcheck, hfails⟩)
    simp only [decodePayload, hread, hnone]

theorem createTopicPayload_readAs {topic : String} {partitions : ℤ} {payload : Bytes}
    (h : createTopicPayload topic partitions = .ok payload) :
    (partitions.toNat : ℤ) = partitions ∧
      ReadAs decodeCreateTopicRequest payload ⟨utf8Encode topic, partitions.toNat⟩
        (topic = "" ∨ partitions = 0) := by
  obtain ⟨topicPart, countPart, htopic, hcount, hpayload⟩ := concat_cons h
  obtain ⟨rfl, hshort⟩ := text_ok htopic
  obtain ⟨rfl, hcast, hfits⟩ := u16_ok (concat_one hcount)
  rw [hpayload]
  refine ⟨hcast, ReadAs.of_checks createTopicRequest_exact
    "malformed create-topic request payload" CreateTopicRequest.checks
    ⟨utf8Encode topic, partitions.toNat⟩ ⟨hshort, hfits⟩ ?_⟩
  have hzero : partitions = 0 ↔ partitions.toNat = 0 := by omega
  simp only [CreateTopicRequest.checks, List.mem_cons, List.not_mem_nil, or_false,
    exists_eq_or_imp, exists_eq_left, List.isEmpty_iff, utf8Encode_eq_nil, beq_iff_eq, hzero]

theorem producePayload_readAs {topic key message : String} {payload : Bytes}
    (h : producePayload topic key message = .ok payload) :
    ReadAs decodeProduceRequest payload ⟨utf8Encode topic, utf8Encode key, utf8Encode message⟩
      (topic = "" ∨ message = "") := by
  obtain ⟨topicPart, later, htopic, hlater, hpayload⟩ := concat_cons h
  obtain ⟨keyPart, messagePart, hkey, hmessage, hparts⟩ := concat_cons hlater
  obtain ⟨rfl, hshort⟩ := text_ok htopic
  obtain ⟨rfl, hshort'⟩ := bytes_ok hkey
  obtain ⟨rfl, hshort''⟩ := bytes_ok (concat_one hmessage)
  rw [hpayload, hparts, show decodeProduceRequest = _ from funext decodeProduceRequest_eq]
  refine ReadAs.of_checks produceRequest_exact "malformed produce request payload"
    ProduceRequest.checks ⟨utf8Encode topic, utf8Encode key, utf8Encode message⟩
    ⟨hshort, hshort', hshort''⟩ ?_
  simp only [ProduceRequest.checks, List.mem_cons, List.not_mem_nil, or_false, exists_eq_or_imp,
    exists_eq_left, List.isEmpty_iff, utf8Encode_eq_nil]

theorem fetchPayload_readAs {topic fromOffset group : String} {partition waitMs : ℤ}
    {payload : Bytes} (h : fetchPayload topic partition fromOffset group waitMs = .ok payload) :
    (partition.toNat : ℤ) = partition ∧ (waitMs.toNat : ℤ) = waitMs ∧
      ReadAs decodeFetchRequest payload
        ⟨utf8Encode topic, partition.toNat, utf8Encode fromOffset, utf8Encode group, waitMs.toNat⟩
        (topic = "" ∨ fromOffset = "") := by
  obtain ⟨topicPart, later₁, htopic, hlater₁, hpayload⟩ := concat_cons h
  obtain ⟨partitionPart, later₂, hpartition, hlater₂, hparts₁⟩ := concat_cons hlater₁
  obtain ⟨fromPart, later₃, hfrom, hlater₃, hparts₂⟩ := concat_cons hlater₂
  obtain ⟨groupPart, waitPart, hgroup, hwait, hparts₃⟩ := concat_cons hlater₃
  obtain ⟨rfl, hshort⟩ := text_ok htopic
  obtain ⟨rfl, hcast, hfits⟩ := u16_ok hpartition
  obtain ⟨rfl, hshort'⟩ := text_ok hfrom
  obtain ⟨rfl, hshort''⟩ := text_ok hgroup
  obtain ⟨rfl, hcast', hfits'⟩ := u32_ok (concat_one hwait)
  rw [hpayload, hparts₁, hparts₂, hparts₃]
  refine ⟨hcast, hcast', ReadAs.of_checks Protocol.fetchRequest_exact
    "malformed fetch request payload" FetchRequest.checks
    ⟨utf8Encode topic, partition.toNat, utf8Encode fromOffset, utf8Encode group, waitMs.toNat⟩
    ⟨hshort, hfits, hshort', hshort'', hfits'⟩ ?_⟩
  simp only [FetchRequest.checks, List.mem_cons, List.not_mem_nil, or_false, exists_eq_or_imp,
    exists_eq_left, List.isEmpty_iff, utf8Encode_eq_nil]

/-- `connect` sends a token that is not empty. -/
theorem authPayload_readAs {token : String} {payload : Bytes} (h : text token = .ok payload) :
    ReadAs decodeAuthRequest payload ⟨utf8Encode token⟩ (token = "") := by
  obtain ⟨rfl, hshort⟩ := text_ok h
  refine ReadAs.of_checks authRequest_exact "malformed auth request payload" AuthRequest.checks
    ⟨utf8Encode token⟩ hshort ?_
  simp only [AuthRequest.checks, List.mem_cons, List.not_mem_nil, or_false, exists_eq_left,
    List.isEmpty_iff, utf8Encode_eq_nil]

/-! ## Frames -/

section Frames

variable {zlibCrc32 : Bytes → ℕ}

/-- The bytes of a frame that either side accepts. -/
structure Accepted (frame : Bytes) : Prop where
  length : frame.length = kFrameHeaderBytes + readU32Be frame 12
  magic : readU32Be frame 0 = kMagic
  version : readU16Be frame 4 = 4 ∨ readU16Be frame 4 = 5
  header : readU32Be frame 8 = kFrameHeaderBytes
  fits : kFrameHeaderBytes + readU32Be frame 12 ≤ kDefaultMaxFrameBytes
  flags : readU32Be frame 24 = 0
  crc : readU32Be frame 28 = crc32 (frame.take kHeaderCrcOffset)

theorem land_crc (h : ∀ data, zlibCrc32 data = standardCrc32 data) (data : Bytes) :
    zlibCrc32 data &&& 0xFFFFFFFF = crc32 data := by
  rw [h, ← crc32_eq_standard]
  have hmod := Nat.and_two_pow_sub_one_eq_mod (crc32 data) 32
  norm_num at hmod
  rw [hmod]
  exact Nat.mod_eq_of_lt (crc32_lt data)

/-- An accepted frame is decoded, unless another correlation id is expected. -/
theorem decodeFrame_accepted (h : ∀ data, zlibCrc32 data = standardCrc32 data) {frame : Bytes}
    (haccepted : Accepted frame) {expected : Option ℕ}
    (hexpected : ∀ correlationId ∈ expected, readU64Be frame 16 = correlationId) :
    decodeFrame zlibCrc32 frame expected =
      .ok (readU16Be frame 6, frame.drop kFrameHeaderBytes) := by
  have hlength := haccepted.length
  have hfits := haccepted.fits
  rw [kFrameHeaderBytes, kDefaultMaxFrameBytes] at hfits
  rw [kFrameHeaderBytes] at hlength
  have hmagic : readU32Be frame 0 = magic := haccepted.magic
  have hheader : ¬ (readU32Be frame 8 ≠ headerBytes ∨
      readU32Be frame 12 > maxFrameBytes - headerBytes) := by
    rw [not_or, not_not, maxFrameBytes, headerBytes]
    exact ⟨haccepted.header, by omega⟩
  have hcrc : crc32 (frame.take 28) = readU32Be frame 28 := haccepted.crc.symm
  have hsize : frame.length = headerBytes + readU32Be frame 12 := hlength
  have hany : ¬ (expected.any fun correlationId ↦ readU64Be frame 16 ≠ correlationId) = true := by
    rw [Bool.not_eq_true, Option.any_eq_false_iff_get]
    intro hsome
    rw [decide_eq_false_iff_not, not_not]
    exact hexpected _ (Option.get_mem hsome)
  rw [decodeFrame, land_crc h, if_neg (by rw [headerBytes]; omega), if_neg (not_not.mpr hmagic),
    if_neg (not_not.mpr haccepted.version), if_neg hheader,
    if_neg (not_not.mpr haccepted.flags), if_neg (not_not.mpr hcrc),
    if_neg (not_not.mpr hsize), if_neg hany]
  rfl

theorem decodeFrame_python (h : ∀ data, zlibCrc32 data = standardCrc32 data) (frame : Bytes)
    (result : ℕ × Bytes) :
    decodeFrame zlibCrc32 frame none = .ok result ↔
      Accepted frame ∧ result = (readU16Be frame 6, frame.drop kFrameHeaderBytes) := by
  constructor
  · intro hdecode
    rw [decodeFrame, land_crc h] at hdecode
    split_ifs at hdecode with hshort hmagic hversion hlength hflags hcrc hsize hexpected
    rw [not_not] at hmagic hflags hcrc hsize
    rw [not_or, not_not, Nat.not_lt] at hlength
    refine ⟨⟨hsize, hmagic, hversion, hlength.1, ?_, hflags, hcrc.symm⟩, ?_⟩
    · have hmax := hlength.2
      rw [maxFrameBytes, headerBytes] at hmax
      rw [kFrameHeaderBytes, kDefaultMaxFrameBytes]
      omega
    · exact (Except.ok.inj hdecode).symm
  · rintro ⟨haccepted, rfl⟩
    exact decodeFrame_accepted h haccepted fun _ hnone ↦ by cases hnone

theorem decodeFrame_cpp (frame : Bytes) (result : ℕ × Bytes) :
    (∃ decoded, Protocol.decodeFrame frame kDefaultMaxFrameBytes = .ok decoded ∧
      result = (decoded.header.frameType.toField, decoded.payload)) ↔
      Accepted frame ∧ result = (readU16Be frame 6, frame.drop kFrameHeaderBytes) := by
  rw [Protocol.decodeFrame]
  dsimp only
  constructor
  · rintro ⟨decoded, hdecode, rfl⟩
    cases herror : (decodeHeader frame kDefaultMaxFrameBytes).error with
    | some error =>
        rw [herror] at hdecode
        cases hdecode
    | none =>
        rw [herror] at hdecode
        dsimp only at hdecode
        split_ifs at hdecode with hsize
        obtain rfl := Except.ok.inj hdecode
        obtain ⟨hlength, hmagic, hversion, hheader, hfits, hflags, hcrc⟩ := decodeHeader_ok herror
        rw [decodeHeader, if_neg (Nat.not_lt.mpr hlength)] at hsize ⊢
        refine ⟨⟨not_not.mp hsize, hmagic, hversion, hheader, hfits, hflags, hcrc⟩, ?_⟩
        dsimp only
        rw [FrameType.toField_ofField]
  · rintro ⟨haccepted, rfl⟩
    have hlength := haccepted.length
    have hfits := haccepted.fits
    have herror : (decodeHeader frame kDefaultMaxFrameBytes).error = none := by
      have hversion := haccepted.version
      rw [decodeHeader, if_neg (by omega)]
      dsimp only [headerError]
      rw [if_neg (not_not.mpr haccepted.magic), if_neg, if_neg (not_not.mpr haccepted.header),
        if_neg (by omega), if_neg (not_not.mpr haccepted.flags),
        if_neg (not_not.mpr haccepted.crc.symm)]
      rw [kMinimumProtocolVersion, kProtocolVersion]
      omega
    have hpayload : (decodeHeader frame kDefaultMaxFrameBytes).header.payloadBytes =
        readU32Be frame 12 := by rw [decodeHeader, if_neg (by omega)]
    have htype : (decodeHeader frame kDefaultMaxFrameBytes).header.frameType =
        .ofField (readU16Be frame 6) := by rw [decodeHeader, if_neg (by omega)]
    rw [herror, hpayload]
    refine ⟨_, if_neg (not_not.mpr hlength), ?_⟩
    dsimp only
    rw [htype, FrameType.toField_ofField]

theorem encodeFrame_decodes (h : ∀ data, zlibCrc32 data = standardCrc32 data)
    {frameType correlationId : ℤ} {payload frame : Bytes}
    (hencode : encodeFrame zlibCrc32 frameType correlationId payload = .ok frame) :
    ∃ decoded, Protocol.decodeFrame frame kDefaultMaxFrameBytes = .ok decoded ∧
      (decoded.header.frameType.toField : ℤ) = frameType ∧
      (decoded.header.correlationId : ℤ) = correlationId ∧ decoded.payload = payload := by
  rw [encodeFrame] at hencode
  split_ifs at hencode with hlarge
  obtain ⟨front, hfront, hframe⟩ := bind_eq_ok hencode
  obtain ⟨crc, hcrc, hjoined⟩ := map_eq_ok hframe
  obtain ⟨-, -, rest₁, hrest₁, hfront⟩ := structPack_cons hfront
  obtain ⟨-, -, rest₂, hrest₂, hparts₁⟩ := structPack_cons hrest₁
  obtain ⟨htype, htypeFits, rest₃, hrest₃, hparts₂⟩ := structPack_cons hrest₂
  obtain ⟨-, -, rest₄, hrest₄, hparts₃⟩ := structPack_cons hrest₃
  obtain ⟨-, -, rest₅, hrest₅, hparts₄⟩ := structPack_cons hrest₄
  obtain ⟨hid, hidFits, rest₆, hrest₆, hparts₅⟩ := structPack_cons hrest₅
  obtain ⟨-, -, hparts₆⟩ := structPack_one hrest₆
  obtain ⟨hcast, hsmall⟩ := @toNat_of_range frameType (2 ^ 16) htype
    (by norm_num at htypeFits ⊢; exact htypeFits)
  obtain ⟨hcast', hsmall'⟩ := @toNat_of_range correlationId (2 ^ 64) hid
    (by norm_num at hidFits ⊢; exact hidFits)
  rw [maxFrameBytes, headerBytes] at hlarge
  -- The frame is one that the other side writes.
  let wire : WireFrame 1048576 :=
    { version := 4
      frameType := UInt16.ofNat frameType.toNat
      correlationId := UInt64.ofNat correlationId.toNat
      payload := payload
      supported := Or.inl rfl
      fits := by
        change kFrameHeaderBytes + payload.length ≤ 1048576
        rw [kFrameHeaderBytes]
        omega }
  have htoNat : (UInt16.ofNat frameType.toNat).toNat = frameType.toNat :=
    UInt16.toNat_ofNat_of_lt' hsmall
  have htoNat' : (UInt64.ofNat correlationId.toNat).toNat = correlationId.toNat :=
    UInt64.toNat_ofNat_of_lt' hsmall'
  have hfields : front = wire.fields := by
    rw [hfront, hparts₁, hparts₂, hparts₃, hparts₄, hparts₅, hparts₆, WireFrame.fields,
      headerFields, FrameType.toField_ofField, htoNat, htoNat']
    rfl
  have hcrc' : crc = writeU32 (crc32 wire.fields) := by
    rw [land_crc h, hfields] at hcrc
    exact (u32_ok hcrc).1
  refine ⟨wire.frame, ?_, ?_, ?_, rfl⟩
  · rw [← hjoined, hcrc', hfields]
    exact decodeFrame_encode wire
  · change ((FrameType.ofField (UInt16.ofNat frameType.toNat).toNat).toField : ℤ) = frameType
    rw [FrameType.toField_ofField, htoNat, hcast]
  · change ((UInt64.ofNat correlationId.toNat).toNat : ℤ) = correlationId
    rw [htoNat', hcast']

end Frames

/-- The Python client and the C++ code agree on frames and payloads, when `zlib`
computes the standard checksum: they accept the same frames, the frames the
client writes are decoded, its requests are read as they were meant unless a part
that must not be empty is, and both checksums are the standard one. -/
theorem python_agrees (zlibCrc32 : Bytes → ℕ)
    (hzlib : ∀ data, zlibCrc32 data = standardCrc32 data) :
    (∀ frame frameType payload, decodeFrame zlibCrc32 frame none = .ok (frameType, payload) ↔
      ∃ decoded, Protocol.decodeFrame frame 1048576 = .ok decoded ∧
        decoded.header.frameType.toField = frameType ∧ decoded.payload = payload) ∧
    (∀ frameType correlationId payload frame,
      encodeFrame zlibCrc32 frameType correlationId payload = .ok frame →
      ∃ decoded, Protocol.decodeFrame frame 1048576 = .ok decoded ∧
        (decoded.header.frameType.toField : ℤ) = frameType ∧
        (decoded.header.correlationId : ℤ) = correlationId ∧ decoded.payload = payload) ∧
    (∀ topic partitions payload, createTopicPayload topic partitions = .ok payload →
      (partitions.toNat : ℤ) = partitions ∧
        ReadAs decodeCreateTopicRequest payload ⟨utf8Encode topic, partitions.toNat⟩
          (topic = "" ∨ partitions = 0)) ∧
    (∀ topic key message payload, producePayload topic key message = .ok payload →
      ReadAs decodeProduceRequest payload ⟨utf8Encode topic, utf8Encode key, utf8Encode message⟩
        (topic = "" ∨ message = "")) ∧
    (∀ topic partition fromOffset group waitMs payload,
      fetchPayload topic partition fromOffset group waitMs = .ok payload →
      (partition.toNat : ℤ) = partition ∧ (waitMs.toNat : ℤ) = waitMs ∧
        ReadAs decodeFetchRequest payload ⟨utf8Encode topic, partition.toNat,
          utf8Encode fromOffset, utf8Encode group, waitMs.toNat⟩ (topic = "" ∨ fromOffset = "")) ∧
    (∀ token payload, text token = .ok payload →
      ReadAs decodeAuthRequest payload ⟨utf8Encode token⟩ (token = "")) ∧
    ∀ data, crc32 data = standardCrc32 data := by
  refine ⟨fun frame frameType payload ↦ ?_, fun _ _ _ _ ↦ encodeFrame_decodes hzlib,
    fun _ _ _ ↦ createTopicPayload_readAs, fun _ _ _ _ ↦ producePayload_readAs,
    fun _ _ _ _ _ _ ↦ fetchPayload_readAs, fun _ _ ↦ authPayload_readAs, crc32_eq_standard⟩
  have hcpp := decodeFrame_cpp frame (frameType, payload)
  simp only [Prod.mk.injEq] at hcpp
  rw [decodeFrame_python hzlib, Prod.mk.injEq, ← hcpp]
  simp only [eq_comm]
  exact Iff.rfl

/-- The checksum of the other side serves as one. -/
theorem python_agrees_crc32 :
    (∀ topic key message payload, producePayload topic key message = .ok payload →
      ReadAs decodeProduceRequest payload ⟨utf8Encode topic, utf8Encode key, utf8Encode message⟩
        (topic = "" ∨ message = "")) ∧
    ∀ frame frameType payload, decodeFrame crc32 frame none = .ok (frameType, payload) ↔
      ∃ decoded, Protocol.decodeFrame frame 1048576 = .ok decoded ∧
        decoded.header.frameType.toField = frameType ∧ decoded.payload = payload :=
  ⟨(python_agrees crc32 crc32_eq_standard).2.2.2.1, (python_agrees crc32 crc32_eq_standard).1⟩

/-- An empty message can be sent, and is refused. -/
theorem producePayload_refused :
    ∃ payload, producePayload "t" "" "" = .ok payload ∧ decodeProduceRequest payload =
      .error ⟨.malformedPayload, "produce message must not be empty"⟩ := by
  have hsent : (producePayload "t" "" "").toOption.map decodeProduceRequest =
      some (.error ⟨.malformedPayload, "produce message must not be empty"⟩) := by decide
  cases hpayload : producePayload "t" "" "" with
  | error exception =>
      rw [hpayload] at hsent
      cases hsent
  | ok payload =>
      rw [hpayload] at hsent
      exact ⟨payload, rfl, Option.some.inj hsent⟩

end BoltStream.Python
