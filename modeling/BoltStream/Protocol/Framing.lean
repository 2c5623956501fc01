import BoltStream.Protocol.Frames

/-!
# Framing

`decode_frame` takes one frame and nothing else, and the loop that both sides
read a connection with takes a header, then as many bytes as it announces.  The
frames either accepts are those that `encode_frame` writes.
-/

namespace BoltStream.Protocol

open BoltStream.Lib

structure Frame where
  header : FrameHeader
  payload : Bytes
  deriving DecidableEq, Repr

def decodeFrame (bytes : Bytes) (maxFrameBytes : ℕ) : Except DecodeError Frame :=
  let decoded := decodeHeader bytes maxFrameBytes
  match decoded.error with
  | some error => .error error
  | none =>
      let expectedSize := kFrameHeaderBytes + decoded.header.payloadBytes
      if bytes.length ≠ expectedSize then
        .error ⟨.invalidLength,
          if bytes.length < expectedSize then "truncated frame payload"
          else "frame contains trailing bytes"⟩
      else .ok ⟨decoded.header, bytes.drop kFrameHeaderBytes⟩

/-- The loop of `read_header` and `read_payload` on the bytes of a connection.  It
ends when they run out or a header is refused; the bytes from there on are left. -/
def readFrames (maxFrameBytes : ℕ) : ℕ → Bytes → List Frame × Bytes
  | 0, bytes => ([], bytes)
  | fuel + 1, bytes =>
      if bytes.length < kFrameHeaderBytes then ([], bytes)
      else
        let decoded := decodeHeader (bytes.take kFrameHeaderBytes) maxFrameBytes
        let rest := bytes.drop kFrameHeaderBytes
        if decoded.error ≠ none ∨ rest.length < decoded.header.payloadBytes then ([], bytes)
        else
          let later := readFrames maxFrameBytes fuel (rest.drop decoded.header.payloadBytes)
          (⟨decoded.header, rest.take decoded.header.payloadBytes⟩ :: later.1, later.2)

/-- Every turn takes a header, so there are fewer turns than bytes. -/
def splitFrames (maxFrameBytes : ℕ) (bytes : Bytes) : List Frame × Bytes :=
  readFrames maxFrameBytes bytes.length bytes

/-- A frame that may be sent under the maximum. -/
structure WireFrame (maxFrameBytes : UInt32) where
  version : ℕ
  frameType : UInt16
  correlationId : UInt64
  payload : Bytes
  supported : version = 4 ∨ version = 5
  fits : kFrameHeaderBytes + payload.length ≤ maxFrameBytes.toNat

namespace WireFrame

variable {maxFrameBytes : UInt32}

def encode (wire : WireFrame maxFrameBytes) : Bytes :=
  encodeFrame wire.version (.ofField wire.frameType.toNat) wire.correlationId.toNat wire.payload 0

/-- The header in front of the checksum. -/
def fields (wire : WireFrame maxFrameBytes) : Bytes :=
  headerFields wire.version (.ofField wire.frameType.toNat) wire.correlationId.toNat
    wire.payload.length 0

/-- The frame as the reader holds it. -/
def frame (wire : WireFrame maxFrameBytes) : Frame :=
  { header :=
      { version := wire.version
        frameType := .ofField wire.frameType.toNat
        payloadBytes := wire.payload.length
        correlationId := wire.correlationId.toNat
        headerCrc32 := crc32 wire.fields }
    payload := wire.payload }

theorem encode_eq (wire : WireFrame maxFrameBytes) :
    wire.encode = wire.fields ++ (writeU32 (crc32 wire.fields) ++ wire.payload) := rfl

end WireFrame

/-! ## Writing a header and reading it -/

theorem FrameType.toField_ofField (field : ℕ) : (FrameType.ofField field).toField = field := by
  have hnamed : ∀ i < 39, ((FrameType.all[i]?).getD (.other (i + 1))).toField = i + 1 := by decide
  rw [ofField]
  split_ifs with hzero
  · rfl
  · by_cases hlast : field - 1 < 39
    · have hfield := hnamed (field - 1) hlast
      rwa [Nat.sub_add_cancel (Nat.pos_of_ne_zero hzero)] at hfield
    · rw [List.getElem?_eq_none (Nat.not_lt.mp hlast)]
      rfl

theorem length_headerFields (version : ℕ) (frameType : FrameType)
    (correlationId payloadBytes flags : ℕ) :
    (headerFields version frameType correlationId payloadBytes flags).length = 28 := by
  simp [headerFields]

/-- The fields of a written header, as `decode_header` reads them. -/
theorem headerFields_read (version : ℕ) (frameType : FrameType)
    (correlationId payloadBytes flags : ℕ) (rest : Bytes) :
    let bytes := headerFields version frameType correlationId payloadBytes flags ++
      (writeU32 (crc32 (headerFields version frameType correlationId payloadBytes flags)) ++ rest)
    readU32Be bytes 0 = kMagic ∧ readU16Be bytes 4 = version % 2 ^ 16 ∧
      readU16Be bytes 6 = frameType.toField % 2 ^ 16 ∧ readU32Be bytes 8 = kFrameHeaderBytes ∧
      readU32Be bytes 12 = payloadBytes % 2 ^ 32 ∧ readU64Be bytes 16 = correlationId % 2 ^ 64 ∧
      readU32Be bytes 24 = flags % 2 ^ 32 ∧
      readU32Be bytes 28 = crc32 (headerFields version frameType correlationId payloadBytes
        flags) := by
  intro bytes
  have hcrc : readU32Be bytes 28 = crc32 (headerFields version frameType correlationId payloadBytes
      flags) := by
    rw [readU32Be, readBe_skip 4 _ (length_headerFields _ _ _ _ _).le, length_headerFields,
      Nat.sub_self, writeU32, readBe_front]
    exact Nat.mod_eq_of_lt (crc32_lt _)
  refine ⟨?_, ?_, ?_, ?_, ?_, ?_, ?_, hcrc⟩ <;>
    simp only [bytes, headerFields, List.append_assoc] <;>
    simp (disch := simp) only [readU16Be, readU32Be, readU64Be, readBe_skip, writeU16, writeU32,
      writeU64, length_beBytes, Nat.reduceSub, readBe_front] <;>
    norm_num [kMagic, kFrameHeaderBytes]

variable {maxFrameBytes : UInt32}

theorem WireFrame.length_fields (wire : WireFrame maxFrameBytes) : wire.fields.length = 28 :=
  length_headerFields _ _ _ _ _

/-- A written header is accepted, whatever follows it. -/
theorem decodeHeader_fields (wire : WireFrame maxFrameBytes) (rest : Bytes) :
    decodeHeader (wire.fields ++ (writeU32 (crc32 wire.fields) ++ rest)) maxFrameBytes.toNat =
      { header := wire.frame.header, error := none } := by
  set bytes := wire.fields ++ (writeU32 (crc32 wire.fields) ++ rest) with hbytes
  have hlength : ¬ bytes.length < kFrameHeaderBytes := by
    rw [hbytes, List.length_append, List.length_append, wire.length_fields, length_writeU32,
      kFrameHeaderBytes]
    omega
  have hcut : bytes.take kHeaderCrcOffset = wire.fields := List.take_left' wire.length_fields
  have hfits := wire.fits
  have hmax := maxFrameBytes.toNat_lt
  have hheader : ({ magic := readU32Be bytes 0
                    version := readU16Be bytes 4
                    frameType := .ofField (readU16Be bytes 6)
                    headerBytes := readU32Be bytes 8
                    payloadBytes := readU32Be bytes 12
                    correlationId := readU64Be bytes 16
                    flags := readU32Be bytes 24
                    headerCrc32 := readU32Be bytes 28 } : FrameHeader) = wire.frame.header := by
    obtain ⟨hmagic, hversion, htype, hheader, hpayload, hcorrelation, hflags, hcrc⟩ :=
      headerFields_read wire.version (.ofField wire.frameType.toNat) wire.correlationId.toNat
        wire.payload.length 0 rest
    have hsmall : wire.version < 2 ^ 16 := by
      rcases wire.supported with h | h <;> rw [h] <;> norm_num
    rw [Nat.mod_eq_of_lt hsmall] at hversion
    rw [FrameType.toField_ofField, Nat.mod_eq_of_lt wire.frameType.toNat_lt] at htype
    rw [Nat.mod_eq_of_lt (by omega)] at hpayload
    rw [Nat.mod_eq_of_lt wire.correlationId.toNat_lt] at hcorrelation
    rw [Nat.zero_mod] at hflags
    rw [FrameHeader.mk.injEq]
    exact ⟨hmagic, hversion, congrArg _ htype, hheader, hpayload, hcorrelation, hflags, hcrc⟩
  have herror : headerError bytes maxFrameBytes.toNat wire.frame.header = none := by
    have hversion : ¬ (wire.version < kMinimumProtocolVersion ∨
        wire.version > kProtocolVersion) := by
      rw [kMinimumProtocolVersion, kProtocolVersion]
      rcases wire.supported with h | h <;> omega
    have hpayload : ¬ (maxFrameBytes.toNat < kFrameHeaderBytes ∨
        wire.payload.length > maxFrameBytes.toNat - kFrameHeaderBytes) := by omega
    rw [headerError, hcut]
    simp only [WireFrame.frame, ne_eq, not_true_eq_false, if_false, if_neg hversion,
      if_neg hpayload]
  rw [decodeHeader, if_neg hlength]
  dsimp only
  rw [hheader, herror]

theorem WireFrame.length_encode (wire : WireFrame maxFrameBytes) :
    wire.encode.length = kFrameHeaderBytes + wire.payload.length := by
  rw [wire.encode_eq, List.length_append, List.length_append, wire.length_fields,
    length_writeU32, ← Nat.add_assoc]
  rfl

theorem decodeFrame_encode (wire : WireFrame maxFrameBytes) :
    decodeFrame wire.encode maxFrameBytes.toNat = .ok wire.frame := by
  have hlength := wire.length_encode
  have hpayload : wire.encode.drop kFrameHeaderBytes = wire.payload := by
    rw [wire.encode_eq, ← List.append_assoc]
    exact List.drop_left' (by rw [List.length_append, wire.length_fields, length_writeU32]; rfl)
  have hheader : decodeHeader wire.encode maxFrameBytes.toNat =
      { header := wire.frame.header, error := none } := decodeHeader_fields wire wire.payload
  rw [decodeFrame, hheader]
  dsimp only
  rw [if_neg (fun h ↦ h hlength), hpayload]
  rfl

/-! ## The reading loop -/

theorem readFrames_encode (wire : WireFrame maxFrameBytes) (rest : Bytes) (fuel : ℕ) :
    readFrames maxFrameBytes.toNat (fuel + 1) (wire.encode ++ rest) =
      (wire.frame :: (readFrames maxFrameBytes.toNat fuel rest).1,
        (readFrames maxFrameBytes.toNat fuel rest).2) := by
  have hhead : (wire.fields ++ writeU32 (crc32 wire.fields)).length = kFrameHeaderBytes := by
    rw [List.length_append, wire.length_fields, length_writeU32]
    rfl
  have hsplit : wire.encode ++ rest =
      (wire.fields ++ writeU32 (crc32 wire.fields)) ++ (wire.payload ++ rest) := by
    simp only [wire.encode_eq, List.append_assoc]
  have hheader : decodeHeader (wire.fields ++ writeU32 (crc32 wire.fields)) maxFrameBytes.toNat =
      { header := wire.frame.header, error := none } := by
    have hdecoded := decodeHeader_fields wire []
    rwa [List.append_nil] at hdecoded
  rw [readFrames, hsplit, List.take_left' hhead, List.drop_left' hhead, hheader,
    if_neg (by rw [List.length_append, hhead]; omega)]
  dsimp only [WireFrame.frame]
  rw [if_neg (by simp), List.take_left, List.drop_left]

theorem readFrames_flatMap (frames : List (WireFrame maxFrameBytes)) {fuel : ℕ}
    (h : frames.length ≤ fuel) :
    readFrames maxFrameBytes.toNat fuel (frames.flatMap WireFrame.encode) =
      (frames.map WireFrame.frame, []) := by
  induction frames generalizing fuel with
  | nil =>
      cases fuel with
      | zero => rfl
      | succ fuel =>
          rw [List.flatMap_nil, readFrames, if_pos (by simp [kFrameHeaderBytes])]
          rfl
  | cons wire frames ih =>
      obtain ⟨fuel, rfl⟩ := Nat.exists_eq_add_of_le' (Nat.one_le_of_lt h)
      rw [List.flatMap_cons, readFrames_encode, ih (Nat.le_of_succ_le_succ h)]
      rfl

theorem length_le_flatMap (frames : List (WireFrame maxFrameBytes)) :
    frames.length ≤ (frames.flatMap WireFrame.encode).length := by
  induction frames with
  | nil => exact le_rfl
  | cons wire frames ih =>
      rw [List.flatMap_cons, List.length_append, List.length_cons, wire.length_encode,
        kFrameHeaderBytes]
      omega

/-! ## What is accepted -/

theorem take_append_take (bytes : Bytes) (offset width width' : ℕ) :
    (bytes.drop offset).take width ++ (bytes.drop (offset + width)).take width' =
      (bytes.drop offset).take (width + width') := by
  rw [List.take_add, List.drop_drop]

/-- The header of an accepted frame is the one that would be written for it. -/
theorem headerFields_of_read {bytes : Bytes} (hlength : 28 ≤ bytes.length)
    (hmagic : readU32Be bytes 0 = kMagic) (hheader : readU32Be bytes 8 = kFrameHeaderBytes)
    (hflags : readU32Be bytes 24 = 0) :
    headerFields (readU16Be bytes 4) (.ofField (readU16Be bytes 6)) (readU64Be bytes 16)
      (readU32Be bytes 12) 0 = bytes.take 28 := by
  have hsplit : (bytes.drop 0).take 4 ++ ((bytes.drop 4).take 2 ++ ((bytes.drop 6).take 2 ++
      ((bytes.drop 8).take 4 ++ ((bytes.drop 12).take 4 ++ ((bytes.drop 16).take 8 ++
        (bytes.drop 24).take 4))))) = bytes.take 28 := by
    rw [take_append_take bytes 16 8 4, take_append_take bytes 12 4 12,
      take_append_take bytes 8 4 16,
      take_append_take bytes 6 2 20, take_append_take bytes 4 2 22, take_append_take bytes 0 4 24]
    rfl
  have hmagic' : writeU32 kMagic = (bytes.drop 0).take 4 := by
    rw [← hmagic]
    exact beBytes_readBe (by omega)
  have hheader' : writeU32 kFrameHeaderBytes = (bytes.drop 8).take 4 := by
    rw [← hheader]
    exact beBytes_readBe (by omega)
  have hflags' : writeU32 0 = (bytes.drop 24).take 4 := by
    have hwritten := @beBytes_readBe 4 24 bytes (by omega)
    rwa [← readU32Be, hflags] at hwritten
  rw [← hsplit, headerFields, FrameType.toField_ofField, hmagic', hheader', hflags', writeU16,
    writeU16, writeU32, writeU64, readU16Be, readU16Be, readU32Be, readU64Be,
    beBytes_readBe (by omega), beBytes_readBe (by omega), beBytes_readBe (by omega),
    beBytes_readBe (by omega)]

/-- The checks of `decode_header` on a header it accepts. -/
theorem decodeHeader_ok {bytes : Bytes} {maxFrameBytes : ℕ}
    (h : (decodeHeader bytes maxFrameBytes).error = none) :
    kFrameHeaderBytes ≤ bytes.length ∧ readU32Be bytes 0 = kMagic ∧
      (readU16Be bytes 4 = 4 ∨ readU16Be bytes 4 = 5) ∧ readU32Be bytes 8 = kFrameHeaderBytes ∧
      kFrameHeaderBytes + readU32Be bytes 12 ≤ maxFrameBytes ∧ readU32Be bytes 24 = 0 ∧
      readU32Be bytes 28 = crc32 (bytes.take kHeaderCrcOffset) := by
  rw [decodeHeader] at h
  split_ifs at h with hshort
  simp only [headerError] at h
  split_ifs at h with hmagic hversion hheader hmax hflags hcrc
  rw [not_or, Nat.not_lt, Nat.not_lt, kMinimumProtocolVersion, kProtocolVersion] at hversion
  refine ⟨Nat.not_lt.mp hshort, not_not.mp hmagic, by omega, not_not.mp hheader, by omega,
    not_not.mp hflags, (not_not.mp hcrc).symm⟩

/-- An accepted byte string is a written frame. -/
theorem exists_wireFrame {bytes : Bytes} {frame : Frame}
    (h : decodeFrame bytes maxFrameBytes.toNat = .ok frame) :
    ∃ wire : WireFrame maxFrameBytes, bytes = wire.encode := by
  rw [decodeFrame] at h
  dsimp only at h
  cases herror : (decodeHeader bytes maxFrameBytes.toNat).error with
  | some error =>
      rw [herror] at h
      cases h
  | none =>
      rw [herror] at h
      dsimp only at h
      split_ifs at h with hsize
      rw [ne_eq, not_not] at hsize
      obtain ⟨hlength, hmagic, hversion, hheader, hfits, hflags, hcrc⟩ := decodeHeader_ok herror
      have hannounced : (decodeHeader bytes maxFrameBytes.toNat).header.payloadBytes =
          readU32Be bytes 12 := by
        rw [decodeHeader, if_neg (Nat.not_lt.mpr hlength)]
      rw [hannounced] at hsize
      have hpayload : (bytes.drop kFrameHeaderBytes).length = readU32Be bytes 12 := by
        rw [List.length_drop]
        omega
      rw [kFrameHeaderBytes] at hlength
      have htype : readU16Be bytes 6 < 2 ^ 16 := readBe_lt 2 bytes 6
      have hcorrelation : readU64Be bytes 16 < 2 ^ 64 := readBe_lt 8 bytes 16
      refine ⟨⟨readU16Be bytes 4, UInt16.ofNat (readU16Be bytes 6),
        UInt64.ofNat (readU64Be bytes 16), bytes.drop kFrameHeaderBytes, hversion,
        by rwa [hpayload]⟩, ?_⟩
      have hfields := headerFields_of_read (by omega) hmagic hheader hflags
      have hchecksum : writeU32 (crc32 (bytes.take 28)) = (bytes.drop 28).take 4 := by
        rw [← show readU32Be bytes 28 = crc32 (bytes.take 28) from hcrc]
        exact beBytes_readBe (by omega)
      rw [WireFrame.encode_eq, WireFrame.fields]
      dsimp only
      rw [UInt16.toNat_ofNat_of_lt' htype, UInt64.toNat_ofNat_of_lt' hcorrelation, hpayload,
        hfields,
        hchecksum, ← List.append_assoc]
      have hhead : bytes.take 28 ++ (bytes.drop 28).take 4 = bytes.take kFrameHeaderBytes :=
        take_append_take bytes 0 28 4
      rw [hhead, List.take_append_drop]

/-- Framing is exact: the reading loop gives back the frames that were written one
after the other, and `decode_frame` accepts what is written for some frame and
nothing else. -/
theorem framing_exact (maxFrameBytes : UInt32) :
    (∀ frames : List (WireFrame maxFrameBytes),
      splitFrames maxFrameBytes.toNat (frames.flatMap WireFrame.encode) =
        (frames.map WireFrame.frame, [])) ∧
    ∀ bytes frame, decodeFrame bytes maxFrameBytes.toNat = .ok frame ↔
      ∃ wire : WireFrame maxFrameBytes, bytes = wire.encode ∧ frame = wire.frame := by
  refine ⟨fun frames ↦ ?_, fun bytes frame ↦ ⟨fun h ↦ ?_, ?_⟩⟩
  · exact readFrames_flatMap frames (length_le_flatMap frames)
  · obtain ⟨wire, rfl⟩ := exists_wireFrame h
    rw [decodeFrame_encode] at h
    exact ⟨wire, rfl, (Except.ok.inj h).symm⟩
  · rintro ⟨wire, rfl, rfl⟩
    exact decodeFrame_encode wire

end BoltStream.Protocol
