import BoltStream.Protocol.RecordMessages
import BoltStream.Storage.Format
import BoltStream.Storage.Names

/-!
# Guessing the version of a metadata response

A decoder that is not told the version looks at the first eight bytes.  Two codec
masks there mean version 5, but in version 4 the number of topics and the length
of the first name stand in their place.
-/

namespace BoltStream.Protocol

open BoltStream.Lib BoltStream.Compression BoltStream.Storage PayloadReader

/-! ## Masks -/

/-- A 32-bit field that could be a codec mask. -/
def IsMask (mask : ℕ) : Prop :=
  mask &&& kNoneMask ≠ 0 ∧ mask &&& (kSupportedCodecMask ^^^ 0xFFFFFFFF) = 0

theorem isMask_iff {mask : ℕ} (h : mask < 2 ^ 32) : IsMask mask ↔ mask = 1 ∨ mask = 3 := by
  constructor
  · rintro ⟨hnone, hother⟩
    have hhigh : mask >>> 2 &&& (kSupportedCodecMask ^^^ 0xFFFFFFFF) >>> 2 = 0 := by
      rw [← Nat.shiftRight_and_distrib, hother, Nat.zero_shiftRight]
    have hall : (kSupportedCodecMask ^^^ 0xFFFFFFFF) >>> 2 = 2 ^ 30 - 1 := by decide
    rw [hall, Nat.and_two_pow_sub_one_eq_mod, Nat.shiftRight_eq_div_pow] at hhigh
    have hsmall : mask < 4 := by omega
    interval_cases mask
    · exact absurd rfl hnone
    · exact Or.inl rfl
    · exact absurd (by decide) hnone
    · exact Or.inr rfl
  · rintro (rfl | rfl)
    · exact ⟨by decide, by decide⟩
    · exact ⟨by decide, by decide⟩

theorem detectMetadataVersion_eq (payload : Bytes) :
    detectMetadataVersion payload = 5 ∧ 8 ≤ payload.length ∧ IsMask (readU32Be payload 0) ∧
        IsMask (readU32Be payload 4) ∨
      detectMetadataVersion payload = 4 ∧ ¬ (8 ≤ payload.length ∧ IsMask (readU32Be payload 0) ∧
        IsMask (readU32Be payload 4)) := by
  rw [detectMetadataVersion]
  dsimp only
  by_cases hmasks : 8 ≤ payload.length ∧ IsMask (readU32Be payload 0) ∧
      IsMask (readU32Be payload 4)
  · exact Or.inl ⟨if_pos hmasks, hmasks⟩
  · exact Or.inr ⟨if_neg hmasks, hmasks⟩

/-- Without a version the decoder goes by its guess. -/
theorem decodeMetadataResponse_zero (held : MetadataResponse) (payload : Bytes) :
    decodeMetadataResponse held 0 payload =
      decodeMetadataResponse held (detectMetadataVersion payload) payload := by
  have hguess : detectMetadataVersion payload ≠ 0 := by
    rcases detectMetadataVersion_eq payload with ⟨hfive, -⟩ | ⟨hfour, -⟩
    · rw [hfive]
      decide
    · rw [hfour]
      decide
  rw [decodeMetadataResponse, decodeMetadataResponse, if_pos rfl, if_neg hguess]

/-! ## The two layouts -/

/-- Both fields in front can be masks: there are one or three topics, and the first
name has one or three bytes. -/
def Ambiguous (topics : List MetadataTopic) : Prop :=
  (topics.length = 1 ∨ topics.length = 3) ∧
    ∃ first ∈ topics.head?, first.topic.length = 1 ∨ first.topic.length = 3

theorem length_writeMetadataTopic (topic : MetadataTopic) :
    (writeMetadataTopic topic).length = 14 + topic.topic.length := by
  simp only [writeMetadataTopic, List.length_append, length_writeBytes, length_writeU16,
    length_writeU64]
  omega

theorem length_metadataTopics (topics : List MetadataTopic) :
    14 * topics.length ≤ (topics.flatMap writeMetadataTopic).length := by
  induction topics with
  | nil => exact le_rfl
  | cons topic topics ih =>
      rw [List.flatMap_cons, List.length_append, length_writeMetadataTopic, List.length_cons]
      omega

theorem length_le_of_topics (topics : List MetadataTopic) (hfits : ∀ topic ∈ topics, topic.Fits) :
    (topics.flatMap writeMetadataTopic).length ≤ topics.length * (14 + 2 ^ 32) := by
  induction topics with
  | nil => exact Nat.zero_le _
  | cons topic topics ih =>
      have hshort := (hfits topic List.mem_cons_self).1
      have hrest := ih fun other hother ↦ hfits other (List.mem_cons_of_mem topic hother)
      rw [Short] at hshort
      rw [List.flatMap_cons, List.length_append, length_writeMetadataTopic, List.length_cons]
      omega

theorem le_of_isNameByte {byte : UInt8} (h : isNameByte byte = true) : 45 ≤ byte.toNat := by
  simp only [isNameByte, isDigit, Bool.or_eq_true, Bool.and_eq_true, decide_eq_true_eq,
    beq_iff_eq] at h
  rcases h with ((h | rfl) | rfl) | rfl
  · omega
  · decide
  · decide
  · decide

/-- The first eight bytes of a response of version 4. -/
theorem isMask_four (topics : List MetadataTopic) (hcount : topics.length < 2 ^ 32)
    (hfits : ∀ topic ∈ topics, topic.Fits) :
    (8 ≤ (writeCounted writeMetadataTopic topics).length ∧
      IsMask (readU32Be (writeCounted writeMetadataTopic topics) 0) ∧
      IsMask (readU32Be (writeCounted writeMetadataTopic topics) 4)) ↔ Ambiguous topics := by
  cases topics with
  | nil =>
      refine iff_of_false (fun h ↦ ?_) fun h ↦ ?_
      · exact absurd h.1 (by decide)
      · obtain ⟨-, first, hfirst, -⟩ := h
        cases hfirst
  | cons first topics =>
      have hshort := (hfits first List.mem_cons_self).1
      rw [Short] at hshort
      have hlength : 8 ≤ (writeCounted writeMetadataTopic (first :: topics)).length := by
        rw [writeCounted, List.length_append, length_writeU32, List.flatMap_cons,
          List.length_append, length_writeMetadataTopic]
        omega
      have hfront : readU32Be (writeCounted writeMetadataTopic (first :: topics)) 0 =
          (first :: topics).length := by
        rw [writeCounted, readU32Be_front, Nat.mod_eq_of_lt hcount]
      have hname : readU32Be (writeCounted writeMetadataTopic (first :: topics)) 4 =
          first.topic.length := by
        rw [writeCounted, readU32Be_skip _ (length_writeU32 _).le, length_writeU32, Nat.sub_self,
          List.flatMap_cons, writeMetadataTopic, writeBytes, List.append_assoc, List.append_assoc,
          readU32Be_front, Nat.mod_eq_of_lt hshort]
      rw [hfront, hname, and_iff_right hlength, isMask_iff hcount, isMask_iff hshort, Ambiguous]
      simp only [List.head?_cons, Option.mem_def, Option.some.injEq, exists_eq_left']

/-- The number of topics read behind a short name is too large for any response. -/
theorem no_topics_behind_name {name tail : Bytes} {topics : List MetadataTopic}
    (hname : ∀ byte ∈ name.head?, 45 ≤ byte.toNat) (hne : name ≠ [])
    (hcount : topics.length < 2 ^ 32)
    (h : name ++ tail = writeCounted writeMetadataTopic topics) :
    14 * (45 * 2 ^ 24) < (name ++ tail).length := by
  cases name with
  | nil => exact absurd rfl hne
  | cons byte name =>
      have hbyte : byte = UInt8.ofNat (topics.length / 256 ^ 3) := (List.cons.inj h).1
      have hlarge := hname byte rfl
      have hdigit : topics.length / 256 ^ 3 < 256 := by omega
      rw [hbyte, UInt8.toNat_ofNat_of_lt' hdigit] at hlarge
      have htopics := length_metadataTopics topics
      rw [h, writeCounted, List.length_append, length_writeU32]
      omega

/-- An ambiguous response of version 4 does not decode as one of version 5. -/
theorem ambiguous_refused {held : MetadataResponse} {topics : List MetadataTopic}
    (hambiguous : Ambiguous topics)
    (htopics : ∀ topic ∈ topics, topic.Fits ∧ isValidTopicName topic.topic = true)
    {decoded : MetadataResponse}
    (h : decodeMetadataResponse held 5 (writeCounted writeMetadataTopic topics) = .ok decoded) :
    False := by
  obtain ⟨hcarries, hencode⟩ := (metadataResponse_exact_five held).encode_decode _ _ h
  obtain ⟨hcount, first, hfirst, hlength⟩ := hambiguous
  cases topics with
  | nil => cases hfirst
  | cons other topics =>
      obtain rfl := Option.some.inj hfirst
      set tail := writeU16 other.partition ++ (writeU64 other.nextOffset ++
        topics.flatMap writeMetadataTopic) with htail
      have hpayload : writeCounted writeMetadataTopic (other :: topics) =
          writeU32 (other :: topics).length ++ (writeU32 other.topic.length ++
            (other.topic ++ tail)) := by
        simp only [writeCounted, List.flatMap_cons, writeMetadataTopic, writeBytes, htail,
          List.append_assoc]
      have hfive : encodeMetadataResponse decoded 5 = writeU32 decoded.supportedCodecs ++
          (writeU32 decoded.negotiatedCodecs ++ writeCounted writeMetadataTopic decoded.topics) :=
        rfl
      rw [hpayload, hfive] at hencode
      obtain ⟨-, hbehind⟩ := List.append_inj hencode (by simp only [length_writeU32])
      obtain ⟨-, hcounted⟩ := List.append_inj hbehind (by simp only [length_writeU32])
      obtain ⟨-, hvalid⟩ := htopics other List.mem_cons_self
      simp only [isValidTopicName, Bool.and_eq_true, bne_iff_ne] at hvalid
      have hname : ∀ byte ∈ other.topic.head?, 45 ≤ byte.toNat := fun byte hbyte ↦
        le_of_isNameByte (List.all_eq_true.mp hvalid.2 byte (List.mem_of_mem_head? hbyte))
      have hlarge := no_topics_behind_name hname hvalid.1.1.1 hcarries.1.1 hcounted.symm
      have hrest : (topics.flatMap writeMetadataTopic).length ≤ 2 * (14 + 2 ^ 32) := by
        refine (length_le_of_topics topics fun topic htopic ↦
          (htopics topic (List.mem_cons_of_mem other htopic)).1).trans ?_
        refine Nat.mul_le_mul_right _ ?_
        rw [List.length_cons] at hcount
        omega
      simp only [htail, List.length_append, length_writeU16, length_writeU64] at hlarge
      omega

/-- What the broker negotiates contains the uncompressed codec. -/
theorem negotiated_isMask {negotiated requested : ℕ}
    (h : negotiated = requested &&& kSupportedCodecMask ||| kNoneMask) :
    negotiated < 2 ^ 32 ∧ IsMask negotiated := by
  have hall : kSupportedCodecMask = 2 ^ 2 - 1 := by decide
  rw [hall, Nat.and_two_pow_sub_one_eq_mod] at h
  have hsmall : requested % 2 ^ 2 < 4 := Nat.mod_lt _ (by norm_num)
  have hvalue : negotiated = 1 ∨ negotiated = 3 := by
    rw [h]
    interval_cases requested % 2 ^ 2
    · exact Or.inl (by decide)
    · exact Or.inl (by decide)
    · exact Or.inr (by decide)
    · exact Or.inr (by decide)
  have hfits : negotiated < 2 ^ 32 := by omega
  exact ⟨hfits, (isMask_iff hfits).mpr hvalue⟩

/-- Without a version, responses of both versions decode to the topics that were
sent exactly when those of version 4 cannot be taken for masks. -/
theorem version_detected_iff (held sent : MetadataResponse) (requested : ℕ)
    (hsupported : sent.supportedCodecs = kSupportedCodecMask)
    (hnegotiated : sent.negotiatedCodecs = requested &&& kSupportedCodecMask ||| kNoneMask)
    (hcount : sent.topics.length < 2 ^ 32)
    (htopics : ∀ topic ∈ sent.topics, topic.Fits ∧ isValidTopicName topic.topic = true) :
    (∀ version, version = 4 ∨ version = 5 →
      ∃ decoded, decodeMetadataResponse held 0 (encodeMetadataResponse sent version) =
        .ok decoded ∧ decoded.topics = sent.topics) ↔ ¬ Ambiguous sent.topics := by
  have hfits : ∀ topic ∈ sent.topics, topic.Fits := fun topic htopic ↦ (htopics topic htopic).1
  have hmask := isMask_four sent.topics hcount hfits
  have hfour : encodeMetadataResponse sent 4 = writeCounted writeMetadataTopic sent.topics := rfl
  constructor
  · intro hboth hambiguous
    obtain ⟨decoded, hdecode, -⟩ := hboth 4 (Or.inl rfl)
    rw [decodeMetadataResponse_zero, hfour] at hdecode
    rcases detectMetadataVersion_eq (writeCounted writeMetadataTopic sent.topics) with
      ⟨hguess, -⟩ | ⟨-, hno⟩
    · rw [hguess] at hdecode
      exact ambiguous_refused hambiguous htopics hdecode
    · exact hno (hmask.mpr hambiguous)
  · rintro hclear version (rfl | rfl)
    · rw [decodeMetadataResponse_zero, hfour]
      rcases detectMetadataVersion_eq (writeCounted writeMetadataTopic sent.topics) with
        ⟨-, hyes⟩ | ⟨hguess, -⟩
      · exact absurd (hmask.mp hyes) hclear
      · rw [hguess]
        exact ⟨_, (metadataResponse_exact_four held).decode_encode
          { held with topics := sent.topics } ⟨⟨hcount, hfits⟩, rfl, rfl⟩, rfl⟩
    · have hnegotiated := negotiated_isMask hnegotiated
      have hfield : sent.supportedCodecs < 2 ^ 32 := by rw [hsupported]; decide
      have hfive : encodeMetadataResponse sent 5 = writeU32 sent.supportedCodecs ++
          (writeU32 sent.negotiatedCodecs ++ writeCounted writeMetadataTopic sent.topics) := rfl
      have hmasks : 8 ≤ (encodeMetadataResponse sent 5).length ∧
          IsMask (readU32Be (encodeMetadataResponse sent 5) 0) ∧
          IsMask (readU32Be (encodeMetadataResponse sent 5) 4) := by
        rw [hfive, readU32Be_front, readU32Be_skip _ (length_writeU32 _).le, length_writeU32,
          Nat.sub_self, readU32Be_front, Nat.mod_eq_of_lt hfield,
          Nat.mod_eq_of_lt hnegotiated.1, hsupported]
        refine ⟨?_, ⟨by decide, by decide⟩, hnegotiated.2⟩
        simp only [List.length_append, length_writeU32]
        omega
      rw [decodeMetadataResponse_zero]
      rcases detectMetadataVersion_eq (encodeMetadataResponse sent 5) with
        ⟨hguess, -⟩ | ⟨-, hno⟩
      · rw [hguess]
        exact ⟨_, (metadataResponse_exact_five held).decode_encode sent
          ⟨⟨hcount, hfits⟩, hfield, hnegotiated.1⟩, rfl⟩
      · exact absurd hmasks hno

/-- Two topics with names of one letter are told apart. -/
theorem version_detected_two :
    (∃ decoded, decodeMetadataResponse {} 0 (encodeMetadataResponse
      ⟨3, 1, [⟨[97], 0, 5⟩, ⟨[98], 0, 7⟩]⟩ 4) = .ok decoded ∧
        decoded.topics = [⟨[97], 0, 5⟩, ⟨[98], 0, 7⟩]) ∧
      ∃ decoded, decodeMetadataResponse {} 0 (encodeMetadataResponse
        ⟨3, 1, [⟨[97], 0, 5⟩, ⟨[98], 0, 7⟩]⟩ 5) = .ok decoded ∧
          decoded.topics = [⟨[97], 0, 5⟩, ⟨[98], 0, 7⟩] := by
  have hboth := (version_detected_iff {} ⟨3, 1, [⟨[97], 0, 5⟩, ⟨[98], 0, 7⟩]⟩ 1 (by decide)
    (by decide) (by norm_num) ?_).mpr ?_
  · exact ⟨hboth 4 (Or.inl rfl), hboth 5 (Or.inr rfl)⟩
  · intro topic htopic
    rcases List.mem_cons.mp htopic with rfl | htopic
    · exact ⟨⟨by norm_num [Short], by norm_num, by norm_num⟩, by decide⟩
    · obtain rfl := List.mem_singleton.mp htopic
      exact ⟨⟨by norm_num [Short], by norm_num, by norm_num⟩, by decide⟩
  · rintro ⟨hcount, -⟩
    exact absurd hcount (by decide)

/-- One topic with a name of one letter is refused. -/
theorem version_misdetected :
    decodeMetadataResponse {} 0 (encodeMetadataResponse ⟨3, 1, [⟨[116], 0, 5⟩]⟩ 4) =
      .error ⟨.malformedPayload, "malformed metadata response payload"⟩ := by
  decide

end BoltStream.Protocol
