import BoltStream.Protocol.GroupMessages
import BoltStream.Protocol.RecordMessages
import BoltStream.Protocol.TopicMessages

/-!
# Exact codecs

The table of all payload messages with their encoders, decoders and valid
values.  A decoder takes back what its encoder wrote, and a payload that it
accepts is the encoding of the message it returns, so that a message has one
payload.
-/

namespace BoltStream.Protocol

open BoltStream.Lib BoltStream.Compression

structure PayloadCodec where
  Value : Type
  encode : Value → Bytes
  decode : Bytes → Except DecodeError Value
  /-- The values whose fields fit and pass the decoder's checks. -/
  Valid : Value → Prop
  /-- The payloads that their messages determine. -/
  Determined : Bytes → Prop := fun _ ↦ True

/-- The payload messages.  A record set comes with the count that is expected of it,
and a metadata response with its version and the object it is decoded into. -/
inductive PayloadType where
  | errorResponse
  /-- `HealthRequest`, `ListTopicsRequest` and, at version 4, `MetadataRequest` -/
  | emptyRequest
  | healthResponse
  | authRequest
  | authResponse
  | createTopicRequest
  | createTopicResponse
  | produceRequest
  | produceResponse
  | recordSet (expectedCount : ℕ)
  | produceBatchRequest
  | produceBatchResponse
  | fetchRequest
  | fetchResponse
  | offsetCommitRequest
  | offsetCommitResponse
  | joinGroupRequest
  | joinGroupResponse
  | syncGroupRequest
  | syncGroupResponse
  | heartbeatRequest
  | heartbeatResponse
  | leaveGroupRequest
  | leaveGroupResponse
  | groupOffsetCommitRequest
  | groupOffsetCommitResponse
  | listTopicsResponse
  | describeTopicRequest
  | describeTopicResponse
  | deleteTopicRequest
  | deleteTopicResponse
  | runRetentionRequest
  | runRetentionResponse
  | describeGroupRequest
  | describeGroupResponse
  | resetGroupOffsetRequest
  | resetGroupOffsetResponse
  | metadataRequest
  | metadataResponseFour (response : MetadataResponse)
  | metadataResponseFive (response : MetadataResponse)

/-- The codec of a decoder that reads the fields and then runs its checks. -/
def PayloadCodec.checked {α : Type} (encode : α → Bytes) (decode : Bytes → Except DecodeError α)
    (Fits : α → Prop) (checks : α → List (Bool × String)) : PayloadCodec :=
  { Value := α
    encode := encode
    decode := decode
    Valid := fun value ↦ Fits value ∧ Passes checks value }

def PayloadType.codec (Z : Zstd) : PayloadType → PayloadCodec
  | .errorResponse =>
      .checked encodeErrorResponse decodeErrorResponse ErrorResponse.Fits fun _ ↦ []
  | .emptyRequest =>
      { Value := Unit
        encode := fun _ ↦ []
        decode := validateEmptyPayload
        Valid := fun _ ↦ True }
  | .healthResponse =>
      .checked encodeHealthResponse decodeHealthResponse HealthResponse.Fits fun _ ↦ []
  | .authRequest =>
      .checked encodeAuthRequest decodeAuthRequest AuthRequest.Fits AuthRequest.checks
  | .authResponse => .checked encodeAuthResponse decodeAuthResponse AuthResponse.Fits fun _ ↦ []
  | .createTopicRequest =>
      .checked encodeCreateTopicRequest decodeCreateTopicRequest CreateTopicRequest.Fits
        CreateTopicRequest.checks
  | .createTopicResponse =>
      .checked encodeCreateTopicResponse decodeCreateTopicResponse CreateTopicResponse.Fits
        fun _ ↦ []
  | .produceRequest =>
      { Value := ProduceRequest
        encode := fun value ↦ encodeProduceRequest value.topic value.key value.message
        decode := decodeProduceRequest
        Valid := fun value ↦ value.Fits ∧ Passes ProduceRequest.checks value }
  | .produceResponse =>
      .checked encodeProduceResponse decodeProduceResponse ProduceResponse.Fits fun _ ↦ []
  | .recordSet expectedCount =>
      { Value := List BatchRecord
        encode := encodeRecordSet
        decode := decodeRecordSetPayload expectedCount
        Valid := RecordSetFits expectedCount }
  | .produceBatchRequest =>
      { Value := ProduceBatchRequest
        encode := encodeProduceBatchRequest
        decode := decodeProduceBatchRequest
        Valid := ProduceBatchRequest.Valid
        Determined := fun _ ↦ False }
  | .produceBatchResponse =>
      .checked encodeProduceBatchResponse decodeProduceBatchResponse ProduceBatchResponse.Fits
        fun _ ↦ []
  | .fetchRequest =>
      .checked encodeFetchRequest decodeFetchRequest FetchRequest.Fits FetchRequest.checks
  | .fetchResponse =>
      { Value := FetchResponse
        encode := encodeFetchResponse
        decode := decodeFetchResponse Z
        Valid := fun value ↦ value.Fits ∧ value.records.length ≠ kCompressedFetchMarker
        Determined := Plain }
  | .offsetCommitRequest =>
      .checked encodeOffsetCommitRequest decodeOffsetCommitRequest OffsetCommit.Fits
        offsetCommitRequestChecks
  | .offsetCommitResponse =>
      .checked encodeOffsetCommitResponse decodeOffsetCommitResponse OffsetCommit.Fits fun _ ↦ []
  | .joinGroupRequest =>
      .checked encodeJoinGroupRequest decodeJoinGroupRequest JoinGroupRequest.Fits
        JoinGroupRequest.checks
  | .joinGroupResponse =>
      .checked encodeJoinGroupResponse decodeJoinGroupResponse GroupMember.Fits fun _ ↦ []
  | .syncGroupRequest =>
      .checked encodeSyncGroupRequest decodeSyncGroupRequest GroupMember.Fits
        (memberChecks "sync-group")
  | .syncGroupResponse =>
      .checked encodeSyncGroupResponse decodeSyncGroupResponse SyncGroupResponse.Fits fun _ ↦ []
  | .heartbeatRequest =>
      .checked encodeHeartbeatRequest decodeHeartbeatRequest GroupMember.Fits
        (memberChecks "heartbeat")
  | .heartbeatResponse =>
      .checked encodeHeartbeatResponse decodeHeartbeatResponse GroupMemberStatus.Fits fun _ ↦ []
  | .leaveGroupRequest =>
      .checked encodeLeaveGroupRequest decodeLeaveGroupRequest GroupMember.Fits
        (memberChecks "leave-group")
  | .leaveGroupResponse =>
      .checked encodeLeaveGroupResponse decodeLeaveGroupResponse GroupMemberStatus.Fits fun _ ↦ []
  | .groupOffsetCommitRequest =>
      .checked encodeGroupOffsetCommitRequest decodeGroupOffsetCommitRequest GroupOffsetCommit.Fits
        groupOffsetCommitRequestChecks
  | .groupOffsetCommitResponse =>
      .checked encodeGroupOffsetCommitResponse decodeGroupOffsetCommitResponse
        GroupOffsetCommit.Fits fun _ ↦ []
  | .listTopicsResponse =>
      .checked encodeListTopicsResponse decodeListTopicsResponse ListTopicsResponse.Fits
        fun _ ↦ []
  | .describeTopicRequest =>
      .checked encodeDescribeTopicRequest decodeDescribeTopicRequest DescribeTopicRequest.Fits
        DescribeTopicRequest.checks
  | .describeTopicResponse =>
      .checked encodeDescribeTopicResponse decodeDescribeTopicResponse DescribeTopicResponse.Fits
        fun _ ↦ []
  | .deleteTopicRequest =>
      .checked encodeDeleteTopicRequest decodeDeleteTopicRequest DeleteTopicRequest.Fits
        DeleteTopicRequest.checks
  | .deleteTopicResponse =>
      .checked encodeDeleteTopicResponse decodeDeleteTopicResponse DeleteTopicResponse.Fits
        fun _ ↦ []
  | .runRetentionRequest =>
      .checked encodeRunRetentionRequest decodeRunRetentionRequest RunRetentionRequest.Fits
        fun _ ↦ []
  | .runRetentionResponse =>
      .checked encodeRunRetentionResponse decodeRunRetentionResponse RunRetentionResponse.Fits
        fun _ ↦ []
  | .describeGroupRequest =>
      .checked encodeDescribeGroupRequest decodeDescribeGroupRequest DescribeGroupRequest.Fits
        DescribeGroupRequest.checks
  | .describeGroupResponse =>
      .checked encodeDescribeGroupResponse decodeDescribeGroupResponse DescribeGroupResponse.Fits
        fun _ ↦ []
  | .resetGroupOffsetRequest =>
      .checked encodeResetGroupOffsetRequest decodeResetGroupOffsetRequest
        ResetGroupOffsetRequest.Fits ResetGroupOffsetRequest.checks
  | .resetGroupOffsetResponse =>
      .checked encodeResetGroupOffsetResponse decodeResetGroupOffsetResponse
        ResetGroupOffsetResponse.Fits fun _ ↦ []
  | .metadataRequest =>
      { Value := ℕ
        encode := encodeMetadataRequest
        decode := decodeMetadataRequest
        Valid := fun value ↦ value < 2 ^ 32 ∧ Passes metadataRequestChecks value }
  | .metadataResponseFour response =>
      { Value := MetadataResponse
        encode := fun value ↦ encodeMetadataResponse value 4
        decode := decodeMetadataResponse response 4
        Valid := response.Carries 4 }
  | .metadataResponseFive response =>
      { Value := MetadataResponse
        encode := fun value ↦ encodeMetadataResponse value 5
        decode := decodeMetadataResponse response 5
        Valid := response.Carries 5 }

theorem plain_encodeFetchResponse {response : FetchResponse} (h : response.Fits) :
    Plain (encodeFetchResponse response) ↔ response.records.length ≠ kCompressedFetchMarker := by
  obtain ⟨htopic, -, hfrom, hnext, hcount, -⟩ := h
  have hhead : readFetchResponseHead (encodeFetchResponse response) =
      some (⟨response.topic, response.partition % 2 ^ 16, response.fromOffset,
        response.nextOffset, []⟩, response.records.length,
        response.records.flatMap FetchRecord.encode) :=
    readFetchResponseHead_head htopic hfrom hnext hcount _
  constructor
  · intro hplain
    exact hplain _ _ _ hhead
  · intro hmarker head count rest hread
    obtain ⟨-, hread⟩ := Prod.mk.inj (Option.some.inj (hhead.symm.trans hread))
    obtain ⟨rfl, -⟩ := Prod.mk.inj hread
    exact hmarker

/-- What the codecs of the table have in common.  The converse speaks of the payloads
that their messages determine. -/
structure PayloadCodec.Exact (codec : PayloadCodec) : Prop where
  decode_encode : ∀ value, codec.Valid value → codec.decode (codec.encode value) = .ok value
  encode_decode : ∀ payload value, codec.Determined payload →
    codec.decode payload = .ok value → codec.Valid value ∧ codec.encode value = payload

namespace PayloadCodec.Exact

theorem of_decoder {codec : PayloadCodec}
    (h : ExactDecoder codec.encode codec.decode codec.Valid) : codec.Exact :=
  ⟨h.decode_encode, fun payload value _ hdecode ↦ h.encode_decode payload value hdecode⟩

theorem checked {α : Type} {write : α → Bytes} {read : PayloadReader α} {Fits : α → Prop}
    (h : Lib.Exact write read Fits) (malformed : String) (checks : α → List (Bool × String)) :
    (PayloadCodec.checked write (decodePayload read malformed checks) Fits checks).Exact :=
  of_decoder (decodePayload_exact h malformed checks)

end PayloadCodec.Exact

theorem fetchResponse_exact (Z : Zstd) : (PayloadType.fetchResponse.codec Z).Exact := by
  have hexact := decodePayload_exact plainResponse_exact "malformed fetch response payload"
    fun _ ↦ []
  constructor
  · rintro response ⟨hfits, hmarker⟩
    have hplain := (plain_encodeFetchResponse hfits).mpr hmarker
    exact (decodeFetchResponse_plain Z hplain).trans
      (hexact.decode_encode response ⟨hfits, passes_nil response⟩)
  · intro payload response hplain hdecode
    obtain ⟨⟨hfits, -⟩, rfl⟩ :=
      hexact.encode_decode _ _ ((decodeFetchResponse_plain Z hplain).symm.trans hdecode)
    exact ⟨⟨hfits, (plain_encodeFetchResponse hfits).mp hplain⟩, rfl⟩

theorem produceRequest_codec_exact (Z : Zstd) : (PayloadType.produceRequest.codec Z).Exact := by
  apply PayloadCodec.Exact.of_decoder
  have hdecode : decodeProduceRequest = _ := funext decodeProduceRequest_eq
  change ExactDecoder _ decodeProduceRequest _
  rw [hdecode]
  exact decodePayload_exact produceRequest_exact _ _

theorem PayloadType.codec_exact (Z : Zstd) (type : PayloadType) : (type.codec Z).Exact := by
  cases type with
  | produceRequest => exact produceRequest_codec_exact Z
  | fetchResponse => exact fetchResponse_exact Z
  | produceBatchRequest =>
      exact ⟨fun _ hvalid ↦ decodeProduceBatchRequest_encode hvalid, fun _ _ hnone ↦ hnone.elim⟩
  | emptyRequest => exact .of_decoder validateEmptyPayload_exact
  | recordSet expectedCount => exact .of_decoder (recordSet_exact expectedCount)
  | metadataResponseFour response => exact .of_decoder (metadataResponse_exact_four response)
  | metadataResponseFive response => exact .of_decoder (metadataResponse_exact_five response)
  | metadataRequest => exact .checked u32_exact _ _
  | errorResponse => exact .checked errorResponse_exact _ _
  | healthResponse => exact .checked healthResponse_exact _ _
  | authRequest => exact .checked authRequest_exact _ _
  | authResponse => exact .checked authResponse_exact _ _
  | createTopicRequest => exact .checked createTopicRequest_exact _ _
  | createTopicResponse => exact .checked createTopicResponse_exact _ _
  | produceResponse => exact .checked produceResponse_exact _ _
  | produceBatchResponse => exact .checked produceBatchResponse_exact _ _
  | fetchRequest => exact .checked fetchRequest_exact _ _
  | offsetCommitRequest => exact .checked offsetCommit_exact _ _
  | offsetCommitResponse => exact .checked offsetCommit_exact _ _
  | joinGroupRequest => exact .checked joinGroupRequest_exact _ _
  | joinGroupResponse => exact .checked groupMember_exact _ _
  | syncGroupRequest => exact .checked groupMember_exact _ _
  | syncGroupResponse => exact .checked syncGroupResponse_exact _ _
  | heartbeatRequest => exact .checked groupMember_exact _ _
  | heartbeatResponse => exact .checked groupMemberStatus_exact _ _
  | leaveGroupRequest => exact .checked groupMember_exact _ _
  | leaveGroupResponse => exact .checked groupMemberStatus_exact _ _
  | groupOffsetCommitRequest => exact .checked groupOffsetCommit_exact _ _
  | groupOffsetCommitResponse => exact .checked groupOffsetCommit_exact _ _
  | listTopicsResponse => exact .checked listTopicsResponse_exact _ _
  | describeTopicRequest => exact .checked describeTopicRequest_exact _ _
  | describeTopicResponse => exact .checked describeTopicResponse_exact _ _
  | deleteTopicRequest => exact .checked deleteTopicRequest_exact _ _
  | deleteTopicResponse => exact .checked deleteTopicResponse_exact _ _
  | runRetentionRequest => exact .checked runRetentionRequest_exact _ _
  | runRetentionResponse => exact .checked runRetentionResponse_exact _ _
  | describeGroupRequest => exact .checked describeGroupRequest_exact _ _
  | describeGroupResponse => exact .checked describeGroupResponse_exact _ _
  | resetGroupOffsetRequest => exact .checked resetGroupOffsetRequest_exact _ _
  | resetGroupOffsetResponse => exact .checked resetGroupOffsetResponse_exact _ _

/-- Every codec takes back the valid values it encodes; what it accepts is the encoding
of the message it returns; so no other payload, and no shorter or longer one, is
accepted as the same message. -/
theorem payload_codecs_exact (Z : Zstd) (type : PayloadType) :
    (∀ value, (type.codec Z).Valid value →
      (type.codec Z).decode ((type.codec Z).encode value) = .ok value) ∧
    (∀ payload value, (type.codec Z).Determined payload →
      (type.codec Z).decode payload = .ok value → (type.codec Z).encode value = payload) ∧
    (∀ payload other value, (type.codec Z).Determined payload → (type.codec Z).Determined other →
      (type.codec Z).decode payload = .ok value → (type.codec Z).decode other = .ok value →
      payload = other) ∧
    ∀ payload rest value, (type.codec Z).Determined payload →
      (type.codec Z).Determined (payload ++ rest) → (type.codec Z).decode payload = .ok value →
      (type.codec Z).decode (payload ++ rest) = .ok value → rest = [] := by
  have hexact := type.codec_exact Z
  have hencode : ∀ payload value, (type.codec Z).Determined payload →
      (type.codec Z).decode payload = .ok value → (type.codec Z).encode value = payload :=
    fun payload value hdetermined hdecode ↦
      (hexact.encode_decode payload value hdetermined hdecode).2
  refine ⟨hexact.decode_encode, hencode, ?_, ?_⟩
  · intro payload other value hpayload hother hdecode hdecodeOther
    exact (hencode payload value hpayload hdecode).symm.trans
      (hencode other value hother hdecodeOther)
  · intro payload rest value hpayload hlonger hdecode hdecodeLonger
    have hsame : payload = payload ++ rest :=
      (hencode payload value hpayload hdecode).symm.trans
        (hencode _ value hlonger hdecodeLonger)
    exact List.self_eq_append_right.mp hsame

/-- Version 4 carries no codecs: a response that names both comes back with those
that its reader started from. -/
theorem metadata_four_loses_codecs :
    decodeMetadataResponse {} 4 (encodeMetadataResponse ⟨3, 3, []⟩ 4) = .ok ⟨1, 1, []⟩ ∧
      decodeMetadataResponse {} 4 (encodeMetadataResponse ⟨3, 3, []⟩ 4) ≠ .ok ⟨3, 3, []⟩ := by
  have hcarries : MetadataResponse.Carries {} 4 ⟨1, 1, []⟩ := by
    refine ⟨⟨by simp, by simp⟩, rfl, rfl⟩
  have hread : decodeMetadataResponse {} 4 (encodeMetadataResponse ⟨3, 3, []⟩ 4) =
      .ok ⟨1, 1, []⟩ :=
    (metadataResponse_exact_four {}).decode_encode ⟨1, 1, []⟩ hcarries
  refine ⟨hread, ?_⟩
  rw [hread]
  intro hsame
  cases hsame

end BoltStream.Protocol
