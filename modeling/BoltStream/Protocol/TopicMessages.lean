import BoltStream.Protocol.Payloads

/-!
# Sessions and topics

The payloads of the messages that open a session and of those that create,
describe, delete and trim topics.  Every message has an encoder, the reader that
its decoder runs, and the decoder, each as the source writes it out; the encoder
and the reader are then shown to be exact, field by field.
-/

namespace BoltStream.Protocol

open BoltStream.Lib PayloadReader

/-! ## Errors, health and authentication -/

/-- The code is the value of the 32-bit enumeration; a cast can leave it outside
the enumerators. -/
structure ErrorResponse where
  code : ℕ
  message : Bytes
  deriving DecidableEq, Repr

def encodeErrorResponse (response : ErrorResponse) : Bytes :=
  writeU32 response.code ++ writeBytes response.message

def readErrorResponse : PayloadReader ErrorResponse := do
  let code ← u32
  let message ← string
  return ⟨code, message⟩

def decodeErrorResponse : Bytes → Except DecodeError ErrorResponse :=
  decodePayload readErrorResponse "malformed error response payload" fun _ ↦ []

def ErrorResponse.Fits (response : ErrorResponse) : Prop :=
  response.code < 2 ^ 32 ∧ Short response.message

theorem errorResponse_exact :
    Exact encodeErrorResponse readErrorResponse ErrorResponse.Fits := by
  refine .field ErrorResponse.code u32_exact fun code ↦ ?_
  refine .last ErrorResponse.message string_exact ?_
  rintro ⟨⟩
  grind

structure HealthResponse where
  status : Bytes
  detail : Bytes
  deriving DecidableEq, Repr

def encodeHealthResponse (response : HealthResponse) : Bytes :=
  writeBytes response.status ++ writeBytes response.detail

def readHealthResponse : PayloadReader HealthResponse := do
  let status ← string
  let detail ← string
  return ⟨status, detail⟩

def decodeHealthResponse : Bytes → Except DecodeError HealthResponse :=
  decodePayload readHealthResponse "malformed health response payload" fun _ ↦ []

def HealthResponse.Fits (response : HealthResponse) : Prop :=
  Short response.status ∧ Short response.detail

theorem healthResponse_exact :
    Exact encodeHealthResponse readHealthResponse HealthResponse.Fits := by
  refine .field HealthResponse.status string_exact fun status ↦ ?_
  refine .last HealthResponse.detail string_exact ?_
  rintro ⟨⟩
  grind

structure AuthRequest where
  token : Bytes
  deriving DecidableEq, Repr

def encodeAuthRequest (request : AuthRequest) : Bytes := writeBytes request.token

def readAuthRequest : PayloadReader AuthRequest := do
  let token ← string
  return ⟨token⟩

def AuthRequest.checks (request : AuthRequest) : List (Bool × String) :=
  [(request.token.isEmpty, "auth token must not be empty")]

def decodeAuthRequest : Bytes → Except DecodeError AuthRequest :=
  decodePayload readAuthRequest "malformed auth request payload" AuthRequest.checks

def AuthRequest.Fits (request : AuthRequest) : Prop := Short request.token

theorem authRequest_exact : Exact encodeAuthRequest readAuthRequest AuthRequest.Fits := by
  refine .last AuthRequest.token string_exact ?_
  rintro ⟨⟩
  grind

structure AuthResponse where
  status : Bytes
  deriving DecidableEq, Repr

def encodeAuthResponse (response : AuthResponse) : Bytes := writeBytes response.status

def readAuthResponse : PayloadReader AuthResponse := do
  let status ← string
  return ⟨status⟩

def decodeAuthResponse : Bytes → Except DecodeError AuthResponse :=
  decodePayload readAuthResponse "malformed auth response payload" fun _ ↦ []

def AuthResponse.Fits (response : AuthResponse) : Prop := Short response.status

theorem authResponse_exact : Exact encodeAuthResponse readAuthResponse AuthResponse.Fits := by
  refine .last AuthResponse.status string_exact ?_
  rintro ⟨⟩
  grind

/-! ## Creating and deleting topics -/

structure CreateTopicRequest where
  topic : Bytes
  partitionCount : ℕ
  deriving DecidableEq, Repr

def encodeCreateTopicRequest (request : CreateTopicRequest) : Bytes :=
  writeBytes request.topic ++ writeU16 request.partitionCount

def readCreateTopicRequest : PayloadReader CreateTopicRequest := do
  let topic ← string
  let partitionCount ← u16
  return ⟨topic, partitionCount⟩

def CreateTopicRequest.checks (request : CreateTopicRequest) : List (Bool × String) :=
  [(request.topic.isEmpty, "create-topic topic must not be empty"),
    (request.partitionCount == 0, "create-topic partition count must be greater than zero")]

def decodeCreateTopicRequest : Bytes → Except DecodeError CreateTopicRequest :=
  decodePayload readCreateTopicRequest "malformed create-topic request payload"
    CreateTopicRequest.checks

def CreateTopicRequest.Fits (request : CreateTopicRequest) : Prop :=
  Short request.topic ∧ request.partitionCount < 2 ^ 16

theorem createTopicRequest_exact :
    Exact encodeCreateTopicRequest readCreateTopicRequest CreateTopicRequest.Fits := by
  refine .field CreateTopicRequest.topic string_exact fun topic ↦ ?_
  refine .last CreateTopicRequest.partitionCount u16_exact ?_
  rintro ⟨⟩
  grind

structure CreateTopicResponse where
  topic : Bytes
  partitionCount : ℕ
  status : Bytes
  deriving DecidableEq, Repr

def encodeCreateTopicResponse (response : CreateTopicResponse) : Bytes :=
  writeBytes response.topic ++ (writeU16 response.partitionCount ++ writeBytes response.status)

def readCreateTopicResponse : PayloadReader CreateTopicResponse := do
  let topic ← string
  let partitionCount ← u16
  let status ← string
  return ⟨topic, partitionCount, status⟩

def decodeCreateTopicResponse : Bytes → Except DecodeError CreateTopicResponse :=
  decodePayload readCreateTopicResponse "malformed create-topic response payload" fun _ ↦ []

def CreateTopicResponse.Fits (response : CreateTopicResponse) : Prop :=
  Short response.topic ∧ response.partitionCount < 2 ^ 16 ∧ Short response.status

theorem createTopicResponse_exact :
    Exact encodeCreateTopicResponse readCreateTopicResponse CreateTopicResponse.Fits := by
  refine .field CreateTopicResponse.topic string_exact fun topic ↦ ?_
  refine .field CreateTopicResponse.partitionCount u16_exact fun partitionCount ↦ ?_
  refine .last CreateTopicResponse.status string_exact ?_
  rintro ⟨⟩
  grind

structure DeleteTopicRequest where
  topic : Bytes
  deriving DecidableEq, Repr

def encodeDeleteTopicRequest (request : DeleteTopicRequest) : Bytes := writeBytes request.topic

def readDeleteTopicRequest : PayloadReader DeleteTopicRequest := do
  let topic ← string
  return ⟨topic⟩

def DeleteTopicRequest.checks (request : DeleteTopicRequest) : List (Bool × String) :=
  [(request.topic.isEmpty, "delete-topic topic must not be empty")]

def decodeDeleteTopicRequest : Bytes → Except DecodeError DeleteTopicRequest :=
  decodePayload readDeleteTopicRequest "malformed delete-topic request payload"
    DeleteTopicRequest.checks

def DeleteTopicRequest.Fits (request : DeleteTopicRequest) : Prop := Short request.topic

theorem deleteTopicRequest_exact :
    Exact encodeDeleteTopicRequest readDeleteTopicRequest DeleteTopicRequest.Fits := by
  refine .last DeleteTopicRequest.topic string_exact ?_
  rintro ⟨⟩
  grind

structure DeleteTopicResponse where
  topic : Bytes
  status : Bytes
  partitionsDeleted : ℕ
  segmentsDeleted : ℕ
  bytesDeleted : ℕ
  offsetsRemoved : ℕ
  deriving DecidableEq, Repr

def encodeDeleteTopicResponse (response : DeleteTopicResponse) : Bytes :=
  writeBytes response.topic ++ (writeBytes response.status ++
    (writeU16 response.partitionsDeleted ++ (writeU32 response.segmentsDeleted ++
      (writeU64 response.bytesDeleted ++ writeU32 response.offsetsRemoved))))

def readDeleteTopicResponse : PayloadReader DeleteTopicResponse := do
  let topic ← string
  let status ← string
  let partitionsDeleted ← u16
  let segmentsDeleted ← u32
  let bytesDeleted ← u64
  let offsetsRemoved ← u32
  return ⟨topic, status, partitionsDeleted, segmentsDeleted, bytesDeleted, offsetsRemoved⟩

def decodeDeleteTopicResponse : Bytes → Except DecodeError DeleteTopicResponse :=
  decodePayload readDeleteTopicResponse "malformed delete-topic response payload" fun _ ↦ []

def DeleteTopicResponse.Fits (response : DeleteTopicResponse) : Prop :=
  Short response.topic ∧ Short response.status ∧ response.partitionsDeleted < 2 ^ 16 ∧
    response.segmentsDeleted < 2 ^ 32 ∧ response.bytesDeleted < 2 ^ 64 ∧
    response.offsetsRemoved < 2 ^ 32

theorem deleteTopicResponse_exact :
    Exact encodeDeleteTopicResponse readDeleteTopicResponse DeleteTopicResponse.Fits := by
  refine .field DeleteTopicResponse.topic string_exact fun topic ↦ ?_
  refine .field DeleteTopicResponse.status string_exact fun status ↦ ?_
  refine .field DeleteTopicResponse.partitionsDeleted u16_exact fun partitionsDeleted ↦ ?_
  refine .field DeleteTopicResponse.segmentsDeleted u32_exact fun segmentsDeleted ↦ ?_
  refine .field DeleteTopicResponse.bytesDeleted u64_exact fun bytesDeleted ↦ ?_
  refine .last DeleteTopicResponse.offsetsRemoved u32_exact ?_
  rintro ⟨⟩
  grind

/-! ## Describing topics -/

structure TopicPartitionDescription where
  partition : ℕ
  earliestOffset : ℕ
  nextOffset : ℕ
  segmentCount : ℕ
  logBytes : ℕ
  deriving DecidableEq, Repr

def writeTopicPartitionDescription (partition : TopicPartitionDescription) : Bytes :=
  writeU16 partition.partition ++ (writeU64 partition.earliestOffset ++
    (writeU64 partition.nextOffset ++ (writeU32 partition.segmentCount ++
      writeU64 partition.logBytes)))

def readTopicPartitionDescription : PayloadReader TopicPartitionDescription := do
  let partition ← u16
  let earliestOffset ← u64
  let nextOffset ← u64
  let segmentCount ← u32
  let logBytes ← u64
  return ⟨partition, earliestOffset, nextOffset, segmentCount, logBytes⟩

def TopicPartitionDescription.Fits (partition : TopicPartitionDescription) : Prop :=
  partition.partition < 2 ^ 16 ∧ partition.earliestOffset < 2 ^ 64 ∧
    partition.nextOffset < 2 ^ 64 ∧ partition.segmentCount < 2 ^ 32 ∧
    partition.logBytes < 2 ^ 64

theorem topicPartitionDescription_exact :
    Exact writeTopicPartitionDescription readTopicPartitionDescription
      TopicPartitionDescription.Fits := by
  refine .field TopicPartitionDescription.partition u16_exact fun partition ↦ ?_
  refine .field TopicPartitionDescription.earliestOffset u64_exact fun earliestOffset ↦ ?_
  refine .field TopicPartitionDescription.nextOffset u64_exact fun nextOffset ↦ ?_
  refine .field TopicPartitionDescription.segmentCount u32_exact fun segmentCount ↦ ?_
  refine .last TopicPartitionDescription.logBytes u64_exact ?_
  rintro ⟨⟩
  grind

structure TopicDescription where
  topic : Bytes
  partitionCount : ℕ
  logBytes : ℕ
  partitions : List TopicPartitionDescription
  deriving DecidableEq, Repr

def writeTopicDescription (topic : TopicDescription) : Bytes :=
  writeBytes topic.topic ++ (writeU16 topic.partitionCount ++ (writeU64 topic.logBytes ++
    writeCounted writeTopicPartitionDescription topic.partitions))

def readTopicDescription : PayloadReader TopicDescription := do
  let topic ← string
  let partitionCount ← u16
  let logBytes ← u64
  let partitions ← counted readTopicPartitionDescription
  return ⟨topic, partitionCount, logBytes, partitions⟩

def TopicDescription.Fits (topic : TopicDescription) : Prop :=
  Short topic.topic ∧ topic.partitionCount < 2 ^ 16 ∧ topic.logBytes < 2 ^ 64 ∧
    topic.partitions.length < 2 ^ 32 ∧ ∀ partition ∈ topic.partitions, partition.Fits

theorem topicDescription_exact :
    Exact writeTopicDescription readTopicDescription TopicDescription.Fits := by
  refine .field TopicDescription.topic string_exact fun topic ↦ ?_
  refine .field TopicDescription.partitionCount u16_exact fun partitionCount ↦ ?_
  refine .field TopicDescription.logBytes u64_exact fun logBytes ↦ ?_
  refine .last TopicDescription.partitions (counted_exact topicPartitionDescription_exact) ?_
  rintro ⟨⟩
  grind

structure ListTopicsResponse where
  topics : List TopicDescription
  deriving DecidableEq, Repr

def encodeListTopicsResponse (response : ListTopicsResponse) : Bytes :=
  writeCounted writeTopicDescription response.topics

def readListTopicsResponse : PayloadReader ListTopicsResponse := do
  let topics ← counted readTopicDescription
  return ⟨topics⟩

def decodeListTopicsResponse : Bytes → Except DecodeError ListTopicsResponse :=
  decodePayload readListTopicsResponse "malformed list-topics response payload" fun _ ↦ []

def ListTopicsResponse.Fits (response : ListTopicsResponse) : Prop :=
  response.topics.length < 2 ^ 32 ∧ ∀ topic ∈ response.topics, topic.Fits

theorem listTopicsResponse_exact :
    Exact encodeListTopicsResponse readListTopicsResponse ListTopicsResponse.Fits := by
  refine .last ListTopicsResponse.topics (counted_exact topicDescription_exact) ?_
  rintro ⟨⟩
  grind

structure DescribeTopicRequest where
  topic : Bytes
  deriving DecidableEq, Repr

def encodeDescribeTopicRequest (request : DescribeTopicRequest) : Bytes :=
  writeBytes request.topic

def readDescribeTopicRequest : PayloadReader DescribeTopicRequest := do
  let topic ← string
  return ⟨topic⟩

def DescribeTopicRequest.checks (request : DescribeTopicRequest) : List (Bool × String) :=
  [(request.topic.isEmpty, "describe-topic topic must not be empty")]

def decodeDescribeTopicRequest : Bytes → Except DecodeError DescribeTopicRequest :=
  decodePayload readDescribeTopicRequest "malformed describe-topic request payload"
    DescribeTopicRequest.checks

def DescribeTopicRequest.Fits (request : DescribeTopicRequest) : Prop := Short request.topic

theorem describeTopicRequest_exact :
    Exact encodeDescribeTopicRequest readDescribeTopicRequest DescribeTopicRequest.Fits := by
  refine .last DescribeTopicRequest.topic string_exact ?_
  rintro ⟨⟩
  grind

structure DescribeTopicResponse where
  topic : TopicDescription
  deriving DecidableEq, Repr

def encodeDescribeTopicResponse (response : DescribeTopicResponse) : Bytes :=
  writeTopicDescription response.topic

def readDescribeTopicResponse : PayloadReader DescribeTopicResponse := do
  let topic ← readTopicDescription
  return ⟨topic⟩

def decodeDescribeTopicResponse : Bytes → Except DecodeError DescribeTopicResponse :=
  decodePayload readDescribeTopicResponse "malformed describe-topic response payload" fun _ ↦ []

def DescribeTopicResponse.Fits (response : DescribeTopicResponse) : Prop := response.topic.Fits

theorem describeTopicResponse_exact :
    Exact encodeDescribeTopicResponse readDescribeTopicResponse DescribeTopicResponse.Fits := by
  refine .last DescribeTopicResponse.topic topicDescription_exact ?_
  rintro ⟨⟩
  grind

/-! ## Retention -/

/-- The empty topic stands for all topics. -/
structure RunRetentionRequest where
  topic : Bytes
  deriving DecidableEq, Repr

def encodeRunRetentionRequest (request : RunRetentionRequest) : Bytes := writeBytes request.topic

def readRunRetentionRequest : PayloadReader RunRetentionRequest := do
  let topic ← string
  return ⟨topic⟩

def decodeRunRetentionRequest : Bytes → Except DecodeError RunRetentionRequest :=
  decodePayload readRunRetentionRequest "malformed run-retention request payload" fun _ ↦ []

def RunRetentionRequest.Fits (request : RunRetentionRequest) : Prop := Short request.topic

theorem runRetentionRequest_exact :
    Exact encodeRunRetentionRequest readRunRetentionRequest RunRetentionRequest.Fits := by
  refine .last RunRetentionRequest.topic string_exact ?_
  rintro ⟨⟩
  grind

structure RetentionPartitionResult where
  topic : Bytes
  partition : ℕ
  segmentsDeleted : ℕ
  bytesDeleted : ℕ
  earliestOffset : ℕ
  nextOffset : ℕ
  deriving DecidableEq, Repr

def writeRetentionPartitionResult (partition : RetentionPartitionResult) : Bytes :=
  writeBytes partition.topic ++ (writeU16 partition.partition ++
    (writeU32 partition.segmentsDeleted ++ (writeU64 partition.bytesDeleted ++
      (writeU64 partition.earliestOffset ++ writeU64 partition.nextOffset))))

def readRetentionPartitionResult : PayloadReader RetentionPartitionResult := do
  let topic ← string
  let partition ← u16
  let segmentsDeleted ← u32
  let bytesDeleted ← u64
  let earliestOffset ← u64
  let nextOffset ← u64
  return ⟨topic, partition, segmentsDeleted, bytesDeleted, earliestOffset, nextOffset⟩

def RetentionPartitionResult.Fits (partition : RetentionPartitionResult) : Prop :=
  Short partition.topic ∧ partition.partition < 2 ^ 16 ∧ partition.segmentsDeleted < 2 ^ 32 ∧
    partition.bytesDeleted < 2 ^ 64 ∧ partition.earliestOffset < 2 ^ 64 ∧
    partition.nextOffset < 2 ^ 64

theorem retentionPartitionResult_exact :
    Exact writeRetentionPartitionResult readRetentionPartitionResult
      RetentionPartitionResult.Fits := by
  refine .field RetentionPartitionResult.topic string_exact fun topic ↦ ?_
  refine .field RetentionPartitionResult.partition u16_exact fun partition ↦ ?_
  refine .field RetentionPartitionResult.segmentsDeleted u32_exact fun segmentsDeleted ↦ ?_
  refine .field RetentionPartitionResult.bytesDeleted u64_exact fun bytesDeleted ↦ ?_
  refine .field RetentionPartitionResult.earliestOffset u64_exact fun earliestOffset ↦ ?_
  refine .last RetentionPartitionResult.nextOffset u64_exact ?_
  rintro ⟨⟩
  grind

structure RunRetentionResponse where
  topic : Bytes
  topicsScanned : ℕ
  partitionsScanned : ℕ
  segmentsDeleted : ℕ
  bytesDeleted : ℕ
  partitions : List RetentionPartitionResult
  deriving DecidableEq, Repr

def encodeRunRetentionResponse (response : RunRetentionResponse) : Bytes :=
  writeBytes response.topic ++ (writeU32 response.topicsScanned ++
    (writeU32 response.partitionsScanned ++ (writeU32 response.segmentsDeleted ++
      (writeU64 response.bytesDeleted ++
        writeCounted writeRetentionPartitionResult response.partitions))))

def readRunRetentionResponse : PayloadReader RunRetentionResponse := do
  let topic ← string
  let topicsScanned ← u32
  let partitionsScanned ← u32
  let segmentsDeleted ← u32
  let bytesDeleted ← u64
  let partitions ← counted readRetentionPartitionResult
  return ⟨topic, topicsScanned, partitionsScanned, segmentsDeleted, bytesDeleted, partitions⟩

def decodeRunRetentionResponse : Bytes → Except DecodeError RunRetentionResponse :=
  decodePayload readRunRetentionResponse "malformed run-retention response payload" fun _ ↦ []

def RunRetentionResponse.Fits (response : RunRetentionResponse) : Prop :=
  Short response.topic ∧ response.topicsScanned < 2 ^ 32 ∧
    response.partitionsScanned < 2 ^ 32 ∧ response.segmentsDeleted < 2 ^ 32 ∧
    response.bytesDeleted < 2 ^ 64 ∧ response.partitions.length < 2 ^ 32 ∧
    ∀ partition ∈ response.partitions, partition.Fits

theorem runRetentionResponse_exact :
    Exact encodeRunRetentionResponse readRunRetentionResponse RunRetentionResponse.Fits := by
  refine .field RunRetentionResponse.topic string_exact fun topic ↦ ?_
  refine .field RunRetentionResponse.topicsScanned u32_exact fun topicsScanned ↦ ?_
  refine .field RunRetentionResponse.partitionsScanned u32_exact fun partitionsScanned ↦ ?_
  refine .field RunRetentionResponse.segmentsDeleted u32_exact fun segmentsDeleted ↦ ?_
  refine .field RunRetentionResponse.bytesDeleted u64_exact fun bytesDeleted ↦ ?_
  refine .last RunRetentionResponse.partitions (counted_exact retentionPartitionResult_exact) ?_
  rintro ⟨⟩
  grind

end BoltStream.Protocol
