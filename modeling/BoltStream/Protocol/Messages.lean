import BoltStream.Lib.BigEndian

/-!
# Requests and responses

The error codes and the message records that broker operations take and
return.
-/

namespace BoltStream.Protocol

open BoltStream.Lib

inductive ErrorCode where
  | invalidMagic
  | unsupportedVersion
  | invalidLength
  | crcMismatch
  | malformedPayload
  | unsupportedRequest
  | notImplemented
  | internalError
  | reservedFlags
  | unauthorized
  | unknownTopic
  | topicConflict
  | invalidPartition
  | invalidGroup
  | invalidOffset
  | overloaded
  | rebalanceRequired
  | staleMember
  | offsetOutOfRange
  | groupActive
  | unsupportedCodec
  | invalidBatch
  deriving DecidableEq, Repr

structure ProduceRequest where
  topic : Bytes
  key : Bytes
  message : Bytes
  deriving DecidableEq, Repr

structure ProduceResponse where
  topic : Bytes := []
  partition : ℕ := 0
  offset : ℕ := 0
  nextOffset : ℕ := 0
  encodedByteSize : ℕ := 0
  deriving DecidableEq, Repr

end BoltStream.Protocol
