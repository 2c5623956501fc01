import BoltStream.Protocol.Wire

/-!
# The Python client

The reference client, with its own framing and its own reader.  Integers are
unbounded, a text is what `encode("utf-8")` accepts, and `zlib.crc32` is an
argument.  A connection is the bytes sent on it and the bytes that will arrive.
-/

namespace BoltStream.Python

open BoltStream.Lib BoltStream.Protocol

def magic : ℕ := 0x42535452
def protocolVersion : ℕ := 4
def headerBytes : ℕ := 32
def maxFrameBytes : ℕ := 1024 * 1024

def errorResponse : ℕ := 1
def fetchRequest : ℕ := 8
def fetchResponse : ℕ := 9
def authRequest : ℕ := 12
def authResponse : ℕ := 13

/-- What a method raises. -/
inductive Exception where
  | boltStreamError (message : String)
  | protocolError (message : String)
  | brokerError (code : ℕ) (message : String)
  /-- `struct.error` -/
  | structError
  /-- Raised by the socket. -/
  | osError (message : String)
  deriving DecidableEq, Repr

/-! ## Bytes and texts -/

def utf8Encode (value : String) : Bytes := value.toUTF8.data.toList

def utf8Decode (bytes : Bytes) : Option String := String.fromUTF8? ⟨bytes.toArray⟩

/-- `struct.pack` with big-endian fields, each with its width in bytes. -/
def structPack : List (ℕ × ℤ) → Except Exception Bytes
  | [] => .ok []
  | (width, value) :: fields =>
      if 0 ≤ value ∧ value < 256 ^ width then
        (structPack fields).map fun packed ↦ beBytes width value.toNat ++ packed
      else .error .structError

def u16 (value : ℤ) : Except Exception Bytes := structPack [(2, value)]

def u32 (value : ℤ) : Except Exception Bytes := structPack [(4, value)]

def bytes (value : Bytes) : Except Exception Bytes :=
  (u32 value.length).map fun size ↦ size ++ value

def text (value : String) : Except Exception Bytes := bytes (utf8Encode value)

/-- The parts of a payload, joined. -/
def concat : List (Except Exception Bytes) → Except Exception Bytes
  | [] => .ok []
  | part :: parts => part.bind fun front ↦ (concat parts).map fun rest ↦ front ++ rest

/-! ## The reader

A reader is the bytes behind its offset. -/

abbrev Reader (α : Type) := StateT Bytes (Except Exception) α

namespace Reader

def take (size : ℕ) : Reader Bytes := fun payload ↦
  if size > payload.length then .error (.protocolError "truncated response payload")
  else .ok (payload.take size, payload.drop size)

def u16 : Reader ℕ := do return beNat (← take 2)

def u32 : Reader ℕ := do return beNat (← take 4)

def u64 : Reader ℕ := do return beNat (← take 8)

def raw : Reader Bytes := do take (← u32)

def text : Reader String := do
  match utf8Decode (← raw) with
  | some value => return value
  | none => throw (.protocolError "response contains invalid UTF-8")

def finish : Reader Unit := fun payload ↦
  if payload ≠ [] then .error (.protocolError "response payload contains trailing bytes")
  else .ok ((), payload)

/-- A list comprehension over `range(count)`. -/
def many {α : Type} (read : Reader α) : ℕ → Reader (List α)
  | 0 => return []
  | count + 1 => do
      let value ← read
      let values ← many read count
      return value :: values

/-- The value read from a whole payload. -/
def parse {α : Type} (read : Reader α) (payload : Bytes) : Except Exception α :=
  (do let value ← read; finish; return value : Reader α).run' payload

end Reader

/-! ## Frames -/

def encodeFrame (zlibCrc32 : Bytes → ℕ) (frameType correlationId : ℤ) (payload : Bytes) :
    Except Exception Bytes :=
  if payload.length + headerBytes > maxFrameBytes then
    .error (.protocolError "request exceeds maximum frame size")
  else
    (structPack [(4, magic), (2, protocolVersion), (2, frameType), (4, headerBytes),
      (4, payload.length), (8, correlationId), (4, 0)]).bind fun front ↦
        (u32 (zlibCrc32 front &&& 0xFFFFFFFF : ℕ)).map fun crc ↦ front ++ (crc ++ payload)

def decodeFrame (zlibCrc32 : Bytes → ℕ) (frame : Bytes) (expectedCorrelationId : Option ℕ) :
    Except Exception (ℕ × Bytes) :=
  let version := readU16Be frame 4
  let payloadBytes := readU32Be frame 12
  if frame.length < headerBytes then .error (.protocolError "truncated frame header")
  else if readU32Be frame 0 ≠ magic then .error (.protocolError "invalid frame magic")
  else if ¬ (version = 4 ∨ version = 5) then
    .error (.protocolError s!"unsupported protocol version {version}")
  else if readU32Be frame 8 ≠ headerBytes ∨ payloadBytes > maxFrameBytes - headerBytes then
    .error (.protocolError "invalid frame length")
  else if readU32Be frame 24 ≠ 0 then .error (.protocolError "reserved frame flags are set")
  else if zlibCrc32 (frame.take 28) &&& 0xFFFFFFFF ≠ readU32Be frame 28 then
    .error (.protocolError "frame header CRC mismatch")
  else if frame.length ≠ headerBytes + payloadBytes then
    .error (.protocolError "frame size does not match payload length")
  else if expectedCorrelationId.any fun expected ↦ readU64Be frame 16 ≠ expected then
    .error (.protocolError "response correlation id does not match request")
  else .ok (readU16Be frame 6, frame.drop headerBytes)

/-! ## The client -/

structure Connection where
  sent : Bytes
  incoming : Bytes
  deriving DecidableEq, Repr

structure Client where
  token : Option String
  socket : Option Connection := none
  correlationId : ℕ := 0
  deriving DecidableEq, Repr

namespace Client

/-- `_receive_exactly`.  The other side closes the connection behind the bytes
that arrive. -/
def receiveExactly (client : Client) (size : ℕ) : Client × Except Exception Bytes :=
  match client.socket with
  | none => (client, .error (.boltStreamError "client is not connected"))
  | some connection =>
      if connection.incoming.length < size then
        ({ client with socket := some { connection with incoming := [] } },
          .error (.protocolError "connection closed while receiving a frame"))
      else
        ({ client with
            socket := some { connection with incoming := connection.incoming.drop size } },
          .ok (connection.incoming.take size))

/-- The response behind a frame that has arrived. -/
def readResponse (zlibCrc32 : Bytes → ℕ) (correlationId responseType : ℕ) (frame : Bytes) :
    Except Exception Bytes :=
  (decodeFrame zlibCrc32 frame (some correlationId)).bind fun decoded ↦
    if decoded.1 = errorResponse then
      (Reader.parse (do return (← Reader.u32, ← Reader.text)) decoded.2).bind fun error ↦
        .error (.brokerError error.1 error.2)
    else if decoded.1 ≠ responseType then
      .error (.protocolError s!"expected frame type {responseType}, received {decoded.1}")
    else .ok decoded.2

/-- `_request` on an open connection. -/
def exchange (zlibCrc32 : Bytes → ℕ) (client : Client) (requestType responseType : ℕ)
    (payload : Bytes) : Client × Except Exception Bytes :=
  let client := { client with correlationId := client.correlationId + 1 }
  match client.socket, encodeFrame zlibCrc32 requestType client.correlationId payload with
  | none, _ => (client, .error (.boltStreamError "client is not connected"))
  | some _, .error exception => (client, .error exception)
  | some connection, .ok frame =>
      let client := { client with
        socket := some { connection with sent := connection.sent ++ frame } }
      match client.receiveExactly headerBytes with
      | (client, .error exception) => (client, .error exception)
      | (client, .ok header) =>
          let payloadBytes := readU32Be header 12
          if payloadBytes > maxFrameBytes - headerBytes then
            (client, .error (.protocolError "response exceeds maximum frame size"))
          else
            match client.receiveExactly payloadBytes with
            | (client, .error exception) => (client, .error exception)
            | (client, .ok body) =>
                (client, readResponse zlibCrc32 client.correlationId responseType (header ++ body))

/-- `connect`.  `network` is what `create_connection` returns or raises.  The text
of a status stands in its error as it is, without quotes. -/
def connect (zlibCrc32 : Bytes → ℕ) (client : Client) (network : Except String Connection) :
    Client × Except Exception Unit :=
  match client.socket, network with
  | some _, _ => (client, .ok ())
  | none, .error message => (client, .error (.osError message))
  | none, .ok connection =>
      let client := { client with socket := some connection }
      match client.token with
      | none => (client, .ok ())
      | some token =>
          if token = "" then (client, .ok ())
          else
            match text token with
            | .error exception => (client, .error exception)
            | .ok payload =>
                let answered := exchange zlibCrc32 client authRequest authResponse payload
                (answered.1, answered.2.bind fun response ↦
                  (Reader.parse Reader.text response).bind fun status ↦
                    if status ≠ "authenticated" then
                      .error (.protocolError s!"unexpected authentication status {status}")
                    else .ok ())

/-- `_request` -/
def request (zlibCrc32 : Bytes → ℕ) (client : Client) (network : Except String Connection)
    (requestType responseType : ℕ) (payload : Bytes) : Client × Except Exception Bytes :=
  match connect zlibCrc32 client network with
  | (client, .error exception) => (client, .error exception)
  | (client, .ok ()) => exchange zlibCrc32 client requestType responseType payload

/-- A method: build the payload, send the request and read the response. -/
def perform {α : Type} (zlibCrc32 : Bytes → ℕ) (client : Client)
    (network : Except String Connection) (requestType responseType : ℕ)
    (payload : Except Exception Bytes) (read : Reader α) : Client × Except Exception α :=
  match payload with
  | .error exception => (client, .error exception)
  | .ok payload =>
      let answered := request zlibCrc32 client network requestType responseType payload
      (answered.1, answered.2.bind (Reader.parse read))

def createTopicPayload (topic : String) (partitions : ℤ) : Except Exception Bytes :=
  concat [text topic, u16 partitions]

def producePayload (topic key message : String) : Except Exception Bytes :=
  concat [text topic, bytes (utf8Encode key), bytes (utf8Encode message)]

def fetchPayload (topic : String) (partition : ℤ) (fromOffset group : String) (waitMs : ℤ) :
    Except Exception Bytes :=
  concat [text topic, u16 partition, text fromOffset, text group, u32 waitMs]

structure Record where
  offset : ℕ
  timestampUnixNs : ℕ
  key : String
  message : String
  encodedBytes : ℕ
  deriving DecidableEq, Repr

structure FetchResult where
  topic : String
  partition : ℕ
  fromOffset : ℕ
  nextOffset : ℕ
  records : List Record
  deriving DecidableEq, Repr

def readRecord : Reader Record := do
  return ⟨← Reader.u64, ← Reader.u64, ← Reader.text, ← Reader.text, ← Reader.u32⟩

def readFetchResult : Reader FetchResult := do
  return ⟨← Reader.text, ← Reader.u16, ← Reader.u64, ← Reader.u64,
    ← Reader.many readRecord (← Reader.u32)⟩

def fetch (zlibCrc32 : Bytes → ℕ) (client : Client) (network : Except String Connection)
    (topic : String) (partition : ℤ) (fromOffset group : String) (waitMs : ℤ) :
    Client × Except Exception FetchResult :=
  perform zlibCrc32 client network fetchRequest fetchResponse
    (fetchPayload topic partition fromOffset group waitMs) readFetchResult

end Client

end BoltStream.Python
