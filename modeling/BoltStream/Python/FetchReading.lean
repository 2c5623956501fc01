import BoltStream.Broker.Fetch
import BoltStream.Python.Agreement

/-!
# Reading a fetch response

The broker writes keys and messages as bytes, and the Python client reads them
as texts.  A page is returned as it was sent when all of them are UTF-8, and one
that is not is the end of the whole page.
-/

namespace BoltStream.Python

open BoltStream.Lib BoltStream.Protocol BoltStream.Storage Python.Client

/-! ## Texts -/

theorem utf8Decode_eq_some {encoded : Bytes} {value : String} :
    utf8Decode encoded = some value ↔ utf8Encode value = encoded := by
  constructor
  · intro hdecode
    rw [utf8Decode, String.fromUTF8?] at hdecode
    split_ifs at hdecode with hvalid
    obtain rfl := Option.some.inj hdecode
    rfl
  · rintro rfl
    have hbytes : (⟨(utf8Encode value).toArray⟩ : ByteArray) = value.toUTF8 := rfl
    rw [utf8Decode, hbytes, String.fromUTF8?, String.toUTF8_eq_toByteArray,
      dif_pos value.isValidUTF8]
    rfl

/-- The bytes are the UTF-8 of a text. -/
def IsText (encoded : Bytes) : Prop := ∃ value, utf8Encode value = encoded

theorem isText_iff {encoded : Bytes} : IsText encoded ↔ ∃ value, utf8Decode encoded = some value :=
  exists_congr fun _ ↦ utf8Decode_eq_some.symm

theorem IsText.append {encoded encoded' : Bytes} (h : IsText encoded) (h' : IsText encoded') :
    IsText (encoded ++ encoded') := by
  obtain ⟨value, rfl⟩ := h
  obtain ⟨value', rfl⟩ := h'
  refine ⟨value ++ value', ?_⟩
  simp only [utf8Encode, String.toUTF8_eq_toByteArray, String.toByteArray_append,
    ByteArray.data_append, Array.toList_append]

/-- Every byte below 128 is a character. -/
theorem isText_of_ascii {encoded : Bytes} (h : ∀ byte ∈ encoded, byte.toNat < 128) :
    IsText encoded := by
  have hone : ∀ n < 128, utf8Encode (String.singleton (Char.ofNat n)) = [UInt8.ofNat n] := by
    decide
  induction encoded with
  | nil => exact ⟨"", rfl⟩
  | cons byte encoded ih =>
      have hbyte : IsText [byte] :=
        ⟨_, (hone byte.toNat (h byte List.mem_cons_self)).trans (by rw [UInt8.ofNat_toNat])⟩
      exact hbyte.append (ih fun other hother ↦ h other (List.mem_cons_of_mem byte hother))

/-- The name of a topic is plain text. -/
theorem isText_of_topicName {topic : Bytes} (h : isValidTopicName topic = true) :
    IsText topic := by
  refine isText_of_ascii fun byte hbyte ↦ ?_
  simp only [isValidTopicName, Bool.and_eq_true] at h
  have hname := List.all_eq_true.mp h.2 byte hbyte
  simp only [isNameByte, isDigit, Bool.or_eq_true, Bool.and_eq_true, decide_eq_true_eq,
    beq_iff_eq] at hname
  rcases hname with ((hname | rfl) | rfl) | rfl
  · omega
  · decide
  · decide
  · decide

/-! ## The reader -/

namespace Reader

theorem take_append (front rest : Bytes) :
    take front.length (front ++ rest) = .ok (front, rest) := by
  rw [take, if_neg (by rw [List.length_append]; omega), List.take_left, List.drop_left]

/-- A number is read as it was written. -/
theorem take_number {width value : ℕ} (h : value < 256 ^ width) (rest : Bytes) :
    (do return beNat (← take width) : Reader ℕ) (beBytes width value ++ rest) =
      .ok (value, rest) := by
  have htake := take_append (beBytes width value) rest
  rw [length_beBytes] at htake
  change (do let read ← take width (beBytes width value ++ rest); pure (beNat read.1, read.2)) = _
  rw [htake]
  change Except.ok (beNat (beBytes width value), rest) = _
  rw [beNat_beBytes, Nat.mod_eq_of_lt h]

theorem u16_write {value : ℕ} (h : value < 2 ^ 16) (rest : Bytes) :
    u16 (writeU16 value ++ rest) = .ok (value, rest) :=
  take_number h rest

theorem u32_write {value : ℕ} (h : value < 2 ^ 32) (rest : Bytes) :
    u32 (writeU32 value ++ rest) = .ok (value, rest) :=
  take_number h rest

theorem u64_write {value : ℕ} (h : value < 2 ^ 64) (rest : Bytes) :
    u64 (writeU64 value ++ rest) = .ok (value, rest) :=
  take_number h rest

/-- A value behind which `rest` is left, unless a text in it does not decode. -/
def decoded {α : Type} (rest : Bytes) : Option α → Except Exception (α × Bytes)
  | some value => .ok (value, rest)
  | none => .error (.protocolError "response contains invalid UTF-8")

theorem bind_of_ok {α β : Type} {read : Reader α} {next : α → Reader β} {payload rest : Bytes}
    {value : α} (h : read payload = .ok (value, rest)) :
    (read >>= next) payload = next value rest := by
  change (read payload >>= fun result ↦ next result.1 result.2) = _
  rw [h]
  rfl

theorem bind_of_error {α β : Type} {read : Reader α} {next : α → Reader β} {payload : Bytes}
    {exception : Exception} (h : read payload = .error exception) :
    (read >>= next) payload = .error exception := by
  change (read payload >>= fun result ↦ next result.1 result.2) = _
  rw [h]
  rfl

theorem raw_write {value : Bytes} (h : Short value) (rest : Bytes) :
    raw (writeBytes value ++ rest) = .ok (value, rest) := by
  rw [raw, writeBytes, List.append_assoc, bind_of_ok (u32_write h _)]
  exact take_append value rest

theorem text_write {value : Bytes} (h : Short value) (rest : Bytes) :
    text (writeBytes value ++ rest) = decoded rest (utf8Decode value) := by
  rw [text, bind_of_ok (raw_write h rest)]
  cases utf8Decode value with
  | none => rfl
  | some value => rfl

/-- The read values, while all of them decode. -/
theorem many_write {α β : Type} {read : Reader β} {write : α → Bytes} {value? : α → Option β}
    (values : List α)
    (h : ∀ value ∈ values, ∀ rest, read (write value ++ rest) = decoded rest (value? value))
    (rest : Bytes) :
    many read values.length (values.flatMap write ++ rest) =
      decoded rest (values.mapM value?) := by
  induction values with
  | nil => rfl
  | cons value values ih =>
      have hfirst := h value List.mem_cons_self (values.flatMap write ++ rest)
      have hlater := ih fun other hother ↦ h other (List.mem_cons_of_mem value hother)
      rw [List.length_cons, List.flatMap_cons, List.append_assoc, List.mapM_cons, many]
      cases hvalue : value? value with
      | none =>
          rw [hvalue] at hfirst
          exact bind_of_error hfirst
      | some first =>
          rw [hvalue] at hfirst
          rw [bind_of_ok hfirst]
          cases hvalues : values.mapM value? with
          | none =>
              rw [hvalues] at hlater
              exact bind_of_error hlater
          | some others =>
              rw [hvalues] at hlater
              exact bind_of_ok hlater

end Reader

/-! ## A page -/

/-- The record as the client returns it. -/
def asRecord (record : FetchRecord) : Option Client.Record :=
  (utf8Decode record.key).bind fun key ↦ (utf8Decode record.message).map fun message ↦
    ⟨record.offset, record.timestampUnixNs, key, message, record.encodedByteSize⟩

theorem readRecord_encode {record : FetchRecord} (h : record.Fits) (rest : Bytes) :
    readRecord (record.encode ++ rest) = Reader.decoded rest (asRecord record) := by
  obtain ⟨hoffset, htimestamp, hkey, hmessage, hsize⟩ := h
  simp only [readRecord, FetchRecord.encode, List.append_assoc]
  rw [Reader.bind_of_ok (Reader.u64_write hoffset _),
    Reader.bind_of_ok (Reader.u64_write htimestamp _), asRecord]
  have hreadKey := Reader.text_write hkey
    (writeBytes record.message ++ (writeU32 record.encodedByteSize ++ rest))
  have hreadMessage := Reader.text_write hmessage (writeU32 record.encodedByteSize ++ rest)
  cases hdecode : utf8Decode record.key with
  | none =>
      rw [hdecode] at hreadKey
      exact Reader.bind_of_error hreadKey
  | some key =>
      rw [hdecode] at hreadKey
      rw [Reader.bind_of_ok hreadKey, Option.bind_some]
      cases hdecode' : utf8Decode record.message with
      | none =>
          rw [hdecode'] at hreadMessage
          exact Reader.bind_of_error hreadMessage
      | some message =>
          rw [hdecode'] at hreadMessage
          rw [Reader.bind_of_ok hreadMessage, Reader.bind_of_ok (Reader.u32_write hsize rest)]
          rfl

theorem readFetchResult_encode {response : FetchResponse} (hfits : response.Fits)
    {topic : String} (htopic : utf8Encode topic = response.topic) (rest : Bytes) :
    readFetchResult (encodeFetchResponse response ++ rest) =
      Reader.decoded rest ((response.records.mapM asRecord).map fun records ↦
        ⟨topic, response.partition, response.fromOffset, response.nextOffset, records⟩) := by
  obtain ⟨hshort, hpartition, hfrom, hnext, hcount, hrecords⟩ := hfits
  rw [encodeFetchResponse_eq]
  simp only [readFetchResult, writeCounted, List.append_assoc]
  have hreadTopic := Reader.text_write hshort (writeU16 response.partition ++
    (writeU64 response.fromOffset ++ (writeU64 response.nextOffset ++
      (writeU32 response.records.length ++
        (response.records.flatMap FetchRecord.encode ++ rest)))))
  rw [utf8Decode_eq_some.mpr htopic] at hreadTopic
  rw [Reader.bind_of_ok hreadTopic, Reader.bind_of_ok (Reader.u16_write hpartition _),
    Reader.bind_of_ok (Reader.u64_write hfrom _), Reader.bind_of_ok (Reader.u64_write hnext _),
    Reader.bind_of_ok (Reader.u32_write hcount _)]
  have hread := Reader.many_write response.records
    (fun record hrecord ↦ readRecord_encode (hrecords record hrecord)) rest
  cases hvalues : response.records.mapM asRecord with
  | none =>
      rw [hvalues] at hread
      exact Reader.bind_of_error hread
  | some records =>
      rw [hvalues] at hread
      exact Reader.bind_of_ok hread

/-- What the client makes of a whole payload. -/
theorem parse_encodeFetchResponse {response : FetchResponse} (hfits : response.Fits)
    {topic : String} (htopic : utf8Encode topic = response.topic) :
    Reader.parse readFetchResult (encodeFetchResponse response) =
      match response.records.mapM asRecord with
      | none => .error (.protocolError "response contains invalid UTF-8")
      | some records =>
          .ok ⟨topic, response.partition, response.fromOffset, response.nextOffset, records⟩ := by
  have hread := readFetchResult_encode hfits htopic []
  rw [List.append_nil] at hread
  rw [Reader.parse, StateT.run'_eq, StateT.run]
  cases hvalues : response.records.mapM asRecord with
  | none =>
      rw [hvalues] at hread
      rw [Reader.bind_of_error hread]
      rfl
  | some records =>
      rw [hvalues] at hread
      rw [Reader.bind_of_ok hread]
      rfl

/-- The content of a record, as bytes. -/
def Client.Record.content (record : Client.Record) : ℕ × ℕ × Bytes × Bytes :=
  (record.offset, record.timestampUnixNs, utf8Encode record.key, utf8Encode record.message)

def content (record : FetchRecord) : ℕ × ℕ × Bytes × Bytes :=
  (record.offset, record.timestampUnixNs, record.key, record.message)

theorem asRecord_content {record : FetchRecord} {read : Client.Record}
    (h : asRecord record = some read) : read.content = content record := by
  obtain ⟨key, hkey, hread⟩ := Option.bind_eq_some_iff.mp h
  obtain ⟨message, hmessage, rfl⟩ := Option.map_eq_some_iff.mp hread
  rw [Client.Record.content, content, utf8Decode_eq_some.mp hkey, utf8Decode_eq_some.mp hmessage]

theorem asRecord_isSome {record : FetchRecord} :
    (asRecord record).isSome ↔ IsText record.key ∧ IsText record.message := by
  rw [isText_iff, isText_iff, asRecord]
  cases utf8Decode record.key with
  | none => simp
  | some key => simp [Option.isSome_iff_exists]

/-- A list is mapped when all its members are. -/
theorem mapM_isSome {α β : Type} {f : α → Option β} {values : List α} :
    (values.mapM f).isSome ↔ ∀ value ∈ values, (f value).isSome := by
  induction values with
  | nil => simp
  | cons value values ih =>
      rw [List.forall_mem_cons, ← ih, List.mapM_cons]
      cases f value with
      | none => simp
      | some mapped =>
          cases values.mapM f with
          | none => simp
          | some others => simp

theorem mapM_asRecord_content {records : List FetchRecord} {read : List Client.Record}
    (h : records.mapM asRecord = some read) :
    read.map Client.Record.content = records.map content := by
  induction records generalizing read with
  | nil =>
      obtain rfl := Option.some.inj h
      rfl
  | cons record records ih =>
      rw [List.mapM_cons] at h
      obtain ⟨first, hfirst, hlater⟩ := Option.bind_eq_some_iff.mp h
      obtain ⟨others, hothers, hread⟩ := Option.bind_eq_some_iff.mp hlater
      obtain rfl := Option.some.inj hread
      rw [List.map_cons, List.map_cons, asRecord_content hfirst, ih hothers]

/-! ## An answered request -/

section Exchange

variable {zlibCrc32 : Bytes → ℕ}

theorem receiveExactly_append {client : Client} {connection : Connection} {front rest : Bytes}
    (hsocket : client.socket = some connection) (hincoming : connection.incoming = front ++ rest) :
    client.receiveExactly front.length =
      ({ client with socket := some { connection with incoming := rest } }, .ok front) := by
  simp only [receiveExactly, hsocket, hincoming]
  rw [if_neg (by rw [List.length_append]; omega), List.take_left, List.drop_left]

/-- A correlation id that was packed has 64 bits. -/
theorem correlationId_lt (h : ∀ data, zlibCrc32 data = standardCrc32 data)
    {frameType correlationId : ℕ} {payload frame : Bytes}
    (hencode : encodeFrame zlibCrc32 frameType correlationId payload = .ok frame) :
    correlationId < 2 ^ 64 := by
  obtain ⟨decoded, hdecode, -, hid, -⟩ := encodeFrame_decodes h hencode
  obtain ⟨wire, rfl⟩ := @exists_wireFrame 1048576 _ _ hdecode
  obtain rfl := Except.ok.inj ((decodeFrame_encode wire).symm.trans hdecode)
  have hwire : wire.correlationId.toNat = correlationId := Int.ofNat_inj.mp hid
  rw [← hwire]
  exact wire.correlationId.toNat_lt

/-- An answer of the broker is accepted under the id of the request. -/
theorem readResponse_encode (h : ∀ data, zlibCrc32 data = standardCrc32 data)
    {correlationId responseType : ℕ} {answer : Bytes} (hid : correlationId < 2 ^ 64)
    (htype : responseType < 2 ^ 16) (herror : responseType ≠ errorResponse)
    (hfits : headerBytes + answer.length ≤ maxFrameBytes) :
    readResponse zlibCrc32 correlationId responseType
      (Protocol.encodeFrame 4 (.ofField responseType) correlationId answer 0) = .ok answer := by
  have hid' : (UInt64.ofNat correlationId).toNat = correlationId := UInt64.toNat_ofNat_of_lt' hid
  have htype' : (UInt16.ofNat responseType).toNat = responseType :=
    UInt16.toNat_ofNat_of_lt' htype
  let wire : WireFrame 1048576 :=
    { version := 4
      frameType := UInt16.ofNat responseType
      correlationId := UInt64.ofNat correlationId
      payload := answer
      supported := Or.inl rfl
      fits := hfits }
  have hencode : Protocol.encodeFrame 4 (.ofField responseType) correlationId answer 0 =
      wire.encode := by
    rw [WireFrame.encode, htype', hid']
  obtain ⟨haccepted, hread⟩ := (decodeFrame_cpp wire.encode _).mp
    ⟨wire.frame, decodeFrame_encode wire, rfl⟩
  have hresult : wire.frame.header.frameType.toField = responseType := by
    change (FrameType.ofField (UInt16.ofNat responseType).toNat).toField = responseType
    rw [FrameType.toField_ofField, htype']
  obtain ⟨-, -, -, -, -, hcorrelation, -⟩ :=
    headerFields_read 4 (.ofField responseType) correlationId answer.length 0 answer
  have hexpected : ∀ expected ∈ some correlationId,
      readU64Be wire.encode 16 = expected := by
    rintro _ ⟨⟩
    rw [← hencode]
    exact hcorrelation.trans (Nat.mod_eq_of_lt hid)
  rw [hencode, readResponse, decodeFrame_accepted h haccepted hexpected, ← hread, hresult]
  change (if responseType = errorResponse then _ else _) = _
  rw [if_neg herror, if_neg (not_not.mpr rfl)]
  rfl

/-- An answer that fits the client's own maximum is taken, whatever arrives behind it. -/
theorem exchange_answered (h : ∀ data, zlibCrc32 data = standardCrc32 data) {client : Client}
    {connection : Connection} {requestType responseType : ℕ} {payload frame answer later : Bytes}
    (hsocket : client.socket = some connection)
    (hsent : encodeFrame zlibCrc32 requestType (client.correlationId + 1 : ℕ) payload = .ok frame)
    (htype : responseType < 2 ^ 16) (herror : responseType ≠ errorResponse)
    (hanswer : answer.length < 2 ^ 32)
    (hincoming : connection.incoming =
      Protocol.encodeFrame 4 (.ofField responseType) (client.correlationId + 1) answer 0 ++ later) :
    (exchange zlibCrc32 client requestType responseType payload).2 =
      if headerBytes + answer.length ≤ maxFrameBytes then .ok answer
      else .error (.protocolError "response exceeds maximum frame size") := by
  have hid := correlationId_lt h hsent
  obtain ⟨-, -, -, -, hsize, -⟩ :=
    headerFields_read 4 (.ofField responseType) (client.correlationId + 1) answer.length 0 []
  set fields := headerFields 4 (.ofField responseType) (client.correlationId + 1) answer.length 0
    with hfields
  have hheader : (fields ++ writeU32 (crc32 fields)).length = headerBytes := by
    rw [List.length_append, hfields, length_headerFields, length_writeU32, headerBytes]
  have hsplit : Protocol.encodeFrame 4 (.ofField responseType) (client.correlationId + 1) answer 0 =
      (fields ++ writeU32 (crc32 fields)) ++ answer := by
    rw [List.append_assoc]
    rfl
  rw [List.append_nil, Nat.mod_eq_of_lt hanswer] at hsize
  rw [hsplit, List.append_assoc] at hincoming
  have hfirst : receiveExactly
      { client with
        correlationId := client.correlationId + 1
        socket := some { connection with sent := connection.sent ++ frame } } headerBytes =
      ({ client with
          correlationId := client.correlationId + 1
          socket := some { sent := connection.sent ++ frame, incoming := answer ++ later } },
        .ok (fields ++ writeU32 (crc32 fields))) := by
    rw [← hheader]
    exact @receiveExactly_append _ { connection with sent := connection.sent ++ frame } _ _ rfl
      hincoming
  rw [exchange]
  dsimp only
  rw [hsocket, hsent]
  dsimp only
  rw [hfirst]
  dsimp only
  rw [hsize, maxFrameBytes, headerBytes]
  by_cases hfits : 32 + answer.length ≤ 1024 * 1024
  · rw [if_neg (by omega), if_pos hfits]
    have hsecond := @receiveExactly_append
      { client with
        correlationId := client.correlationId + 1
        socket := some { sent := connection.sent ++ frame, incoming := answer ++ later } }
      { sent := connection.sent ++ frame, incoming := answer ++ later } answer later rfl rfl
    rw [hsecond]
    dsimp only
    rw [← hsplit]
    exact readResponse_encode h hid htype herror hfits
  · rw [if_pos (by omega), if_neg hfits]

/-- On an open connection a method is its exchange. -/
theorem perform_connected {α : Type} {client connected : Client}
    {network : Except String Connection} {requestType responseType : ℕ} {payload : Bytes}
    {read : Reader α} (hconnect : connect zlibCrc32 client network = (connected, .ok ())) :
    (perform zlibCrc32 client network requestType responseType (.ok payload) read).2 =
      (exchange zlibCrc32 connected requestType responseType payload).2.bind
        (Reader.parse read) := by
  rw [perform]
  dsimp only
  rw [request, hconnect]

end Exchange

/-- A fetch that the broker answers on a session of version 4 returns the page as
it was sent exactly when the answer fits the client's own maximum and all keys
and messages are texts. -/
theorem fetch_returns_iff (zlibCrc32 : Bytes → ℕ)
    (hzlib : ∀ data, zlibCrc32 data = standardCrc32 data) (limits : Broker.FetchLimits)
    (response : FetchResponse) (payload : Bytes)
    (hserved : Broker.writeFetchResponse limits response = .ok payload)
    (hfits : response.Fits) (hnamed : isValidTopicName response.topic = true)
    (client connected : Client) (network : Except String Connection) (connection : Connection)
    (topic : String) (partition : ℤ) (fromOffset group : String) (waitMs : ℤ)
    (asked frame later : Bytes)
    (hconnect : connect zlibCrc32 client network = (connected, .ok ()))
    (hsocket : connected.socket = some connection)
    (hasked : fetchPayload topic partition fromOffset group waitMs = .ok asked)
    (hsent : encodeFrame zlibCrc32 fetchRequest (connected.correlationId + 1 : ℕ) asked =
      .ok frame)
    (hincoming : connection.incoming =
      Protocol.encodeFrame 4 .fetchResponse (connected.correlationId + 1) payload 0 ++ later) :
    (∃ result, (fetch zlibCrc32 client network topic partition fromOffset group waitMs).2 =
        .ok result ∧ result.records.map Client.Record.content = response.records.map content) ↔
      headerBytes + payload.length ≤ maxFrameBytes ∧
        ∀ record ∈ response.records, IsText record.key ∧ IsText record.message := by
  rw [Broker.writeFetchResponse] at hserved
  split_ifs at hserved with hlarge
  obtain rfl := Except.ok.inj hserved
  have hmax := limits.maxFrameBytes.toNat_lt
  obtain ⟨name, hname⟩ := isText_of_topicName hnamed
  have htype : FrameType.fetchResponse = .ofField Python.fetchResponse := by decide
  rw [htype] at hincoming
  have hanswered := @exchange_answered zlibCrc32 hzlib connected connection fetchRequest
    Python.fetchResponse asked frame (encodeFetchResponse response) later hsocket hsent
    (by decide) (by decide) (by omega) hincoming
  have hfetch : (fetch zlibCrc32 client network topic partition fromOffset group waitMs).2 =
      (exchange zlibCrc32 connected fetchRequest Python.fetchResponse asked).2.bind
        (Reader.parse readFetchResult) := by
    rw [fetch, hasked]
    exact perform_connected hconnect
  have hread := parse_encodeFetchResponse hfits hname
  rw [hfetch, hanswered]
  simp only [← asRecord_isSome]
  rw [← mapM_isSome]
  by_cases hsmall : headerBytes + (encodeFetchResponse response).length ≤ maxFrameBytes
  · rw [if_pos hsmall, ok_bind, hread]
    cases hrecords : response.records.mapM asRecord with
    | none => simp
    | some records =>
        exact iff_of_true ⟨_, rfl, mapM_asRecord_content hrecords⟩ ⟨hsmall, rfl⟩
  · rw [if_neg hsmall]
    refine iff_of_false ?_ fun h ↦ hsmall h.1
    rintro ⟨result, hresult, -⟩
    exact absurd hresult (by simp [Except.bind])

/-- A page of one record. -/
def onePage (key : Bytes) : FetchResponse :=
  ⟨[116], 0, 0, 1, [⟨0, 5, key, [109], 57⟩]⟩

/-- A client to which this page is on its way. -/
def awaiting (response : FetchResponse) : Client :=
  { token := none
    socket := some
      { sent := []
        incoming := Protocol.encodeFrame 4 .fetchResponse 1 (encodeFetchResponse response) 0 } }

def defaultLimits : Broker.FetchLimits := ⟨1048576, 100, 1048576⟩

/-- A key of one letter is returned. -/
theorem fetch_returns_text :
    ∃ result, (fetch crc32 (awaiting (onePage [107])) (.error "") "t" 0 "beginning" "" 0).2 =
      .ok result ∧ result.records.map Client.Record.content = [(0, 5, [107], [109])] := by
  have hfits : (onePage [107]).Fits := by
    refine ⟨by norm_num [Short, onePage], by decide, by decide, by decide, by decide, ?_⟩
    intro record hrecord
    obtain rfl := List.mem_singleton.mp hrecord
    exact ⟨by decide, by decide, by norm_num [Short], by norm_num [Short], by decide⟩
  have hasked : fetchPayload "t" 0 "beginning" "" 0 =
      .ok (encodeFetchRequest ⟨[116], 0, Broker.beginningSelector, [], 0⟩) := by decide
  have hsent : encodeFrame crc32 fetchRequest ((awaiting (onePage [107])).correlationId + 1 : ℕ)
      (encodeFetchRequest ⟨[116], 0, Broker.beginningSelector, [], 0⟩) =
        .ok (Protocol.encodeFrame 4 .fetchRequest 1
          (encodeFetchRequest ⟨[116], 0, Broker.beginningSelector, [], 0⟩) 0) := by decide +kernel
  refine (fetch_returns_iff crc32 crc32_eq_standard defaultLimits (onePage [107])
    (encodeFetchResponse (onePage [107])) (by decide) hfits (by decide)
    (awaiting (onePage [107])) (awaiting (onePage [107])) (.error "") _ "t" 0 "beginning" "" 0
    _ _ [] rfl rfl hasked hsent (List.append_nil _).symm).mpr ⟨by decide, ?_⟩
  intro record hrecord
  obtain rfl := List.mem_singleton.mp hrecord
  exact ⟨⟨"k", by decide⟩, ⟨"m", by decide⟩⟩

/-- A key that is not UTF-8 is accepted and served, and its page is refused. -/
theorem fetch_refuses_bytes :
    decodeProduceRequest (encodeProduceRequest [116] [255] [109]) = .ok ⟨[116], [255], [109]⟩ ∧
      (Broker.writeFetchResponse defaultLimits (onePage [255])).isOk = true ∧
      ¬ ∃ result, (fetch crc32 (awaiting (onePage [255])) (.error "") "t" 0 "beginning" "" 0).2 =
        .ok result := by
  have hrefused : (fetch crc32 (awaiting (onePage [255])) (.error "") "t" 0 "beginning" "" 0).2 =
      .error (.protocolError "response contains invalid UTF-8") := by decide +kernel
  refine ⟨by decide, by decide, ?_⟩
  rintro ⟨result, hresult⟩
  rw [hrefused] at hresult
  cases hresult

end BoltStream.Python
