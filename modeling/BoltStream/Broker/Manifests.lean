import BoltStream.Broker.Handlers
import BoltStream.Lib.TextSearch

/-!
# Topic manifests

The manifest of a topic is written as JSON and read by searching for quoted field
names.  A topic can be named like a field, and the reader then finds the value
before the field, but the colon it goes to next is the right one.
-/

namespace BoltStream.Broker

open BoltStream.Lib BoltStream.Protocol BoltStream.Compression BoltStream.Storage

structure TopicManifest where
  topic : Bytes
  partitionCount : ℕ
  createdAtUtc : Bytes
  deriving DecidableEq, Repr

/-- The byte of `"`. -/
def quote : UInt8 := 34

/-- The byte of `:`. -/
def colon : UInt8 := 58

def jsonEscape (value : Bytes) : Bytes :=
  value.flatMap fun ch ↦
    if ch = 92 then [92, 92]
    else if ch = quote then [92, quote]
    else if ch = 10 then [92, 110]
    else if ch = 13 then [92, 114]
    else if ch = 9 then [92, 116]
    else [ch]

/-- The field name between quotes. -/
def quoted (name : Bytes) : Bytes := quote :: (name ++ [quote])

def jsonStringField (json name : Bytes) : Option Bytes :=
  (after (quoted name) json).bind fun rest ↦
    (after [colon] rest).bind fun rest ↦
      (after [quote] rest).bind (upTo quote)

def jsonU16Field (json name : Bytes) : Option ℕ :=
  (after (quoted name) json).bind fun rest ↦
    (after [colon] rest).bind fun rest ↦
      parseDecimal (2 ^ 16) ((rest.dropWhile fun ch ↦ ch = 32 ∨ ch = 9).takeWhile isDigit)

/-- The bytes that `write_topic_manifest` writes. -/
def writeTopicManifest (manifest : TopicManifest) : Bytes :=
  text "\x7b\n" ++ (text "  \"manifest_version\": 1,\n" ++
    (text "  \"topic\": \"" ++ jsonEscape manifest.topic ++ text "\",\n" ++
      (text "  \"partition_count\": " ++ decimal manifest.partitionCount ++ text ",\n" ++
        (text "  \"created_at_utc\": \"" ++ jsonEscape manifest.createdAtUtc ++ text "\"\n" ++
          text "\x7d\n"))))

/-- The file of a manifest. -/
inductive ManifestFile where
  | missing
  | unreadable
  | content (json : Bytes)
  deriving DecidableEq, Repr

/-- `path` is the path of the manifest as text. -/
def readTopicManifest (path : Bytes) (file : ManifestFile) (topic : Bytes) :
    Except Bytes (Option TopicManifest) :=
  match file with
  | .missing => .ok none
  | .unreadable => .error (text "failed to open topic manifest: " ++ path)
  | .content json =>
      match jsonStringField json (text "topic"), jsonU16Field json (text "partition_count") with
      | some manifestTopic, some partitionCount =>
          if partitionCount = 0 then .error (text "invalid topic manifest: " ++ path)
          else if manifestTopic ≠ topic then
            .error (text "topic manifest name mismatch: " ++ path)
          else
            .ok (some
              { topic := manifestTopic
                partitionCount := partitionCount
                createdAtUtc :=
                  (jsonStringField json (text "created_at_utc")).getD (text "unknown") })
      | _, _ => .error (text "invalid topic manifest: " ++ path)

/-! ## Names and escapes -/

/-- A topic name has nothing to escape. -/
theorem jsonEscape_of_valid {topic : Bytes} (h : topic.all isNameByte = true) :
    jsonEscape topic = topic := by
  rw [jsonEscape]
  induction topic with
  | nil => rfl
  | cons ch topic ih =>
      rw [List.all_cons, Bool.and_eq_true] at h
      rw [List.flatMap_cons, ih h.2, if_neg (isNameByte_ne h.1 (by decide)),
        if_neg (isNameByte_ne h.1 (by decide)), if_neg (isNameByte_ne h.1 (by decide)),
        if_neg (isNameByte_ne h.1 (by decide)), if_neg (isNameByte_ne h.1 (by decide)),
        List.singleton_append]

theorem quote_not_mem {topic : Bytes} (h : topic.all isNameByte = true) : quote ∉ topic :=
  fun hmem ↦ isNameByte_ne (List.all_eq_true.mp h quote hmem) (by decide) rfl

/-! ## Reading back -/

/-- A manifest up to the end of its partition count. -/
def manifestFront (manifest : TopicManifest) : Bytes :=
  text "\x7b\n" ++ (text "  \"manifest_version\": 1,\n" ++
    (text "  \"topic\": \"" ++ jsonEscape manifest.topic ++ text "\",\n" ++
      (text "  \"partition_count\": " ++ decimal manifest.partitionCount)))

/-- The front of a manifest and what follows it, from quote to quote. -/
theorem manifestFront_append {manifest : TopicManifest}
    (h : manifest.topic.all isNameByte = true) (rest : Bytes) :
    manifestFront manifest ++ rest =
      text "\x7b\n  " ++ quote :: (text "manifest_version" ++ quote :: (text ": 1,\n  " ++
        quote :: (text "topic" ++ quote :: (text ": " ++ quote :: (manifest.topic ++
          quote :: (text ",\n  " ++ quote :: (text "partition_count" ++ quote :: (text ": " ++
            (decimal manifest.partitionCount ++ rest))))))))) := by
  have hfront : text "\x7b\n" ++ (text "  \"manifest_version\": 1,\n" ++ text "  \"topic\": \"") =
      text "\x7b\n  " ++ quote :: (text "manifest_version" ++ quote :: (text ": 1,\n  " ++
        quote :: (text "topic" ++ quote :: (text ": " ++ [quote])))) := by decide +kernel
  have hmiddle : text "\",\n" ++ text "  \"partition_count\": " =
      quote :: (text ",\n  " ++ quote :: (text "partition_count" ++ quote :: text ": ")) := by
    decide +kernel
  have hsplit : manifestFront manifest ++ rest =
      (text "\x7b\n" ++ (text "  \"manifest_version\": 1,\n" ++ text "  \"topic\": \"")) ++
        (manifest.topic ++ ((text "\",\n" ++ text "  \"partition_count\": ") ++
          (decimal manifest.partitionCount ++ rest))) := by
    rw [manifestFront, jsonEscape_of_valid h]
    simp only [List.append_assoc]
  rw [hsplit, hfront, hmiddle]
  simp only [List.append_assoc, List.cons_append, List.nil_append]

/-- What follows the partition count starts with a comma. -/
theorem writeTopicManifest_eq (manifest : TopicManifest) :
    ∃ rest, writeTopicManifest manifest = manifestFront manifest ++ 44 :: rest := by
  refine ⟨10 :: (text "  \"created_at_utc\": \"" ++ jsonEscape manifest.createdAtUtc ++
    text "\"\n" ++ text "\x7d\n"), ?_⟩
  have hend : text ",\n" = [44, 10] := by decide +kernel
  rw [writeTopicManifest, manifestFront, hend]
  simp only [List.append_assoc, List.cons_append, List.nil_append]

/-- A search for a field passes over what is not quoted and over other strings. -/
theorem after_field {name : Bytes} (hname : quote ∉ name) {front other rest : Bytes}
    (hfront : quote ∉ front) (hother : quote ∉ other) (hne : other ≠ name) :
    after (quoted name) (front ++ quote :: (other ++ quote :: rest)) =
      after (quoted name) (quote :: rest) := by
  rw [quoted, after_quoted_skip hfront, after_quoted_other hname hother hne]

/-- The field is found behind what is not quoted. -/
theorem after_field_found {name : Bytes} {front rest : Bytes} (hfront : quote ∉ front) :
    after (quoted name) (front ++ quote :: (name ++ quote :: rest)) = some rest := by
  rw [quoted, after_quoted_skip hfront, after_quoted_found]

theorem topic_of_manifest {manifest : TopicManifest}
    (h : manifest.topic.all isNameByte = true) (rest : Bytes) :
    jsonStringField (manifestFront manifest ++ rest) (text "topic") = some manifest.topic := by
  have hjson := manifestFront_append h rest
  set behind := quote :: (text ",\n  " ++ quote :: (text "partition_count" ++ quote ::
    (text ": " ++ (decimal manifest.partitionCount ++ rest)))) with hbehind
  have hfield : after (quoted (text "topic")) (manifestFront manifest ++ rest) =
      some (text ": " ++ quote :: (manifest.topic ++ behind)) := by
    rw [hjson, after_field (by decide +kernel) (by decide +kernel) (by decide +kernel)
      (by decide +kernel)]
    have hother := @after_field (text "topic") (by decide +kernel) [] (text ": 1,\n  ")
      (text "topic" ++ quote :: (text ": " ++ quote :: (manifest.topic ++ behind)))
      (by decide) (by decide +kernel) (by decide +kernel)
    rw [List.nil_append] at hother
    rw [hother]
    exact @after_field_found (text "topic") [] _ (by decide)
  have hcolon : text ": " ++ quote :: (manifest.topic ++ behind) =
      [] ++ colon :: ([32] ++ quote :: (manifest.topic ++ behind)) := by
    rw [show text ": " = [colon, 32] by decide +kernel]
    rfl
  rw [jsonStringField, hfield, Option.bind_some, hcolon, after_symbol (by decide),
    Option.bind_some, after_symbol (by decide), Option.bind_some, hbehind,
    upTo_symbol (quote_not_mem h)]

/-- The topic can be called like the field. -/
example : jsonStringField (writeTopicManifest ⟨text "topic", 1, []⟩) (text "topic") =
    some (text "topic") := by decide +kernel

/-- Found in the place of the topic or in its own, the name of the count is followed by
the colon in front of the count. -/
theorem after_partitionCount {manifest : TopicManifest}
    (h : manifest.topic.all isNameByte = true) (rest : Bytes) :
    ∃ front, colon ∉ front ∧
      after (quoted (text "partition_count")) (manifestFront manifest ++ rest) =
        some (front ++ colon :: (32 :: (decimal manifest.partitionCount ++ rest))) := by
  have hjson := manifestFront_append h rest
  have hname : quote ∉ text "partition_count" := by decide +kernel
  set count := text ": " ++ (decimal manifest.partitionCount ++ rest) with hcount
  have hcolon : count = colon :: (32 :: (decimal manifest.partitionCount ++ rest)) := by
    rw [hcount, show text ": " = [colon, 32] by decide +kernel]
    rfl
  have hbefore : after (quoted (text "partition_count")) (manifestFront manifest ++ rest) =
      after (quoted (text "partition_count")) ([] ++ quote :: (manifest.topic ++
        quote :: (text ",\n  " ++ quote :: (text "partition_count" ++ quote :: count)))) := by
    have hfirst := @after_field _ hname [] (text ": 1,\n  ")
      (text "topic" ++ quote :: (text ": " ++ quote :: (manifest.topic ++
        quote :: (text ",\n  " ++ quote :: (text "partition_count" ++ quote :: count)))))
      (by decide) (by decide +kernel) (by decide +kernel)
    have hsecond := @after_field _ hname [] (text "topic")
      (text ": " ++ quote :: (manifest.topic ++ quote :: (text ",\n  " ++
        quote :: (text "partition_count" ++ quote :: count))))
      (by decide) (by decide +kernel) (by decide +kernel)
    have hthird := @after_field _ hname [] (text ": ")
      (manifest.topic ++ quote :: (text ",\n  " ++ quote :: (text "partition_count" ++
        quote :: count))) (by decide) (by decide +kernel) (by decide +kernel)
    rw [List.nil_append] at hfirst hsecond hthird
    rw [hjson, after_field hname (by decide +kernel) (by decide +kernel) (by decide +kernel),
      hfirst, hsecond, hthird, List.nil_append]
  by_cases htopic : manifest.topic = text "partition_count"
  · refine ⟨text ",\n  " ++ quote :: (text "partition_count" ++ [quote]), by decide +kernel, ?_⟩
    rw [hbefore, htopic, after_field_found (by decide), ← hcolon]
    simp only [List.append_assoc, List.cons_append, List.nil_append]
  · refine ⟨[], by decide, ?_⟩
    have hlast := @after_field _ hname [] (text ",\n  ")
      (text "partition_count" ++ quote :: count) (by decide) (by decide +kernel)
      (by decide +kernel)
    rw [List.nil_append] at hlast
    have hfound := @after_field_found (text "partition_count") [] count (by decide)
    rw [List.nil_append] at hfound
    rw [hbefore, after_field hname (by decide) (quote_not_mem h) htopic, hlast, hfound, hcolon,
      List.nil_append]

theorem partitionCount_of_manifest {manifest : TopicManifest}
    (h : manifest.topic.all isNameByte = true) (hcount : manifest.partitionCount < 2 ^ 16)
    {rest : Bytes} (hrest : ∀ ch ∈ rest.head?, isDigit ch = false) :
    jsonU16Field (manifestFront manifest ++ rest) (text "partition_count") =
      some manifest.partitionCount := by
  obtain ⟨front, hfront, hafter⟩ := after_partitionCount h rest
  have hdigits : ∀ ch ∈ decimal manifest.partitionCount, isDigit ch = true :=
    fun ch hch ↦ isDigit_of_mem_decimal hch
  obtain ⟨first, digits, hdecimal⟩ := List.exists_cons_of_ne_nil
    (decimal_ne_nil manifest.partitionCount)
  have hfirst : ¬ (first = 32 ∨ first = 9) := by
    have hdigit := hdigits first (by rw [hdecimal]; exact List.mem_cons_self)
    rintro (rfl | rfl) <;> revert hdigit <;> decide
  have hblank : (32 :: (decimal manifest.partitionCount ++ rest)).dropWhile
      (fun ch : UInt8 ↦ ch = 32 ∨ ch = 9) = decimal manifest.partitionCount ++ rest := by
    rw [List.dropWhile_cons_of_pos (by decide), hdecimal, List.cons_append,
      List.dropWhile_cons_of_neg (by simpa using hfirst)]
  have hstop : rest.takeWhile isDigit = [] := by
    cases rest with
    | nil => rfl
    | cons ch rest => exact List.takeWhile_cons_of_neg (by simp [hrest ch rfl])
  rw [jsonU16Field, hafter, Option.bind_some, after_symbol hfront, Option.bind_some, hblank,
    List.takeWhile_append_of_pos hdigits, hstop, List.append_nil, parseDecimal_decimal hcount]

/-- A manifest that is cut off behind its partition count is read like the whole. -/
theorem front_reads_back (path : Bytes) {manifest : TopicManifest}
    (htopic : isValidTopicName manifest.topic = true) (hpositive : 1 ≤ manifest.partitionCount)
    (hcount : manifest.partitionCount ≤ 65535) {rest : Bytes}
    (hrest : ∀ ch ∈ rest.head?, isDigit ch = false) :
    ∃ found, readTopicManifest path (.content (manifestFront manifest ++ rest)) manifest.topic =
        .ok (some found) ∧ found.topic = manifest.topic ∧
      found.partitionCount = manifest.partitionCount := by
  simp only [isValidTopicName, Bool.and_eq_true] at htopic
  have hread := topic_of_manifest htopic.2 rest
  have hnumber := partitionCount_of_manifest htopic.2 (by omega) hrest
  refine ⟨⟨manifest.topic, manifest.partitionCount, (jsonStringField (manifestFront manifest ++
    rest) (text "created_at_utc")).getD (text "unknown")⟩, ?_, rfl, rfl⟩
  simp only [readTopicManifest, hread, hnumber]
  rw [if_neg (by omega), if_neg (not_not.mpr rfl)]

/-- A written manifest is read with its topic and its partition count, whatever the
topic is called. -/
theorem manifest_reads_back (path : Bytes) (manifest : TopicManifest)
    (htopic : isValidTopicName manifest.topic = true) (hpositive : 1 ≤ manifest.partitionCount)
    (hcount : manifest.partitionCount ≤ 65535) :
    ∃ found, readTopicManifest path (.content (writeTopicManifest manifest)) manifest.topic =
        .ok (some found) ∧ found.topic = manifest.topic ∧
      found.partitionCount = manifest.partitionCount := by
  obtain ⟨rest, hjson⟩ := writeTopicManifest_eq manifest
  rw [hjson]
  apply front_reads_back path htopic hpositive hcount
  intro ch hch
  obtain rfl : 44 = ch := Option.some.inj hch
  decide

/-- The topic named like the count. -/
theorem manifest_reads_back_partition_count :
    ∃ found, readTopicManifest (text "manifest.json") (.content (writeTopicManifest
        ⟨text "partition_count", 3, text "2024-01-01T00:00:00Z"⟩)) (text "partition_count") =
      .ok (some found) ∧ found.topic = text "partition_count" ∧ found.partitionCount = 3 :=
  manifest_reads_back (text "manifest.json")
    ⟨text "partition_count", 3, text "2024-01-01T00:00:00Z"⟩ (by decide +kernel) (by decide)
    (by decide)

end BoltStream.Broker
