import BoltStream.Storage.OffsetStore
import Mathlib.Data.List.TakeWhile

/-!
# Offset logs

A log is a sequence of lines that parse, possibly followed by the beginning of
another line.  What a restart sees of a group is a function of its log.
-/

namespace BoltStream.Storage

open BoltStream.Lib BoltStream.Protocol

/-! ## A line is read back -/

theorem isNameByte_of_isDigit {ch : UInt8} (h : isDigit ch = true) : isNameByte ch = true := by
  simp [isNameByte, h]

theorem not_mem_of_isNameByte {text : Bytes} (h : ∀ ch ∈ text, isNameByte ch = true)
    {other : UInt8} (hother : isNameByte other = false) : other ∉ text := fun hmem ↦
  isNameByte_ne (h other hmem) hother rfl

theorem not_mem_decimal (n : ℕ) {other : UInt8} (hother : isNameByte other = false) :
    other ∉ decimal n :=
  not_mem_of_isNameByte (fun _ hch ↦ isNameByte_of_isDigit (isDigit_of_mem_decimal hch)) hother

theorem not_mem_topic {topic : Bytes} (h : isValidTopicName topic = true) {other : UInt8}
    (hother : isNameByte other = false) : other ∉ topic := by
  have hall : topic.all isNameByte = true := by
    simp only [isValidTopicName, Bool.and_eq_true] at h
    exact h.2
  exact not_mem_of_isNameByte (List.all_eq_true.mp hall) hother

/-- What the store commits: names and numbers of the types the code has. -/
structure OffsetRecord.Storable (record : OffsetRecord) : Prop where
  topic : isValidTopicName record.topic = true
  partition : record.partition < 2 ^ 16
  nextOffset : record.nextOffset < 2 ^ 64

def OffsetRecord.input (record : OffsetRecord) : Bytes :=
  crcInput record.topic record.partition record.nextOffset

/-- A record's line without its end. -/
def OffsetRecord.text (record : OffsetRecord) : Bytes :=
  record.input ++ 9 :: decimal (crc32 record.input)

def OffsetRecord.line (record : OffsetRecord) : Bytes :=
  writeOffsetRecord record.topic record.partition record.nextOffset

theorem OffsetRecord.line_eq (record : OffsetRecord) : record.line = record.text ++ [10] := by
  simp [OffsetRecord.line, OffsetRecord.text, OffsetRecord.input, writeOffsetRecord]

theorem OffsetRecord.not_mem_text {record : OffsetRecord} (h : record.Storable) {other : UInt8}
    (hother : isNameByte other = false) (htab : other ≠ 9) : other ∉ record.text := by
  simp only [OffsetRecord.text, OffsetRecord.input, crcInput, List.mem_append, List.mem_cons]
  have htopic := not_mem_topic h.topic hother
  have hpartition := not_mem_decimal record.partition hother
  have hnext := not_mem_decimal record.nextOffset hother
  have hcrc := not_mem_decimal (crc32 (crcInput record.topic record.partition record.nextOffset))
    hother
  tauto

theorem OffsetRecord.splitOn_text {record : OffsetRecord} (h : record.Storable) :
    record.text.splitOn 9 =
      [record.topic, decimal record.partition, decimal record.nextOffset,
        decimal (crc32 record.input)] := by
  have htab : isNameByte 9 = false := by decide
  have hfields : ∀ field ∈ [record.topic, decimal record.partition, decimal record.nextOffset,
      decimal (crc32 record.input)], 9 ∉ field := by
    simp only [List.mem_cons, List.not_mem_nil, or_false]
    rintro field (rfl | rfl | rfl | rfl)
    · exact not_mem_topic h.topic htab
    · exact not_mem_decimal _ htab
    · exact not_mem_decimal _ htab
    · exact not_mem_decimal _ htab
  rw [← List.splitOn_intercalate 9 hfields (by simp)]
  simp [OffsetRecord.text, OffsetRecord.input, crcInput, List.intercalate]

/-- A committed line parses to what was committed. -/
theorem OffsetRecord.parseOffsetLine_text {record : OffsetRecord} (h : record.Storable) :
    parseOffsetLine record.text = some record := by
  have hpartition := h.partition
  rw [parseOffsetLine, OffsetRecord.splitOn_text h]
  simp only [h.topic, Bool.true_eq_false, if_false]
  rw [parseDecimal_decimal (by omega), Option.bind_some, if_neg (by omega),
    parseDecimal_decimal h.nextOffset, Option.bind_some, parseDecimal_decimal (crc32_lt _),
    Option.bind_some, OffsetRecord.input, if_pos rfl]

theorem OffsetRecord.dropCarriageReturn_text {record : OffsetRecord} (h : record.Storable) :
    dropCarriageReturn record.text = record.text := by
  rw [dropCarriageReturn, if_neg]
  intro hlast
  exact OffsetRecord.not_mem_text h (by decide) (by decide) (List.mem_of_getLast? hlast)

/-! ## Lines that parse -/

inductive Lines : Bytes → List OffsetRecord → Prop
  | nil : Lines [] []
  | cons {line rest : Bytes} {record : OffsetRecord} {records : List OffsetRecord}
      (hline : 10 ∉ line) (hparse : parseOffsetLine (dropCarriageReturn line) = some record)
      (hrest : Lines rest records) : Lines (line ++ 10 :: rest) (record :: records)

theorem Lines.append {content content' : Bytes} {records records' : List OffsetRecord}
    (h : Lines content records) (h' : Lines content' records') :
    Lines (content ++ content') (records ++ records') := by
  induction h with
  | nil => exact h'
  | cons hline hparse _ ih =>
      rw [List.append_assoc, List.cons_append, List.cons_append]
      exact Lines.cons hline hparse ih

theorem Lines.line {record : OffsetRecord} (h : record.Storable) : Lines record.line [record] := by
  rw [OffsetRecord.line_eq]
  refine Lines.cons (OffsetRecord.not_mem_text h (by decide) (by decide)) ?_ Lines.nil
  rw [OffsetRecord.dropCarriageReturn_text h, OffsetRecord.parseOffsetLine_text h]

theorem Lines.flatMap_line {records : List OffsetRecord} (h : ∀ record ∈ records, record.Storable) :
    Lines (records.flatMap OffsetRecord.line) records := by
  induction records with
  | nil => exact Lines.nil
  | cons record records ih =>
      exact (Lines.line (h record List.mem_cons_self)).append
        (ih fun other hother ↦ h other (List.mem_cons_of_mem record hother))

theorem takeWhile_line {line : Bytes} (h : 10 ∉ line) (rest : Bytes) :
    (line ++ 10 :: rest).takeWhile (· != 10) = line ∧
      (line ++ 10 :: rest).dropWhile (· != 10) = 10 :: rest := by
  have hall : ∀ ch ∈ line, (ch != 10) = true := fun ch hch ↦ by
    simpa using ne_of_mem_of_not_mem hch h
  rw [List.takeWhile_append_of_pos hall, List.dropWhile_append_of_pos hall]
  simp

/-- Bytes without a line end are not looked at. -/
theorem recoverLines_torn {torn : Bytes} (h : 10 ∉ torn) (fuel : ℕ) :
    recoverLines fuel torn = ([], 0) := by
  cases fuel with
  | zero => rfl
  | succ fuel =>
      have hnone : torn.dropWhile (· != 10) = [] := List.dropWhile_eq_nil_iff.mpr fun ch hch ↦ by
        simpa using ne_of_mem_of_not_mem hch h
      rw [recoverLines, hnone]

/-- Lines that parse are read before what stands behind them. -/
theorem Lines.recoverLines_append {front rest : Bytes} {records : List OffsetRecord}
    (h : Lines front records) :
    ∀ fuel, front.length + rest.length < fuel → ∃ fuel', rest.length < fuel' ∧
      Storage.recoverLines fuel (front ++ rest) =
        (records ++ (Storage.recoverLines fuel' rest).1,
          front.length + (Storage.recoverLines fuel' rest).2) := by
  induction h with
  | nil =>
      intro fuel hfuel
      refine ⟨fuel, by simpa using hfuel, ?_⟩
      simp only [List.nil_append, List.length_nil, Nat.zero_add]
  | @cons line behind record records hline hparse _ ih =>
      intro fuel hfuel
      rw [List.length_append, List.length_cons] at hfuel
      obtain ⟨fuel, rfl⟩ : ∃ k, fuel = k + 1 := ⟨fuel - 1, by omega⟩
      obtain ⟨fuel', hfuel', hbehind⟩ := ih fuel (by omega)
      refine ⟨fuel', hfuel', ?_⟩
      obtain ⟨htake, hdrop⟩ := takeWhile_line hline (behind ++ rest)
      rw [List.append_assoc, List.cons_append, Storage.recoverLines, hdrop, htake]
      simp only [hparse, hbehind, List.length_append, List.length_cons, List.cons_append]
      rw [Nat.add_assoc line.length, ← Nat.add_assoc 1, Nat.add_comm 1, ← Nat.add_assoc]

theorem Lines.recoverLines {content torn : Bytes} {records : List OffsetRecord}
    (h : Lines content records) (htorn : 10 ∉ torn) (fuel : ℕ)
    (hfuel : content.length + torn.length < fuel) :
    Storage.recoverLines fuel (content ++ torn) = (records, content.length) := by
  obtain ⟨fuel', -, hread⟩ := h.recoverLines_append fuel hfuel
  rw [hread, recoverLines_torn htorn, List.append_nil, Nat.add_zero]

/-- What a restart reads from lines and the beginning of another. -/
theorem Lines.recoverContent {content torn : Bytes} {records : List OffsetRecord}
    (h : Lines content records) (htorn : 10 ∉ torn) :
    Storage.recoverContent (content ++ torn) = (records, content.length) :=
  h.recoverLines htorn _ (by rw [List.length_append]; omega)

theorem Lines.recoverContent_self {content : Bytes} {records : List OffsetRecord}
    (h : Lines content records) : Storage.recoverContent content = (records, content.length) := by
  have hcontent := h.recoverContent (List.not_mem_nil : 10 ∉ ([] : Bytes))
  rwa [List.append_nil] at hcontent

theorem lines_recoverLines (fuel : ℕ) : ∀ rest : Bytes,
    Lines (rest.take (recoverLines fuel rest).2) (recoverLines fuel rest).1 := by
  induction fuel with
  | zero => exact fun rest ↦ Lines.nil
  | succ fuel ih =>
      intro rest
      rw [recoverLines]
      cases hdrop : rest.dropWhile (· != 10) with
      | nil => exact Lines.nil
      | cons ch behind =>
          set line := rest.takeWhile (· != 10) with hlineDef
          have hch : ch = 10 := by
            have hhead := List.head_dropWhile_not (· != (10 : UInt8)) (l := rest) (by simp [hdrop])
            simpa [hdrop] using hhead
          have hsplit : rest = line ++ 10 :: behind := by
            have happend := List.takeWhile_append_dropWhile (p := (· != (10 : UInt8))) (l := rest)
            rw [hdrop, ← hlineDef, hch] at happend
            exact happend.symm
          have hline : (10 : UInt8) ∉ line := fun hmem ↦ by
            simpa using List.mem_takeWhile_imp hmem
          cases hparse : parseOffsetLine (dropCarriageReturn line) with
          | none =>
              simp only [hparse]
              exact Lines.nil
          | some record =>
              have htake : rest.take (line.length + 1 + (recoverLines fuel behind).2) =
                  line ++ 10 :: behind.take (recoverLines fuel behind).2 := by
                rw [hsplit, Nat.add_assoc, List.take_length_add_append, Nat.add_comm 1,
                  List.take_succ_cons]
              simp only [hparse, htake]
              exact Lines.cons hline hparse (ih behind)

/-- The part a restart keeps of a log is made of lines that parse. -/
theorem lines_recoverContent (content : Bytes) :
    Lines (content.take (recoverContent content).2) (recoverContent content).1 :=
  lines_recoverLines _ content

end BoltStream.Storage
