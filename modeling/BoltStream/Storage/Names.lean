import BoltStream.Lib.Decimal

/-!
# Topic and segment names

Names are byte strings.  A segment file is named by its base offset, printed
with twenty decimal places; `parseBaseOffset` inverts the printer on 64-bit
offsets, so the model can name segment files by their base offsets.
-/

namespace BoltStream.Storage

open BoltStream.Lib

/-- `[A-Za-z0-9._-]` -/
def isNameByte (ch : UInt8) : Bool :=
  (decide (65 ≤ ch.toNat) && decide (ch.toNat ≤ 90)) ||
    (decide (97 ≤ ch.toNat) && decide (ch.toNat ≤ 122)) || isDigit ch ||
      ch == 46 || ch == 95 || ch == 45

theorem isNameByte_ne {ch other : UInt8} (h : isNameByte ch = true)
    (hother : isNameByte other = false) : ch ≠ other := by
  rintro rfl
  rw [h] at hother
  cases hother

def isValidTopicName (topic : Bytes) : Bool :=
  topic != [] && topic != [46] && topic != [46, 46] && topic.all isNameByte

def formatBaseOffset (baseOffset : ℕ) : Bytes := paddedDecimal 20 baseOffset

/-- The four bytes of `.log`. -/
def logSuffix : Bytes := [46, 108, 111, 103]

def parseBaseOffset (name : Bytes) : Option ℕ :=
  if name.length ≠ 24 ∨ name.drop 20 ≠ logSuffix then none
  else parseDecimal (2 ^ 64) (name.take 20)

/-- The file name of `segment_path(base_offset)`. -/
def segmentPath (baseOffset : ℕ) : Bytes := formatBaseOffset baseOffset ++ logSuffix

theorem length_formatBaseOffset {baseOffset : ℕ} (h : baseOffset < 2 ^ 64) :
    (formatBaseOffset baseOffset).length = 20 :=
  length_paddedDecimal (by omega) (h.trans (by norm_num))

/-- A segment's name gives back its base offset. -/
theorem parseBaseOffset_segmentPath {baseOffset : ℕ} (h : baseOffset < 2 ^ 64) :
    parseBaseOffset (segmentPath baseOffset) = some baseOffset := by
  have hlen := length_formatBaseOffset h
  have hdrop : (segmentPath baseOffset).drop 20 = logSuffix := List.drop_left' hlen
  have htake : (segmentPath baseOffset).take 20 = formatBaseOffset baseOffset :=
    List.take_left' hlen
  have hlength : (segmentPath baseOffset).length = 24 := by
    rw [segmentPath, List.length_append, hlen]
    rfl
  rw [parseBaseOffset, if_neg (by simp [hlength, hdrop]), htake]
  exact parseDecimal_paddedDecimal h

example : parseBaseOffset (segmentPath 42) = some 42 := by decide

end BoltStream.Storage
