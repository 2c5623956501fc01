import BoltStream.Lib.BigEndian

/-!
# Compression codecs

The zstd library is a parameter: `Zstd.decompress capacity input` is what
`ZSTD_decompress` writes into a buffer of `capacity` bytes, or the name of its
error.  Being a function, it is deterministic.
-/

namespace BoltStream.Compression

open BoltStream.Lib

/-- The one-byte codec enumeration.  A cast from a wider field can leave it
outside its enumerators. -/
inductive Codec where
  | none
  | zstd
  | other (value : ℕ)
  deriving DecidableEq, Repr

/-- `static_cast<Codec>` of a 16-bit field keeps its low eight bits. -/
def Codec.ofField (field : ℕ) : Codec :=
  match field % 256 with
  | 0 => .none
  | 1 => .zstd
  | value => .other value

def Codec.toField : Codec → ℕ
  | .none => 0
  | .zstd => 1
  | .other value => value

def isSupported (codec : Codec) : Bool := codec == .none || codec == .zstd

def kNoneMask : ℕ := 1 <<< Codec.none.toField
def kZstdMask : ℕ := 1 <<< Codec.zstd.toField
def kSupportedCodecMask : ℕ := kNoneMask ||| kZstdMask

structure Zstd where
  compress : ℤ → Bytes → Except String Bytes
  decompress : ℕ → Bytes → Except String Bytes

def compress (Z : Zstd) (codec : Codec) (input : Bytes) (level : ℤ) : Except String Bytes :=
  match codec with
  | .none => .ok input
  | .zstd => (Z.compress level input).mapError ("zstd compression failed: " ++ ·)
  | .other _ => .error "unsupported compression codec"

def decompress (Z : Zstd) (codec : Codec) (input : Bytes) (expectedSize maximumSize : ℕ) :
    Except String Bytes :=
  if expectedSize > maximumSize then .error "uncompressed batch exceeds configured limit"
  else match codec with
    | .none =>
        if input.length ≠ expectedSize then .error "uncompressed batch size mismatch"
        else .ok input
    | .zstd =>
        ((Z.decompress expectedSize input).mapError
          ("zstd decompression failed: " ++ ·)).bind fun output ↦
            if output.length ≠ expectedSize then .error "decompressed batch size mismatch"
            else .ok output
    | .other _ => .error "unsupported compression codec"

theorem Codec.ofField_toField {codec : Codec} (h : isSupported codec = true) :
    Codec.ofField codec.toField = codec := by
  cases codec with
  | none => rfl
  | zstd => rfl
  | other value => simp [isSupported] at h

theorem compress_zstd_eq_ok {Z : Zstd} {input frame : Bytes} {level : ℤ}
    (h : compress Z .zstd input level = .ok frame) : Z.compress level input = .ok frame := by
  unfold compress at h
  dsimp only at h
  cases hresult : Z.compress level input with
  | error message =>
      rw [hresult] at h
      cases h
  | ok output =>
      rw [hresult] at h
      exact h

/-- A compressed input comes out again in a buffer of its own size. -/
def Zstd.Restores (Z : Zstd) : Prop :=
  ∀ level input frame, input ≠ [] → Z.compress level input = .ok frame →
    Z.decompress input.length frame = .ok input

/-- What was compressed is decompressed, if it is within the limit. -/
theorem decompress_of_compress {Z : Zstd} (hrestores : Z.Restores) {codec : Codec}
    {input encoded : Bytes} {level : ℤ} (hne : input ≠ [])
    (h : compress Z codec input level = .ok encoded) {maximum : ℕ}
    (hlimit : input.length ≤ maximum) :
    decompress Z codec encoded input.length maximum = .ok input := by
  unfold decompress
  rw [if_neg (Nat.not_lt.mpr hlimit)]
  cases codec with
  | none =>
      obtain rfl : input = encoded := Except.ok.inj h
      exact if_neg (not_not.mpr rfl)
  | zstd =>
      dsimp only
      rw [hrestores level input encoded hne (compress_zstd_eq_ok h)]
      exact if_neg (not_not.mpr rfl)
  | other value => cases h

theorem decompress_le {Z : Zstd} {codec : Codec} {input raw : Bytes} {expected maximum : ℕ}
    (h : decompress Z codec input expected maximum = .ok raw) : expected ≤ maximum := by
  by_contra hlt
  unfold decompress at h
  rw [if_pos (by omega)] at h
  cases h

/-- A decompressed batch has the size that was asked for. -/
theorem length_of_decompress {Z : Zstd} {codec : Codec} {input raw : Bytes}
    {expected maximum : ℕ} (h : decompress Z codec input expected maximum = .ok raw) :
    raw.length = expected := by
  unfold decompress at h
  rw [if_neg (Nat.not_lt.mpr (decompress_le h))] at h
  cases codec with
  | none =>
      dsimp only at h
      split_ifs at h with hsize
      obtain rfl := Except.ok.inj h
      exact not_not.mp hsize
  | zstd =>
      dsimp only at h
      cases houtput : (Z.decompress expected input).mapError
          ("zstd decompression failed: " ++ ·) with
      | error message =>
          rw [houtput] at h
          cases h
      | ok output =>
          rw [houtput] at h
          change (if output.length ≠ expected then _ else _) = _ at h
          split_ifs at h with hsize
          obtain rfl := Except.ok.inj h
          exact not_not.mp hsize
  | other value => cases h

theorem isSupported_of_decompress {Z : Zstd} {codec : Codec} {input raw : Bytes}
    {expected maximum : ℕ} (h : decompress Z codec input expected maximum = .ok raw) :
    isSupported codec = true := by
  cases codec with
  | none => rfl
  | zstd => rfl
  | other value =>
      unfold decompress at h
      split at h <;> cases h

/-- The limit only decides whether a batch is looked at: two limits that both
admit it give the same bytes. -/
theorem decompress_of_le {Z : Zstd} {codec : Codec} {input : Bytes}
    {expected maximum maximum' : ℕ} (h : expected ≤ maximum) (h' : expected ≤ maximum') :
    decompress Z codec input expected maximum = decompress Z codec input expected maximum' := by
  unfold decompress
  rw [if_neg (Nat.not_lt.mpr h), if_neg (Nat.not_lt.mpr h')]

theorem decompress_of_lt {Z : Zstd} {codec : Codec} {input : Bytes}
    {expected maximum : ℕ} (h : maximum < expected) :
    decompress Z codec input expected maximum =
      .error "uncompressed batch exceeds configured limit" := by
  unfold decompress
  rw [if_pos h]

/-- The part of zstd that stores its input: one frame with one raw block. -/
def rawBlockZstd : Zstd where
  compress _ input :=
    if input.length < 256 then
      .ok ([40, 181, 47, 253, 32, UInt8.ofNat input.length,
        UInt8.ofNat (1 + 8 * input.length), UInt8.ofNat ((1 + 8 * input.length) / 256), 0] ++ input)
    else .error "Src size is incorrect"
  decompress capacity frame :=
    if frame.take 5 ≠ [40, 181, 47, 253, 32] then .error "Unknown frame descriptor"
    else if frame.drop 9 = [] ∨ frame.take 9 ≠ [40, 181, 47, 253, 32,
        UInt8.ofNat (frame.length - 9), UInt8.ofNat (1 + 8 * (frame.length - 9)),
        UInt8.ofNat ((1 + 8 * (frame.length - 9)) / 256), 0] then
      .error "Data corruption detected"
    else if frame.length - 9 > capacity then .error "Destination buffer is too small"
    else .ok (frame.drop 9)

theorem restores_rawBlockZstd : rawBlockZstd.Restores := by
  intro level input frame hne hcompress
  unfold rawBlockZstd at hcompress
  dsimp only at hcompress
  split_ifs at hcompress with hsize
  obtain rfl := Except.ok.inj hcompress
  have hlength : ([40, 181, 47, 253, 32, UInt8.ofNat input.length,
      UInt8.ofNat (1 + 8 * input.length), UInt8.ofNat ((1 + 8 * input.length) / 256), 0] ++
        input).length - 9 = input.length := by
    rw [List.length_append]
    exact Nat.add_sub_cancel_left _ _
  unfold rawBlockZstd
  dsimp only
  rw [hlength, if_neg, if_neg, if_neg (Nat.lt_irrefl _)]
  · rfl
  · rintro (hempty | hheader)
    · exact hne hempty
    · exact hheader rfl
  · exact fun hheader ↦ hheader rfl

/-- A library that refuses every frame, for logs without compressed batches. -/
def noZstd : Zstd :=
  ⟨fun _ _ ↦ .error "Unknown frame descriptor", fun _ _ ↦ .error "Unknown frame descriptor"⟩

end BoltStream.Compression
