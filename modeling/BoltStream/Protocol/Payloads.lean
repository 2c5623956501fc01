import BoltStream.Lib.ExactReader
import BoltStream.Protocol.Frames

/-!
# Payloads

What the encoders and decoders of payload messages share: the fields, counted
lists, and the way a decoder reads a whole payload and then checks its value.
A decoder is exact when it takes back every valid value that was encoded, and
when the value it returns encodes to the payload again.
-/

namespace BoltStream.Protocol

open BoltStream.Lib

abbrev PayloadReader (α : Type) := Reader UInt8 α

variable {α : Type}

/-! ## Fields -/

def writeBool (value : Bool) : Bytes := writeU32 (if value then 1 else 0)

/-- The number of values, then the values. -/
def writeCounted (write : α → Bytes) (values : List α) : Bytes :=
  writeU32 values.length ++ values.flatMap write

namespace PayloadReader

def u16 : PayloadReader ℕ := readU16

def u32 : PayloadReader ℕ := readU32

def u64 : PayloadReader ℕ := readU64

/-- `read_string` and `read_bytes` -/
def string : PayloadReader Bytes := readBytes

/-- Only zero and one are booleans. -/
def bool : PayloadReader Bool := do
  let encoded ← u32
  if encoded > 1 then failure else return encoded == 1

/-- `count` values, each read by `read`.  The decoders `reserve` room for them before
they read, which throws where memory is short; the model leaves that out. -/
def counted (read : PayloadReader α) : PayloadReader (List α) := u32 >>= Reader.many read

end PayloadReader

/-- The length of a string fits its field. -/
def Short (value : Bytes) : Prop := value.length < 2 ^ 32

section Fields

open PayloadReader

theorem readField_exact (width : ℕ) :
    Exact (beBytes width) (PayloadReader.readField width) (· < 256 ^ width) := by
  constructor
  · intro value _ hfits rest
    rw [readField_beBytes, Nat.mod_eq_of_lt hfits]
  · intro bytes value rest hread
    rw [readField] at hread
    split_ifs at hread with hshort
    obtain ⟨rfl, rfl⟩ := Prod.mk.inj (Option.some.inj hread)
    have hlength : (bytes.take width).length = width := by
      rw [List.length_take]
      omega
    have hdigits := beBytes_beNat (bytes.take width)
    have hvalue := beNat_lt (bytes.take width)
    rw [hlength] at hdigits hvalue
    refine ⟨trivial, hvalue, ?_⟩
    rw [hdigits, List.take_append_drop]

theorem u16_exact : Exact writeU16 u16 (· < 2 ^ 16) := readField_exact 2

theorem u32_exact : Exact writeU32 u32 (· < 2 ^ 32) := readField_exact 4

theorem u64_exact : Exact writeU64 u64 (· < 2 ^ 64) := readField_exact 8

theorem string_exact : Exact writeBytes string Short := by
  constructor
  · intro value _ hshort rest
    exact readBytes_writeBytes hshort rest
  · intro bytes value rest hread
    obtain ⟨⟨size, tail⟩, hsize, hvalue⟩ := Option.bind_eq_some_iff.mp hread
    obtain ⟨-, hfits, rfl⟩ := u32_exact.write_read _ _ _ hsize
    split_ifs at hvalue with hlong
    obtain ⟨rfl, rfl⟩ := Prod.mk.inj (Option.some.inj hvalue)
    have hlength : (tail.take size).length = size := by
      rw [List.length_take]
      exact Nat.min_eq_left (Nat.not_lt.mp hlong)
    refine ⟨trivial, hlength.trans_lt hfits, ?_⟩
    rw [writeBytes, hlength, List.append_assoc, List.take_append_drop]

theorem bool_exact : Exact writeBool bool (fun _ ↦ True) := by
  constructor
  · intro value _ _ rest
    have hfits : (if value then 1 else 0) < 2 ^ 32 := by split_ifs <;> norm_num
    unfold PayloadReader.bool writeBool
    rw [Reader.bind_apply, u32_exact.read_write _ trivial hfits, Option.bind_some]
    cases value with
    | false => rfl
    | true => rfl
  · intro bytes value rest hread
    obtain ⟨encoded, tail, hencoded, hvalue⟩ := Reader.bind_eq_some hread
    obtain ⟨-, -, rfl⟩ := u32_exact.write_read _ _ _ hencoded
    split_ifs at hvalue with hlarge
    · cases hvalue
    · obtain ⟨rfl, rfl⟩ := Prod.mk.inj (Option.some.inj hvalue)
      refine ⟨trivial, trivial, ?_⟩
      have hsmall : encoded = 0 ∨ encoded = 1 := by omega
      rcases hsmall with rfl | rfl
      · rfl
      · rfl

theorem counted_exact {write : α → Bytes} {read : PayloadReader α} {Fits : α → Prop}
    (h : Exact write read Fits) :
    Exact (writeCounted write) (counted read)
      (fun values ↦ values.length < 2 ^ 32 ∧ ∀ value ∈ values, Fits value) :=
  ExactOn.counted u32_exact h

end Fields

/-! ## Decoders -/

/-- The value of a whole payload, unless a check refuses it.  A check is the
condition it refuses and the text of its error. -/
def decodePayload (read : PayloadReader α) (malformed : String)
    (checks : α → List (Bool × String)) (payload : Bytes) : Except DecodeError α :=
  match read payload with
  | some (value, []) =>
      match (checks value).find? Prod.fst with
      | some check => .error ⟨.malformedPayload, check.2⟩
      | none => .ok value
  | _ => .error ⟨.malformedPayload, malformed⟩

/-- No check refuses the value. -/
def Passes (checks : α → List (Bool × String)) (value : α) : Prop :=
  ∀ check ∈ checks value, check.1 = false

structure ExactDecoder (encode : α → Bytes) (decode : Bytes → Except DecodeError α)
    (Valid : α → Prop) : Prop where
  decode_encode : ∀ value, Valid value → decode (encode value) = .ok value
  encode_decode : ∀ payload value, decode payload = .ok value →
    Valid value ∧ encode value = payload

theorem find?_fst_eq_none {checks : List (Bool × String)} :
    checks.find? Prod.fst = none ↔ ∀ check ∈ checks, check.1 = false := by
  simp [List.find?_eq_none]

theorem decodePayload_exact {write : α → Bytes} {read : PayloadReader α} {Fits : α → Prop}
    (h : Exact write read Fits) (malformed : String) (checks : α → List (Bool × String)) :
    ExactDecoder write (decodePayload read malformed checks)
      (fun value ↦ Fits value ∧ Passes checks value) := by
  constructor
  · rintro value ⟨hfits, hpasses⟩
    have hread := h.read_write value trivial hfits []
    rw [List.append_nil] at hread
    have hchecks : (checks value).find? Prod.fst = none := find?_fst_eq_none.mpr hpasses
    simp only [decodePayload, hread, hchecks]
  · intro payload value hdecode
    unfold decodePayload at hdecode
    split at hdecode
    · rename_i other hread
      obtain ⟨-, hfits, hpayload⟩ := h.write_read _ _ _ hread
      split at hdecode
      · cases hdecode
      · rename_i hchecks
        obtain rfl := Except.ok.inj hdecode
        refine ⟨⟨hfits, find?_fst_eq_none.mp hchecks⟩, ?_⟩
        rw [hpayload, List.append_nil]
    · cases hdecode

/-- The requests without a payload. -/
def validateEmptyPayload (payload : Bytes) : Except DecodeError Unit :=
  if payload ≠ [] then .error ⟨.malformedPayload, "request payload must be empty"⟩ else .ok ()

theorem validateEmptyPayload_exact :
    ExactDecoder (fun _ : Unit ↦ []) validateEmptyPayload (fun _ ↦ True) := by
  constructor
  · intro _ _
    rfl
  · intro payload _ hdecode
    rw [validateEmptyPayload] at hdecode
    split_ifs at hdecode with hempty
    exact ⟨trivial, (not_not.mp hempty).symm⟩

end BoltStream.Protocol
