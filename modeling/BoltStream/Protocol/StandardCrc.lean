import BoltStream.Lib.Crc
import BoltStream.Protocol.Wire

/-!
# The header checksum

CRC-32 is defined by division of polynomials: the bits of the message, least
significant first in every byte, with the first 32 of them inverted, are divided
by a fixed generator, and the remainder is inverted.  The loop of `crc32`
computes it.
-/

namespace BoltStream.Protocol

open BoltStream.Lib Polynomial

/-- The generator of CRC-32. -/
noncomputable def crc32Generator : (ZMod 2)[X] :=
  X ^ 32 + X ^ 26 + X ^ 23 + X ^ 22 + X ^ 16 + X ^ 12 + X ^ 11 + X ^ 10 + X ^ 8 + X ^ 7 + X ^ 5 +
    X ^ 4 + X ^ 2 + X + 1

/-- The remainder of a message.  A register that starts with ones stands for 32
ones in front of the message. -/
noncomputable def crc32Remainder (bytes : Bytes) : (ZMod 2)[X] :=
  (X ^ (8 * bytes.length) * ∑ i ∈ Finset.range 32, X ^ i +
    X ^ 32 * message (bytes.map UInt8.toBitVec)) %ₘ crc32Generator

/-- CRC-32 as a number.  Bit `i` is the inverse of the coefficient at `31 - i`. -/
noncomputable def standardCrc32 (bytes : Bytes) : ℕ :=
  ∑ i ∈ Finset.range 32, if (crc32Remainder bytes).coeff (31 - i) = 0 then 2 ^ i else 0

theorem crcBit_eq (crc : BitVec 32) : crcBit crc = shiftStep 0xEDB88320#32 crc := by
  have hlow : crc &&& 1#32 = if crc.getLsbD 0 then 1#32 else 0#32 := by
    rw [BitVec.and_one_eq_setWidth_ofBool_getLsbD]
    cases crc.getLsbD 0 <;> rfl
  rw [crcBit, shiftStep, hlow]
  cases crc.getLsbD 0 <;> rfl

theorem crcByte_eq (crc : BitVec 32) (byte : UInt8) :
    crcByte crc byte = chunkStep 0xEDB88320#32 crc byte.toBitVec := by
  have hbyte : BitVec.ofNat 32 byte.toNat = byte.toBitVec.setWidth 32 :=
    BitVec.ofNat_toNat 32 byte.toBitVec
  rw [crcByte, chunkStep, hbyte, funext crcBit_eq]

theorem foldl_crcByte (bytes : Bytes) (crc : BitVec 32) :
    bytes.foldl crcByte crc =
      (bytes.map UInt8.toBitVec).foldl (chunkStep 0xEDB88320#32) crc := by
  rw [List.foldl_map]
  congr 1
  exact funext fun crc ↦ funext fun byte ↦ crcByte_eq crc byte

theorem generator_eq : generator 0xEDB88320#32 = crc32Generator := by
  rw [generator, poly, crc32Generator]
  simp [Finset.sum_range_succ, bit]
  ring

theorem poly_allOnes : poly 0xFFFFFFFF#32 = ∑ i ∈ Finset.range 32, X ^ i := by
  ext j
  rw [coeff_poly, finsetSum_coeff]
  simp only [coeff_X_pow]
  rw [Finset.sum_ite_eq]
  simp only [Finset.mem_range]
  split_ifs with hj
  · have hbit : ∀ i < 32, (0xFFFFFFFF#32).getLsbD i = true := by decide
    rw [hbit _ (by omega)]
    rfl
  · rfl

theorem poly_register (bytes : Bytes) :
    poly (bytes.foldl crcByte 0xFFFFFFFF#32) = crc32Remainder bytes := by
  rw [foldl_crcByte, poly_foldl _ (by norm_num) (by norm_num), List.length_map, poly_allOnes,
    generator_eq]
  rfl

/-- The bitwise loop computes the standard checksum. -/
theorem crc32_eq_standard (bytes : Bytes) : crc32 bytes = standardCrc32 bytes := by
  set crc := bytes.foldl crcByte 0xFFFFFFFF#32 with hcrc
  have hbit : ∀ i < 32, (crc32Remainder bytes).coeff (31 - i) = 0 ↔
      (~~~ crc).toNat.testBit i = true := by
    intro i hi
    rw [← poly_register, coeff_poly, if_pos (by omega), show 32 - 1 - (31 - i) = i by omega,
      bit_eq_zero, ← BitVec.getLsbD, BitVec.getLsbD_not, decide_eq_true hi, Bool.true_and,
      Bool.not_eq_true']
  rw [crc32, standardCrc32, ← hcrc, ← sum_testBit 32 (~~~ crc).toNat (BitVec.isLt _)]
  refine Finset.sum_congr rfl fun i hi ↦ ?_
  simp only [hbit i (Finset.mem_range.mp hi)]

end BoltStream.Protocol
