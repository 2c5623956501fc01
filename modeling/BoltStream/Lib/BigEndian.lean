import Mathlib.Tactic

/-!
# Big-endian numerals

A numeral of width `w` is the list of its `w` base-256 digits, most significant
digit first.  Writing keeps the value modulo `256 ^ w`; reading a list of
digits is the usual positional value.
-/

namespace BoltStream.Lib

abbrev Bytes := List UInt8

/-- The `w` low base-256 digits of `n`, most significant first. -/
def beBytes : ℕ → ℕ → Bytes
  | 0, _ => []
  | w + 1, n => UInt8.ofNat (n / 256 ^ w) :: beBytes w n

/-- The positional value of a list of digits, most significant first. -/
def beNat : Bytes → ℕ
  | [] => 0
  | b :: bs => b.toNat * 256 ^ bs.length + beNat bs

@[simp] theorem length_beBytes (w n : ℕ) : (beBytes w n).length = w := by
  induction w with
  | zero => rfl
  | succ w ih => simp [beBytes, ih]

theorem beNat_lt (bs : Bytes) : beNat bs < 256 ^ bs.length := by
  induction bs with
  | nil => simp [beNat]
  | cons b bs ih =>
      have hb : b.toNat < 256 := b.toNat_lt
      have hle : b.toNat * 256 ^ bs.length + 256 ^ bs.length ≤ 256 * 256 ^ bs.length := by
        calc b.toNat * 256 ^ bs.length + 256 ^ bs.length
            = (b.toNat + 1) * 256 ^ bs.length := by ring
          _ ≤ 256 * 256 ^ bs.length := Nat.mul_le_mul_right _ hb
      simp only [beNat, List.length_cons, pow_succ]
      omega

theorem beNat_beBytes (w n : ℕ) : beNat (beBytes w n) = n % 256 ^ w := by
  induction w with
  | zero => simp [beBytes, beNat, Nat.mod_one]
  | succ w ih =>
      have hdigit : (UInt8.ofNat (n / 256 ^ w)).toNat = n / 256 ^ w % 256 := by
        simp [UInt8.toNat_ofNat']
      have hsplit : n % 256 ^ (w + 1) = n % 256 ^ w + 256 ^ w * (n / 256 ^ w % 256) := by
        rw [pow_succ, Nat.mod_mul]
      rw [hsplit]
      simp only [beBytes, beNat, length_beBytes, ih, hdigit]
      ring

/-- Digits only depend on the value modulo the range of the width. -/
theorem beBytes_mod (w n k : ℕ) (h : w ≤ k) : beBytes w (n % 256 ^ k) = beBytes w n := by
  induction w with
  | zero => rfl
  | succ w ih =>
      have hdiv : n % 256 ^ k / 256 ^ w % 256 = n / 256 ^ w % 256 := by
        obtain ⟨d, rfl⟩ : ∃ d, k = w + (d + 1) := ⟨k - (w + 1), by omega⟩
        rw [pow_add, Nat.mod_mul_right_div_self, pow_succ, Nat.mod_mul_left_mod]
      have hdigit : UInt8.ofNat (n % 256 ^ k / 256 ^ w) = UInt8.ofNat (n / 256 ^ w) := by
        apply UInt8.toNat_inj.mp
        simpa [UInt8.toNat_ofNat'] using hdiv
      simp only [beBytes, hdigit, ih (by omega)]

/-- Reading `w` digits and writing them again is the identity. -/
theorem beBytes_beNat (bs : Bytes) : beBytes bs.length (beNat bs) = bs := by
  induction bs with
  | nil => rfl
  | cons b bs ih =>
      have hpos : 0 < 256 ^ bs.length := by positivity
      have hdiv : (b.toNat * 256 ^ bs.length + beNat bs) / 256 ^ bs.length = b.toNat := by
        rw [Nat.add_comm, Nat.add_mul_div_right _ _ hpos, Nat.div_eq_of_lt (beNat_lt bs),
          Nat.zero_add]
      have htail : beBytes bs.length (b.toNat * 256 ^ bs.length + beNat bs) = bs := by
        rw [← beBytes_mod bs.length _ bs.length le_rfl, Nat.mul_comm, Nat.mul_add_mod,
          Nat.mod_eq_of_lt (beNat_lt bs), ih]
      simp only [List.length_cons, beBytes, beNat, hdiv, htail, UInt8.ofNat_toNat]

end BoltStream.Lib
