import Mathlib.Algebra.Field.ZMod
import Mathlib.Algebra.Polynomial.FieldDivision
import Mathlib.RingTheory.PrincipalIdealDomain
import Mathlib.Tactic

/-!
# Cyclic redundancy checks

A register of `w` bits that is shifted to the right, with a constant added when a
one leaves it, computes remainders of polynomials over the field with two
elements.  The least significant bit of the register, which leaves it first,
stands for the highest power.  Two messages that differ only in as many bits in a
row as the register has, have different remainders.
-/

namespace BoltStream.Lib

open Polynomial Finset

noncomputable section

/-- A bit as a coefficient. -/
def bit (b : Bool) : ZMod 2 := if b then 1 else 0

theorem bit_xor (a b : Bool) : bit (a ^^ b) = bit a + bit b := by
  cases a <;> cases b <;> decide

theorem bit_eq_zero {b : Bool} : bit b = 0 ↔ b = false := by
  cases b <;> decide

/-- The polynomial of a register. -/
def poly {w : ℕ} (r : BitVec w) : (ZMod 2)[X] :=
  ∑ i ∈ range w, C (bit (r.getLsbD i)) * X ^ (w - 1 - i)

/-- The polynomial of a register constant, with its leading term. -/
def generator {w : ℕ} (p : BitVec w) : (ZMod 2)[X] := X ^ w + poly p

/-- A message in pieces of `k` bits each.  Its first bit has the highest power. -/
def message {k : ℕ} : List (BitVec k) → (ZMod 2)[X]
  | [] => 0
  | c :: cs => poly c * X ^ (k * cs.length) + message cs

section Registers

variable {w k : ℕ}

theorem coeff_poly (r : BitVec w) (j : ℕ) :
    (poly r).coeff j = if j < w then bit (r.getLsbD (w - 1 - j)) else 0 := by
  rw [poly, finsetSum_coeff]
  simp only [coeff_C_mul, coeff_X_pow, mul_ite, mul_one, mul_zero]
  split_ifs with hj
  · rw [sum_eq_single (w - 1 - j)]
    · rw [if_pos (by omega)]
    · intro i hi hne
      rw [mem_range] at hi
      exact if_neg (by omega)
    · intro hi
      rw [mem_range] at hi
      omega
  · refine sum_eq_zero fun i hi ↦ if_neg ?_
    rw [mem_range] at hi
    omega

theorem poly_xor (r s : BitVec w) : poly (r ^^^ s) = poly r + poly s := by
  ext j
  rw [coeff_add, coeff_poly, coeff_poly, coeff_poly]
  split_ifs
  · rw [BitVec.getLsbD_xor, bit_xor]
  · rw [add_zero]

theorem poly_zero : poly (0#w) = 0 := by
  ext j
  rw [coeff_poly, BitVec.getLsbD_zero, coeff_zero]
  exact ite_self _

theorem degree_poly_lt (r : BitVec w) : (poly r).degree < w := by
  rw [degree_lt_iff_coeff_zero]
  intro j hj
  rw [coeff_poly, if_neg (by omega)]

theorem degree_generator (p : BitVec w) : (generator p).degree = w := by
  rw [generator, degree_add_eq_left_of_degree_lt]
  · exact degree_X_pow w
  · rw [degree_X_pow]
    exact degree_poly_lt p

theorem monic_generator (p : BitVec w) : (generator p).Monic :=
  monic_X_pow_add (degree_poly_lt p)

/-- One shift: the bit that leaves has the power `w`. -/
theorem X_mul_poly (r : BitVec w) (hw : 0 < w) :
    X * poly r = poly (r >>> 1) + C (bit (r.getLsbD 0)) * X ^ w := by
  ext j
  rw [coeff_add, coeff_C_mul, coeff_X_pow, coeff_poly]
  cases j with
  | zero =>
      have hout : r.getLsbD (1 + (w - 1)) = false := BitVec.getLsbD_of_ge r _ (by omega)
      rw [coeff_X_mul_zero, if_pos hw, if_neg hw.ne, BitVec.getLsbD_ushiftRight, Nat.sub_zero,
        hout]
      rfl
  | succ j =>
      rw [coeff_X_mul, coeff_poly, BitVec.getLsbD_ushiftRight]
      by_cases hlast : j + 1 = w
      · rw [if_pos (by omega), if_neg (by omega), if_pos hlast, zero_add, mul_one,
          show w - 1 - j = 0 by omega]
      · rw [if_neg hlast, mul_zero, add_zero]
        by_cases hj : j + 1 < w
        · rw [if_pos (by omega), if_pos hj, show 1 + (w - 1 - (j + 1)) = w - 1 - j by omega]
        · rw [if_neg (by omega), if_neg hj]

/-- A piece at the low end of the register. -/
theorem poly_setWidth (c : BitVec k) (hk : k ≤ w) :
    poly (c.setWidth w) = X ^ (w - k) * poly c := by
  ext j
  rw [coeff_X_pow_mul', coeff_poly, coeff_poly, BitVec.getLsbD_setWidth]
  by_cases hj : j < w
  · rw [if_pos hj, decide_eq_true (by omega), Bool.true_and]
    by_cases hlow : w - k ≤ j
    · rw [if_pos hlow, if_pos (by omega), show w - 1 - j = k - 1 - (j - (w - k)) by omega]
    · rw [if_neg hlow, BitVec.getLsbD_of_ge c _ (by omega)]
      rfl
  · rw [if_neg hj, if_neg (show ¬ j - (w - k) < k by omega), ite_self]

end Registers

/-- A number from its bits. -/
theorem sum_testBit (w : ℕ) : ∀ n : ℕ, n < 2 ^ w →
    ∑ i ∈ range w, (if n.testBit i then 2 ^ i else 0) = n := by
  induction w with
  | zero =>
      intro n hn
      rw [pow_zero, Nat.lt_one_iff] at hn
      rw [hn, range_zero, sum_empty]
  | succ w ih =>
      intro n hn
      have hhalf := ih (n / 2) (by rw [pow_succ] at hn; omega)
      have hshift : ∀ i, (if n.testBit (i + 1) then 2 ^ (i + 1) else 0) =
          2 * (if (n / 2).testBit i then 2 ^ i else 0) := by
        intro i
        rw [Nat.testBit_succ]
        split_ifs <;> ring
      rw [sum_range_succ', sum_congr rfl fun i _ ↦ hshift i, ← mul_sum, hhalf, Nat.testBit_zero]
      by_cases hodd : n % 2 = 1
      · simp only [hodd, decide_true, if_true, pow_zero]
        omega
      · simp only [hodd, decide_false, Bool.false_eq_true, if_false]
        omega

/-! ## The register loop -/

/-- One step of the register. -/
def shiftStep {w : ℕ} (p r : BitVec w) : BitVec w :=
  (r >>> 1) ^^^ (if r.getLsbD 0 then p else 0#w)

section Loop

variable {w k : ℕ}

/-- A step multiplies by `X`, up to a multiple of the generator. -/
theorem poly_shiftStep (p r : BitVec w) (hw : 0 < w) :
    X * poly r = poly (shiftStep p r) + C (bit (r.getLsbD 0)) * generator p := by
  have hselect : poly (if r.getLsbD 0 then p else 0#w) = C (bit (r.getLsbD 0)) * poly p := by
    cases r.getLsbD 0
    · simp [bit, poly_zero]
    · simp [bit]
  have htwice : C (bit (r.getLsbD 0)) * poly p + C (bit (r.getLsbD 0)) * poly p = 0 :=
    CharTwo.add_self_eq_zero _
  calc X * poly r = poly (r >>> 1) + C (bit (r.getLsbD 0)) * X ^ w := X_mul_poly r hw
    _ = poly (r >>> 1) + (C (bit (r.getLsbD 0)) * poly p + C (bit (r.getLsbD 0)) * poly p) +
        C (bit (r.getLsbD 0)) * X ^ w := by rw [htwice, add_zero]
    _ = _ := by
      rw [shiftStep, poly_xor, hselect, generator]
      ring

theorem dvd_iterate (p : BitVec w) (hw : 0 < w) (n : ℕ) :
    ∀ r, generator p ∣ X ^ n * poly r - poly ((shiftStep p)^[n] r) := by
  induction n with
  | zero =>
      intro r
      simp
  | succ n ih =>
      intro r
      obtain ⟨q, hq⟩ := ih (shiftStep p r)
      refine ⟨q + X ^ n * C (bit (r.getLsbD 0)), ?_⟩
      rw [Function.iterate_succ_apply, pow_succ, mul_assoc, poly_shiftStep p r hw, mul_add,
        mul_add, ← hq]
      ring

/-- The register takes `k` bits in and is shifted as often. -/
def chunkStep (p r : BitVec w) (c : BitVec k) : BitVec w :=
  (shiftStep p)^[k] (r ^^^ c.setWidth w)

theorem dvd_chunkStep (p r : BitVec w) (c : BitVec k) (hw : 0 < w) (hk : k ≤ w) :
    generator p ∣ X ^ k * poly r + X ^ w * poly c - poly (chunkStep p r c) := by
  have h := dvd_iterate p hw k (r ^^^ c.setWidth w)
  rw [poly_xor, poly_setWidth c hk, mul_add, ← mul_assoc, ← pow_add,
    Nat.add_sub_cancel' hk] at h
  exact h

/-- The register after a message. -/
theorem dvd_foldl (p : BitVec w) (hw : 0 < w) (hk : k ≤ w) (cs : List (BitVec k)) :
    ∀ r, generator p ∣ X ^ (k * cs.length) * poly r + X ^ w * message cs -
      poly (cs.foldl (chunkStep p) r) := by
  induction cs with
  | nil =>
      intro r
      simp [message]
  | cons c cs ih =>
      intro r
      obtain ⟨q, hq⟩ := dvd_chunkStep p r c hw hk
      obtain ⟨q', hq'⟩ := ih (chunkStep p r c)
      refine ⟨X ^ (k * cs.length) * q + q', ?_⟩
      rw [mul_add, mul_left_comm, ← hq, ← hq', List.foldl_cons, List.length_cons, message,
        Nat.mul_succ, pow_add]
      ring

/-- The loop computes a remainder. -/
theorem poly_foldl (p : BitVec w) (hw : 0 < w) (hk : k ≤ w) (r : BitVec w)
    (cs : List (BitVec k)) :
    poly (cs.foldl (chunkStep p) r) =
      (X ^ (k * cs.length) * poly r + X ^ w * message cs) %ₘ generator p := by
  obtain ⟨q, hq⟩ := dvd_foldl p hw hk cs r
  refine ((div_modByMonic_unique q _ (monic_generator p) ⟨?_, ?_⟩).2).symm
  · rw [← hq]
    ring
  · rw [degree_generator]
    exact degree_poly_lt _

end Loop

/-! ## Bursts -/

section Bursts

variable {w k : ℕ}

theorem bit_injective {a b : Bool} (h : bit a = bit b) : a = b := by
  revert h
  cases a <;> cases b <;> decide

theorem poly_injective {r s : BitVec w} (h : poly r = poly s) : r = s := by
  apply BitVec.eq_of_getLsbD_eq
  intro i hi
  have hcoeff := congrArg (fun q ↦ q.coeff (w - 1 - i)) h
  simp only [coeff_poly, if_pos (show w - 1 - i < w by omega),
    show w - 1 - (w - 1 - i) = i by omega] at hcoeff
  exact bit_injective hcoeff

theorem degree_message_lt (cs : List (BitVec k)) : (message cs).degree < ↑(k * cs.length) := by
  induction cs with
  | nil =>
      rw [message, degree_zero]
      exact WithBot.bot_lt_coe _
  | cons c cs ih =>
      rw [message, List.length_cons, Nat.mul_succ]
      apply lt_of_le_of_lt (degree_add_le _ _)
      apply max_lt
      · rw [degree_mul, degree_X_pow, Nat.add_comm, Nat.cast_add]
        exact WithBot.add_lt_add_right (WithBot.coe_ne_bot) (degree_poly_lt c)
      · exact ih.trans_le (Nat.cast_le.mpr (Nat.le_add_right _ _))

theorem message_append (cs ds : List (BitVec k)) :
    message (cs ++ ds) = message cs * X ^ (k * ds.length) + message ds := by
  induction cs with
  | nil => simp [message]
  | cons c cs ih =>
      rw [List.cons_append, message, ih, message, List.length_append, Nat.mul_add, pow_add]
      ring

theorem message_injective {cs : List (BitVec k)} :
    ∀ {ds : List (BitVec k)}, cs.length = ds.length → message cs = message ds → cs = ds := by
  induction cs with
  | nil =>
      intro ds hlength _
      exact (List.length_eq_zero_iff.mp hlength.symm).symm
  | cons c cs ih =>
      intro ds hlength h
      cases ds with
      | nil => cases hlength
      | cons d ds =>
          have hrest : cs.length = ds.length := Nat.succ.inj hlength
          have hparts : ∀ (e : BitVec k) (es : List (BitVec k)), es.length = ds.length →
              message (e :: es) /ₘ X ^ (k * ds.length) = poly e ∧
                message (e :: es) %ₘ X ^ (k * ds.length) = message es := by
            intro e es hes
            apply div_modByMonic_unique _ _ (monic_X_pow _)
            refine ⟨?_, ?_⟩
            · rw [message, hes]
              ring
            · rw [degree_X_pow, ← hes]
              exact degree_message_lt es
          obtain ⟨hquotient, hremainder⟩ := hparts c cs hrest
          rw [h] at hquotient hremainder
          obtain ⟨hquotient', hremainder'⟩ := hparts d ds rfl
          rw [poly_injective (hquotient.symm.trans hquotient'),
            ih hrest (hremainder.symm.trans hremainder')]

/-- Pieces that fit the register change what it ends with. -/
theorem foldl_burst {p r : BitVec w} (hp : p.getLsbD (w - 1) = true) (hk : k ≤ w)
    {front back cs ds : List (BitVec k)} (hlength : cs.length = ds.length)
    (hfits : k * cs.length ≤ w)
    (h : (front ++ (cs ++ back)).foldl (chunkStep p) r =
      (front ++ (ds ++ back)).foldl (chunkStep p) r) : cs = ds := by
  have hw : 0 < w := by
    by_contra hzero
    rw [BitVec.getLsbD_of_ge p _ (by omega)] at hp
    cases hp
  set r' := front.foldl (chunkStep p) r with hr'
  have hfront : ∀ es : List (BitVec k),
      (front ++ es).foldl (chunkStep p) r = es.foldl (chunkStep p) r' :=
    fun es ↦ List.foldl_append
  rw [hfront, hfront] at h
  obtain ⟨q, hq⟩ := dvd_foldl p hw hk (cs ++ back) r'
  obtain ⟨q', hq'⟩ := dvd_foldl p hw hk (ds ++ back) r'
  rw [← h, List.length_append, ← hlength, ← List.length_append] at hq'
  have hdvd : generator p ∣ X ^ (w + k * back.length) * (message cs - message ds) := by
    refine ⟨q - q', ?_⟩
    rw [mul_sub (generator p), ← hq, ← hq', message_append, message_append, pow_add]
    ring
  have hunit : (generator p).coeff 0 ≠ 0 := by
    rw [generator, coeff_add, coeff_X_pow, if_neg (by omega), coeff_poly, if_pos hw, Nat.sub_zero,
      hp]
    decide
  have hcoprime : IsCoprime (generator p) (X ^ (w + k * back.length)) := by
    apply IsCoprime.pow_right
    apply IsCoprime.symm
    rw [irreducible_X.coprime_iff_not_dvd, X_dvd_iff]
    exact hunit
  have hshort : (message cs - message ds).degree < (generator p).degree := by
    rw [degree_generator]
    apply lt_of_le_of_lt (degree_sub_le _ _)
    apply max_lt
    · exact (degree_message_lt cs).trans_le (Nat.cast_le.mpr hfits)
    · rw [hlength] at hfits
      exact (degree_message_lt ds).trans_le (Nat.cast_le.mpr hfits)
  have hzero := eq_zero_of_dvd_of_degree_lt (hcoprime.dvd_of_dvd_mul_left hdvd) hshort
  exact message_injective hlength (sub_eq_zero.mp hzero)

end Bursts

end

end BoltStream.Lib
