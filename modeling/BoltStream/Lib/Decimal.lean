import BoltStream.Lib.BigEndian

/-!
# Decimal numerals in ASCII

Printing writes the decimal digits of a number; parsing accepts a nonempty
string of digits whose value stays below a bound.  Leading zeros are accepted
when parsing and written only by the padded printer.
-/

namespace BoltStream.Lib

def isDigit (b : UInt8) : Bool := decide (48 ≤ b.toNat) && decide (b.toNat ≤ 57)

def digitByte (d : ℕ) : UInt8 := UInt8.ofNat (48 + d)

/-- The decimal digits of `n`, most significant first. -/
def decimal (n : ℕ) : Bytes :=
  if n = 0 then [digitByte 0] else (Nat.digits 10 n).reverse.map digitByte

/-- The digits of `n` with zeros in front up to `width` places. -/
def paddedDecimal (width n : ℕ) : Bytes :=
  List.replicate (width - (decimal n).length) (digitByte 0) ++ decimal n

def decimalValue (text : Bytes) : ℕ :=
  text.foldl (fun value b ↦ 10 * value + (b.toNat - 48)) 0

/-- A nonempty string of digits with a value below `bound`. -/
def parseDecimal (bound : ℕ) (text : Bytes) : Option ℕ :=
  if text ≠ [] ∧ text.all isDigit = true ∧ decimalValue text < bound then
    some (decimalValue text)
  else none

theorem toNat_digitByte {d : ℕ} (h : d < 10) : (digitByte d).toNat = 48 + d := by
  rw [digitByte, UInt8.toNat_ofNat', Nat.mod_eq_of_lt (by omega)]

theorem isDigit_digitByte {d : ℕ} (h : d < 10) : isDigit (digitByte d) = true := by
  simp only [isDigit, toNat_digitByte h, Bool.and_eq_true, decide_eq_true_eq]
  omega

/-- Every byte of a printed number is the byte of a digit below ten. -/
theorem mem_decimal {n : ℕ} {b : UInt8} (h : b ∈ decimal n) : ∃ d < 10, b = digitByte d := by
  by_cases hn : n = 0
  · rw [decimal, if_pos hn, List.mem_singleton] at h
    exact ⟨0, by omega, h⟩
  · rw [decimal, if_neg hn, List.mem_map] at h
    obtain ⟨d, hd, rfl⟩ := h
    exact ⟨d, Nat.digits_lt_base (by omega) (List.mem_reverse.mp hd), rfl⟩

theorem isDigit_of_mem_decimal {n : ℕ} {b : UInt8} (h : b ∈ decimal n) : isDigit b = true := by
  obtain ⟨d, hd, rfl⟩ := mem_decimal h
  exact isDigit_digitByte hd

theorem decimal_ne_nil (n : ℕ) : decimal n ≠ [] := by
  by_cases hn : n = 0
  · simp [decimal, hn]
  · simp [decimal, hn, Nat.digits_eq_nil_iff_eq_zero]

theorem decimalValue_foldl (digits : List ℕ) (value : ℕ) (h : ∀ d ∈ digits, d < 10) :
    (digits.map digitByte).foldl (fun value b ↦ 10 * value + (b.toNat - 48)) value =
      value * 10 ^ digits.length + Nat.ofDigits 10 digits.reverse := by
  induction digits generalizing value with
  | nil => simp
  | cons d digits ih =>
      have hd : (digitByte d).toNat - 48 = d := by
        rw [toNat_digitByte (h d (by simp))]
        omega
      rw [List.map_cons, List.foldl_cons, ih _ fun e he ↦ h e (List.mem_cons_of_mem d he), hd,
        List.reverse_cons, Nat.ofDigits_append, List.length_cons, List.length_reverse,
        Nat.ofDigits_singleton]
      ring

theorem decimalValue_decimal (n : ℕ) : decimalValue (decimal n) = n := by
  by_cases hn : n = 0
  · subst hn
    rfl
  · have hlt : ∀ d ∈ (Nat.digits 10 n).reverse, d < 10 := fun d hd ↦
      Nat.digits_lt_base (by omega) (List.mem_reverse.mp hd)
    rw [decimalValue, decimal, if_neg hn, decimalValue_foldl _ _ hlt, List.reverse_reverse,
      Nat.ofDigits_digits, Nat.zero_mul, Nat.zero_add]

/-- A printed number is parsed back. -/
theorem parseDecimal_decimal {bound n : ℕ} (h : n < bound) :
    parseDecimal bound (decimal n) = some n := by
  have hall : (decimal n).all isDigit = true :=
    List.all_eq_true.mpr fun _ hb ↦ isDigit_of_mem_decimal hb
  rw [parseDecimal, if_pos ⟨decimal_ne_nil n, hall, by rwa [decimalValue_decimal]⟩,
    decimalValue_decimal]

theorem length_decimal_le {n width : ℕ} (hwidth : 0 < width) (h : n < 10 ^ width) :
    (decimal n).length ≤ width := by
  by_cases hn : n = 0
  · simp only [decimal, if_pos hn, List.length_singleton]
    omega
  · rw [decimal, if_neg hn, List.length_map, List.length_reverse]
    exact (Nat.digits_length_le_iff (by omega) n).mpr h

theorem length_paddedDecimal {n width : ℕ} (hwidth : 0 < width) (h : n < 10 ^ width) :
    (paddedDecimal width n).length = width := by
  have hle := length_decimal_le hwidth h
  rw [paddedDecimal, List.length_append, List.length_replicate]
  omega

theorem isDigit_of_mem_paddedDecimal {width n : ℕ} {b : UInt8}
    (h : b ∈ paddedDecimal width n) : isDigit b = true := by
  rcases List.mem_append.mp h with hzero | hdigit
  · rw [List.eq_of_mem_replicate hzero]
    rfl
  · exact isDigit_of_mem_decimal hdigit

theorem decimalValue_paddedDecimal (width n : ℕ) :
    decimalValue (paddedDecimal width n) = n := by
  have hzeros : ∀ k, (List.replicate k (digitByte 0)).foldl
      (fun value b ↦ 10 * value + (b.toNat - 48)) 0 = 0 := by
    intro k
    induction k with
    | zero => rfl
    | succ k ih =>
        rw [List.replicate_succ, List.foldl_cons]
        exact ih
  rw [decimalValue, paddedDecimal, List.foldl_append, hzeros]
  exact decimalValue_decimal n

/-- A padded number is parsed back. -/
theorem parseDecimal_paddedDecimal {bound width n : ℕ} (h : n < bound) :
    parseDecimal bound (paddedDecimal width n) = some n := by
  have hall : (paddedDecimal width n).all isDigit = true :=
    List.all_eq_true.mpr fun _ hb ↦ isDigit_of_mem_paddedDecimal hb
  have hne : paddedDecimal width n ≠ [] := by
    simp [paddedDecimal, decimal_ne_nil]
  rw [parseDecimal, if_pos ⟨hne, hall, by rwa [decimalValue_paddedDecimal]⟩,
    decimalValue_paddedDecimal]

end BoltStream.Lib
