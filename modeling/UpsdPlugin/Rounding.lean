import UpsdPlugin.Number
import UpsdPlugin.Lib.RoundingError

/-! Rounding between a reply and the integer that is sent.

A short numeral is read with two roundings, of the quotient for its fraction and of the sum with
the whole part (`str2ndd_short`), and scaling it to hundredths is a third. Thirteen digits leave
room for the errors: the integer that is sent is the hundredfold truncated, or the hundredfold is
whole and the integer is one short of it (`hundredfold_short`). The same holds for the share of
the nominal power (`share_short`). A whole number is sent exactly. -/
namespace UpsdPlugin

/-- The digits of a numeral in front of its exponent, without the point. -/
def mantissa (n : Numeral) : List Char := n.whole ++ n.fraction.getD []

section Short
variable {n : Numeral} {m : Libm}

theorem mantissa_digits (n : Numeral) : ∀ c ∈ mantissa n, c.isDigit := by
  intro c hc
  rcases List.mem_append.mp hc with hc | hc
  · exact n.whole_digits c hc
  · cases hf : n.fraction with
    | none => rw [hf] at hc; cases hc
    | some f => rw [hf] at hc; exact n.fraction_digits f hf c hc

theorem fractionValue_eq (n : Numeral) : Numeral.fractionValue n.fraction =
    Numeral.digits (n.fraction.getD []) / 10 ^ (n.fraction.getD []).length := by
  cases n.fraction with
  | none => simp [Numeral.fractionValue, Numeral.digits]
  | some f => rfl

/-- Without an exponent, the value is a decimal with the places of the fraction. -/
theorem value_eq (h : n.exponent = none) : n.value =
    (n.sign.value * Numeral.digits (mantissa n) : ℤ) / 10 ^ (n.fraction.getD []).length := by
  have hdigits : Numeral.digits (mantissa n) =
      10 ^ (n.fraction.getD []).length * Numeral.digits n.whole + Numeral.digits (n.fraction.getD []) := by
    rw [mantissa, Numeral.digits, Nat.ofDigitChars_append, Nat.ofDigitChars_eq_ofDigitChars_zero]
    rfl
  rw [Numeral.value, fractionValue_eq, h, hdigits]
  simp only [Numeral.exponentValue, zpow_zero, mul_one]
  push_cast
  field_simp

theorem fractionText_boundary (f : Option (List Char)) :
    Boundary (Numeral.fractionText f) ∧ ∀ c ∈ (Numeral.fractionText f).head?, isSpace c = false := by
  cases f with
  | none => simp [Boundary, Numeral.fractionText]
  | some f => exact ⟨fun c hc => by cases hc; decide, fun c hc => by cases hc; decide⟩

theorem parseFraction_short (m : Libm) (hlen : (n.fraction.getD []).length ≤ 15) :
    ∃ F : Ndd, F.Is (Numeral.digits (n.fraction.getD [])) ∧
      parseFraction m (Numeral.fractionText n.fraction) = (F, (n.fraction.getD []).length, []) := by
  cases hf : n.fraction with
  | none => exact ⟨0, by simpa [Numeral.digits] using Binary64.is_zero, rfl⟩
  | some f =>
    rw [hf] at hlen
    have hend : Boundary [] := by simp [Boundary]
    obtain ⟨F, hF, hparse⟩ := parseDigits_short m (n.fraction_digits f hf) hlen hend (by simp)
    rw [List.append_nil] at hparse
    refine ⟨F, hF, ?_⟩
    simp only [Numeral.fractionText, parseFraction, hparse, Option.getD_some, List.drop_length]

/-- A decimal of few places is far from the least double, unless it is zero. -/
theorem decimal_normal {n : ℤ} {d : ℕ} (hd : d ≤ 15) (h : (n : ℚ) / 10 ^ d ≠ 0) :
    1 / 2 ^ 100 ≤ |(n : ℚ) / 10 ^ d| := by
  have hn : 1 ≤ |n| := Int.one_le_abs fun h0 => h (by rw [h0]; simp)
  have hn' : (1 : ℚ) ≤ |(n : ℚ)| := by exact_mod_cast hn
  have hpos : (0 : ℚ) < 10 ^ d := by positivity
  rw [abs_div, abs_of_pos hpos]
  calc (1 : ℚ) / 2 ^ 100 ≤ 1 / 10 ^ 15 := by norm_num
    _ ≤ 1 / 10 ^ d := by
      gcongr
      norm_num
    _ ≤ |(n : ℚ)| / 10 ^ d := by gcongr

theorem pow10_is (m : Libm) {d : ℕ} (hd : d ≤ 15) : (m.pow10 d).Is (10 ^ d) := by
  have hpow : 10 ^ d ≤ 10 ^ 15 := Nat.pow_le_pow_right (by norm_num) hd
  have h := Binary64.is_ofNat (n := 10 ^ d) (hpow.trans (by norm_num))
  rw [m.exact d (by omega)]
  exact_mod_cast h

/-- The quotient for the fraction is rounded. -/
theorem quotient_short {F : Ndd} {f d : ℕ} (hF : F.Is f) (hf : f ≤ 10 ^ 15) (hd : d ≤ 15) :
    ∃ r, ((F.div (m.pow10 d)).mul 1).Is r ∧ Binary64.Near 1 r (f / 10 ^ d) ∧ |r| ≤ 2 * 10 ^ 15 := by
  have hdigits : (f : ℚ) ≤ 10 ^ 15 := by exact_mod_cast hf
  have hquotient : (f : ℚ) / 10 ^ d ≤ 10 ^ 15 :=
    (div_le_self (Nat.cast_nonneg f) (one_le_pow₀ (by norm_num))).trans hdigits
  have hnonneg : 0 ≤ (f : ℚ) / 10 ^ d := by positivity
  have hnormal := decimal_normal (n := f) hd
  rw [Int.cast_natCast] at hnormal
  have hnear := (Binary64.Near.refl ((f : ℚ) / 10 ^ d)).round (by norm_num) hnormal
  have hbound := hnear.abs_le (by norm_num)
  rw [abs_of_nonneg hnonneg] at hbound
  have hround := hF.div (pow10_is m hd) (by positivity) (by rw [abs_of_nonneg hnonneg]; linarith)
  have hone := hround.mul Binary64.is_one (by rw [mul_one]; linarith)
  rw [mul_one, Binary64.round_round] at hone
  exact ⟨_, hone, hnear, by linarith⟩

/-- The quotient for the fraction and the sum with the whole part are rounded. -/
theorem sum_short {W F : Ndd} {w f d : ℕ} (hW : W.Is w) (hF : F.Is f) (hw : w ≤ 10 ^ 15) (hf : f ≤ 10 ^ 15)
    (hd : d ≤ 15) :
    ∃ r, (W.add ((F.div (m.pow10 d)).mul 1)).Is r ∧ Binary64.Near 2 r (w + f / 10 ^ d) := by
  obtain ⟨r, hr, hnear, hbound⟩ := quotient_short (m := m) hF hf hd
  have hwhole : |(w : ℚ)| ≤ 10 ^ 15 := by
    rw [Nat.abs_cast]
    exact_mod_cast hw
  have hnonneg : 0 ≤ (f : ℚ) / 10 ^ d := by positivity
  have hsum := hnear.add_left (Nat.cast_nonneg (α := ℚ) w) hnonneg
  have hsumBound := abs_add_le (w : ℚ) r
  refine ⟨_, hW.add hr (by linarith), hsum.round (by norm_num) ?_⟩
  intro hne
  rcases Nat.eq_zero_or_pos w with rfl | hpos
  · rw [Nat.cast_zero, zero_add] at hne ⊢
    have hnormal := decimal_normal (n := f) hd
    rw [Int.cast_natCast] at hnormal
    exact hnormal hne
  · have hone : (1 : ℚ) ≤ w := by exact_mod_cast hpos
    rw [abs_of_nonneg (by positivity)]
    linarith [(by norm_num : (1 : ℚ) / 2 ^ 100 ≤ 1)]

/-- A short numeral is read with two roundings, of a quotient and of a sum; a whole number, with none. -/
theorem str2ndd_short (m : Libm) (hexp : n.exponent = none) (hlen : (mantissa n).length ≤ 15) :
    ∃ s, (str2ndd m n.text).Is s ∧ Binary64.Near 2 s n.value ∧ (n.fraction.getD [] = [] → s = n.value) := by
  rw [mantissa, List.length_append] at hlen
  obtain ⟨hb, hs⟩ := fractionText_boundary n.fraction
  obtain ⟨W, hW, hwhole⟩ := parseDigits_short m n.whole_digits (by omega) hb hs
  obtain ⟨F, hF, hfraction⟩ := parseFraction_short m (n := n) (by omega)
  have hsplit := splitSign_numeral n
  rw [hexp, Numeral.exponentText, List.append_nil] at hsplit
  have hvalue : n.value = n.sign.value * (Numeral.digits n.whole + Numeral.fractionValue n.fraction) := by
    rw [Numeral.value, hexp]
    simp [Numeral.exponentValue]
  rw [str2ndd_numeral]
  simp only [parseNumber, hsplit, hwhole, List.drop_left, hfraction, parseExponent, ne_eq, not_true_eq_false,
    if_false]
  rw [hvalue, fractionValue_eq]
  by_cases hnil : n.fraction.getD [] = []
  · rw [hnil]
    simp only [List.length_nil, not_true_eq_false, if_false, Numeral.digits, Nat.ofDigitChars_nil, Nat.cast_zero,
      zero_div, add_zero]
    exact ⟨_, hW.mul_sign n.sign, (Binary64.Near.refl _).mono (Nat.zero_le 2), fun _ => rfl⟩
  · have hwholeDigits := digits_le n.whole_digits (k := 15) (by omega)
    have hfractionDigits := digits_le (fun c hc => mantissa_digits n c (List.mem_append_right _ hc)) (k := 15) (by omega)
    obtain ⟨r, hr, hnear⟩ := sum_short (m := m) hW hF hwholeDigits hfractionDigits (d := (n.fraction.getD []).length)
      (by omega)
    rw [if_pos (List.length_eq_zero_iff.not.mpr hnil)]
    exact ⟨_, hr.mul_sign n.sign, hnear.mul_left _, fun h => absurd h hnil⟩

/-- The digits of a numeral bound its decimal. -/
theorem abs_mantissa_le {k : ℕ} (h : (mantissa n).length ≤ k) :
    |n.sign.value * (Numeral.digits (mantissa n) : ℤ)| ≤ 10 ^ k := by
  have hdigits : (Numeral.digits (mantissa n) : ℤ) ≤ 10 ^ k := by exact_mod_cast digits_le (mantissa_digits n) h
  have hsign : |n.sign.value| = 1 := by cases n.sign <;> rfl
  rwa [abs_mul, hsign, one_mul, Nat.abs_cast]

theorem abs_value_le (hexp : n.exponent = none) {k : ℕ} (h : (mantissa n).length ≤ k) : |n.value| ≤ 10 ^ k := by
  have hmantissa : |((n.sign.value * (Numeral.digits (mantissa n) : ℤ) : ℤ) : ℚ)| ≤ 10 ^ k := by
    exact_mod_cast abs_mantissa_le h
  rw [value_eq hexp]
  exact (Binary64.abs_decimal_le _ _).trans hmantissa

theorem fraction_length_le (n : Numeral) : (n.fraction.getD []).length ≤ (mantissa n).length := by
  rw [mantissa, List.length_append]
  exact Nat.le_add_left _ _

end Short

/-! ### The integers that are sent -/

section Sent
variable {x y : Numeral} (m : Libm)

theorem value_mul_hundred (hexp : x.exponent = none) : x.value * 100 =
    ((x.sign.value * Numeral.digits (mantissa x) * 100 : ℤ) : ℚ) / 10 ^ (x.fraction.getD []).length := by
  rw [value_eq hexp]
  push_cast
  ring

theorem times_hundred (hexp : x.exponent = none) (hlen : (mantissa x).length ≤ 13) :
    ∃ z, ((str2ndd m x.text).times 100).Is z ∧ Binary64.Near 3 z (x.value * 100) := by
  obtain ⟨s, hs, hnear, -⟩ := str2ndd_short m hexp (hlen.trans (by norm_num))
  have hvalue := abs_value_le hexp hlen
  have hbound := hnear.abs_le (by norm_num)
  have hproduct := hnear.mul_left 100
  rw [mul_comm 100, mul_comm 100] at hproduct
  refine ⟨_, hs.mul (Binary64.is_ofNat (n := 100) (by norm_num)) ?_, hproduct.round (by norm_num) ?_⟩
  · rw [abs_mul, Nat.abs_cast]
    push_cast
    linarith
  · rw [value_mul_hundred hexp]
    exact decimal_normal ((fraction_length_le x).trans (hlen.trans (by norm_num)))

theorem div_hundred (hexp : x.exponent = none) (hlen : (mantissa x).length ≤ 13) :
    ∃ z, ((str2ndd m x.text).div 100).Is z ∧ Binary64.Near 3 z (x.value / 100) := by
  obtain ⟨s, hs, hnear, -⟩ := str2ndd_short m hexp (hlen.trans (by norm_num))
  have hvalue := abs_value_le hexp hlen
  have hbound := hnear.abs_le (by norm_num)
  have hdecimal : x.value / 100 =
      ((x.sign.value * Numeral.digits (mantissa x) : ℤ) : ℚ) / 10 ^ ((x.fraction.getD []).length + 2) := by
    rw [value_eq hexp, pow_add, div_div]
    norm_num
  have hquotient := hnear.mul_left (1 / 100)
  rw [one_div_mul_eq_div, one_div_mul_eq_div] at hquotient
  refine ⟨_, hs.div (Binary64.is_ofNat (n := 100) (by norm_num)) (by norm_num) ?_, hquotient.round (by norm_num) ?_⟩
  · rw [abs_div, Nat.abs_cast]
    push_cast
    linarith [abs_nonneg s]
  · rw [hdecimal]
    have := fraction_length_le x
    exact decimal_normal (by omega)

/-- **Hundredths of a short numeral.** The integer is the hundredfold truncated, or one short of it
when it is whole. -/
theorem hundredfold_short (hexp : x.exponent = none) (hlen : (mantissa x).length ≤ 13) :
    ((str2ndd m x.text).times 100).toInt64 = truncate (x.value * 100) ∨
      Binary64.OneShort ((str2ndd m x.text).times 100).toInt64 (x.value * 100) := by
  obtain ⟨z, hz, hnear⟩ := times_hundred m hexp hlen
  have hmantissa := abs_mantissa_le hlen
  rw [value_mul_hundred hexp] at hnear ⊢
  apply Binary64.Near.toInt64_eq_or hz hnear (by norm_num)
  generalize x.sign.value * (Numeral.digits (mantissa x) : ℤ) = i at hmantissa
  rw [abs_mul]
  norm_num
  linarith

example : ((str2ndd .nearest "8.2".toList).times 100).toInt64 = 819 := by decide +kernel

/-- A whole number is sent exactly. -/
theorem hundredfold_whole (hexp : x.exponent = none) (hfraction : x.fraction.getD [] = [])
    (hlen : (mantissa x).length ≤ 13) : (((str2ndd m x.text).times 100).toInt64 : ℚ) = x.value * 100 := by
  obtain ⟨s, hs, -, hexact⟩ := str2ndd_short m hexp (hlen.trans (by norm_num))
  have hmantissa := abs_mantissa_le hlen
  have hvalue := value_eq hexp
  rw [hfraction, List.length_nil, pow_zero, div_one] at hvalue
  rw [hexact hfraction, hvalue] at hs
  rw [hvalue]
  generalize x.sign.value * (Numeral.digits (mantissa x) : ℤ) = i at hs hmantissa
  have hcast : |(i : ℚ)| ≤ 10 ^ 13 := by exact_mod_cast hmantissa
  rw [abs_le] at hmantissa
  have hproduct := hs.mul (Binary64.is_ofNat (n := 100) (by norm_num)) (by
    rw [abs_mul, Nat.abs_cast]
    push_cast
    linarith)
  have hround : Binary64.round (i * (100 : ℕ)) = (i * 100 : ℤ) := by
    have h := Binary64.round_intCast (n := i * 100) (abs_le.mpr ⟨by linarith, by linarith⟩)
    push_cast at h ⊢
    exact h
  rw [hround] at hproduct
  have hfits : Binary64.int64Min ≤ truncate ((i * 100 : ℤ) : ℚ) ∧
      truncate ((i * 100 : ℤ) : ℚ) ≤ Binary64.int64Max := by
    rw [truncate_intCast]
    unfold Binary64.int64Min Binary64.int64Max
    constructor <;> linarith
  have hsent := hproduct.toInt64 hfits
  rw [truncate_intCast] at hsent
  show (((str2ndd m x.text).mul (.ofNat 100)).toInt64 : ℚ) = _
  rw [hsent]
  push_cast
  ring

/-- **Hundredths of the share of the nominal power**, when the two numerals are short together. -/
theorem share_short (hx : x.exponent = none) (hy : y.exponent = none)
    (hlen : (mantissa x).length + (mantissa y).length ≤ 13) :
    (((str2ndd m x.text).div 100).mul ((str2ndd m y.text).times 100)).toInt64 =
        truncate (x.value / 100 * y.value * 100) ∨
      Binary64.OneShort (((str2ndd m x.text).div 100).mul ((str2ndd m y.text).times 100)).toInt64
        (x.value / 100 * y.value * 100) := by
  obtain ⟨a, ha, hnearA⟩ := div_hundred m hx (by omega)
  obtain ⟨b, hb, hnearB⟩ := times_hundred m hy (by omega)
  have hdecimal : x.value / 100 * (y.value * 100) =
      ((x.sign.value * Numeral.digits (mantissa x) * (y.sign.value * Numeral.digits (mantissa y)) : ℤ) : ℚ) /
        10 ^ ((x.fraction.getD []).length + (y.fraction.getD []).length) := by
    rw [value_eq hx, value_eq hy, pow_add]
    push_cast
    field_simp
  have hproduct := hnearA.mul hnearB (by norm_num) (by norm_num)
  have hmantissa : |x.sign.value * (Numeral.digits (mantissa x) : ℤ) *
      (y.sign.value * (Numeral.digits (mantissa y) : ℤ))| ≤ 10 ^ 13 := by
    rw [abs_mul]
    calc _ ≤ (10 : ℤ) ^ (mantissa x).length * 10 ^ (mantissa y).length :=
          mul_le_mul (abs_mantissa_le le_rfl) (abs_mantissa_le le_rfl) (abs_nonneg _) (by positivity)
      _ = 10 ^ ((mantissa x).length + (mantissa y).length) := (pow_add _ _ _).symm
      _ ≤ 10 ^ 13 := pow_le_pow_right₀ (by norm_num) hlen
  have hassoc : x.value / 100 * y.value * 100 = x.value / 100 * (y.value * 100) := mul_assoc _ _ _
  rw [hdecimal] at hproduct
  rw [hassoc, hdecimal]
  generalize x.sign.value * (Numeral.digits (mantissa x) : ℤ) *
    (y.sign.value * (Numeral.digits (mantissa y) : ℤ)) = i at hmantissa hproduct
  have hbound := hproduct.abs_le (by norm_num)
  have hdecimalBound := Binary64.abs_decimal_le i ((x.fraction.getD []).length + (y.fraction.getD []).length)
  have hcast : |(i : ℚ)| ≤ 10 ^ 13 := by exact_mod_cast hmantissa
  have hplaces : (x.fraction.getD []).length + (y.fraction.getD []).length ≤ 15 := by
    have hx' := fraction_length_le x
    have hy' := fraction_length_le y
    omega
  have hsent := hproduct.round (by norm_num) (decimal_normal hplaces)
  apply Binary64.Near.toInt64_eq_or (ha.mul hb (by linarith)) hsent (by norm_num)
  norm_num
  linarith

/-- A load of 57 percent of 100 W. -/
example : (((str2ndd .nearest "57".toList).div 100).mul ((str2ndd .nearest "100".toList).times 100)).toInt64 = 5699 := by
  decide +kernel

end Sent

end UpsdPlugin
