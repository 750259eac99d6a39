import UpsdPlugin.Lib.Binary64

/-! Rounding errors.

An error is counted in parts of `2^52`. A rounding adds one part (`Near.round`), and the errors of
factors add up (`Near.mul`). What this says of truncation: when the exact number is a decimal and
the parts are few against its digits, the computed one truncates alike, or the exact number is
whole and the computed one falls just short of it (`Near.truncate_eq_or`). -/
namespace Binary64

/-- The two are the same up to `a` parts in `2^52` of the second one. -/
def Near (a : ℕ) (x q : ℚ) : Prop := |x - q| ≤ a * |q| / 2 ^ 52

section Errors
variable {a b : ℕ} {x y p q : ℚ}

theorem Near.refl (q : ℚ) : Near 0 q q := by
  simp [Near]

theorem Near.mono (h : Near a x q) (hab : a ≤ b) : Near b x q := by
  have hcast : (a : ℚ) ≤ b := by exact_mod_cast hab
  refine h.trans ?_
  gcongr

theorem Near.add_left {w : ℚ} (hw : 0 ≤ w) (hq : 0 ≤ q) (h : Near a x q) : Near a (w + x) (w + q) := by
  unfold Near at h ⊢
  rw [add_sub_add_left_eq_sub, abs_of_nonneg (add_nonneg hw hq)]
  rw [abs_of_nonneg hq] at h
  refine h.trans ?_
  gcongr
  linarith

theorem Near.mul_left (c : ℚ) (h : Near a x q) : Near a (c * x) (c * q) := by
  unfold Near at h ⊢
  rw [← mul_sub, abs_mul, abs_mul]
  calc |c| * |x - q| ≤ |c| * (a * |q| / 2 ^ 52) := by gcongr
    _ = a * (|c| * |q|) / 2 ^ 52 := by ring

theorem Near.abs_le (h : Near a x q) (ha : a ≤ 2 ^ 51) : |x| ≤ 2 * |q| := by
  have hcast : (a : ℚ) ≤ 2 ^ 51 := by exact_mod_cast ha
  have htriangle := abs_sub_abs_le_abs_sub x q
  have herror : a * |q| / 2 ^ 52 ≤ |q| / 2 := by
    rw [div_le_div_iff₀ (by norm_num) (by norm_num)]
    nlinarith [abs_nonneg q]
  unfold Near at h
  linarith [abs_nonneg q]

theorem Near.le_abs (h : Near a x q) (ha : a ≤ 2 ^ 51) : |q| / 2 ≤ |x| := by
  have hcast : (a : ℚ) ≤ 2 ^ 51 := by exact_mod_cast ha
  have htriangle := abs_sub_abs_le_abs_sub q x
  rw [abs_sub_comm] at htriangle
  have herror : a * |q| / 2 ^ 52 ≤ |q| / 2 := by
    rw [div_le_div_iff₀ (by norm_num) (by norm_num)]
    nlinarith [abs_nonneg q]
  unfold Near at h
  linarith

/-- A rounding adds one part, when the numbers are far from the least double. -/
theorem Near.round (h : Near a x q) (ha : a ≤ 2 ^ 51) (hq : q ≠ 0 → 1 / 2 ^ 100 ≤ |q|) :
    Near (a + 1) (round x) q := by
  have hnormal : x ≠ 0 → 2 ^ (-1022 : ℤ) ≤ |x| := by
    intro hx
    have hne : q ≠ 0 := by
      rintro rfl
      have := h.abs_le ha
      rw [abs_zero, mul_zero] at this
      exact hx (abs_nonpos_iff.mp this)
    calc (2 : ℚ) ^ (-1022 : ℤ) ≤ 2 ^ (-101 : ℤ) := zpow_le_zpow_right₀ one_le_two (by norm_num)
      _ = 1 / 2 ^ 100 / 2 := by norm_num
      _ ≤ |q| / 2 := by linarith [hq hne]
      _ ≤ |x| := h.le_abs ha
  have hround := round_error hnormal
  have hx := h.abs_le ha
  calc |Binary64.round x - q| ≤ |Binary64.round x - x| + |x - q| := abs_sub_le _ _ _
    _ ≤ |x| / 2 ^ 53 + a * |q| / 2 ^ 52 := add_le_add hround h
    _ ≤ 2 * |q| / 2 ^ 53 + a * |q| / 2 ^ 52 := by gcongr
    _ = (a + 1 : ℕ) * |q| / 2 ^ 52 := by
      push_cast
      ring

theorem Near.mul (hx : Near a x p) (hy : Near b y q) (ha : a ≤ 2 ^ 26) (hb : b ≤ 2 ^ 26) :
    Near (a + b + 1) (x * y) (p * q) := by
  have hcast : (a : ℚ) * b ≤ 2 ^ 52 := by
    have : a * b ≤ 2 ^ 26 * 2 ^ 26 := Nat.mul_le_mul ha hb
    exact_mod_cast this
  unfold Near at hx hy ⊢
  have hsplit : x * y - p * q = (x - p) * (y - q) + (x - p) * q + p * (y - q) := by ring
  calc |x * y - p * q| ≤ |(x - p) * (y - q)| + |(x - p) * q| + |p * (y - q)| := by
        rw [hsplit]
        exact abs_add_three _ _ _
    _ = |x - p| * |y - q| + |x - p| * |q| + |p| * |y - q| := by rw [abs_mul, abs_mul, abs_mul]
    _ ≤ (a * |p| / 2 ^ 52) * (b * |q| / 2 ^ 52) + (a * |p| / 2 ^ 52) * |q| + |p| * (b * |q| / 2 ^ 52) := by gcongr
    _ = (a * b / 2 ^ 52) * (|p| * |q| / 2 ^ 52) + (a + b) * (|p| * |q|) / 2 ^ 52 := by ring
    _ ≤ 1 * (|p| * |q| / 2 ^ 52) + (a + b) * (|p| * |q|) / 2 ^ 52 := by
      gcongr
      rw [div_le_one (by norm_num)]
      exact hcast
    _ = (a + b + 1 : ℕ) * |p * q| / 2 ^ 52 := by
      rw [abs_mul]
      push_cast
      ring

end Errors

/-! ### Decimals and whole numbers -/

section Decimal
variable {x : ℚ} {n i : ℤ} {k : ℕ}

theorem unit_le_one (k : ℕ) : (1 : ℚ) / 10 ^ k ≤ 1 := by
  rw [div_le_one (by positivity)]
  exact one_le_pow₀ (by norm_num)

theorem abs_decimal_le (n : ℤ) (k : ℕ) : |(n : ℚ) / 10 ^ k| ≤ |(n : ℚ)| := by
  rw [abs_div, abs_of_pos (by positivity : (0 : ℚ) < 10 ^ k)]
  exact div_le_self (abs_nonneg _) (one_le_pow₀ (by norm_num))

/-- A decimal of `k` places below a whole number is at least a unit of the last place below it. -/
theorem decimal_gap (h : (n : ℚ) / 10 ^ k < i) : 1 / 10 ^ k ≤ (i : ℚ) - n / 10 ^ k := by
  have hpos : (0 : ℚ) < 10 ^ k := by positivity
  rw [div_lt_iff₀ hpos] at h
  have hint : n + 1 ≤ i * 10 ^ k := by exact_mod_cast h
  have hcast : (n : ℚ) + 1 ≤ i * 10 ^ k := by exact_mod_cast hint
  rw [le_sub_iff_add_le, ← add_div, div_le_iff₀ hpos]
  linarith

/-- What lies within a unit of the last place is past a whole number only from that number itself. -/
theorem crossed_decimal (hx : |x - n / 10 ^ k| < 1 / 10 ^ k) (h : Crossed x (n / 10 ^ k)) :
    ∃ i : ℤ, 0 < i ∧ (n : ℚ) / 10 ^ k = i ∧ truncate x = i - 1 := by
  obtain ⟨hlow, hhigh⟩ := abs_lt.mp hx
  obtain ⟨i, hi, ⟨hxi, hiy⟩ | ⟨hyi, hix⟩⟩ := h
  · have heq : (n : ℚ) / 10 ^ k = i := by
      by_contra hne
      have hneg : ((-n : ℤ) : ℚ) / 10 ^ k < (-i : ℤ) := by
        push_cast
        rw [neg_div, neg_lt_neg_iff]
        exact lt_of_le_of_ne hiy (Ne.symm hne)
      have hgap := decimal_gap hneg
      push_cast at hgap
      rw [neg_div] at hgap
      linarith
    have hone := unit_le_one k
    have hi' : (1 : ℚ) ≤ i := by exact_mod_cast hi
    have hx0 : 0 ≤ x := by linarith
    refine ⟨i, hi, heq, ?_⟩
    rw [truncate_of_nonneg hx0, Int.floor_eq_iff]
    push_cast
    constructor <;> linarith
  · have hgap := decimal_gap hyi
    linarith

/-- Few parts against the digits are less than a unit of the last place. -/
theorem Near.lt_unit {a : ℕ} (h : Near a x (n / 10 ^ k)) (ha : a * |n| < 2 ^ 52) :
    |x - n / 10 ^ k| < 1 / 10 ^ k := by
  have hcast : (a : ℚ) * |(n : ℚ)| < 2 ^ 52 := by exact_mod_cast ha
  refine lt_of_le_of_lt h ?_
  have hpos : (0 : ℚ) < 10 ^ k := by positivity
  rw [abs_div, abs_of_pos hpos]
  calc a * (|(n : ℚ)| / 10 ^ k) / 2 ^ 52 = a * |(n : ℚ)| / 2 ^ 52 / 10 ^ k := by ring
    _ < 1 / 10 ^ k := by
      gcongr
      rwa [div_lt_one (by norm_num)]

/-- The number is whole, and the integer is the one before it, toward zero. -/
def OneShort (z : ℤ) (q : ℚ) : Prop := ∃ i : ℤ, i ≠ 0 ∧ q = i ∧ z = i - i.sign

/-- A decimal that is not whole is too far from every whole number for a small error, and one
that is whole may be missed by one. -/
theorem Near.truncate_eq_or {a : ℕ} (h : Near a x (n / 10 ^ k)) (ha : a * |n| < 2 ^ 52) :
    truncate x = truncate (n / 10 ^ k) ∨ OneShort (truncate x) (n / 10 ^ k) := by
  have hx := h.lt_unit ha
  by_cases hapart : Apart x (n / 10 ^ k)
  · right
    rcases hapart with hup | hdown
    · obtain ⟨i, hi, heq, htruncate⟩ := crossed_decimal hx hup
      exact ⟨i, hi.ne', heq, by rw [htruncate, Int.sign_eq_one_of_pos hi]⟩
    · -- The same below zero.
      have hneg : -(n / 10 ^ k : ℚ) = ((-n : ℤ) : ℚ) / 10 ^ k := by
        push_cast
        ring
      have hx' : |-x - ((-n : ℤ) : ℚ) / 10 ^ k| < 1 / 10 ^ k := by
        rw [← hneg, neg_sub_neg, abs_sub_comm]
        exact hx
      rw [hneg] at hdown
      obtain ⟨i, hi, heq, htruncate⟩ := crossed_decimal hx' hdown
      rw [← hneg, neg_eq_iff_eq_neg] at heq
      rw [truncate_neg, neg_eq_iff_eq_neg] at htruncate
      refine ⟨-i, by omega, by push_cast; exact heq, ?_⟩
      rw [htruncate, Int.sign_neg, Int.sign_eq_one_of_pos hi]
      ring
  · exact Or.inl ((truncate_eq_iff x _).mpr hapart)

/-- The integer that a double is converted to is the exact one, or one short of it. -/
theorem Near.toInt64_eq_or {X : Binary64} {a : ℕ} (hX : X.Is x) (h : Near a x (n / 10 ^ k)) (hpos : 0 < a)
    (ha : a * |n| < 2 ^ 52) :
    X.toInt64 = truncate (n / 10 ^ k) ∨ OneShort X.toInt64 (n / 10 ^ k) := by
  have hn : |n| < 2 ^ 52 := by
    have ha' : (1 : ℤ) ≤ a := by exact_mod_cast hpos
    nlinarith [abs_nonneg n]
  have hrange : |(truncate x : ℚ)| < 2 ^ 53 := by
    have hcast : |(n : ℚ)| < 2 ^ 52 := by exact_mod_cast hn
    have hdiv := abs_decimal_le n k
    have hone := unit_le_one k
    have hclose := h.lt_unit ha
    have htriangle := abs_sub_abs_le_abs_sub x (n / 10 ^ k)
    linarith [abs_truncate_le x]
  have hint : |truncate x| < 2 ^ 53 := by exact_mod_cast hrange
  have hfits : int64Min ≤ truncate x ∧ truncate x ≤ int64Max := by
    rw [abs_lt] at hint
    unfold int64Min int64Max
    omega
  rw [hX.toInt64 hfits]
  exact h.truncate_eq_or ha

end Decimal

end Binary64
