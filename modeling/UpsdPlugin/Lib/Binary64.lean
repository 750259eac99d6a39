import UpsdPlugin.Lib.Decimal
import Mathlib.Algebra.Order.Field.Power
import Mathlib.Tactic.NormNum

/-! Binary64 arithmetic, over the rationals.

A finite double is a rational that rounding leaves alone: 53 bits, the last of them no lower than
`2^-1074`. An operation is the exact one, rounded to the nearest double with halves going to the
even one (`ofRat`). Rounding is off by half a unit in the last place (`abs_round_sub_le`), which is
one part in `2^53` from the least normal number on (`round_error`). The two zeros are one here. -/
namespace Binary64

/-- The nearest integer; halfway, the even one. -/
def roundEven (x : ℚ) : ℤ :=
  if 2 * (x - ⌊x⌋) < 1 ∨ 2 * (x - ⌊x⌋) = 1 ∧ ⌊x⌋ % 2 = 0 then ⌊x⌋ else ⌊x⌋ + 1

/-- The exponent of the leading bit of `|q|`. -/
def leading (q : ℚ) : ℤ :=
  let k : ℤ := q.num.natAbs.log2 - q.den.log2
  if (2 : ℚ) ^ k ≤ |q| then k else k - 1

/-- The exponent of the last bit that is kept. -/
def place (q : ℚ) : ℤ := max (leading q - 52) (-1074)

def round (q : ℚ) : ℚ := roundEven (q / 2 ^ place q) * 2 ^ place q

/-! ### Integers -/

theorem roundEven_intCast (n : ℤ) : roundEven n = n := by
  simp [roundEven]

theorem abs_roundEven_sub_le (x : ℚ) : |(roundEven x : ℚ) - x| ≤ 1 / 2 := by
  have hlow := Int.floor_le x
  have hhigh := Int.lt_floor_add_one x
  unfold roundEven
  split
  · next h =>
    rw [abs_le]
    rcases h with h | h
    · constructor <;> linarith
    · constructor <;> linarith [h.1]
  · next h =>
    have hhalf : 1 ≤ 2 * (x - ⌊x⌋) := not_lt.mp fun hlt => h (Or.inl hlt)
    push_cast
    rw [abs_le]
    constructor <;> linarith

theorem roundEven_le {x : ℚ} {n : ℤ} (h : x ≤ n) : roundEven x ≤ n := by
  have herror := (abs_le.mp (abs_roundEven_sub_le x)).2
  have hlt : (roundEven x : ℚ) < n + 1 := by linarith
  exact Int.lt_add_one_iff.mp (by exact_mod_cast hlt)

theorem le_roundEven {x : ℚ} {n : ℤ} (h : (n : ℚ) ≤ x) : n ≤ roundEven x := by
  have herror := (abs_le.mp (abs_roundEven_sub_le x)).1
  have hlt : (n : ℚ) < roundEven x + 1 := by linarith
  exact Int.lt_add_one_iff.mp (by exact_mod_cast hlt)

/-! ### The leading bit -/

theorem abs_eq_natAbs_div (q : ℚ) : |q| = q.num.natAbs / q.den := by
  have hdiv := abs_div (q.num : ℚ) q.den
  rw [Rat.num_div_den, Nat.abs_cast] at hdiv
  rw [hdiv, Nat.cast_natAbs, Int.cast_abs]

/-- The lengths of two numbers tell the leading bit of their quotient, up to one. -/
theorem quotient_bits {n d : ℕ} (hn : n ≠ 0) (hd : d ≠ 0) :
    (2 : ℚ) ^ ((n.log2 : ℤ) - d.log2 - 1) < n / d ∧ (n / d : ℚ) < 2 ^ ((n.log2 : ℤ) - d.log2 + 1) := by
  have hnlow : (2 : ℚ) ^ n.log2 ≤ n := by exact_mod_cast Nat.log2_self_le hn
  have hnhigh : (n : ℚ) < 2 ^ (n.log2 + 1) := by exact_mod_cast Nat.lt_log2_self
  have hdlow : (2 : ℚ) ^ d.log2 ≤ d := by exact_mod_cast Nat.log2_self_le hd
  have hdhigh : (d : ℚ) < 2 ^ (d.log2 + 1) := by exact_mod_cast Nat.lt_log2_self
  have hdpos : (0 : ℚ) < d := by exact_mod_cast Nat.pos_of_ne_zero hd
  have h2 : (2 : ℚ) ≠ 0 := two_ne_zero
  constructor
  · rw [lt_div_iff₀ hdpos]
    calc (2 : ℚ) ^ ((n.log2 : ℤ) - d.log2 - 1) * d
        < 2 ^ ((n.log2 : ℤ) - d.log2 - 1) * 2 ^ (d.log2 + 1) := by gcongr
      _ = 2 ^ n.log2 := by
        rw [← zpow_natCast, ← zpow_natCast, ← zpow_add₀ h2]
        congr 1
        push_cast
        ring
      _ ≤ n := hnlow
  · rw [div_lt_iff₀ hdpos]
    calc (n : ℚ) < 2 ^ (n.log2 + 1) := hnhigh
      _ = 2 ^ ((n.log2 : ℤ) - d.log2 + 1) * 2 ^ d.log2 := by
        rw [← zpow_natCast, ← zpow_natCast, ← zpow_add₀ h2]
        congr 1
        push_cast
        ring
      _ ≤ 2 ^ ((n.log2 : ℤ) - d.log2 + 1) * d := by gcongr

theorem leading_spec {q : ℚ} (hq : q ≠ 0) : (2 : ℚ) ^ leading q ≤ |q| ∧ |q| < 2 ^ (leading q + 1) := by
  have hnum : q.num.natAbs ≠ 0 := Int.natAbs_ne_zero.mpr (Rat.num_ne_zero.mpr hq)
  obtain ⟨hbelow, habove⟩ := quotient_bits hnum q.den_nz
  rw [← abs_eq_natAbs_div] at hbelow habove
  -- The two powers are two apart; the test tells the upper half from the lower.
  unfold leading
  dsimp only
  split
  · next h => exact ⟨h, habove⟩
  · next h =>
    refine ⟨hbelow.le, ?_⟩
    rw [sub_add_cancel]
    exact not_le.mp h

/-- A bound on the number is a bound on its leading bit. -/
theorem leading_lt {q : ℚ} (hq : q ≠ 0) {e : ℤ} (h : |q| < 2 ^ e) : leading q < e :=
  (zpow_lt_zpow_iff_right₀ one_lt_two).mp ((leading_spec hq).1.trans_lt h)

theorem le_leading {q : ℚ} (hq : q ≠ 0) {e : ℤ} (h : 2 ^ e ≤ |q|) : e ≤ leading q := by
  have hlt := (zpow_lt_zpow_iff_right₀ (one_lt_two (α := ℚ))).mp (h.trans_lt (leading_spec hq).2)
  omega

/-! ### Rounding -/

/-- The distance between the doubles around `q`. -/
def ulp (q : ℚ) : ℚ := 2 ^ place q

theorem ulp_pos (q : ℚ) : 0 < ulp q := zpow_pos two_pos _

/-- Rounding is off by half a unit in the last place. -/
theorem abs_round_sub_le (q : ℚ) : |round q - q| ≤ ulp q / 2 := by
  have hpos := ulp_pos q
  have heq : round q - q = (roundEven (q / ulp q) - q / ulp q) * ulp q := by
    rw [sub_mul, div_mul_cancel₀ q hpos.ne']
    rfl
  rw [heq, abs_mul, abs_of_pos hpos]
  calc |(roundEven (q / ulp q) : ℚ) - q / ulp q| * ulp q ≤ 1 / 2 * ulp q := by
        gcongr
        exact abs_roundEven_sub_le _
    _ = ulp q / 2 := by ring

theorem round_zero : round 0 = 0 := by
  have h : roundEven ((0 : ℤ) : ℚ) = 0 := roundEven_intCast 0
  rw [round, zero_div, ← Int.cast_zero, h, Int.cast_zero, zero_mul]

/-- From the least normal number on, that is one part in `2^53`. -/
theorem round_error {q : ℚ} (hq : q ≠ 0 → 2 ^ (-1022 : ℤ) ≤ |q|) : |round q - q| ≤ |q| / 2 ^ 53 := by
  rcases eq_or_ne q 0 with rfl | hne
  · simp [round_zero]
  · have hplace : place q = leading q - 52 := max_eq_left (by have := le_leading hne (hq hne); omega)
    have hulp : ulp q = 2 ^ leading q / 2 ^ 52 := by
      rw [ulp, hplace, zpow_sub₀ two_ne_zero]
      rfl
    calc |round q - q| ≤ ulp q / 2 := abs_round_sub_le q
      _ = 2 ^ leading q / 2 ^ 53 := by rw [hulp]; ring
      _ ≤ |q| / 2 ^ 53 := by
        gcongr
        exact (leading_spec hne).1

/-- What 53 bits hold, with the last one high enough. -/
def Representable (q : ℚ) : Prop := ∃ m e : ℤ, |m| ≤ 2 ^ 53 ∧ -1074 ≤ e ∧ q = m * 2 ^ e

/-- A multiple of the unit in the last place is left alone. -/
theorem round_of_multiple {q : ℚ} {n : ℤ} (h : q = n * ulp q) : round q = q := by
  have hdiv : q / 2 ^ place q = n := by
    rw [div_eq_iff (zpow_ne_zero _ two_ne_zero)]
    exact h
  rw [round, hdiv, roundEven_intCast]
  exact h.symm

theorem round_of_lt {m e : ℤ} (hm : |m| < 2 ^ 53) (he : -1074 ≤ e) : round (m * 2 ^ e) = m * 2 ^ e := by
  rcases eq_or_ne m 0 with rfl | hne
  · rw [Int.cast_zero, zero_mul, round_zero]
  · set q : ℚ := m * 2 ^ e with hq
    have hq0 : q ≠ 0 := mul_ne_zero (Int.cast_ne_zero.mpr hne) (zpow_ne_zero _ two_ne_zero)
    have hbound : |q| < 2 ^ (53 + e) := by
      rw [hq, abs_mul, abs_of_pos (zpow_pos two_pos e : (0 : ℚ) < 2 ^ e), zpow_add₀ two_ne_zero]
      have hcast : |(m : ℚ)| < 2 ^ (53 : ℤ) := by exact_mod_cast hm
      gcongr
    have hplace : place q ≤ e := max_le (by have := leading_lt hq0 hbound; omega) he
    obtain ⟨k, hk⟩ := Int.le.dest hplace
    apply round_of_multiple (n := m * 2 ^ k)
    calc q = m * 2 ^ (place q + k) := by rw [hk]
      _ = (m * 2 ^ k : ℤ) * ulp q := by
        rw [ulp, zpow_add₀ two_ne_zero, zpow_natCast]
        push_cast
        ring

theorem round_of_representable {q : ℚ} (h : Representable q) : round q = q := by
  obtain ⟨m, e, hm, he, rfl⟩ := h
  rcases hm.lt_or_eq with hlt | heq
  · exact round_of_lt hlt he
  · -- `2^53` is `2^52`, one place up.
    rcases (abs_eq (by norm_num)).mp heq with rfl | rfl
    · have hup : ((2 ^ 53 : ℤ) : ℚ) * 2 ^ e = (2 ^ 52 : ℤ) * 2 ^ (e + 1) := by
        rw [zpow_add_one₀ two_ne_zero]
        push_cast
        ring
      rw [hup]
      exact round_of_lt (by norm_num) (by omega)
    · have hup : ((-2 ^ 53 : ℤ) : ℚ) * 2 ^ e = (-2 ^ 52 : ℤ) * 2 ^ (e + 1) := by
        rw [zpow_add_one₀ two_ne_zero]
        push_cast
        ring
      rw [hup]
      exact round_of_lt (by norm_num) (by omega)

theorem representable_round (q : ℚ) : Representable (round q) := by
  rcases eq_or_ne q 0 with rfl | hq
  · exact ⟨0, 0, by norm_num, by norm_num, by rw [round_zero]; norm_num⟩
  · refine ⟨roundEven (q / 2 ^ place q), place q, ?_, le_max_right _ _, rfl⟩
    have hbound : |q / 2 ^ place q| ≤ 2 ^ 53 := by
      have hpos : (0 : ℚ) < 2 ^ place q := zpow_pos two_pos _
      have hplace : leading q + 1 ≤ 53 + place q := by
        have := le_max_left (leading q - 52) (-1074)
        unfold place
        omega
      rw [abs_div, abs_of_pos hpos, div_le_iff₀ hpos]
      calc |q| ≤ 2 ^ (leading q + 1) := (leading_spec hq).2.le
        _ ≤ 2 ^ (53 + place q) := zpow_le_zpow_right₀ one_le_two hplace
        _ = 2 ^ 53 * 2 ^ place q := by
          rw [zpow_add₀ two_ne_zero]
          rfl
    rw [abs_le] at hbound ⊢
    constructor
    · exact le_roundEven (by exact_mod_cast hbound.1)
    · exact roundEven_le (by exact_mod_cast hbound.2)

theorem round_round (q : ℚ) : round (round q) = round q := round_of_representable (representable_round q)

theorem round_neg {q : ℚ} (h : round q = q) : round (-q) = -q := by
  obtain ⟨m, e, hm, he, heq⟩ := representable_round q
  rw [h] at heq
  apply round_of_representable
  exact ⟨-m, e, by rwa [abs_neg], he, by rw [heq]; push_cast; ring⟩

/-- Integers of 53 bits are doubles. -/
theorem round_intCast {n : ℤ} (h : |n| ≤ 2 ^ 53) : round n = n :=
  round_of_representable ⟨n, 0, h, by norm_num, by simp⟩

theorem round_natCast {n : ℕ} (h : n ≤ 2 ^ 53) : round n = n := by
  have hcast := round_intCast (n := n) (by rw [Nat.abs_cast]; exact_mod_cast h)
  rwa [Int.cast_natCast] at hcast

end Binary64

/-! ### Doubles -/

inductive Binary64 where
  /-- A finite double is a rational that rounding leaves alone. -/
  | fin (x : {q : ℚ // Binary64.round q = q ∧ |q| < 2 ^ 1024})
  | inf (neg : Bool)
  | nan
  deriving DecidableEq

namespace Binary64

/-- The nearest double; beyond the largest one, an infinity. -/
def ofRat (q : ℚ) : Binary64 :=
  if h : |round q| < 2 ^ 1024 then fin ⟨round q, round_round q, h⟩ else inf (decide (q < 0))

def ofNat (n : ℕ) : Binary64 := ofRat n

def add : Binary64 → Binary64 → Binary64
  | nan, _ => nan
  | _, nan => nan
  | inf s, inf t => if s = t then inf s else nan
  | inf s, fin _ => inf s
  | fin _, inf t => inf t
  | fin a, fin b => ofRat (a + b)

def mul : Binary64 → Binary64 → Binary64
  | nan, _ => nan
  | _, nan => nan
  | inf s, inf t => inf (s != t)
  | inf s, fin b => if b.1 = 0 then nan else inf (s != decide (b.1 < 0))
  | fin a, inf t => if a.1 = 0 then nan else inf (decide (a.1 < 0) != t)
  | fin a, fin b => ofRat (a * b)

/-- Without a sign of its own, a zero divides as the positive one. -/
def div : Binary64 → Binary64 → Binary64
  | nan, _ => nan
  | _, nan => nan
  | inf _, inf _ => nan
  | inf s, fin b => inf (s != decide (b.1 < 0))
  | fin _, inf _ => ofRat 0
  | fin a, fin b =>
    if b.1 = 0 then if a.1 = 0 then nan else inf (decide (a.1 < 0)) else ofRat (a / b)

instance (n : ℕ) : OfNat Binary64 n := ⟨ofNat n⟩

/-- Multiplication by an integer constant. -/
def times (x : Binary64) (k : ℕ) : Binary64 := x.mul (ofNat k)

def int64Min : ℤ := -2 ^ 63
def int64Max : ℤ := 2 ^ 63 - 1

/-- The number that a conversion to `int64_t` truncates. Out of range the conversion is undefined
in C; here it is what x86-64 makes of it, the least integer. -/
def converted : Binary64 → ℚ
  | fin x => if int64Min ≤ truncate x ∧ truncate x ≤ int64Max then x else int64Min
  | _ => int64Min

def toInt64 (x : Binary64) : ℤ := truncate x.converted

/-! ### Operations in range -/

/-- The double is this number. -/
def Is (x : Binary64) (q : ℚ) : Prop := ∃ h, x = fin ⟨q, h⟩

variable {x y : Binary64} {a b q : ℚ}

theorem Is.rounded (h : x.Is a) : round a = a := by
  obtain ⟨ha, -⟩ := h
  exact ha.1

theorem ulp_le (q : ℚ) : ulp q ≤ |q| + 1 := by
  rcases eq_or_ne q 0 with rfl | hq
  · have hplace : place 0 ≤ 0 := by decide
    rw [abs_zero, zero_add]
    exact zpow_le_one_of_nonpos₀ one_le_two hplace
  · rcases le_total (leading q - 52) (-1074) with hle | hle
    · rw [ulp, place, max_eq_right hle]
      have hsmall : (2 : ℚ) ^ (-1074 : ℤ) ≤ 1 := zpow_le_one_of_nonpos₀ one_le_two (by norm_num)
      linarith [abs_nonneg q]
    · rw [ulp, place, max_eq_left hle]
      have hlead : (2 : ℚ) ^ (leading q - 52) ≤ 2 ^ leading q := zpow_le_zpow_right₀ one_le_two (by omega)
      linarith [(leading_spec hq).1]

/-- Far below the largest double nothing overflows. -/
theorem is_ofRat (h : |q| ≤ 2 ^ 200) : (ofRat q).Is (round q) := by
  have hround : |round q| < 2 ^ 1024 := by
    have herror := abs_round_sub_le q
    have htriangle := abs_sub_abs_le_abs_sub (round q) q
    have hulp := ulp_le q
    have hone : (1 : ℚ) ≤ 2 ^ 200 := one_le_pow₀ one_le_two
    calc |round q| < 2 ^ 202 := by linarith
      _ ≤ 2 ^ 1024 := pow_le_pow_right₀ one_le_two (by norm_num)
  exact ⟨⟨round_round q, hround⟩, dif_pos hround⟩

/-- A change of sign is exact. -/
theorem Is.mul_sign (hx : x.Is a) (s : Sign) : ((ofRat s.value).mul x).Is (s.value * a) := by
  obtain ⟨⟨hround, hbound⟩, rfl⟩ := hx
  have hsign : (s.value : ℚ) = 1 ∨ (s.value : ℚ) = -1 := by
    cases s <;> simp [Sign.value]
  have hunit : round s.value = s.value := by
    have hone : round 1 = 1 := by exact_mod_cast round_natCast (n := 1) (by norm_num)
    rcases hsign with h | h
    · rw [h, hone]
    · rw [h, round_neg hone]
  have hsmall : |(s.value : ℚ)| ≤ 2 ^ 200 := by
    rcases hsign with h | h <;> rw [h] <;> norm_num
  obtain ⟨hs, heq⟩ := is_ofRat hsmall
  have hproduct : round (s.value * a) = s.value * a := by
    rcases hsign with h | h
    · rw [h, one_mul, hround]
    · rw [h, neg_one_mul, round_neg hround]
  have habs : |(s.value : ℚ) * a| < 2 ^ 1024 := by
    rcases hsign with h | h
    · rwa [h, one_mul]
    · rwa [h, neg_one_mul, abs_neg]
  rw [heq]
  show (ofRat (round s.value * a)).Is _
  rw [hunit]
  refine ⟨⟨hproduct, habs⟩, ?_⟩
  unfold ofRat
  simp only [hproduct, habs, dite_true]

theorem Is.add (hx : x.Is a) (hy : y.Is b) (h : |a + b| ≤ 2 ^ 200) : (x.add y).Is (round (a + b)) := by
  obtain ⟨ha, rfl⟩ := hx
  obtain ⟨hb, rfl⟩ := hy
  exact is_ofRat h

theorem Is.mul (hx : x.Is a) (hy : y.Is b) (h : |a * b| ≤ 2 ^ 200) : (x.mul y).Is (round (a * b)) := by
  obtain ⟨ha, rfl⟩ := hx
  obtain ⟨hb, rfl⟩ := hy
  exact is_ofRat h

theorem Is.div (hx : x.Is a) (hy : y.Is b) (hne : b ≠ 0) (h : |a / b| ≤ 2 ^ 200) :
    (x.div y).Is (round (a / b)) := by
  obtain ⟨ha, rfl⟩ := hx
  obtain ⟨hb, rfl⟩ := hy
  show Binary64.Is (if b = 0 then _ else ofRat (a / b)) _
  rw [if_neg hne]
  exact is_ofRat h

theorem abs_natCast_le {n : ℕ} (h : n ≤ 2 ^ 53) : |(n : ℚ)| ≤ 2 ^ 200 := by
  rw [Nat.abs_cast]
  exact_mod_cast h.trans (by norm_num)

theorem is_ofNat {n : ℕ} (h : n ≤ 2 ^ 53) : (ofNat n).Is n := by
  have his := is_ofRat (abs_natCast_le h)
  rwa [round_natCast h] at his

theorem is_zero : (0 : Binary64).Is 0 := by
  have h := is_ofNat (n := 0) (Nat.zero_le _)
  rwa [Nat.cast_zero] at h

theorem is_one : (1 : Binary64).Is 1 := by
  have h := is_ofNat (n := 1) (by norm_num)
  rwa [Nat.cast_one] at h

theorem Is.toInt64 (hx : x.Is a) (h : int64Min ≤ truncate a ∧ truncate a ≤ int64Max) : x.toInt64 = truncate a := by
  obtain ⟨ha, rfl⟩ := hx
  show truncate (if int64Min ≤ truncate a ∧ truncate a ≤ int64Max then a else int64Min) = truncate a
  rw [if_pos h]

end Binary64
