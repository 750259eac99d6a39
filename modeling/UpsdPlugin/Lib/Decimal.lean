import Mathlib.Data.Rat.Floor
import Mathlib.Tactic.Positivity
import Mathlib.Tactic.FieldSimp
import Mathlib.Tactic.Ring

/-! Decimal numerals and truncation.

A numeral has an optional sign, digits, an optional fraction and an optional
exponent. It carries the proof that its parts are digits and that there is one,
so its text always denotes a number, the rational `value`.

`truncate` rounds toward zero to an integer, `truncateTo k` to multiples of `1/k`. -/

/-- A sign that may be written out: nothing, `+` or `-`. -/
inductive Sign where
  | none | plus | minus
  deriving DecidableEq

namespace Sign

def text : Sign → List Char
  | none => []
  | plus => ['+']
  | minus => ['-']

def value : Sign → ℤ
  | minus => -1
  | _ => 1

end Sign

structure Numeral where
  sign : Sign
  whole : List Char
  /-- The digits after the point, when there is one. -/
  fraction : Option (List Char)
  /-- The exponent after an `e`, when there is one. -/
  exponent : Option (Sign × List Char)
  whole_digits : ∀ c ∈ whole, c.isDigit
  fraction_digits : ∀ ds ∈ fraction, ∀ c ∈ ds, c.isDigit
  exponent_digits : ∀ e ∈ exponent, e.2 ≠ [] ∧ ∀ c ∈ e.2, c.isDigit
  some_digit : whole ++ fraction.getD [] ≠ []

namespace Numeral

def fractionText : Option (List Char) → List Char
  | .none => []
  | .some ds => '.' :: ds

def exponentText : Option (Sign × List Char) → List Char
  | .none => []
  | .some (s, ds) => 'e' :: s.text ++ ds

def text (n : Numeral) : List Char :=
  n.sign.text ++ n.whole ++ fractionText n.fraction ++ exponentText n.exponent

/-- The number a digit string denotes. -/
def digits (ds : List Char) : ℕ := Nat.ofDigitChars 10 ds 0

def fractionValue : Option (List Char) → ℚ
  | .none => 0
  | .some ds => digits ds / 10 ^ ds.length

def exponentValue : Option (Sign × List Char) → ℤ
  | .none => 0
  | .some (s, ds) => s.value * digits ds

def value (n : Numeral) : ℚ :=
  n.sign.value * ((digits n.whole + fractionValue n.fraction) * 10 ^ exponentValue n.exponent)

end Numeral

/-! ### Truncation -/

/-- Toward zero. -/
def truncate (q : ℚ) : ℤ := if 0 ≤ q then ⌊q⌋ else ⌈q⌉

theorem truncate_of_nonneg {q : ℚ} (h : 0 ≤ q) : truncate q = ⌊q⌋ := if_pos h

theorem truncate_intCast (n : ℤ) : truncate n = n := by
  unfold truncate
  split
  · exact Int.floor_intCast n
  · exact Int.ceil_intCast n

theorem truncate_neg (q : ℚ) : truncate (-q) = -truncate q := by
  unfold truncate
  rcases lt_trichotomy q 0 with h | rfl | h
  · rw [if_pos (by linarith), if_neg (by linarith), Int.floor_neg]
  · simp
  · rw [if_neg (by linarith), if_pos h.le, Int.ceil_neg]

/-- Some positive integer is above one of the numbers and not above the other. -/
def Crossed (a b : ℚ) : Prop := ∃ n : ℤ, 0 < n ∧ (a < n ∧ n ≤ b ∨ b < n ∧ n ≤ a)

/-- A whole number other than 0 lies between the two, so that they truncate differently. -/
def Apart (a b : ℚ) : Prop := Crossed a b ∨ Crossed (-a) (-b)

theorem le_truncate_iff {n : ℤ} (hn : 0 < n) (q : ℚ) : n ≤ truncate q ↔ (n : ℚ) ≤ q := by
  unfold truncate
  split
  · exact Int.le_floor
  · next h =>
    have hn' : (0 : ℚ) < n := by exact_mod_cast hn
    have hceil : ⌈q⌉ ≤ 0 := Int.ceil_le.mpr (by rw [Int.cast_zero]; linarith)
    exact ⟨fun h' => by omega, fun h' => by linarith⟩

theorem crossed_iff (a b : ℚ) : Crossed a b ↔ max (truncate a) 0 ≠ max (truncate b) 0 := by
  constructor
  · intro h heq
    obtain ⟨n, hn, ⟨ha, hb⟩ | ⟨hb, ha⟩⟩ := h
    · have hlt := not_le.mpr ha
      rw [← le_truncate_iff hn] at hb hlt
      omega
    · have hlt := not_le.mpr hb
      rw [← le_truncate_iff hn] at ha hlt
      omega
  · intro hne
    rcases lt_or_gt_of_ne hne with hlt | hlt
    · have hn : 0 < truncate b := by omega
      refine ⟨truncate b, hn, Or.inl ⟨?_, (le_truncate_iff hn b).mp le_rfl⟩⟩
      rw [← not_le, ← le_truncate_iff hn]
      omega
    · have hn : 0 < truncate a := by omega
      refine ⟨truncate a, hn, Or.inr ⟨?_, (le_truncate_iff hn a).mp le_rfl⟩⟩
      rw [← not_le, ← le_truncate_iff hn]
      omega

theorem truncate_eq_iff (a b : ℚ) : truncate a = truncate b ↔ ¬ Apart a b := by
  rw [Apart, crossed_iff, crossed_iff, truncate_neg, truncate_neg]
  omega

theorem abs_truncate_le (q : ℚ) : |(truncate q : ℚ)| ≤ |q| := by
  unfold truncate
  split
  · next h =>
    have hfloor : (0 : ℚ) ≤ ⌊q⌋ := by exact_mod_cast Int.floor_nonneg.mpr h
    rw [abs_of_nonneg h, abs_of_nonneg hfloor]
    exact Int.floor_le q
  · next h =>
    have hneg : q ≤ 0 := (not_le.mp h).le
    have hceil : (⌈q⌉ : ℚ) ≤ 0 := by exact_mod_cast Int.ceil_le.mpr (by rwa [Int.cast_zero])
    rw [abs_of_nonpos hneg, abs_of_nonpos hceil, neg_le_neg_iff]
    exact Int.le_ceil q
