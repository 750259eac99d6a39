import UpsdPlugin.Lib.Binary64
import UpsdPlugin.Charts

/-! Netdata's `str2ndd`.

`NETDATA_DOUBLE` is a double. Digits are gathered in chunks that fit an `unsigned long`; a chunk
of `e` digits multiplies what came before by `10^e`, and every step rounds. The powers of ten
come from the C library, which is exact only as long as they are doubles (`Libm`).

Up to 15 digits are one chunk and are read exactly (`parseDigits_short`). -/
namespace UpsdPlugin

/-- `NETDATA_DOUBLE` -/
abbrev Ndd := Binary64

/-- `pow(10.0, n)` of the C library. -/
structure Libm where
  pow10 : ℤ → Ndd
  exact : ∀ n : ℕ, n ≤ 22 → pow10 n = .ofNat (10 ^ n)

/-- A library whose powers are correctly rounded. -/
def Libm.nearest : Libm where
  pow10 n := if 308 < n then .inf false else if n < -323 then 0 else .ofRat (10 ^ n)
  exact n hn := by
    have hbig : ¬ (308 : ℤ) < n := by omega
    have hsmall : ¬ (n : ℤ) < -323 := by omega
    rw [if_neg hbig, if_neg hsmall, zpow_natCast]
    simp [Binary64.ofNat]

/-- `powndd(10.0, exponent)`; the exponents that are read are whole numbers. -/
def Libm.powndd (m : Libm) : Ndd → Ndd
  | .fin exponent => m.pow10 exponent.1.num
  | .inf false => .inf false
  | .inf true => 0
  | .nan => .nan

/-! ### Parsing -/

/-- `isspace` in the C locale. -/
def isSpace (c : Char) : Bool := c = ' ' || ('\t' ≤ c && c ≤ '\r')

def ulongMax : Nat := 2 ^ 64 - 1

/-- The inner loop: digits into `ni` while it is below `ULONG_MAX / 10`. -/
def digitsChunk (ni exponent : Nat) : CStr → Nat × Nat × CStr
  | [] => (ni, exponent, [])
  | c :: s =>
    if c.isDigit ∧ ni < ulongMax / 10 then
      digitsChunk (ni * 10 + (c.toNat - '0'.toNat)) (exponent + 1) s
    else (ni, exponent, c :: s)

/-- The sign in front of the digits, and where they start. -/
def splitSign : CStr → Int × CStr
  | '-' :: s => (-1, s)
  | '+' :: s => (1, s)
  | s => (1, s)

section Parse
variable (m : Libm)

/-- The outer loop, a chunk an iteration; every chunk takes at least a digit. -/
def digitsLoop : Nat → Ndd → CStr → Ndd × CStr
  | 0, n, s => (n, s)
  | fuel + 1, n, s =>
    if s.head?.any Char.isDigit then
      let (ni, exponent, s') := digitsChunk 0 0 s
      digitsLoop fuel ((n.mul (m.pow10 exponent)).add (.ofNat ni)) s'
    else (n, s)

/-- `str2ndd_parse_double_decimal_digits_internal`: the number and how many digits it has. -/
def parseDigits (src : CStr) : Ndd × Nat :=
  let src := src.dropWhile isSpace
  let (n, s) := digitsLoop m src.length 0 src
  (n, src.length - s.length)

/-- `.` and the fractional digits: their number, how many they are, and what follows. -/
def parseFraction : CStr → Ndd × Nat × CStr
  | '.' :: s =>
    let (fractional, digits) := parseDigits m s
    (fractional, digits, s.drop digits)
  | s => (0, 0, s)

/-- `e` or `E` and the exponent, with how many digits it has. -/
def parseExponent : CStr → Ndd × Nat
  | c :: s =>
    if c = 'e' ∨ c = 'E' then
      let (sign, s) := splitSign s
      let (exponent, digits) := parseDigits m s
      if digits = 0 then (0, 0) else (exponent.mul (.ofRat sign), digits)
    else (0, 0)
  | [] => (0, 0)

/-- The text after the leading blanks, when it is not one of the special words. -/
def parseNumber (src : CStr) : Ndd :=
  let (sign, s) := splitSign src
  let (integral, integralDigits) := parseDigits m s
  let (fractional, fractionalDigits, s) := parseFraction m (s.drop integralDigits)
  let (exponent, exponentDigits) := parseExponent m s
  let result := if exponentDigits ≠ 0 then integral.mul (m.powndd exponent) else integral
  let result :=
    if fractionalDigits ≠ 0 then
      result.add ((fractional.div (m.pow10 fractionalDigits)).mul
        (if exponentDigits ≠ 0 then m.powndd exponent else 1))
    else result
  Binary64.mul (.ofRat sign) result

def str2ndd (src : CStr) : Ndd :=
  match src.dropWhile isSpace with
  | 'n' :: 'a' :: 'n' :: _ => .nan
  | 'n' :: 'u' :: 'l' :: 'l' :: _ => .nan
  | 'i' :: 'n' :: 'f' :: _ => .inf false
  | s => parseNumber m s

end Parse

/-! ### Digits -/

/-- What follows a digit string is not a digit. -/
def Boundary (rest : CStr) : Prop := ∀ c ∈ rest.head?, c.isDigit = false

theorem digit_lt {c : Char} (h : c.isDigit = true) : c.toNat - '0'.toNat < 10 := by
  simp only [Char.isDigit, Bool.and_eq_true, decide_eq_true_eq] at h
  have hnine : c.val.toNat ≤ 57 := h.2
  have hzero : '0'.toNat = 48 := rfl
  have hval : c.toNat = c.val.toNat := rfl
  omega

/-- Up to 18 digits are one chunk. -/
theorem digitsChunk_short {ds rest : CStr} (hds : ∀ c ∈ ds, c.isDigit) (hrest : Boundary rest) {ni k : Nat}
    (hni : ni < 10 ^ k) (hlen : k + ds.length ≤ 18) (exponent : Nat) :
    digitsChunk ni exponent (ds ++ rest) = (Nat.ofDigitChars 10 ds ni, exponent + ds.length, rest) := by
  induction ds generalizing ni k exponent with
  | nil =>
    cases rest with
    | nil => rfl
    | cons c rest =>
      have hc : c.isDigit = false := hrest c rfl
      simp [digitsChunk, hc]
  | cons c ds ih =>
    have hc : c.isDigit = true := hds c List.mem_cons_self
    rw [List.length_cons] at hlen
    have hroom : ni < ulongMax / 10 := by
      have hpow : 10 ^ k ≤ 10 ^ 18 := Nat.pow_le_pow_right (by norm_num) (by omega)
      have hmax : 10 ^ 18 ≤ ulongMax / 10 := by decide
      omega
    have hdigit := digit_lt hc
    have hnext : ni * 10 + (c.toNat - '0'.toNat) < 10 ^ (k + 1) := by
      rw [pow_succ]
      omega
    have hrec := ih (fun x hx => hds x (List.mem_cons_of_mem c hx)) hnext (by omega) (exponent + 1)
    rw [List.cons_append, digitsChunk, if_pos ⟨hc, hroom⟩, hrec, Nat.ofDigitChars_cons, Nat.mul_comm 10 ni,
      List.length_cons]
    congr 2
    omega

theorem ofDigitChars_lt {ds : CStr} (hds : ∀ c ∈ ds, c.isDigit) {ni k : Nat} (hni : ni < 10 ^ k) :
    Nat.ofDigitChars 10 ds ni < 10 ^ (k + ds.length) := by
  induction ds generalizing ni k with
  | nil => exact hni
  | cons c ds ih =>
    obtain ⟨hc, hds⟩ := List.forall_mem_cons.mp hds
    have hdigit := digit_lt hc
    have hnext : 10 * ni + (c.toNat - '0'.toNat) < 10 ^ (k + 1) := by
      rw [pow_succ]
      omega
    have hrec := ih hds hnext
    rwa [Nat.ofDigitChars_cons, List.length_cons, ← Nat.add_assoc, Nat.add_right_comm]

theorem digits_le {ds : CStr} (hds : ∀ c ∈ ds, c.isDigit) {k : Nat} (hlen : ds.length ≤ k) :
    Numeral.digits ds ≤ 10 ^ k := by
  have h := ofDigitChars_lt hds (show 0 < 10 ^ 0 from Nat.one_pos)
  rw [Nat.zero_add] at h
  exact h.le.trans (Nat.pow_le_pow_right (by norm_num) hlen)

theorem digitsLoop_boundary (m : Libm) (fuel : Nat) (n : Ndd) {rest : CStr} (hrest : Boundary rest) :
    digitsLoop m fuel n rest = (n, rest) := by
  cases fuel with
  | zero => rfl
  | succ fuel =>
    have hhead : rest.head?.any Char.isDigit = false := by
      cases rest with
      | nil => rfl
      | cons c rest => exact hrest c rfl
    simp [digitsLoop, hhead]

theorem not_space_of_digit {c : Char} (h : c.isDigit = true) : isSpace c = false := by
  simp only [Char.isDigit, Bool.and_eq_true, decide_eq_true_eq] at h
  have h48 : 48 ≤ c.val.toNat := h.1
  have h1 : c ≠ ' ' := by
    intro he
    rw [he] at h48
    exact absurd h48 (by decide)
  have h2 : ¬ c ≤ '\r' := by
    intro hle
    have : c.val.toNat ≤ 13 := hle
    omega
  simp [isSpace, h1, h2]

theorem dropWhile_space {s : CStr} (h : ∀ c ∈ s.head?, isSpace c = false) :
    s.dropWhile isSpace = s := by
  cases s with
  | nil => rfl
  | cons c s => rw [List.dropWhile_cons_of_neg (by rw [h c rfl]; decide)]

/-- Up to 15 digits are read exactly. -/
theorem parseDigits_short (m : Libm) {ds rest : CStr} (hds : ∀ c ∈ ds, c.isDigit) (hlen : ds.length ≤ 15)
    (hrest : Boundary rest) (hspace : ∀ c ∈ rest.head?, isSpace c = false) :
    ∃ n : Ndd, n.Is (Numeral.digits ds) ∧ parseDigits m (ds ++ rest) = (n, ds.length) := by
  have hskip : (ds ++ rest).dropWhile isSpace = ds ++ rest := by
    apply dropWhile_space
    cases ds with
    | nil => exact hspace
    | cons d ds =>
      intro c hc
      cases hc
      exact not_space_of_digit (hds d List.mem_cons_self)
  have hloop : ∃ n : Ndd, n.Is (Numeral.digits ds) ∧
      digitsLoop m (ds ++ rest).length 0 (ds ++ rest) = (n, rest) := by
    cases ds with
    | nil => exact ⟨0, by simpa [Numeral.digits] using Binary64.is_zero, digitsLoop_boundary m _ 0 hrest⟩
    | cons c ds =>
      have hc : c.isDigit = true := hds c List.mem_cons_self
      have hpow : 10 ^ (c :: ds).length ≤ 10 ^ 15 := Nat.pow_le_pow_right (by norm_num) hlen
      have hten : 10 ^ 15 ≤ 2 ^ 53 := by norm_num
      have hchunk := digitsChunk_short hds hrest (show 0 < 10 ^ 0 from Nat.one_pos) (by omega) 0
      have hpower : (m.pow10 (c :: ds).length).Is ((10 ^ (c :: ds).length : Nat) : ℚ) := by
        rw [m.exact _ (by omega)]
        exact Binary64.is_ofNat (by omega)
      have hshift := Binary64.is_zero.mul hpower (by simp)
      rw [zero_mul, Binary64.round_zero] at hshift
      have hsmall : Numeral.digits (c :: ds) ≤ 2 ^ 53 := (digits_le hds hlen).trans hten
      have hni := Binary64.is_ofNat hsmall
      have hsum := hshift.add hni (by rw [zero_add]; exact Binary64.abs_natCast_le hsmall)
      rw [zero_add, hni.rounded] at hsum
      refine ⟨_, hsum, ?_⟩
      rw [List.cons_append, List.length_cons, digitsLoop, if_pos (by simpa using hc), ← List.cons_append, hchunk,
        Nat.zero_add]
      exact digitsLoop_boundary m _ _ hrest
  obtain ⟨n, hn, hloop⟩ := hloop
  refine ⟨n, hn, ?_⟩
  simp only [parseDigits, hskip, hloop]
  rw [List.length_append, Nat.add_sub_cancel]

/-! ### Numerals -/

section Text
variable (n : Numeral)

theorem splitSign_text (s : Sign) (body : CStr) (h : ∀ c ∈ body.head?, c ≠ '+' ∧ c ≠ '-') :
    splitSign (s.text ++ body) = (s.value, body) := by
  cases s with
  | plus => rfl
  | minus => rfl
  | none =>
    cases body with
    | nil => rfl
    | cons c body =>
      obtain ⟨hp, hm⟩ := h c rfl
      show splitSign (c :: body) = (1, c :: body)
      unfold splitSign
      split
      · rename_i heq
        cases heq
        exact absurd rfl hm
      · rename_i heq
        cases heq
        exact absurd rfl hp
      · rfl

theorem not_sign_of_digit {c : Char} (h : c.isDigit = true) : c ≠ '+' ∧ c ≠ '-' :=
  ⟨fun he => absurd (he ▸ h) (by decide), fun he => absurd (he ▸ h) (by decide)⟩

/-- The first character of the digits and what follows them. -/
theorem body_head : ∀ c ∈ (n.whole ++ (Numeral.fractionText n.fraction ++
    Numeral.exponentText n.exponent)).head?, c.isDigit = true ∨ c = '.' := by
  intro c hc
  cases hw : n.whole with
  | cons d ds =>
    rw [hw] at hc
    have hd : d = c := Option.some.inj hc
    exact Or.inl (n.whole_digits c (by rw [hw, hd]; exact List.mem_cons_self ..))
  | nil =>
    rw [hw] at hc
    have hsome := n.some_digit
    rw [hw] at hsome
    cases hf : n.fraction with
    | none => rw [hf] at hsome; exact absurd rfl hsome
    | some f =>
      rw [hf] at hc
      cases hc
      exact Or.inr rfl

theorem splitSign_numeral : splitSign n.text =
    (n.sign.value, n.whole ++ (Numeral.fractionText n.fraction ++ Numeral.exponentText n.exponent)) := by
  rw [Numeral.text, List.append_assoc, List.append_assoc]
  apply splitSign_text
  intro c hc
  rcases body_head n c hc with h | h
  · exact not_sign_of_digit h
  · subst h
    decide

/-- A numeral has no blanks in front and is not one of the special words. -/
theorem str2ndd_numeral (m : Libm) : str2ndd m n.text = parseNumber m n.text := by
  have hhead : ∀ c ∈ n.text.head?, isSpace c = false ∧ c ≠ 'n' ∧ c ≠ 'i' := by
    intro c hc
    rw [Numeral.text, List.append_assoc, List.append_assoc] at hc
    have hbody : ∀ c, c.isDigit = true ∨ c = '.' → isSpace c = false ∧ c ≠ 'n' ∧ c ≠ 'i' := by
      intro c hc
      rcases hc with h | rfl
      · exact ⟨not_space_of_digit h, fun he => absurd (he ▸ h) (by decide), fun he => absurd (he ▸ h) (by decide)⟩
      · decide
    cases hs : n.sign with
    | plus => rw [hs] at hc; cases hc; decide
    | minus => rw [hs] at hc; cases hc; decide
    | none => rw [hs] at hc; exact hbody c (body_head n c hc)
  unfold str2ndd
  rw [dropWhile_space fun c hc => (hhead c hc).1]
  split
  · next heq => exact absurd rfl (hhead 'n' (by rw [heq]; rfl)).2.1
  · next heq => exact absurd rfl (hhead 'n' (by rw [heq]; rfl)).2.1
  · next heq => exact absurd rfl (hhead 'i' (by rw [heq]; rfl)).2.2
  · rfl

end Text

end UpsdPlugin
