import Mathlib.Data.List.TakeWhile
import UpsdPlugin.Number

/-! The command line: `parse_command_line` with Netdata's `str2i`.

The collection frequency is the first operand. Its first character must be a digit;
the number is then gathered in an `unsigned int` up to the first character that is not
a digit, converted to `int`, widened to the `unsigned long` `netdata_update_every`, and
only then compared with the bounds. -/
namespace UpsdPlugin

/-! ### `str2u` and `str2i` -/

/-- `while(*s >= '0' && *s <= '9') n = n * 10 + (*s++ - '0');` -/
def str2uLoop (n : UInt32) : CStr → UInt32
  | [] => n
  | c :: s => if c.isDigit then str2uLoop (n * 10 + .ofNat (c.toNat - '0'.toNat)) s else n

def str2u (s : CStr) : UInt32 := str2uLoop 0 (s.dropWhile isSpace)

def str2i (s : CStr) : Int32 :=
  match s.dropWhile isSpace with
  | '-' :: s => -(str2u s).toInt32
  | '+' :: s => (str2u s).toInt32
  | s => (str2u s).toInt32

/-! ### `parse_command_line` -/

inductive ExitStatus where
  | success | failure
  deriving DecidableEq

/-- What is written to stderr or the log before an exit. -/
inductive Notice where
  | help
  | version
  | error (text : CStr)
  deriving DecidableEq

structure Halt where
  notice : Notice
  status : ExitStatus
  deriving DecidableEq

/-- The first option `getopt` returns. The options stand in arguments that start with a
dash, before any `--`; operands may come before them. -/
def firstOption : List CStr → Option Char
  | [] => none
  | ['-', '-'] :: _ => none
  | ('-' :: c :: _) :: _ => some c
  | _ :: rest => firstOption rest

/-- The arguments from `optind` on, when there are no options. -/
def operands : List CStr → List CStr
  | [] => []
  | ['-', '-'] :: rest => rest
  | arg :: rest => arg :: operands rest

def usage : Halt := ⟨.help, .failure⟩

def badFrequency : Halt :=
  ⟨.error "COLLECTION_FREQUENCY argument must be between [1,86400)\n".toList, .failure⟩

/-- The `else` branch: the COLLECTION_FREQUENCY operand. -/
def parseFrequency (arg : CStr) : Except Halt UInt64 :=
  if arg.head?.any Char.isDigit then
    let updateEvery := (str2i arg).toInt64.toUInt64
    if updateEvery ≤ 0 ∨ updateEvery ≥ 86400 then .error badFrequency else .ok updateEvery
  else .error usage

/-- `parse_command_line` on the arguments after the program's name: the value of
`netdata_update_every`, or how the program ends. -/
def parseCommandLine (args : List CStr) : Except Halt UInt64 :=
  match firstOption args with
  | some 'h' => .error ⟨.help, .success⟩
  | some 'v' => .error ⟨.version, .success⟩
  | some _ => .error usage
  | none =>
    match operands args with
    | [] => .ok 1
    | arg :: _ => parseFrequency arg

/-! ### The number that is read -/

theorem ofDigitChars_mod (ds : CStr) (n m : Nat) :
    Nat.ofDigitChars 10 ds (n % m) % m = Nat.ofDigitChars 10 ds n % m := by
  rw [Nat.ofDigitChars_eq_ofDigitChars_zero, @Nat.ofDigitChars_eq_ofDigitChars_zero ds n]
  simp [Nat.add_mod, Nat.mul_mod]

theorem toNat_str2uLoop (n : UInt32) (s : CStr) :
    (str2uLoop n s).toNat = Nat.ofDigitChars 10 (s.takeWhile Char.isDigit) n.toNat % 2 ^ 32 := by
  induction s generalizing n with
  | nil => simp [str2uLoop, Nat.mod_eq_of_lt n.toNat_lt]
  | cons c s ih =>
    by_cases hc : c.isDigit
    · have hstep : (n * 10 + .ofNat (c.toNat - '0'.toNat)).toNat =
          (10 * n.toNat + (c.toNat - '0'.toNat)) % 2 ^ 32 := by
        simp [UInt32.toNat_add, UInt32.toNat_mul, Nat.mul_comm]
      rw [str2uLoop, if_pos hc, ih, hstep, ofDigitChars_mod, List.takeWhile_cons_of_pos hc,
        Nat.ofDigitChars_cons]
    · simp [str2uLoop, hc, Nat.mod_eq_of_lt n.toNat_lt]

/-- The number the digits at the start of `s` denote, as an `unsigned int` holds it. -/
def leadingNumber (s : CStr) : Nat := Numeral.digits (s.takeWhile Char.isDigit) % 2 ^ 32

theorem leadingNumber_of_digits {s : CStr} (h : ∀ c ∈ s, c.isDigit) (hlt : Numeral.digits s < 2 ^ 32) :
    leadingNumber s = Numeral.digits s := by
  rw [leadingNumber, List.takeWhile_eq_self_iff.mpr h, Nat.mod_eq_of_lt hlt]

theorem str2i_of_digit {c : Char} {s : CStr} (hc : c.isDigit) :
    str2i (c :: s) = (str2uLoop 0 (c :: s)).toInt32 := by
  have hskip : (c :: s).dropWhile isSpace = c :: s :=
    dropWhile_space (by simp [not_space_of_digit hc])
  unfold str2i
  rw [hskip]
  split
  case h_1 heq =>
    obtain ⟨rfl, -⟩ := List.cons.inj heq
    exact absurd hc (by decide)
  case h_2 heq =>
    obtain ⟨rfl, -⟩ := List.cons.inj heq
    exact absurd hc (by decide)
  case h_3 => rw [str2u, hskip]

/-- Widening an `int` to `unsigned long` keeps small numbers and makes all others huge. -/
theorem toNat_widened (x : UInt32) :
    x.toInt32.toInt64.toUInt64.toNat = if x.toNat < 2 ^ 31 then x.toNat else x.toNat + (2 ^ 64 - 2 ^ 32) := by
  have hx := x.toNat_lt
  have hwidened : x.toInt32.toInt64.toUInt64.toNat = (x.toBitVec.signExtend 64).toNat := rfl
  rw [hwidened, BitVec.toNat_signExtend, BitVec.msb_eq_decide]
  simp only [BitVec.toNat_setWidth, UInt32.toNat_toBitVec, decide_eq_true_eq]
  split <;> split <;> omega

/-! ### What is accepted -/

/-- An argument that does not start with a dash is the operand. -/
theorem parseCommandLine_operand {s : CStr} (hdash : s.head? ≠ some '-') :
    parseCommandLine [s] = parseFrequency s := by
  cases s with
  | nil => rfl
  | cons c s =>
    have hc : c ≠ '-' := by simpa using hdash
    simp [parseCommandLine, firstOption, operands, hc]

theorem toNat_updateEvery {c : Char} (hc : c.isDigit) (s : CStr) :
    (str2i (c :: s)).toInt64.toUInt64.toNat =
      if leadingNumber (c :: s) < 2 ^ 31 then leadingNumber (c :: s)
      else leadingNumber (c :: s) + (2 ^ 64 - 2 ^ 32) := by
  have hread : (str2uLoop 0 (c :: s)).toNat = leadingNumber (c :: s) := toNat_str2uLoop 0 (c :: s)
  rw [str2i_of_digit hc, toNat_widened, hread]

/-- The bounds hold for what is stored iff they hold for the leading number. -/
theorem updateEvery_out_iff {c : Char} (hc : c.isDigit) (s : CStr) :
    ((str2i (c :: s)).toInt64.toUInt64 ≤ 0 ∨ (str2i (c :: s)).toInt64.toUInt64 ≥ 86400) ↔
      leadingNumber (c :: s) < 1 ∨ 86400 ≤ leadingNumber (c :: s) := by
  have hvalue := toNat_updateEvery hc s
  have hlt : leadingNumber (c :: s) < 2 ^ 32 := Nat.mod_lt _ (by decide)
  rw [ge_iff_le, UInt64.le_iff_toNat_le, UInt64.le_iff_toNat_le, hvalue]
  simp only [UInt64.toNat_ofNat]
  split <;> omega

theorem leadingNumber_of_not_digit {s : CStr} (h : s.head?.any Char.isDigit = false) :
    leadingNumber s = 0 := by
  cases s with
  | nil => rfl
  | cons c s =>
    have hc : c.isDigit = false := by simpa using h
    simp [leadingNumber, hc, Numeral.digits]

theorem parseFrequency_accepts {s : CStr} (hpos : 1 ≤ leadingNumber s) (hlt : leadingNumber s < 86400) :
    parseFrequency s = .ok (.ofNat (leadingNumber s)) := by
  cases hhead : s.head?.any Char.isDigit with
  | false =>
    rw [leadingNumber_of_not_digit hhead] at hpos
    omega
  | true =>
    cases s with
    | nil => simp at hhead
    | cons c s =>
      have hc : c.isDigit := by simpa using hhead
      have hin := mt (updateEvery_out_iff hc s).mp (by omega)
      have hvalue : (str2i (c :: s)).toInt64.toUInt64 = .ofNat (leadingNumber (c :: s)) := by
        apply UInt64.toNat.inj
        rw [toNat_updateEvery hc, if_pos (by omega), UInt64.toNat_ofNat', Nat.mod_eq_of_lt (by omega)]
      rw [hvalue] at hin
      simp only [parseFrequency, hhead, if_true, hvalue, if_neg hin]

theorem parseFrequency_rejects {s : CStr} (h : leadingNumber s < 1 ∨ 86400 ≤ leadingNumber s) :
    ∃ halt, parseFrequency s = .error halt ∧ halt.status = .failure := by
  cases hhead : s.head?.any Char.isDigit with
  | false => exact ⟨usage, by simp [parseFrequency, hhead], rfl⟩
  | true =>
    cases s with
    | nil => simp at hhead
    | cons c s =>
      have hc : c.isDigit := by simpa using hhead
      have hout := (updateEvery_out_iff hc s).mpr h
      exact ⟨badFrequency, by simp only [parseFrequency, hhead, if_true, if_pos hout], rfl⟩

/-- Whatever the arguments, a frequency that is accepted is in bounds. -/
theorem accepted_in_bounds {args : List CStr} {n : UInt64} (h : parseCommandLine args = .ok n) :
    1 ≤ n.toNat ∧ n.toNat < 86400 := by
  have hfrequency (arg : CStr) (harg : parseFrequency arg = .ok n) : 1 ≤ n.toNat ∧ n.toNat < 86400 := by
    by_cases hin : 1 ≤ leadingNumber arg ∧ leadingNumber arg < 86400
    · rw [parseFrequency_accepts hin.1 hin.2] at harg
      rw [← Except.ok.inj harg, UInt64.toNat_ofNat', Nat.mod_eq_of_lt (by omega)]
      exact hin
    · obtain ⟨halt, hreject, -⟩ := parseFrequency_rejects (s := arg) (by omega)
      rw [hreject] at harg
      cases harg
  unfold parseCommandLine at h
  split at h
  case h_4 =>
    split at h
    case h_1 =>
      rw [← Except.ok.inj h]
      decide
    case h_2 => exact hfrequency _ h
  all_goals cases h

/-- The frequency is parsed as it is written: exactly the numerals of the numbers in
bounds are accepted, with the number they denote, and all else is a failure. -/
def ParsedExactly (s : CStr) : Prop :=
  (∀ n, parseCommandLine [s] = .ok n ↔
      (∀ c ∈ s, c.isDigit) ∧ 1 ≤ Numeral.digits s ∧ Numeral.digits s < 86400 ∧
        n.toNat = Numeral.digits s) ∧
    ∀ halt, parseCommandLine [s] = .error halt → halt.status = .failure

/-- A numeral in bounds is accepted with the number it denotes. -/
theorem parsedExactly_of_numeral {s : CStr} (hdash : s.head? ≠ some '-') (hdigits : ∀ c ∈ s, c.isDigit)
    (hpos : 1 ≤ Numeral.digits s) (hlt : Numeral.digits s < 86400) : ParsedExactly s := by
  have hleading : leadingNumber s = Numeral.digits s := leadingNumber_of_digits hdigits (by omega)
  have haccepts := parseFrequency_accepts (s := s) (by omega) (by omega)
  have hvalue : (UInt64.ofNat (Numeral.digits s)).toNat = Numeral.digits s := by
    rw [UInt64.toNat_ofNat', Nat.mod_eq_of_lt (by omega)]
  rw [ParsedExactly, parseCommandLine_operand hdash, haccepts, hleading]
  constructor
  · intro n
    constructor
    · intro heq
      rw [← Except.ok.inj heq]
      exact ⟨hdigits, hpos, hlt, hvalue⟩
    · intro hn
      exact congrArg Except.ok (UInt64.toNat.inj (hvalue.trans hn.2.2.2.symm))
  · intro halt heq
    cases heq

/-- Where the leading number is out of bounds, the argument is rightly rejected: a numeral in
bounds would be its own leading number. -/
theorem parsedExactly_of_out {s : CStr} (hdash : s.head? ≠ some '-')
    (hout : leadingNumber s < 1 ∨ 86400 ≤ leadingNumber s) : ParsedExactly s := by
  obtain ⟨halt, hreject, hstatus⟩ := parseFrequency_rejects hout
  rw [ParsedExactly, parseCommandLine_operand hdash, hreject]
  constructor
  · intro n
    constructor
    · intro heq
      cases heq
    · intro hn
      have hleading := leadingNumber_of_digits hn.1 (by omega)
      omega
  · intro halt' heq
    rw [← Except.error.inj heq]
    exact hstatus

/-- **When the collection frequency is parsed exactly.** The number that the leading
digits denote is only known modulo `2^32`, and what follows them is not looked at. So
where that number is in bounds, the argument must be all digits and denote a number
below `2^32`. -/
theorem frequency_parsed_iff (s : CStr) (hdash : s.head? ≠ some '-') :
    ParsedExactly s ↔
      (1 ≤ leadingNumber s → leadingNumber s < 86400 →
        (∀ c ∈ s, c.isDigit) ∧ Numeral.digits s < 2 ^ 32) := by
  constructor
  · intro h hpos hlt
    have haccepts : parseCommandLine [s] = .ok (.ofNat (leadingNumber s)) :=
      (parseCommandLine_operand hdash).trans (parseFrequency_accepts hpos hlt)
    obtain ⟨hdigits, -, hbound, -⟩ := (h.1 _).mp haccepts
    exact ⟨hdigits, by omega⟩
  · intro h
    by_cases hin : 1 ≤ leadingNumber s ∧ leadingNumber s < 86400
    · obtain ⟨hdigits, hsmall⟩ := h hin.1 hin.2
      rw [leadingNumber_of_digits hdigits hsmall] at hin
      exact parsedExactly_of_numeral hdash hdigits hin.1 hin.2
    · exact parsedExactly_of_out hdash (by omega)

theorem ten_parsed_exactly : "10".toList.head? ≠ some '-' ∧ ParsedExactly "10".toList :=
  ⟨by decide, (frequency_parsed_iff "10".toList (by decide)).mpr fun _ _ => ⟨List.all_eq_true.mp rfl, by decide⟩⟩

/-- Characters after the digits are ignored, and so is a multiple of `2^32`. -/
theorem frequency_misparsed :
    parseCommandLine ["5abc".toList] = .ok 5 ∧ parseCommandLine ["4294967301".toList] = .ok 5 :=
  ⟨by decide +kernel, by decide +kernel⟩

end UpsdPlugin
