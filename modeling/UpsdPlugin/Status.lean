import UpsdPlugin.Charts

/-! The `ups.status` scanner of `send_metric_ups_status`.

The loop walks a cursor over the NUL-terminated reply. It never compares a word:
it dispatches on one or two letters, skips by fixed offsets, and jumps to the
next space with `strchr` where it does not recognise a letter. The cursor is an
offset here; reading beyond the terminator and stepping from the null pointer
that `strchr` returns when there is no space are faults. -/
namespace UpsdPlugin

/-- `struct nut_ups_status` -/
structure UpsStatus where
  OL : Bool := false
  OB : Bool := false
  LB : Bool := false
  HB : Bool := false
  RB : Bool := false
  CHRG : Bool := false
  DISCHRG : Bool := false
  BYPASS : Bool := false
  CAL : Bool := false
  OFF : Bool := false
  OVER : Bool := false
  TRIM : Bool := false
  BOOST : Bool := false
  FSD : Bool := false
  OTHER : Bool := false
  deriving DecidableEq

/-- The dimensions of the status chart with their flags, in the order of the SET lines. -/
def UpsStatus.flags (s : UpsStatus) : List (CStr × Bool) :=
  [("on_line".toList, s.OL), ("on_battery".toList, s.OB), ("low_battery".toList, s.LB),
    ("high_battery".toList, s.HB), ("replace_battery".toList, s.RB), ("charging".toList, s.CHRG),
    ("discharging".toList, s.DISCHRG), ("bypass".toList, s.BYPASS), ("calibration".toList, s.CAL),
    ("offline".toList, s.OFF), ("overloaded".toList, s.OVER),
    ("trim_input_voltage".toList, s.TRIM), ("boost_input_voltage".toList, s.BOOST),
    ("forced_shutdown".toList, s.FSD), ("other".toList, s.OTHER)]

/-- The dimensions of the status chart, in the order of the DIMENSION lines. -/
def statusDimensions : List CStr :=
  ["on_line".toList, "on_battery".toList, "low_battery".toList, "high_battery".toList,
    "replace_battery".toList, "charging".toList, "discharging".toList, "bypass".toList,
    "calibration".toList, "offline".toList, "overloaded".toList, "trim_input_voltage".toList,
    "boost_input_voltage".toList, "forced_shutdown".toList, "other".toList]

theorem flags_dimensions (s : UpsStatus) : s.flags.map Prod.fst = statusDimensions := rfl

inductive ScanFault where
  /-- The cursor is read beyond the terminating NUL. -/
  | outOfBounds
  /-- `c++` on the null pointer returned by `strchr`. -/
  | nullCursor
  /-- The loop has not ended within the iterations allowed. -/
  | unfinished
  deriving DecidableEq

def nul : Char := '\x00'

/-- `*c` at offset `i` of the string. -/
def charAt (s : CStr) (i : Nat) : Except ScanFault Char :=
  if i ≤ s.length then .ok (s.getD i nul) else .error .outOfBounds

/-- `strchr(c, ' ')` from offset `i`, as an offset. -/
def strchrSpace (s : CStr) (i : Nat) : Except ScanFault Nat :=
  match (s.drop i).findIdx? (· = ' ') with
  | some k => .ok (i + k)
  | none => .error .nullCursor

/-- The `switch` on `*c`: the flags, and the cursor before the loop's own `c++`. -/
def scanSwitch (s : CStr) (i : Nat) (status : UpsStatus) : Char → Except ScanFault (UpsStatus × Nat)
  | ' ' => .ok (status, i)
  | 'L' => .ok ({status with LB := true}, i + 1)
  | 'H' => .ok ({status with HB := true}, i + 1)
  | 'R' => .ok ({status with RB := true}, i + 1)
  | 'D' => .ok ({status with DISCHRG := true}, i + 6)
  | 'T' => .ok ({status with TRIM := true}, i + 3)
  | 'F' => .ok ({status with FSD := true}, i + 2)
  | 'B' => do
    match ← charAt s (i + 1) with
    | 'O' => .ok ({status with BOOST := true}, i + 1 + 3)
    | 'Y' => .ok ({status with BYPASS := true}, i + 1 + 4)
    | _ => .ok ({status with OTHER := true}, ← strchrSpace s (i + 1))
  | 'C' => do
    match ← charAt s (i + 1) with
    | 'H' => .ok ({status with CHRG := true}, i + 1 + 2)
    | 'A' => .ok ({status with CAL := true}, i + 1 + 1)
    | _ => .ok ({status with OTHER := true}, ← strchrSpace s (i + 1))
  | 'O' => do
    match ← charAt s (i + 1) with
    | 'B' => .ok ({status with OB := true}, i + 1)
    | 'F' => .ok ({status with OFF := true}, i + 1)
    | 'L' => .ok ({status with OL := true}, i + 1)
    | 'V' => .ok ({status with OVER := true}, i + 1 + 2)
    | _ => .ok ({status with OTHER := true}, ← strchrSpace s (i + 1))
  | _ => do .ok ({status with OTHER := true}, ← strchrSpace s i)

/-- `for (; c && *c; c++) switch (*c) ...`, with the number of iterations allowed. -/
def scanLoop (s : CStr) : Nat → Nat → UpsStatus → Except ScanFault UpsStatus
  | 0, _, _ => .error .unfinished
  | fuel + 1, i, status => do
    let c ← charAt s i
    if c = nul then
      return status
    let (status, j) ← scanSwitch s i status c
    scanLoop s fuel (j + 1) status

/-- The scan of a whole reply. Every iteration moves the cursor forward, so one
iteration for each character and one for the terminator are enough
(`scanStatus_finishes`). -/
def scanStatus (s : CStr) : Except ScanFault UpsStatus :=
  scanLoop s (s.length + 1) 0 {}

/-! ### The scan ends -/

/-- Not stuck, and not behind `i`. -/
def Forward (i : Nat) (r : Except ScanFault (UpsStatus × Nat)) : Prop :=
  match r with
  | .ok (_, j) => i ≤ j
  | .error f => f ≠ .unfinished

theorem strchrSpace_forward (s : CStr) (i k : Nat) (hk : k ≤ i) (status : UpsStatus) :
    Forward k (do .ok (status, ← strchrSpace s i)) := by
  unfold strchrSpace
  cases (s.drop i).findIdx? (· = ' ') with
  | none => exact ScanFault.noConfusion
  | some j =>
    show k ≤ i + j
    omega

/-- Reading the letter after the current one never leaves the string. -/
theorem charAt_forward {s : CStr} {i k : Nat} {f : Char → Except ScanFault (UpsStatus × Nat)}
    (hf : ∀ c, Forward k (f c)) : Forward k (charAt s i >>= f) := by
  unfold charAt
  split
  · exact hf _
  · exact ScanFault.noConfusion

theorem scanSwitch_forward (s : CStr) (i : Nat) (status : UpsStatus) (c : Char) :
    Forward i (scanSwitch s i status c) := by
  unfold scanSwitch
  split
  case h_8 | h_9 | h_10 =>
    apply charAt_forward
    intro c
    split
    all_goals first
      | exact strchrSpace_forward s (i + 1) i (by omega) _
      | simp only [Forward]; omega
  case h_11 => exact strchrSpace_forward s i i (Nat.le_refl i) _
  all_goals simp only [Forward]; omega

theorem scanLoop_finishes (s : CStr) (fuel i : Nat) (status : UpsStatus)
    (h : s.length < i + fuel) (hfuel : 0 < fuel) : scanLoop s fuel i status ≠ .error .unfinished := by
  induction fuel generalizing i status with
  | zero => omega
  | succ fuel ih =>
    unfold scanLoop charAt
    by_cases hi : i ≤ s.length
    · rw [if_pos hi]
      by_cases hc : s.getD i nul = nul
      · simp only [bind, Except.bind, hc, if_true]
        exact fun he => nomatch he
      · -- The cursor is on a character, so there is fuel for another iteration.
        have hlt : i < s.length := by
          rcases Nat.lt_or_ge i s.length with hlt | hge
          · exact hlt
          · exact absurd (by rw [List.getD_eq_getElem?_getD, List.getElem?_eq_none hge]; rfl) hc
        have hforward := scanSwitch_forward s i status (s.getD i nul)
        simp only [bind, Except.bind, hc, if_false]
        cases hswitch : scanSwitch s i status (s.getD i nul) with
        | error f =>
          rw [hswitch] at hforward
          exact fun he => hforward (Except.error.inj he)
        | ok r =>
          rw [hswitch] at hforward
          have hj : i ≤ r.2 := hforward
          exact ih (r.2 + 1) r.1 (by omega) (by omega)
    · rw [if_neg hi]
      simp [bind, Except.bind]

theorem scanStatus_finishes (s : CStr) : scanStatus s ≠ .error .unfinished :=
  scanLoop_finishes s (s.length + 1) 0 {} (by omega) (by omega)

end UpsdPlugin
