import UpsdPlugin.Status

/-! The arms of the `ups.status` scanner.

The arms of the `switch` are a table: the letters an arm dispatches on, the flag it
raises and the number of characters it then jumps over unread (`scanFrom_arm`). -/
namespace UpsdPlugin

/-! ### Flags -/

/-- The status words the scanner has an arm for. -/
inductive Word where
  | OL | OB | LB | HB | RB | CHRG | DISCHRG | BYPASS | CAL | OFF | OVER | TRIM | BOOST | FSD
  deriving DecidableEq

/-- The fields of `struct nut_ups_status`. -/
inductive Flag where
  | word (w : Word)
  | OTHER
  deriving DecidableEq

namespace UpsStatus

def get (s : UpsStatus) : Flag → Bool
  | .word .OL => s.OL
  | .word .OB => s.OB
  | .word .LB => s.LB
  | .word .HB => s.HB
  | .word .RB => s.RB
  | .word .CHRG => s.CHRG
  | .word .DISCHRG => s.DISCHRG
  | .word .BYPASS => s.BYPASS
  | .word .CAL => s.CAL
  | .word .OFF => s.OFF
  | .word .OVER => s.OVER
  | .word .TRIM => s.TRIM
  | .word .BOOST => s.BOOST
  | .word .FSD => s.FSD
  | .OTHER => s.OTHER

def raise (s : UpsStatus) : Flag → UpsStatus
  | .word .OL => {s with OL := true}
  | .word .OB => {s with OB := true}
  | .word .LB => {s with LB := true}
  | .word .HB => {s with HB := true}
  | .word .RB => {s with RB := true}
  | .word .CHRG => {s with CHRG := true}
  | .word .DISCHRG => {s with DISCHRG := true}
  | .word .BYPASS => {s with BYPASS := true}
  | .word .CAL => {s with CAL := true}
  | .word .OFF => {s with OFF := true}
  | .word .OVER => {s with OVER := true}
  | .word .TRIM => {s with TRIM := true}
  | .word .BOOST => {s with BOOST := true}
  | .word .FSD => {s with FSD := true}
  | .OTHER => {s with OTHER := true}

def raiseAll (s : UpsStatus) (flags : List Flag) : UpsStatus := flags.foldl raise s

@[simp] theorem raiseAll_nil (s : UpsStatus) : s.raiseAll [] = s := rfl

@[simp] theorem raiseAll_cons (s : UpsStatus) (f : Flag) (flags : List Flag) :
    s.raiseAll (f :: flags) = (s.raise f).raiseAll flags := rfl

theorem raiseAll_append (s : UpsStatus) (a b : List Flag) :
    s.raiseAll (a ++ b) = (s.raiseAll a).raiseAll b := List.foldl_append

theorem get_raise (s : UpsStatus) (f g : Flag) : (s.raise f).get g = (decide (g = f) || s.get g) := by
  cases f with
  | OTHER =>
    cases g with
    | OTHER => rfl
    | word v => cases v <;> rfl
  | word w =>
    cases g with
    | OTHER => cases w <;> rfl
    | word v => cases w <;> cases v <;> rfl

theorem get_raiseAll (s : UpsStatus) (flags : List Flag) (g : Flag) :
    (s.raiseAll flags).get g = (decide (g ∈ flags) || s.get g) := by
  induction flags generalizing s with
  | nil => simp
  | cons f rest ih =>
    simp only [raiseAll_cons, ih, get_raise, List.mem_cons, Bool.decide_or]
    cases decide (g = f) <;> simp

theorem get_cleared (f : Flag) : ({} : UpsStatus).get f = false := by
  cases f with
  | OTHER => rfl
  | word w => cases w <;> rfl

theorem get_raiseAll_cleared (flags : List Flag) (g : Flag) :
    (raiseAll {} flags).get g = true ↔ g ∈ flags := by
  simp [get_raiseAll, get_cleared]

/-- A status is its flags. -/
theorem ext_get {s t : UpsStatus} (h : ∀ f, s.get f = t.get f) : s = t := by
  cases s
  cases t
  simp only [UpsStatus.mk.injEq]
  exact ⟨h (.word .OL), h (.word .OB), h (.word .LB), h (.word .HB), h (.word .RB),
    h (.word .CHRG), h (.word .DISCHRG), h (.word .BYPASS), h (.word .CAL), h (.word .OFF),
    h (.word .OVER), h (.word .TRIM), h (.word .BOOST), h (.word .FSD), h .OTHER⟩

theorem raiseAll_cleared_eq_iff (a b : List Flag) :
    raiseAll {} a = raiseAll {} b ↔ ∀ f, f ∈ a ↔ f ∈ b := by
  constructor
  · intro h f
    rw [← get_raiseAll_cleared, h, get_raiseAll_cleared]
  · intro h
    apply ext_get
    intro f
    apply Bool.eq_iff_iff.mpr
    rw [get_raiseAll_cleared, get_raiseAll_cleared, h f]

end UpsStatus

/-! ### The table of the `switch` -/

namespace Word

def all : List Word :=
  [OL, OB, LB, HB, RB, CHRG, DISCHRG, BYPASS, CAL, OFF, OVER, TRIM, BOOST, FSD]

theorem mem_all (w : Word) : w ∈ all := by
  cases w <;> decide

def text : Word → CStr
  | OL => ['O', 'L']
  | OB => ['O', 'B']
  | LB => ['L', 'B']
  | HB => ['H', 'B']
  | RB => ['R', 'B']
  | CHRG => ['C', 'H', 'R', 'G']
  | DISCHRG => ['D', 'I', 'S', 'C', 'H', 'R', 'G']
  | BYPASS => ['B', 'Y', 'P', 'A', 'S', 'S']
  | CAL => ['C', 'A', 'L']
  | OFF => ['O', 'F', 'F']
  | OVER => ['O', 'V', 'E', 'R']
  | TRIM => ['T', 'R', 'I', 'M']
  | BOOST => ['B', 'O', 'O', 'S', 'T']
  | FSD => ['F', 'S', 'D']

/-- The letters the arm dispatches on. -/
def letters : Word → CStr
  | OL => ['O', 'L']
  | OB => ['O', 'B']
  | LB => ['L']
  | HB => ['H']
  | RB => ['R']
  | CHRG => ['C', 'H']
  | DISCHRG => ['D']
  | BYPASS => ['B', 'Y']
  | CAL => ['C', 'A']
  | OFF => ['O', 'F']
  | OVER => ['O', 'V']
  | TRIM => ['T']
  | BOOST => ['B', 'O']
  | FSD => ['F']

/-- The characters after the letters that the arm jumps over. -/
def skip : Word → Nat
  | LB | HB | RB | CAL => 1
  | CHRG | FSD | OVER => 2
  | TRIM | BOOST => 3
  | BYPASS => 4
  | DISCHRG => 6
  | OL | OB | OFF => 0

end Word

/-! ### Scanning from the cursor on

What is left of the cursor plays no part, and iterations beyond the needed ones
change nothing, so a scan in progress is the scan of the rest of the string. -/

def scanFrom (s : CStr) (status : UpsStatus) : Except ScanFault UpsStatus :=
  scanLoop s (s.length + 1) 0 status

theorem scanStatus_eq (s : CStr) : scanStatus s = scanFrom s {} := rfl

theorem charAt_append (p t : CStr) (i : Nat) : charAt (p ++ t) (p.length + i) = charAt t i := by
  simp [charAt, List.getD_eq_getElem?_getD, List.getElem?_append_right]

theorem strchrSpace_append (p t : CStr) (i : Nat) :
    strchrSpace (p ++ t) (p.length + i) = (strchrSpace t i).map (p.length + ·) := by
  unfold strchrSpace
  rw [List.drop_append, List.drop_eq_nil_of_le (by omega), Nat.add_sub_cancel_left, List.nil_append]
  cases (t.drop i).findIdx? (· = ' ') with
  | none => rfl
  | some k => exact congrArg Except.ok (Nat.add_assoc ..)

theorem scanSwitch_append (p t : CStr) (i : Nat) (status : UpsStatus) (c : Char) :
    scanSwitch (p ++ t) (p.length + i) status c =
      (scanSwitch t i status c).map (Prod.map id (p.length + ·)) := by
  have hstrchr (j : Nat) (status : UpsStatus) :
      (do .ok (status, ← strchrSpace (p ++ t) (p.length + j)) : Except ScanFault _) =
        Except.map (Prod.map id (p.length + ·)) (do .ok (status, ← strchrSpace t j)) := by
    rw [strchrSpace_append]
    cases strchrSpace t j <;> rfl
  have hletter : charAt (p ++ t) (p.length + i + 1) = charAt t (i + 1) := charAt_append p t (i + 1)
  unfold scanSwitch
  split
  case h_8 | h_9 | h_10 =>
    rw [hletter]
    cases charAt t (i + 1) with
    | error f => rfl
    | ok c =>
      simp only [bind, Except.bind]
      split
      all_goals first
        | exact hstrchr (i + 1) _
        | rfl
  case h_11 => exact hstrchr i _
  all_goals rfl

theorem scanLoop_append (p t : CStr) (fuel i : Nat) (status : UpsStatus) :
    scanLoop (p ++ t) fuel (p.length + i) status = scanLoop t fuel i status := by
  induction fuel generalizing i status with
  | zero => rfl
  | succ fuel ih =>
    simp only [scanLoop, charAt_append, scanSwitch_append]
    cases charAt t i with
    | error f => rfl
    | ok c =>
      simp only [bind, Except.bind]
      split
      · rfl
      · cases scanSwitch t i status c with
        | error f => rfl
        | ok r => exact ih (r.2 + 1) r.1

theorem scanLoop_more (s : CStr) (fuel extra i : Nat) (status : UpsStatus)
    (h : scanLoop s fuel i status ≠ .error .unfinished) :
    scanLoop s (fuel + extra) i status = scanLoop s fuel i status := by
  induction fuel generalizing i status with
  | zero => exact absurd rfl h
  | succ fuel ih =>
    rw [Nat.add_right_comm]
    simp only [scanLoop] at h ⊢
    cases hc : charAt s i with
    | error f => rfl
    | ok c =>
      rw [hc] at h
      simp only [bind, Except.bind] at h ⊢
      split
      · rfl
      · rename_i hnul
        rw [if_neg hnul] at h
        cases hr : scanSwitch s i status c with
        | error f => rfl
        | ok r =>
          rw [hr] at h
          exact ih (r.2 + 1) r.1 h

theorem scanLoop_suffix (p t : CStr) (fuel : Nat) (status : UpsStatus) (h : t.length < fuel) :
    scanLoop (p ++ t) fuel p.length status = scanFrom t status := by
  have hfuel : t.length + 1 + (fuel - (t.length + 1)) = fuel := by omega
  have hmore := scanLoop_more t (t.length + 1) (fuel - (t.length + 1)) 0 status
    (scanLoop_finishes t (t.length + 1) 0 status (by omega) (by omega))
  rw [hfuel] at hmore
  have hshift := scanLoop_append p t fuel 0 status
  rw [hmore] at hshift
  exact hshift

/-! ### One iteration -/

section Iteration

variable {c : Char} {t : CStr} {status : UpsStatus}

theorem scanFrom_cons (hc : c ≠ nul) :
    scanFrom (c :: t) status = (do
      let r ← scanSwitch (c :: t) 0 status c
      scanLoop (c :: t) (t.length + 1) (r.2 + 1) r.1) := by
  simp [scanFrom, scanLoop, charAt, hc, bind, Except.bind]

theorem scanFrom_fault {f : ScanFault} (hc : c ≠ nul)
    (h : scanSwitch (c :: t) 0 status c = .error f) : scanFrom (c :: t) status = .error f := by
  rw [scanFrom_cons hc, h]
  rfl

variable {raised : UpsStatus} {p u : CStr}

/-- The iteration that takes the cursor over `p`. -/
theorem scanFrom_over (hc : c ≠ nul) (hp : p ≠ []) (ht : c :: t = p ++ u)
    (h : scanSwitch (c :: t) 0 status c = .ok (raised, p.length - 1)) :
    scanFrom (c :: t) status = scanFrom u raised := by
  have hpos : 0 < p.length := List.length_pos_iff.mpr hp
  have hlen : t.length + 1 = p.length + u.length := by
    rw [← List.length_append, ← ht, List.length_cons]
  rw [scanFrom_cons hc, h]
  show scanLoop (c :: t) (t.length + 1) (p.length - 1 + 1) raised = scanFrom u raised
  rw [Nat.sub_add_cancel hpos, ht]
  exact scanLoop_suffix p u _ raised (by omega)

/-- The iteration that takes the cursor beyond the terminator. -/
theorem scanFrom_beyond {j : Nat} (hc : c ≠ nul) (hj : t.length < j)
    (h : scanSwitch (c :: t) 0 status c = .ok (raised, j)) :
    scanFrom (c :: t) status = .error .outOfBounds := by
  rw [scanFrom_cons hc, h]
  have hout : ¬ j ≤ t.length := by omega
  simp [scanLoop, charAt, hout, bind, Except.bind]

end Iteration

theorem scanFrom_nil (status : UpsStatus) : scanFrom [] status = .ok status := rfl

theorem scanFrom_space (t : CStr) (status : UpsStatus) :
    scanFrom (' ' :: t) status = scanFrom t status :=
  scanFrom_over (p := [' ']) (by decide) (by simp) rfl rfl

theorem scanSwitch_letters (w : Word) (u : CStr) (status : UpsStatus) :
    ∃ c t, w.letters ++ u = c :: t ∧ c ≠ nul ∧
      scanSwitch (c :: t) 0 status c =
        .ok (status.raise (.word w), w.letters.length + w.skip - 1) := by
  cases w
  all_goals
    refine ⟨_, _, rfl, by decide, ?_⟩
    simp [scanSwitch, charAt, bind, Except.bind, UpsStatus.raise, Word.letters, Word.skip]

theorem scanFrom_arm (w : Word) (gap u : CStr) (status : UpsStatus) (h : gap.length = w.skip) :
    scanFrom (w.letters ++ gap ++ u) status = scanFrom u (status.raise (.word w)) := by
  obtain ⟨c, t, ht, hc, hswitch⟩ := scanSwitch_letters w (gap ++ u) status
  rw [← List.append_assoc] at ht
  rw [ht]
  apply scanFrom_over hc _ ht.symm
  · rw [hswitch, List.length_append, h]
  · cases w <;> simp [Word.letters]

theorem scanFrom_arm_drop (w : Word) (t : CStr) (status : UpsStatus) (h : w.skip ≤ t.length) :
    scanFrom (w.letters ++ t) status = scanFrom (t.drop w.skip) (status.raise (.word w)) := by
  have hgap : (t.take w.skip).length = w.skip := by
    rw [List.length_take]
    omega
  rw [← scanFrom_arm w (t.take w.skip) (t.drop w.skip) status hgap, List.append_assoc,
    List.take_append_drop]

theorem scanFrom_arm_short (w : Word) (gap : CStr) (status : UpsStatus) (h : gap.length < w.skip) :
    scanFrom (w.letters ++ gap) status = .error .outOfBounds := by
  obtain ⟨c, t, ht, hc, hswitch⟩ := scanSwitch_letters w gap status
  have hlen : t.length + 1 = w.letters.length + gap.length := by
    rw [← List.length_append, ht, List.length_cons]
  rw [ht]
  exact scanFrom_beyond hc (by omega) hswitch

end UpsdPlugin
