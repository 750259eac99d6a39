import UpsdPlugin.StatusArms

/-! What the `ups.status` scanner makes of a string.

A string that the scanner gets through is a sequence of *pieces*: a space, an arm's letters with as
many characters as the arm skips, or a word that no arm starts followed by a space
(`Cuts`). On such a string the flags are those of its pieces (`scanFrom_cuts`), and on
every other string the cursor leaves the string or becomes null (`cuts_of_scanFrom`). -/
namespace UpsdPlugin

/-! ### Words that no arm starts -/

/-- No arm's letters begin `s`: it starts with none of `L H R D T F B C O`, or with a
`B`, `C` or `O` whose next letter the inner `switch` does not know. -/
def Foreign (s : CStr) : Prop := ∀ w : Word, ¬ w.letters <+: s

instance (s : CStr) : Decidable (Foreign s) :=
  decidable_of_iff (∀ w ∈ Word.all, ¬ w.letters <+: s)
    ⟨fun h w => h w w.mem_all, fun h w _ => h w⟩

structure ForeignWord where
  text : CStr
  nonempty : text ≠ []
  no_space : ' ' ∉ text
  no_nul : nul ∉ text
  foreign : Foreign text

theorem strchrSpace_none {s : CStr} (h : ' ' ∉ s) : strchrSpace s 0 = .error .nullCursor := by
  simp [strchrSpace, findIdx?_of_not_mem h]

theorem strchrSpace_first {s : CStr} (h : ' ' ∉ s) (u : CStr) :
    strchrSpace (s ++ ' ' :: u) 0 = .ok s.length := by
  simp [strchrSpace, List.findIdx?_append, List.findIdx?_cons, findIdx?_of_not_mem h]

/-- Looking for a space after a letter or from it on is the same. -/
theorem strchrSpace_tail {c : Char} (hc : c ≠ ' ') (t : CStr) :
    strchrSpace (c :: t) 1 = strchrSpace (c :: t) 0 := by
  simp only [strchrSpace, List.drop_succ_cons, List.drop_zero, List.findIdx?_cons, hc]
  cases t.findIdx? (· = ' ') with
  | none => rfl
  | some k => simp [Nat.add_comm]

theorem scanSwitch_foreign {c : Char} {t : CStr} (hc : c ≠ ' ') (h : Foreign (c :: t))
    (status : UpsStatus) :
    scanSwitch (c :: t) 0 status c =
      (do .ok (status.raise .OTHER, ← strchrSpace (c :: t) 0)) := by
  have hdefault : (do .ok (status.raise .OTHER, ← strchrSpace (c :: t) 1) : Except ScanFault _) =
      (do .ok (status.raise .OTHER, ← strchrSpace (c :: t) 0)) := by
    rw [strchrSpace_tail hc]
  -- The letter after the first is the terminator, or the first of the rest.
  have hsecond : charAt (c :: t) (0 + 1) = .ok (t.headD nul) := by
    cases t <;> simp [charAt]
  have hnext (w : Word) (d : Char) (hw : w.letters = [c, d]) (hd : d ≠ nul) : t.headD nul ≠ d := by
    intro heq
    cases t with
    | nil => exact hd heq.symm
    | cons e u =>
      obtain rfl : e = d := heq
      exact h w ⟨u, by rw [hw]; rfl⟩
  unfold scanSwitch
  split
  case h_1 => exact absurd rfl hc
  case h_2 => exact absurd ⟨t, rfl⟩ (h .LB)
  case h_3 => exact absurd ⟨t, rfl⟩ (h .HB)
  case h_4 => exact absurd ⟨t, rfl⟩ (h .RB)
  case h_5 => exact absurd ⟨t, rfl⟩ (h .DISCHRG)
  case h_6 => exact absurd ⟨t, rfl⟩ (h .TRIM)
  case h_7 => exact absurd ⟨t, rfl⟩ (h .FSD)
  case h_8 =>
    simp only [hsecond, bind, Except.bind]
    split
    case h_1 heq => exact absurd heq (hnext .BOOST 'O' rfl (by decide))
    case h_2 heq => exact absurd heq (hnext .BYPASS 'Y' rfl (by decide))
    case h_3 => exact hdefault
  case h_9 =>
    simp only [hsecond, bind, Except.bind]
    split
    case h_1 heq => exact absurd heq (hnext .CHRG 'H' rfl (by decide))
    case h_2 heq => exact absurd heq (hnext .CAL 'A' rfl (by decide))
    case h_3 => exact hdefault
  case h_10 =>
    simp only [hsecond, bind, Except.bind]
    split
    case h_1 heq => exact absurd heq (hnext .OB 'B' rfl (by decide))
    case h_2 heq => exact absurd heq (hnext .OFF 'F' rfl (by decide))
    case h_3 heq => exact absurd heq (hnext .OL 'L' rfl (by decide))
    case h_4 heq => exact absurd heq (hnext .OVER 'V' rfl (by decide))
    case h_5 => exact hdefault
  case h_11 => rfl

theorem Word.no_space_letters (w : Word) : ' ' ∉ w.letters := by
  cases w <;> simp [letters]

namespace ForeignWord

theorem foreign_spaced (f : ForeignWord) (u : CStr) : Foreign (f.text ++ ' ' :: u) := by
  intro w hw
  cases List.prefix_or_prefix_of_prefix hw (List.prefix_append f.text (' ' :: u)) with
  | inl h => exact f.foreign w h
  | inr h =>
    obtain ⟨q, hq⟩ := h
    cases q with
    | nil => exact f.foreign w ⟨[], by rw [List.append_nil, ← hq, List.append_nil]⟩
    | cons d q =>
      -- The arm's letters would reach over the space.
      rw [← hq] at hw
      have hd : d = ' ' := (List.cons_prefix_cons.mp ((List.prefix_append_right_inj _).mp hw)).1
      apply w.no_space_letters
      simp [← hq, hd]

theorem exists_cons (f : ForeignWord) : ∃ c t, f.text = c :: t ∧ c ≠ ' ' ∧ c ≠ nul := by
  obtain ⟨c, t, ht⟩ := List.exists_cons_of_ne_nil f.nonempty
  have hc : c ∈ f.text := by simp [ht]
  exact ⟨c, t, ht, ne_of_mem_of_not_mem hc f.no_space, ne_of_mem_of_not_mem hc f.no_nul⟩

theorem scanFrom_spaced (f : ForeignWord) (u : CStr) (status : UpsStatus) :
    scanFrom (f.text ++ ' ' :: u) status = scanFrom u (status.raise .OTHER) := by
  have hspaced := f.foreign_spaced u
  have hfirst := strchrSpace_first f.no_space u
  obtain ⟨c, t, ht, hspace, hnul⟩ := f.exists_cons
  rw [ht, List.cons_append] at hspaced hfirst ⊢
  apply scanFrom_over (p := c :: (t ++ [' '])) hnul (by simp) (by simp)
  rw [scanSwitch_foreign hspace hspaced, hfirst]
  simp [bind, Except.bind]

theorem scanFrom_last (f : ForeignWord) (status : UpsStatus) :
    scanFrom f.text status = .error .nullCursor := by
  have hforeign := f.foreign
  have hnone := strchrSpace_none f.no_space
  obtain ⟨c, t, ht, hspace, hnul⟩ := f.exists_cons
  rw [ht] at hforeign hnone ⊢
  apply scanFrom_fault hnul
  rw [scanSwitch_foreign hspace hforeign, hnone]
  rfl

end ForeignWord

/-! ### Pieces -/

/-- How a string can begin, as the scanner tells. -/
inductive Front : CStr → Prop where
  | nil : Front []
  | space (t : CStr) : Front (' ' :: t)
  | arm (w : Word) (t : CStr) : Front (w.letters ++ t)
  | foreign (f : ForeignWord) (t : CStr) : Front (f.text ++ ' ' :: t)
  | last (f : ForeignWord) : Front f.text

theorem front (s : CStr) (h : nul ∉ s) : Front s := by
  by_cases harm : ∃ w : Word, w.letters <+: s
  · obtain ⟨w, t, rfl⟩ := harm
    exact .arm w t
  cases s with
  | nil => exact .nil
  | cons c t =>
    by_cases hc : c = ' '
    · rw [hc]
      exact .space t
    -- The word up to the first space.
    have hsplit := List.takeWhile_append_dropWhile (p := (· ≠ ' ')) (l := c :: t)
    let f : ForeignWord :=
      { text := (c :: t).takeWhile (· ≠ ' ')
        nonempty := by simp [hc]
        no_space := fun hmem => by simpa using List.all_eq_true.mp List.all_takeWhile _ hmem
        no_nul := fun hmem => h (List.takeWhile_subset _ hmem)
        foreign := fun w hw => harm ⟨w, hw.trans (List.takeWhile_prefix _)⟩ }
    cases hrest : (c :: t).dropWhile (· ≠ ' ') with
    | nil =>
      rw [hrest, List.append_nil] at hsplit
      exact hsplit ▸ Front.last f
    | cons d u =>
      have hhead := List.head_dropWhile_not (· ≠ ' ') (l := c :: t)
        (by rw [hrest]; exact List.cons_ne_nil d u)
      have hd : d = ' ' := by
        simp only [hrest, List.head_cons] at hhead
        simpa using hhead
      rw [hrest, hd] at hsplit
      exact hsplit ▸ Front.foreign f u

/-- `s` is a sequence of pieces that raise `flags`. -/
inductive Cuts : CStr → List Flag → Prop where
  | nil : Cuts [] []
  | space {t : CStr} {flags : List Flag} : Cuts t flags → Cuts (' ' :: t) flags
  /-- An arm's letters and what it jumps over, whatever that is. -/
  | arm (w : Word) (gap : CStr) {t : CStr} {flags : List Flag} : gap.length = w.skip →
      Cuts t flags → Cuts (w.letters ++ gap ++ t) (.word w :: flags)
  | foreign (f : ForeignWord) {t : CStr} {flags : List Flag} :
      Cuts t flags → Cuts (f.text ++ ' ' :: t) (.OTHER :: flags)

theorem scanFrom_cuts {s : CStr} {flags : List Flag} (h : Cuts s flags) (status : UpsStatus) :
    scanFrom s status = .ok (status.raiseAll flags) := by
  induction h generalizing status with
  | nil => rfl
  | space _ ih => rw [scanFrom_space, ih]
  | arm w gap hgap _ ih => rw [scanFrom_arm w gap _ status hgap, ih, UpsStatus.raiseAll_cons]
  | foreign f _ ih => rw [f.scanFrom_spaced, ih, UpsStatus.raiseAll_cons]

theorem cuts_of_scanFrom {s : CStr} (hs : nul ∉ s) {status out : UpsStatus}
    (h : scanFrom s status = .ok out) : ∃ flags, Cuts s flags := by
  -- The scan goes on after the first piece, on a shorter string.
  induction hn : s.length using Nat.strongRecOn generalizing s status with
  | ind n ih =>
    cases front s hs with
    | nil => exact ⟨[], .nil⟩
    | space t =>
      rw [scanFrom_space] at h
      obtain ⟨flags, hflags⟩ := ih t.length (by simp [← hn]) (fun ht => hs (by simp [ht])) h rfl
      exact ⟨flags, .space hflags⟩
    | arm w t =>
      by_cases hlen : t.length < w.skip
      · rw [scanFrom_arm_short w t status hlen] at h
        cases h
      · have hgap : (t.take w.skip).length = w.skip := by
          rw [List.length_take]
          omega
        have hpos : 0 < w.letters.length := by cases w <;> simp [Word.letters]
        rw [scanFrom_arm_drop w t status (by omega)] at h
        obtain ⟨flags, hflags⟩ := ih (t.drop w.skip).length
          (by simp only [← hn, List.length_append, List.length_drop]; omega)
          (fun ht => hs (List.mem_append_right _ (List.mem_of_mem_drop ht))) h rfl
        rw [← List.take_append_drop w.skip t, ← List.append_assoc]
        exact ⟨_, .arm w _ hgap hflags⟩
    | foreign f t =>
      rw [f.scanFrom_spaced] at h
      obtain ⟨flags, hflags⟩ := ih t.length
        (by simp only [← hn, List.length_append, List.length_cons]; omega)
        (fun ht => hs (by simp [ht])) h rfl
      exact ⟨_, .foreign f hflags⟩
    | last f =>
      rw [f.scanFrom_last] at h
      cases h

/-- **The scanner stays inside the string exactly on sequences of pieces.** It reads
no character beyond the terminating NUL, never steps from the null pointer, and ends
within one iteration per character and one for the NUL, exactly when every arm finds
as many characters as it jumps over and every word that no arm starts is followed by a
space. -/
theorem scan_in_bounds_iff (s : CStr) (hs : nul ∉ s) :
    (∃ status, scanStatus s = .ok status) ↔ ∃ flags, Cuts s flags := by
  constructor
  · intro h
    obtain ⟨status, h⟩ := h
    exact cuts_of_scanFrom hs h
  · intro h
    obtain ⟨flags, h⟩ := h
    exact ⟨_, scanFrom_cuts h {}⟩

theorem on_line_charging_in_bounds :
    nul ∉ "OL CHRG".toList ∧ ∃ flags, Cuts "OL CHRG".toList flags :=
  ⟨by decide, (scan_in_bounds_iff "OL CHRG".toList (by decide)).mp ⟨_, rfl⟩⟩

/-- A word no arm starts, at the end, and a word cut off after its first letter. -/
theorem status_out_of_bounds :
    scanStatus "OL ALARM".toList = .error .nullCursor ∧
      scanStatus "OL L".toList = .error .outOfBounds := ⟨rfl, rfl⟩

/-! ### Sentences of words the scanner reads exactly -/

/-- Each arm but that of `OFF` jumps to the end of its word. -/
theorem Word.text_eq (w : Word) (h : w ≠ .OFF) :
    ∃ gap, w.text = w.letters ++ gap ∧ gap.length = w.skip := by
  cases w
  case OFF => exact absurd rfl h
  all_goals exact ⟨_, rfl, rfl⟩

theorem Cuts.word {w : Word} (h : w ≠ .OFF) {t : CStr} {flags : List Flag} (ht : Cuts t flags) :
    Cuts (w.text ++ t) (.word w :: flags) := by
  obtain ⟨gap, htext, hgap⟩ := w.text_eq h
  rw [htext]
  exact .arm w gap hgap ht

theorem Cuts.spaces (n : Nat) {t : CStr} {flags : List Flag} (ht : Cuts t flags) :
    Cuts (List.replicate n ' ' ++ t) flags := by
  induction n with
  | zero => exact ht
  | succ n ih => exact .space ih

inductive Token where
  | known (w : Word) (h : w ≠ .OFF)
  | foreign (f : ForeignWord)

namespace Token

def flag : Token → Flag
  | known w _ => .word w
  | foreign _ => .OTHER

theorem flag_eq_word {token : Token} {w : Word} (h : token.flag = .word w) :
    ∃ hw, token = known w hw := by
  cases token with
  | known v hv =>
    obtain rfl : v = w := Flag.word.inj h
    exact ⟨hv, rfl⟩
  | foreign f => cases h

theorem flag_eq_other {token : Token} (h : token.flag = .OTHER) : ∃ f, token = foreign f := by
  cases token with
  | known v hv => cases h
  | foreign f => exact ⟨f, rfl⟩

/-- A token and the spaces after it: any number after a known word, at least one after
a foreign one. -/
def spaced : Token → Nat → CStr
  | known w _, n => w.text ++ List.replicate n ' '
  | foreign f, n => f.text ++ List.replicate (n + 1) ' '

/-- Tokens, each with the spaces after it, behind `lead` spaces. -/
def sentence (lead : Nat) (tokens : List (Token × Nat)) : CStr :=
  List.replicate lead ' ' ++ tokens.flatMap fun token => token.1.spaced token.2

theorem spaced_cuts (token : Token) (n : Nat) {t : CStr} {flags : List Flag} (ht : Cuts t flags) :
    Cuts (token.spaced n ++ t) (token.flag :: flags) := by
  cases token with
  | known w h =>
    rw [spaced, List.append_assoc]
    exact .word h (ht.spaces n)
  | foreign f =>
    rw [spaced, List.append_assoc]
    exact .foreign f (ht.spaces n)

theorem sentence_cuts (lead : Nat) (tokens : List (Token × Nat)) :
    Cuts (sentence lead tokens) (tokens.map fun token => token.1.flag) := by
  apply Cuts.spaces
  induction tokens with
  | nil => exact .nil
  | cons token rest ih => exact spaced_cuts token.1 token.2 ih

end Token

/-- **The scanner is exact on known and foreign words.** Whatever the words, their
order, their repetitions and the spaces around them, the scan ends at the NUL without
having left the string, the flag of each known word is raised iff the word occurs, that
of OFF is not, and OTHER is iff a foreign word occurs. -/
theorem scan_exact (lead : Nat) (tokens : List (Token × Nat)) :
    ∃ status, scanStatus (Token.sentence lead tokens) = .ok status ∧
      (∀ w (h : w ≠ .OFF), status.get (.word w) = true ↔ ∃ n, (Token.known w h, n) ∈ tokens) ∧
      status.OFF = false ∧
      (status.OTHER = true ↔ ∃ f n, (Token.foreign f, n) ∈ tokens) := by
  have hget (f : Flag) : (UpsStatus.raiseAll {} (tokens.map fun token => token.1.flag)).get f = true ↔
      ∃ token ∈ tokens, token.1.flag = f := by
    rw [UpsStatus.get_raiseAll_cleared, List.mem_map]
  refine ⟨_, scanFrom_cuts (Token.sentence_cuts lead tokens) {}, ?_, ?_, ?_⟩
  · intro w h
    rw [hget]
    constructor
    · intro hraised
      obtain ⟨⟨token, n⟩, hmem, hflag⟩ := hraised
      obtain ⟨hw, rfl⟩ := Token.flag_eq_word hflag
      exact ⟨n, hmem⟩
    · intro hoccurs
      obtain ⟨n, hmem⟩ := hoccurs
      exact ⟨_, hmem, rfl⟩
  · apply Bool.eq_false_iff.mpr
    intro hraised
    obtain ⟨token, -, hflag⟩ := (hget (.word .OFF)).mp hraised
    obtain ⟨hw, -⟩ := Token.flag_eq_word hflag
    exact hw rfl
  · apply (hget .OTHER).trans
    constructor
    · intro hraised
      obtain ⟨⟨token, n⟩, hmem, hflag⟩ := hraised
      obtain ⟨f, rfl⟩ := Token.flag_eq_other hflag
      exact ⟨f, n, hmem⟩
    · intro hoccurs
      obtain ⟨f, n, hmem⟩ := hoccurs
      exact ⟨_, hmem, rfl⟩

end UpsdPlugin
