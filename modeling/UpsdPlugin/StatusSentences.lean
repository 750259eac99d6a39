import UpsdPlugin.StatusWords

/-! Insertion laws of the status scanner: `OFF`.

The arm of `OFF` reads two of its three letters. The third is taken for the start of
`FSD`, whose arm jumps over the space after `OFF` and the first letter of the next word;
what is left of that word is then read as if it were a word (`misread`). Word by word
the scanner is thus a machine with one bit of state: whether the next word is swallowed
(`hears`, `complete`). -/
namespace UpsdPlugin

/-- The words of the vocabulary, as `upsd` sends them. -/
def spaced (ws : List Word) : CStr := joined (ws.map Word.text)

/-! ### Swallowed words -/

/-- What is raised by a word of the vocabulary without its first letter. -/
def misread : Word → List Flag
  | .OL => [.word .LB]
  | .CHRG => [.word .HB, .OTHER]
  | .TRIM => [.word .RB, .OTHER]
  | .OFF => [.word .FSD]
  | _ => [.OTHER]

theorem scanFrom_misread (y : Word) (t : CStr) (status : UpsStatus) :
    scanFrom (y.text.tail ++ ' ' :: t) status = scanFrom t (status.raiseAll (misread y)) := by
  have hforeign (s : CStr) (h : s ≠ [] ∧ ' ' ∉ s ∧ nul ∉ s ∧ Foreign s) (status : UpsStatus) :
      scanFrom (s ++ ' ' :: t) status = scanFrom t (status.raise .OTHER) :=
    ForeignWord.scanFrom_spaced ⟨s, h.1, h.2.1, h.2.2.1, h.2.2.2⟩ t status
  cases y
  case OL => exact scanFrom_arm .LB [' '] t status rfl
  case CHRG => exact (scanFrom_arm .HB ['R'] _ status rfl).trans (hforeign ['G'] (by decide) _)
  case TRIM => exact (scanFrom_arm .RB ['I'] _ status rfl).trans (hforeign ['M'] (by decide) _)
  case OFF => exact scanFrom_arm .FSD ['F', ' '] t status rfl
  all_goals exact hforeign _ (by decide) status

theorem scanFrom_tail_last (y : Word) (status : UpsStatus) :
    ∃ f, scanFrom y.text.tail status = .error f := by
  cases y <;> exact ⟨_, rfl⟩

/-! ### The scanner word by word -/

/-- What a word that is not swallowed raises. -/
def heard (w : Word) : List Flag :=
  if w = .OFF then [.word .OFF, .word .FSD] else [.word w]

/-- What is raised by words, the first of which is swallowed or not. -/
def hears : Bool → List Word → List Flag
  | _, [] => []
  | true, y :: rest => misread y ++ hears false rest
  | false, w :: rest => heard w ++ hears (w = .OFF) rest

/-- The scan comes to the end of the words: the last of them is not swallowed, and
is not a word that would swallow one more. -/
def complete : Bool → List Word → Bool
  | swallow, [] => !swallow
  | true, _ :: rest => !rest.isEmpty && complete false rest
  | false, w :: rest => complete (w = .OFF) rest

/-- Whether a word after these is swallowed. -/
def swallows : Bool → List Word → Bool
  | swallow, [] => swallow
  | true, _ :: rest => swallows false rest
  | false, w :: rest => swallows (w = .OFF) rest

/-- What follows a word, up to the end of the string. -/
def following : List Word → CStr
  | [] => []
  | w :: rest => ' ' :: spaced (w :: rest)

theorem spaced_cons (w : Word) (rest : List Word) : spaced (w :: rest) = w.text ++ following rest := by
  cases rest with
  | nil => simp [spaced, joined_singleton, following]
  | cons v rest => exact joined_cons_cons w.text v.text (rest.map Word.text)

theorem scanFrom_following (rest : List Word) (status : UpsStatus) :
    scanFrom (following rest) status = scanFrom (spaced rest) status := by
  cases rest with
  | nil => rfl
  | cons w rest => exact scanFrom_space _ status

/-- What the cursor has before it: the words, or the last letter of `OFF` and the words. -/
def ahead : Bool → List Word → CStr
  | false, ws => spaced ws
  | true, ws => 'F' :: following ws

theorem scanFrom_word {w : Word} (h : w ≠ .OFF) (t : CStr) (status : UpsStatus) :
    scanFrom (w.text ++ t) status = scanFrom t (status.raise (.word w)) := by
  obtain ⟨gap, htext, hgap⟩ := w.text_eq h
  rw [htext, scanFrom_arm w gap t status hgap]

theorem ahead_word {w : Word} (h : w ≠ .OFF) (rest : List Word) (status : UpsStatus) :
    scanFrom (ahead false (w :: rest)) status = scanFrom (ahead false rest) (status.raise (.word w)) := by
  rw [ahead, spaced_cons, scanFrom_word h, scanFrom_following, ahead]

theorem ahead_off (rest : List Word) (status : UpsStatus) :
    scanFrom (ahead false (.OFF :: rest)) status =
      scanFrom (ahead true rest) (status.raise (.word .OFF)) := by
  rw [ahead, spaced_cons]
  exact scanFrom_arm .OFF [] ('F' :: following rest) status rfl

/-- The arm of `FSD` takes the cursor behind the first letter of the next word. -/
theorem ahead_swallowed (y : Word) (rest : List Word) (status : UpsStatus) :
    scanFrom (ahead true (y :: rest)) status =
      scanFrom (y.text.tail ++ following rest) (status.raise (.word .FSD)) := by
  obtain ⟨c, hc⟩ : ∃ c, y.text = c :: y.text.tail := by cases y <;> exact ⟨_, rfl⟩
  have hahead : ahead true (y :: rest) = ['F'] ++ [' ', c] ++ (y.text.tail ++ following rest) := by
    rw [ahead, following, spaced_cons, hc]
    rfl
  rw [hahead]
  exact scanFrom_arm .FSD [' ', c] _ status rfl

theorem ahead_off_last (status : UpsStatus) : scanFrom (ahead true []) status = .error .outOfBounds := rfl

/-- **What the scanner makes of words of the vocabulary.** It comes to the end of the
string iff `complete` says so, and then the flags are those of `hears`. -/
theorem scanFrom_ahead (swallow : Bool) (ws : List Word) (status out : UpsStatus) :
    scanFrom (ahead swallow ws) status = .ok out ↔
      complete swallow ws = true ∧
        out = (if swallow then status.raise (.word .FSD) else status).raiseAll (hears swallow ws) := by
  induction ws generalizing swallow status with
  | nil =>
    cases swallow with
    | false => simp [ahead, spaced, joined, List.intercalate, scanFrom_nil, complete, hears, eq_comm]
    | true => simp [ahead_off_last, complete]
  | cons w rest ih =>
    cases swallow with
    | false =>
      by_cases hw : w = .OFF
      · rw [hw, ahead_off, ih]
        simp [complete, hears, heard]
      · rw [ahead_word hw, ih]
        simp [complete, hears, heard, hw]
    | true =>
      rw [ahead_swallowed]
      cases rest with
      | nil =>
        obtain ⟨f, hf⟩ := scanFrom_tail_last w (status.raise (.word .FSD))
        simp [following, hf, complete]
      | cons v rest =>
        have hrest := ih false ((status.raise (.word .FSD)).raiseAll (misread w))
        rw [following, scanFrom_misread]
        simpa [complete, hears, UpsStatus.raiseAll_append, ahead] using hrest

theorem scanStatus_spaced (ws : List Word) (out : UpsStatus) :
    scanStatus (spaced ws) = .ok out ↔
      complete false ws = true ∧ out = UpsStatus.raiseAll {} (hears false ws) :=
  scanFrom_ahead false ws {} out

/-! ### Words before and after -/

theorem hears_append (swallow : Bool) (a b : List Word) :
    hears swallow (a ++ b) = hears swallow a ++ hears (swallows swallow a) b := by
  induction a generalizing swallow with
  | nil => cases swallow <;> simp [hears, swallows]
  | cons w a ih => cases swallow <;> simp [hears, swallows, ih]

theorem complete_append (swallow : Bool) (a : List Word) {b : List Word} (hb : b ≠ []) :
    complete swallow (a ++ b) = complete (swallows swallow a) b := by
  induction a generalizing swallow with
  | nil => cases swallow <;> rfl
  | cons w a ih => cases swallow <;> simp [complete, swallows, ih, hb]

/-- A word is only ever swallowed after an `OFF` that was heard. -/
theorem off_of_swallows {swallow : Bool} {ws : List Word} (h : swallows swallow ws = true) :
    swallow = true ∨ .word .OFF ∈ hears swallow ws ∧ .word .FSD ∈ hears swallow ws := by
  induction ws generalizing swallow with
  | nil => exact Or.inl h
  | cons w ws ih =>
    cases swallow with
    | true => exact Or.inl rfl
    | false =>
      by_cases hw : w = .OFF
      · simp [hears, heard, hw]
      · simp only [swallows, hw, decide_false] at h
        have hmem := (ih h).resolve_left Bool.false_ne_true
        simp [hears, heard, hw, hmem]

/-- `OTHER` is only ever raised by a swallowed word. -/
theorem fsd_of_other {swallow : Bool} {ws : List Word} (h : .OTHER ∈ hears swallow ws) :
    swallow = true ∨ .word .FSD ∈ hears swallow ws := by
  induction ws generalizing swallow with
  | nil => simp [hears] at h
  | cons w ws ih =>
    cases swallow with
    | true => exact Or.inl rfl
    | false =>
      by_cases hw : w = .OFF
      · simp [hears, heard, hw]
      · have hother : .OTHER ∈ hears false ws := by simpa [hears, heard, hw] using h
        have hmem := (ih hother).resolve_left Bool.false_ne_true
        simp [hears, heard, hw, hmem]

theorem not_mem_misread {y : Word} (h : y ≠ .OFF) : .word y ∉ misread y ∧ .word .OFF ∉ misread y := by
  cases y <;> simp [misread] at h ⊢

/-! ### `OFF` among other words -/

/-- Scanning `xs, OFF, ys` gives the flags of `xs, ys`, and `OFF`. -/
def OffOnly (xs ys : List Word) : Prop :=
  ∃ status, scanStatus (spaced (xs ++ ys)) = .ok status ∧
    scanStatus (spaced (xs ++ .OFF :: ys)) = .ok {status with OFF := true}

theorem offOnly_iff_flags (xs ys : List Word) :
    OffOnly xs ys ↔ complete false (xs ++ ys) = true ∧ complete false (xs ++ .OFF :: ys) = true ∧
      ∀ f, f ∈ hears false (xs ++ .OFF :: ys) ↔ f ∈ hears false (xs ++ ys) ++ [.word .OFF] := by
  have hflags (flags : List Flag) : {UpsStatus.raiseAll {} flags with OFF := true} =
      UpsStatus.raiseAll {} (flags ++ [.word .OFF]) := by
    rw [UpsStatus.raiseAll_append]
    rfl
  unfold OffOnly
  simp only [scanStatus_spaced]
  constructor
  · intro h
    obtain ⟨status, ⟨hcomplete, rfl⟩, hoff, heq⟩ := h
    rw [hflags, eq_comm, UpsStatus.raiseAll_cleared_eq_iff] at heq
    exact ⟨hcomplete, hoff, heq⟩
  · intro h
    refine ⟨_, ⟨h.1, rfl⟩, h.2.1, ?_⟩
    rw [hflags, eq_comm, UpsStatus.raiseAll_cleared_eq_iff]
    exact h.2.2

section Elsewhere

variable {y : Word} {before after : List Flag}

/-- The word is heard in `before, y, after` and swallowed once `OFF` comes before it. -/
theorem same_flags_swallowed (hy : y ≠ .OFF)
    (hfsd : .OTHER ∈ before ++ after → .word .FSD ∈ before ++ after) :
    (∀ f, f ∈ before ++ ([.word .OFF, .word .FSD] ++ (misread y ++ after)) ↔
        f ∈ before ++ ([.word y] ++ after) ++ [.word .OFF]) ↔
      ∀ f ∈ .word y :: .word .FSD :: misread y, f ∈ before ++ after := by
  obtain ⟨hself, hoff⟩ := not_mem_misread hy
  constructor
  · intro h
    have hmisread : ∀ f ∈ misread y, f ∈ before ++ after := by
      intro f hf
      have hmem := (h f).mp (by simp [hf])
      have hne : f ≠ .word y ∧ f ≠ .word .OFF := by
        constructor <;> rintro rfl <;> contradiction
      simpa [hne] using hmem
    have hshutdown : .word .FSD ∈ before ++ after := by
      by_cases hyf : y = .FSD
      · rw [hyf] at hmisread
        exact hfsd (hmisread .OTHER (by simp [misread]))
      · simpa [Ne.symm hyf] using (h (.word .FSD)).mp (by simp)
    have hword : .word y ∈ before ++ after := by
      by_cases hyf : y = .FSD
      · rw [hyf]
        exact hshutdown
      · simpa [hy, hyf, hself] using (h (.word y)).mpr (by simp)
    exact List.forall_mem_cons.mpr ⟨hword, List.forall_mem_cons.mpr ⟨hshutdown, hmisread⟩⟩
  · intro h f
    grind

/-- The word is swallowed in `before, y, after` and heard once `OFF` comes before it. -/
theorem same_flags_heard (hy : y ≠ .OFF) (hbefore : .word .OFF ∈ before ∧ .word .FSD ∈ before) :
    (∀ f, f ∈ before ++ (misread .OFF ++ ([.word y] ++ after)) ↔
        f ∈ before ++ (misread y ++ after) ++ [.word .OFF]) ↔
      ∀ f ∈ .word y :: .word .FSD :: misread y, f ∈ before ++ after := by
  obtain ⟨hself, hoff⟩ := not_mem_misread hy
  constructor
  · intro h
    have hmisread : ∀ f ∈ misread y, f ∈ before ++ after := by
      intro f hf
      have hmem := (h f).mpr (by simp [hf])
      have hne : f ≠ .word y := by
        rintro rfl
        contradiction
      by_cases hfsd : f = .word .FSD
      · simp [hfsd, hbefore.2]
      · simpa [misread, hne, hfsd] using hmem
    have hword : .word y ∈ before ++ after := by
      simpa [hy, hself] using (h (.word y)).mp (by simp)
    have hshutdown : .word .FSD ∈ before ++ after := List.mem_append_left after hbefore.2
    exact List.forall_mem_cons.mpr ⟨hword, List.forall_mem_cons.mpr ⟨hshutdown, hmisread⟩⟩
  · intro h f
    have hfsd : f ∈ misread .OFF ↔ f = .word .FSD := by simp [misread]
    grind

end Elsewhere

/-- Before a word other than `OFF`: that word is swallowed, or is no longer, and all
that this adds or takes away is to be found elsewhere. -/
theorem offOnly_before (xs : List Word) {y : Word} (hy : y ≠ .OFF) (zs : List Word) :
    OffOnly xs (y :: zs) ↔ zs ≠ [] ∧ complete false zs = true ∧
      ∀ f ∈ .word y :: .word .FSD :: misread y, f ∈ hears false xs ++ hears false zs := by
  rw [offOnly_iff_flags, complete_append _ _ (List.cons_ne_nil _ _),
    complete_append _ _ (List.cons_ne_nil _ _), hears_append, hears_append]
  cases hswallows : swallows false xs with
  | false =>
    have hfsd : .OTHER ∈ hears false xs ++ hears false zs →
        .word .FSD ∈ hears false xs ++ hears false zs := by
      intro h
      rw [List.mem_append] at h ⊢
      exact h.imp (fun hx => (fsd_of_other hx).resolve_left Bool.false_ne_true)
        (fun hz => (fsd_of_other hz).resolve_left Bool.false_ne_true)
    simp only [complete, hears, heard, hy, if_false, if_true, decide_false, decide_true]
    rw [same_flags_swallowed hy hfsd]
    cases zs <;> simp
  | true =>
    have hxs := (off_of_swallows hswallows).resolve_left Bool.false_ne_true
    simp only [complete, hears, heard, hy, if_false, decide_false]
    rw [same_flags_heard hy hxs]
    cases zs <;> simp

theorem not_offOnly_nil (xs : List Word) : ¬ OffOnly xs [] := by
  intro h
  have hcomplete := ((offOnly_iff_flags xs []).mp h).2.1
  rw [complete_append _ _ (List.cons_ne_nil _ _)] at hcomplete
  cases hswallows : swallows false xs <;> simp [hswallows, complete] at hcomplete

/-- Where in a run of `OFF`s one more is put makes no difference. -/
theorem offOnly_run (xs : List Word) (k : Nat) (ys : List Word) :
    OffOnly xs (List.replicate k .OFF ++ ys) ↔ OffOnly (xs ++ List.replicate k .OFF) ys := by
  have hlast : xs ++ .OFF :: (List.replicate k .OFF ++ ys) =
      xs ++ List.replicate k .OFF ++ .OFF :: ys := by
    rw [← List.cons_append, ← List.replicate_succ, List.replicate_succ']
    simp
  unfold OffOnly
  rw [hlast, List.append_assoc xs _ ys]

theorem off_run (ys : List Word) :
    ∃ k rest, ys = List.replicate k .OFF ++ rest ∧ ∀ y zs, rest = y :: zs → y ≠ .OFF := by
  induction ys with
  | nil => exact ⟨0, [], rfl, by simp⟩
  | cons w ys ih =>
    by_cases hw : w = .OFF
    · obtain ⟨k, rest, hys, hrest⟩ := ih
      exact ⟨k + 1, rest, by rw [hw, hys, List.replicate_succ, List.cons_append], hrest⟩
    · refine ⟨0, w :: ys, rfl, ?_⟩
      intro y zs heq
      obtain ⟨rfl, -⟩ := List.cons.inj heq
      exact hw

/-- **Where `OFF` only means off.** The word `y` that follows it, after any number of
further `OFF`s, must not be the last one, the words after `y` must be read to their end,
and `y`, `FSD` and whatever the rest of `y` is misread as must all be reported anyway,
for the other words. -/
theorem off_only_iff (xs ys : List Word) :
    OffOnly xs ys ↔ ∃ k y zs, ys = List.replicate k .OFF ++ y :: zs ∧ y ≠ .OFF ∧ zs ≠ [] ∧
      complete false zs = true ∧
      ∀ f ∈ .word y :: .word .FSD :: misread y,
        f ∈ hears false (xs ++ List.replicate k .OFF) ++ hears false zs := by
  constructor
  · intro h
    obtain ⟨k, rest, rfl, hrest⟩ := off_run ys
    rw [offOnly_run] at h
    cases rest with
    | nil => exact absurd h (not_offOnly_nil _)
    | cons y zs =>
      have hy : y ≠ .OFF := hrest y zs rfl
      exact ⟨k, y, zs, rfl, hy, (offOnly_before _ hy zs).mp h⟩
  · intro h
    obtain ⟨k, y, zs, rfl, hy, hzs⟩ := h
    rw [offOnly_run, offOnly_before _ hy]
    exact hzs

/-- `FSD` and `LB` are reported, and `OL` is not. -/
theorem off_reported_as_shutdown :
    scanStatus (spaced [.OL, .CHRG]) = .ok {OL := true, CHRG := true} ∧
      scanStatus (spaced [.OFF, .OL, .CHRG]) =
        .ok {OFF := true, FSD := true, LB := true, CHRG := true} := ⟨rfl, rfl⟩

end UpsdPlugin
