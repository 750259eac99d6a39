import UpsdPlugin.StatusSentences

/-! Insertion laws of the status scanner: words it does not know.

Without `OFF` the scanner reads its own words as they are. A word put among them raises `OTHER` and
changes nothing else exactly when no arm starts it and another word follows (`other_only_iff`). -/
namespace UpsdPlugin

/-! ### Words without `OFF` -/

theorem complete_plain {ws : List Word} (h : .OFF ∉ ws) : complete false ws = true := by
  induction ws with
  | nil => rfl
  | cons w ws ih =>
    obtain ⟨hw, hws⟩ := not_or.mp (List.mem_cons.not.mp h)
    simp [complete, Ne.symm hw, ih hws]

theorem hears_plain {ws : List Word} (h : .OFF ∉ ws) : hears false ws = ws.map .word := by
  induction ws with
  | nil => rfl
  | cons w ws ih =>
    obtain ⟨hw, hws⟩ := not_or.mp (List.mem_cons.not.mp h)
    simp [hears, heard, Ne.symm hw, ih hws]

/-- In a status without another `OFF`, it only means off before an `OL`, and only if
`OL`, `LB` and `FSD` are all there besides. -/
theorem offOnly_plain {xs ys : List Word} (hxs : .OFF ∉ xs) (hys : .OFF ∉ ys) :
    OffOnly xs ys ↔ ∃ zs, ys = .OL :: zs ∧ zs ≠ [] ∧
      .OL ∈ xs ++ zs ∧ .FSD ∈ xs ++ zs ∧ .LB ∈ xs ++ zs := by
  cases ys with
  | nil => simp [not_offOnly_nil]
  | cons y zs =>
    obtain ⟨hy, hzs⟩ := not_or.mp (List.mem_cons.not.mp hys)
    rw [offOnly_before xs (Ne.symm hy) zs, hears_plain hxs, hears_plain hzs, ← List.map_append]
    constructor
    · intro h
      have hother : .OTHER ∉ misread y := by
        intro hmem
        simpa using h.2.2 .OTHER (by simp [hmem])
      have hol : y = .OL := by cases y <;> simp [misread] at hy hother ⊢
      rw [hol] at h ⊢
      simpa [misread, complete_plain hzs] using h
    · intro h
      obtain ⟨zs', heq, h⟩ := h
      obtain ⟨rfl, rfl⟩ := List.cons.inj heq
      simpa [misread, complete_plain hzs] using h

/-! ### Words the scanner does not know -/

/-- Scanning `xs, w, ys` gives the flags of `xs, ys`, and `OTHER`. -/
def OtherOnly (xs : List Word) (w : CStr) (ys : List Word) : Prop :=
  ∃ status, scanStatus (spaced (xs ++ ys)) = .ok status ∧
    scanStatus (joined (xs.map Word.text ++ w :: ys.map Word.text)) = .ok {status with OTHER := true}

theorem scanFrom_plain {ws : List Word} (h : .OFF ∉ ws) (status : UpsStatus) :
    scanFrom (spaced ws) status = .ok (status.raiseAll (ws.map .word)) := by
  apply (scanFrom_ahead false ws status _).mpr
  exact ⟨complete_plain h, by rw [hears_plain h]; rfl⟩

/-- Words of the vocabulary before others. -/
theorem scanFrom_joined {xs : List Word} (h : .OFF ∉ xs) {words : List CStr} (hwords : words ≠ [])
    (status : UpsStatus) :
    scanFrom (joined (xs.map Word.text ++ words)) status =
      scanFrom (joined words) (status.raiseAll (xs.map .word)) := by
  induction xs generalizing status with
  | nil => rfl
  | cons x xs ih =>
    obtain ⟨hx, hxs⟩ := not_or.mp (List.mem_cons.not.mp h)
    obtain ⟨s, rest, hrest⟩ := List.exists_cons_of_ne_nil
      (List.append_ne_nil_of_right_ne_nil (xs.map Word.text) hwords)
    have hih := ih hxs (status.raise (.word x))
    rw [hrest] at hih
    rw [List.map_cons, List.cons_append, hrest, joined_cons_cons, scanFrom_word (Ne.symm hx),
      scanFrom_space, hih]
    rfl

theorem otherOnly_of_foreign (f : ForeignWord) {xs ys : List Word} (hxs : .OFF ∉ xs)
    (hys : .OFF ∉ ys) (hne : ys ≠ []) : OtherOnly xs f.text ys := by
  obtain ⟨y, rest, rfl⟩ := List.exists_cons_of_ne_nil hne
  have hboth : .OFF ∉ xs ++ y :: rest := by
    rw [List.mem_append]
    exact not_or.mpr ⟨hxs, hys⟩
  refine ⟨_, scanFrom_plain hboth {}, ?_⟩
  rw [scanStatus_eq, scanFrom_joined hxs (List.cons_ne_nil _ _), List.map_cons, joined_cons_cons,
    f.scanFrom_spaced]
  have hsame : UpsStatus.raiseAll {} (xs.map .word ++ .OTHER :: (y :: rest).map .word) =
      UpsStatus.raiseAll {} ((xs ++ y :: rest).map .word ++ [.OTHER]) := by
    rw [UpsStatus.raiseAll_cleared_eq_iff]
    grind
  rw [UpsStatus.raiseAll_append, UpsStatus.raiseAll_append] at hsame
  exact (scanFrom_plain hys _).trans (congrArg Except.ok hsame)

/-- Only a word with a space after it raises `OTHER`. -/
theorem Cuts.no_other {s : CStr} {flags : List Flag} (h : Cuts s flags) (hs : ' ' ∉ s) :
    .OTHER ∉ flags := by
  induction h with
  | nil => simp
  | space => simp at hs
  | arm w gap hgap ht ih => simpa using ih (fun hmem => hs (List.mem_append_right _ hmem))
  | foreign f ht ih => simp at hs

theorem not_otherOnly_last {w : CStr} (hspace : ' ' ∉ w) (hnul : nul ∉ w) : ¬ OtherOnly [] w [] := by
  intro h
  obtain ⟨status, -, hscan⟩ := h
  simp only [List.map_nil, List.nil_append, joined_singleton] at hscan
  obtain ⟨flags, hflags⟩ := cuts_of_scanFrom hnul hscan
  rw [scanStatus_eq, scanFrom_cuts hflags] at hscan
  have hother : (UpsStatus.raiseAll {} flags).get .OTHER = true := by
    rw [Except.ok.inj hscan]
    rfl
  exact hflags.no_other hspace ((UpsStatus.get_raiseAll_cleared _ _).mp hother)

/-- An arm's letters raise its flag, and no flag is ever cleared. -/
theorem scanFrom_letters {v : Word} {t : CStr} (ht : nul ∉ t) {status out : UpsStatus}
    (h : scanFrom (v.letters ++ t) status = .ok out) : out.get (.word v) = true := by
  by_cases hlen : t.length < v.skip
  · rw [scanFrom_arm_short v t status hlen] at h
    cases h
  · rw [scanFrom_arm_drop v t status (by omega)] at h
    obtain ⟨flags, hflags⟩ := cuts_of_scanFrom (fun hmem => ht (List.mem_of_mem_drop hmem)) h
    rw [scanFrom_cuts hflags] at h
    rw [← Except.ok.inj h, UpsStatus.get_raiseAll, UpsStatus.get_raise]
    simp

theorem not_otherOnly_letters {v : Word} {w : CStr} (hv : v.letters <+: w) (hnul : nul ∉ w)
    {y : Word} (hy : y ≠ v) (hoff : y ≠ .OFF) : ¬ OtherOnly [] w [y] := by
  intro h
  obtain ⟨status, hplain, hscan⟩ := h
  obtain ⟨t, rfl⟩ := hv
  have hstatus : status = UpsStatus.raiseAll {} [.word y] := by
    rw [scanStatus_eq, List.nil_append, scanFrom_plain (by simpa using Ne.symm hoff)] at hplain
    exact (Except.ok.inj hplain).symm
  have hjoined : joined ([].map Word.text ++ (v.letters ++ t) :: [y].map Word.text) =
      v.letters ++ (t ++ ' ' :: y.text) := by
    simp [joined_cons_cons, joined_singleton]
  rw [hjoined] at hscan
  have hrest : nul ∉ t ++ ' ' :: y.text := by
    have hspace : nul ≠ ' ' := by decide
    have hy : nul ∉ y.text := by cases y <;> decide
    simp_all
  have hraised := scanFrom_letters hrest hscan
  rw [hstatus] at hraised
  have hmem : .word v ∈ [.word y, Flag.OTHER] := (UpsStatus.get_raiseAll_cleared _ _).mp hraised
  simp [Ne.symm hy] at hmem

/-- **Unknown words that only raise `OTHER`.** Whatever vocabulary words other than `OFF`
stand around it, scanning a word adds `OTHER` and nothing else exactly when no arm's
letters begin it and another word follows. -/
theorem other_only_iff (w : CStr) (hne : w ≠ []) (hspace : ' ' ∉ w) (hnul : nul ∉ w) (last : Bool) :
    (∀ xs ys : List Word, .OFF ∉ xs → .OFF ∉ ys → (ys = [] ↔ last = true) → OtherOnly xs w ys) ↔
      Foreign w ∧ last = false := by
  constructor
  · intro h
    have hlast : last = false := by
      apply Bool.eq_false_iff.mpr
      intro hlast
      exact not_otherOnly_last hspace hnul (h [] [] (by simp) (by simp) (by simp [hlast]))
    refine ⟨?_, hlast⟩
    intro v hv
    -- A neighbour whose flag is not the one that the arm raises.
    obtain ⟨y, hy, hoff⟩ : ∃ y : Word, y ≠ v ∧ y ≠ .OFF := by
      by_cases hol : v = .OL
      · exact ⟨.OB, by simp [hol], by decide⟩
      · exact ⟨.OL, Ne.symm hol, by decide⟩
    exact not_otherOnly_letters hv hnul hy hoff
      (h [] [y] (by simp) (by simpa using Ne.symm hoff) (by simp [hlast]))
  · intro h xs ys hxs hys hlast
    apply otherOnly_of_foreign ⟨w, hne, hspace, hnul, h.1⟩ hxs hys
    intro hnil
    rw [hlast.mp hnil] at h
    exact Bool.noConfusion h.2

theorem alarm_only_other :
    ("ALARM".toList ≠ [] ∧ ' ' ∉ "ALARM".toList ∧ nul ∉ "ALARM".toList) ∧
      ∀ xs ys : List Word, .OFF ∉ xs → .OFF ∉ ys → (ys = [] ↔ false = true) →
        OtherOnly xs "ALARM".toList ys :=
  ⟨by decide, (other_only_iff "ALARM".toList (by decide) (by decide) (by decide) false).mpr
    ⟨by decide, rfl⟩⟩

/-- A word at the end, and a word that shares its first letter with `TRIM`. -/
theorem unknown_word_misread :
    scanStatus (joined ["OL".toList, "ALARM".toList]) = .error .nullCursor ∧
      scanStatus (joined ["TEST".toList, "OL".toList]) = .ok {TRIM := true, OL := true} := ⟨rfl, rfl⟩

end UpsdPlugin
