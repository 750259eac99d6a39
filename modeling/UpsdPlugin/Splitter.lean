import UpsdPlugin.Lib.Loop
import UpsdPlugin.Status

/-! Netdata's `quoted_strings_splitter`, which reads the plugin's lines.

The splitter walks a cursor over the line and rewrites it in place: a closing quote
becomes a space, and the separator that ends a word becomes a NUL. A word is a pointer
into the line. The cursor is between two lists here, the characters it has passed, as
they are now, and those still ahead; a pointer is an offset, and the words are what the
rewritten line holds from there up to a NUL. -/
namespace UpsdPlugin

/-- `isspace_map_pluginsd` -/
def isspacePluginsd (c : Char) : Bool :=
  c = ' ' || c = '\t' || c = '\r' || c = '\n' || c = '\x0c' || c = '\x0b' || c = '='

/-- `PLUGINSD_MAX_WORDS` -/
def pluginsdMaxWords : Nat := 30

structure Splitter where
  passed : CStr
  ahead : CStr
  quote : Option Char := none
  words : List Nat := []
  /-- Left by a `break`. -/
  stopped : Bool := false
  deriving DecidableEq

namespace Splitter

/-- `while(isspace_map[*s]) s++;` -/
def skipSpace (isspace : Char → Bool) (st : Splitter) : Splitter :=
  {st with
    passed := st.passed ++ st.ahead.takeWhile isspace
    ahead := st.ahead.dropWhile isspace}

/-- `if (*s == '\'' || *s == '"') { quote = *s; s++; }` -/
def openQuote (st : Splitter) : Splitter :=
  match st.ahead with
  | [] => st
  | c :: rest =>
    if c = '\'' ∨ c = '"' then {st with passed := st.passed ++ [c], ahead := rest, quote := some c}
    else st

/-- `words[i++] = s;` -/
def store (st : Splitter) : Splitter :=
  {st with words := st.words ++ [st.passed.length]}

/-- `*s++ = '\0';` and what follows it up to the next word. -/
def nextWord (isspace : Char → Bool) (maxWords : Nat) (st : Splitter) (rest : CStr) : Splitter :=
  let st := openQuote (skipSpace isspace {st with passed := st.passed ++ [nul], ahead := rest})
  if st.ahead = [] then {st with stopped := true}
  else if st.words.length < maxWords then store st
  else {st with stopped := true}

/-- An iteration of `while (*s)`. -/
def step (isspace : Char → Bool) (maxWords : Nat) (st : Splitter) : Option Splitter :=
  if st.stopped then none
  else
    match st.ahead with
    | [] => none
    | c :: rest =>
      if c = '\\' ∧ rest ≠ [] then
        some {st with passed := st.passed ++ c :: rest.take 1, ahead := rest.drop 1}
      else if st.quote = some c then
        some {st with quote := none, ahead := ' ' :: rest}
      else if st.quote = none ∧ isspace c then
        some (nextWord isspace maxWords st rest)
      else
        some {st with passed := st.passed ++ [c], ahead := rest}

/-- A closing quote is looked at twice, every other character once. -/
def left (st : Splitter) : Nat := 2 * st.ahead.length + st.quote.isSome.toNat

variable (isspace : Char → Bool) (maxWords : Nat)

theorem left_openQuote (st : Splitter) (h : st.quote = none) : (openQuote st).left ≤ st.left := by
  unfold openQuote
  split
  case h_1 => exact Nat.le_refl _
  case h_2 c rest hahead =>
    split
    · simp only [left, hahead, h, List.length_cons, Option.isSome_some, Bool.toNat_true]
      omega
    · exact Nat.le_refl _

theorem left_skipSpace (st : Splitter) : (skipSpace isspace st).left ≤ st.left := by
  have hlen : (st.ahead.dropWhile isspace).length ≤ st.ahead.length :=
    (List.dropWhile_sublist _).length_le
  simp only [left, skipSpace]
  omega

theorem left_nextWord (st : Splitter) (h : st.quote = none) (rest : CStr) :
    (nextWord isspace maxWords st rest).left ≤ 2 * rest.length := by
  have hskip := left_skipSpace isspace {st with passed := st.passed ++ [nul], ahead := rest}
  have hopen := left_openQuote
    (skipSpace isspace {st with passed := st.passed ++ [nul], ahead := rest}) h
  have hrest : left {st with passed := st.passed ++ [nul], ahead := rest} = 2 * rest.length := by
    simp [left, h]
  have hsame : (nextWord isspace maxWords st rest).left =
      (openQuote (skipSpace isspace {st with passed := st.passed ++ [nul], ahead := rest})).left := by
    unfold nextWord
    dsimp only
    split
    · rfl
    · split <;> rfl
  omega

/-- What an iteration does with the character at the cursor. -/
theorem step_cases {st st' : Splitter} (h : step isspace maxWords st = some st') :
    ∃ c rest, st.ahead = c :: rest ∧
      ((rest ≠ [] ∧ st' = {st with passed := st.passed ++ c :: rest.take 1, ahead := rest.drop 1}) ∨
        (st.quote = some c ∧ st' = {st with quote := none, ahead := ' ' :: rest}) ∨
        (st.quote = none ∧ st' = nextWord isspace maxWords st rest) ∨
        st' = {st with passed := st.passed ++ [c], ahead := rest}) := by
  unfold step at h
  split at h
  · cases h
  · split at h
    case h_1 => cases h
    case h_2 c rest hahead =>
      refine ⟨c, rest, hahead, ?_⟩
      split at h
      next hescape => exact Or.inl ⟨hescape.2, (Option.some.inj h).symm⟩
      next =>
        split at h
        next hquote => exact Or.inr (Or.inl ⟨hquote, (Option.some.inj h).symm⟩)
        next =>
          split at h
          next hspace => exact Or.inr (Or.inr (Or.inl ⟨hspace.1, (Option.some.inj h).symm⟩))
          next => exact Or.inr (Or.inr (Or.inr (Option.some.inj h).symm))

theorem left_step {st st' : Splitter} (h : step isspace maxWords st = some st') : st'.left < st.left := by
  obtain ⟨c, rest, hahead, hescape | hclose | hspace | hother⟩ := step_cases isspace maxWords h
  · obtain ⟨hrest, rfl⟩ := hescape
    simp only [left, hahead, List.length_drop, List.length_cons]
    omega
  · obtain ⟨hquote, rfl⟩ := hclose
    simp [left, hahead, hquote]
  · obtain ⟨hquote, rfl⟩ := hspace
    have hnext := left_nextWord isspace maxWords st hquote rest
    simp only [left, hahead, List.length_cons] at hnext ⊢
    omega
  · rw [hother]
    simp [left, hahead]

def loop (isspace : Char → Bool) (maxWords : Nat) : Loop Splitter where
  step := step isspace maxWords
  measure := left
  decreases := left_step isspace maxWords

/-- The C string at an offset of the rewritten line. -/
def wordAt (st : Splitter) (offset : Nat) : CStr :=
  ((st.passed ++ st.ahead).drop offset).takeWhile (· ≠ nul)

def texts (st : Splitter) : List CStr := st.words.map st.wordAt

end Splitter

def quotedStringsSplitter (isspace : Char → Bool) (maxWords : Nat) (str : CStr) : List CStr :=
  let st := Splitter.skipSpace isspace {passed := [], ahead := str}
  if st.ahead = [] then []
  else ((Splitter.loop isspace maxWords).run st.openQuote.store).texts

/-- How Netdata reads a line, which ends with a newline. -/
def splitLine (line : CStr) : List CStr :=
  quotedStringsSplitter isspacePluginsd pluginsdMaxWords (line ++ ['\n'])

/-! ### One iteration -/

namespace Splitter

section Iterations

variable {isspace : Char → Bool} {maxWords : Nat} {p rest : CStr} {ws : List Nat}

/-- What ends a word: the quote that opened it, or a separator. -/
def stops (isspace : Char → Bool) : Option Char → Char → Bool
  | none, c => isspace c
  | some q, c => c = q

theorem run_escape (c : Char) (quote : Option Char) :
    (loop isspace maxWords).run ⟨p, '\\' :: c :: rest, quote, ws, false⟩ =
      (loop isspace maxWords).run ⟨p ++ ['\\', c], rest, quote, ws, false⟩ :=
  Loop.run_step (by simp [loop, step])

theorem run_char {c : Char} {quote : Option Char} (hc : c ≠ '\\') (h : stops isspace quote c = false) :
    (loop isspace maxWords).run ⟨p, c :: rest, quote, ws, false⟩ =
      (loop isspace maxWords).run ⟨p ++ [c], rest, quote, ws, false⟩ := by
  apply Loop.run_step
  cases quote with
  | none => simp_all [loop, step, stops]
  | some q =>
    have hq : q ≠ c := by simpa [stops, eq_comm] using h
    simp [loop, step, hc, hq]

/-- A closing quote becomes a space. -/
theorem run_close {q : Char} (hq : q ≠ '\\') :
    (loop isspace maxWords).run ⟨p, q :: rest, some q, ws, false⟩ =
      (loop isspace maxWords).run ⟨p, ' ' :: rest, none, ws, false⟩ :=
  Loop.run_step (by simp [loop, step, hq])

theorem run_separator {c : Char} (hc : c ≠ '\\') (h : isspace c = true) :
    (loop isspace maxWords).run ⟨p, c :: rest, none, ws, false⟩ =
      (loop isspace maxWords).run (nextWord isspace maxWords ⟨p, [], none, ws, false⟩ rest) :=
  Loop.run_step (by simp [loop, step, hc, h, nextWord])

/-- The cursor moves over `w` within one word: nothing in it stops the word, except
behind a backslash, and it does not end with a backslash that would take the next
character with it. -/
def passes (stop : Char → Bool) : CStr → Bool
  | [] => true
  | '\\' :: _ :: rest => passes stop rest
  | ['\\'] => false
  | c :: rest => !stop c && passes stop rest

theorem passes_cons {stop : Char → Bool} {c : Char} (hc : c ≠ '\\') (w : CStr) :
    passes stop (c :: w) = (!stop c && passes stop w) := by
  rw [passes]
  · exact fun _ _ h => absurd h hc
  · exact fun h => absurd h hc

/-- A string is empty, begins with an escaped character, is a lone backslash, or begins
with another character. -/
theorem passes_cases {P : CStr → Prop} (nil : P []) (escape : ∀ c w, P w → P ('\\' :: c :: w))
    (lone : P ['\\']) (char : ∀ c w, c ≠ '\\' → P w → P (c :: w)) (w : CStr) : P w := by
  induction w using passes.induct with
  | case1 => exact nil
  | case2 c w ih => exact escape c w ih
  | case3 => exact lone
  | case4 c w hpair hlone ih =>
    apply char c w _ ih
    intro hc
    cases w with
    | nil => exact hlone hc rfl
    | cons d w => exact hpair d w hc rfl

theorem run_passes (w : CStr) {quote : Option Char} (h : passes (stops isspace quote) w = true) :
    (loop isspace maxWords).run ⟨p, w ++ rest, quote, ws, false⟩ =
      (loop isspace maxWords).run ⟨p ++ w, rest, quote, ws, false⟩ := by
  induction w using passes_cases generalizing p with
  | nil => simp
  | escape c w ih =>
    rw [List.cons_append, List.cons_append, run_escape, ih h]
    simp
  | lone => simp [passes] at h
  | char c w hc ih =>
    rw [passes_cons hc, Bool.and_eq_true, Bool.not_eq_true'] at h
    rw [List.cons_append, run_char hc h.1, ih h.2]
    simp

/-- Where the cursor cannot move over a string within a word: at an unescaped
character that stops it, or at a backslash in the end. -/
theorem not_passes {stop : Char → Bool} {w : CStr} (h : passes stop w = false) :
    ∃ a, passes stop a = true ∧
      ((∃ c b, w = a ++ c :: b ∧ c ≠ '\\' ∧ stop c = true) ∨ w = a ++ ['\\']) := by
  induction w using passes_cases with
  | nil => simp [passes] at h
  | escape c w ih =>
    obtain ⟨a, ha, hw⟩ := ih h
    refine ⟨'\\' :: c :: a, ha, hw.imp ?_ ?_⟩
    · intro hstop
      obtain ⟨d, b, rfl, hd⟩ := hstop
      exact ⟨d, b, rfl, hd⟩
    · intro hlast
      rw [hlast]
      rfl
  | lone => exact ⟨[], rfl, Or.inr rfl⟩
  | char c w hc ih =>
    cases hstop : stop c with
    | true => exact ⟨[], rfl, Or.inl ⟨c, w, rfl, hc, hstop⟩⟩
    | false =>
      rw [passes_cons hc, hstop, Bool.not_false, Bool.true_and] at h
      obtain ⟨a, ha, hw⟩ := ih h
      refine ⟨c :: a, by rw [passes_cons hc, hstop, ha]; rfl, hw.imp ?_ ?_⟩
      · intro hstops
        obtain ⟨d, b, rfl, hd⟩ := hstops
        exact ⟨d, b, rfl, hd⟩
      · intro hlast
        rw [hlast]
        rfl

theorem passes_of_forall {stop : Char → Bool} {w : CStr} (h : ∀ c ∈ w, c ≠ '\\' ∧ stop c = false) :
    passes stop w = true := by
  induction w with
  | nil => rfl
  | cons c w ih =>
    obtain ⟨hc, hw⟩ := List.forall_mem_cons.mp h
    simp [passes_cons hc.1, hc.2, ih hw]

/-- Backslashes do no harm before a character that is none. -/
theorem passes_append {stop : Char → Bool} {a b : CStr} (ha : ∀ c ∈ a, stop c = false)
    (hb : ∀ c ∈ b, c ≠ '\\' ∧ stop c = false) (hne : b ≠ []) : passes stop (a ++ b) = true := by
  induction a using passes_cases with
  | nil => exact passes_of_forall hb
  | escape c a ih => exact ih fun d hd => ha d (by simp [hd])
  | lone =>
    obtain ⟨c, b, rfl⟩ := List.exists_cons_of_ne_nil hne
    show passes stop b = true
    exact passes_of_forall (List.forall_mem_cons.mp hb).2
  | char c a hc ih =>
    obtain ⟨hstop, ha⟩ := List.forall_mem_cons.mp ha
    rw [List.cons_append, passes_cons hc, hstop, ih ha]
    rfl

/-! ### What is behind the cursor stays -/

theorem openQuote_keeps (st : Splitter) :
    st.passed <+: st.openQuote.passed ∧ st.openQuote.words = st.words := by
  unfold openQuote
  split
  case h_1 => exact ⟨List.prefix_rfl, rfl⟩
  case h_2 =>
    split
    · exact ⟨List.prefix_append _ _, rfl⟩
    · exact ⟨List.prefix_rfl, rfl⟩

theorem nextWord_keeps (isspace : Char → Bool) (maxWords : Nat) (st : Splitter) (rest : CStr) :
    st.passed ++ [nul] <+: (nextWord isspace maxWords st rest).passed ∧
      st.words <+: (nextWord isspace maxWords st rest).words := by
  have hopen := openQuote_keeps (skipSpace isspace {st with passed := st.passed ++ [nul], ahead := rest})
  have hpassed : st.passed ++ [nul] <+:
      (openQuote (skipSpace isspace {st with passed := st.passed ++ [nul], ahead := rest})).passed :=
    (List.prefix_append _ _).trans hopen.1
  unfold nextWord
  dsimp only
  split
  · exact ⟨hpassed, by rw [hopen.2]; exact List.prefix_rfl⟩
  · split
    · exact ⟨hpassed, by rw [store, hopen.2]; exact List.prefix_append _ _⟩
    · exact ⟨hpassed, by rw [hopen.2]; exact List.prefix_rfl⟩

theorem run_keeps (isspace : Char → Bool) (maxWords : Nat) (st : Splitter) :
    st.passed <+: ((loop isspace maxWords).run st).passed ∧
      st.words <+: ((loop isspace maxWords).run st).words := by
  refine Loop.run_invariant (l := loop isspace maxWords)
    (P := fun s : Splitter => st.passed <+: s.passed ∧ st.words <+: s.words) ?_
    ⟨List.prefix_rfl, List.prefix_rfl⟩
  intro s s' hstep hs
  obtain ⟨c, tail, hahead, hescape | hclose | hspace | hother⟩ := step_cases isspace maxWords hstep
  · rw [hescape.2]
    exact ⟨hs.1.trans (List.prefix_append _ _), hs.2⟩
  · rw [hclose.2]
    exact hs
  · have hnext := nextWord_keeps isspace maxWords s tail
    rw [hspace.2]
    exact ⟨hs.1.trans ((List.prefix_append _ _).trans hnext.1), hs.2.trans hnext.2⟩
  · rw [hother]
    exact ⟨hs.1.trans (List.prefix_append _ _), hs.2⟩

theorem takeWhile_word {w : CStr} (hw : nul ∉ w) (t : CStr) :
    (w ++ t).takeWhile (· ≠ nul) = w ++ t.takeWhile (· ≠ nul) := by
  apply List.takeWhile_append_of_pos
  intro c hc
  simpa using ne_of_mem_of_not_mem hc hw

/-- What the cursor has passed of a word stays. -/
theorem wordAt_run {st : Splitter} {w : CStr} (hw : nul ∉ w) (h : p ++ w <+: st.passed) :
    w <+: ((loop isspace maxWords).run st).wordAt p.length := by
  obtain ⟨more, hmore⟩ := h.trans (run_keeps isspace maxWords st).1
  rw [wordAt, ← hmore, List.append_assoc, List.append_assoc, List.drop_left, takeWhile_word hw]
  exact List.prefix_append _ _

/-- A word that has been ended is never touched again. -/
theorem wordAt_run_ended {st : Splitter} {w : CStr} (hw : nul ∉ w) (h : p ++ w ++ [nul] <+: st.passed) :
    ((loop isspace maxWords).run st).wordAt p.length = w := by
  obtain ⟨more, hmore⟩ := h.trans (run_keeps isspace maxWords st).1
  rw [wordAt, ← hmore, List.append_assoc, List.append_assoc, List.append_assoc, List.drop_left,
    takeWhile_word hw]
  simp

end Iterations

end Splitter

end UpsdPlugin
