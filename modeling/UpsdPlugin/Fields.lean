import UpsdPlugin.Splitter

/-! Lines of fields.

A field is a word of a line, in quotes or not. From a line of readable fields the splitter
gets their texts. -/
namespace UpsdPlugin

/-- A word of a line, in quotes or not. -/
structure Field where
  quote : Option Char
  text : CStr

namespace Field

def encode (f : Field) : CStr := f.quote.toList ++ f.text ++ f.quote.toList

/-- The splitter takes the field's first character for the start of a word: a quote, or
one that is neither a quote nor a separator. -/
def Opens : Field → Prop
  | ⟨none, text⟩ => ∃ c ∈ text.head?, c ≠ '\'' ∧ c ≠ '"' ∧ isspacePluginsd c = false
  | ⟨some q, _⟩ => q = '\'' ∨ q = '"'

/-- The splitter reads the field as its text. -/
structure Readable (f : Field) : Prop where
  opens : f.Opens
  passes : Splitter.passes (Splitter.stops isspacePluginsd f.quote) f.text = true
  no_nul : nul ∉ f.text

end Field

namespace Splitter

abbrev reader : Loop Splitter := loop isspacePluginsd pluginsdMaxWords

section Fields

variable (p rest : CStr) (ws : List Nat) {f g : Field}

theorem skipSpace_eq {seps : CStr} (hseps : ∀ c ∈ seps, isspacePluginsd c = true)
    (hrest : ∀ c ∈ rest.head?, isspacePluginsd c = false) :
    skipSpace isspacePluginsd ⟨p, seps ++ rest, none, ws, false⟩ =
      ⟨p ++ seps, rest, none, ws, false⟩ := by
  have htake : rest.takeWhile isspacePluginsd = [] := by
    cases rest with
    | nil => rfl
    | cons c rest => simp [hrest c rfl]
  have hdrop : rest.dropWhile isspacePluginsd = rest := by
    cases rest with
    | nil => rfl
    | cons c rest => simp [hrest c rfl]
  simp [skipSpace, List.takeWhile_append_of_pos hseps, List.dropWhile_append_of_pos hseps, htake, hdrop]

theorem opens_quoted {q : Char} {text : CStr} (h : Field.Opens ⟨some q, text⟩) :
    isspacePluginsd q = false ∧ q ≠ '\\' := by
  cases h with
  | inl hq => rw [hq]; decide
  | inr hq => rw [hq]; decide

theorem head_encode (hf : f.Opens) : ∀ c ∈ (f.encode ++ rest).head?, isspacePluginsd c = false := by
  obtain ⟨quote, text⟩ := f
  cases quote with
  | none =>
    obtain ⟨c, hc, -, -, hsep⟩ := hf
    cases text with
    | nil => simp at hc
    | cons d text => simp_all [Field.encode]
  | some q => simpa [Field.encode] using (opens_quoted hf).1

theorem openQuote_encode (hf : f.Opens) :
    openQuote ⟨p, f.encode ++ rest, none, ws, false⟩ =
      ⟨p ++ f.quote.toList, f.text ++ f.quote.toList ++ rest, f.quote, ws, false⟩ := by
  obtain ⟨quote, text⟩ := f
  cases quote with
  | none =>
    obtain ⟨c, hc, hsingle, hdouble, -⟩ := hf
    cases text with
    | nil => simp at hc
    | cons d text => simp_all [openQuote, Field.encode]
  | some q => simp [openQuote, Field.encode, show q = '\'' ∨ q = '"' from hf]

theorem text_ne_nil (hf : f.Opens) : f.text ++ f.quote.toList ++ rest ≠ [] := by
  obtain ⟨quote, text⟩ := f
  cases quote with
  | none =>
    obtain ⟨c, hc, -⟩ := hf
    cases text with
    | nil => simp at hc
    | cons d text => simp
  | some q => simp

/-- The cursor goes to the text of the next field. -/
theorem nextWord_field (hg : g.Opens) {seps : CStr} (hseps : ∀ c ∈ seps, isspacePluginsd c = true)
    (hws : ws.length < pluginsdMaxWords) :
    ∃ p', p ++ [nul] <+: p' ∧
      nextWord isspacePluginsd pluginsdMaxWords ⟨p, [], none, ws, false⟩ (seps ++ (g.encode ++ rest)) =
        ⟨p', g.text ++ g.quote.toList ++ rest, g.quote, ws ++ [p'.length], false⟩ := by
  refine ⟨p ++ [nul] ++ seps ++ g.quote.toList, by simp, ?_⟩
  simp only [nextWord, skipSpace_eq (p ++ [nul]) _ ws hseps (head_encode rest hg),
    openQuote_encode _ rest ws hg, if_neg (text_ne_nil rest hg), if_pos hws, store]

/-- At the end of the line, the splitter stops. -/
theorem nextWord_end {seps : CStr} (hseps : ∀ c ∈ seps, isspacePluginsd c = true) :
    nextWord isspacePluginsd pluginsdMaxWords ⟨p, [], none, ws, false⟩ seps =
      ⟨p ++ [nul] ++ seps, [], none, ws, true⟩ := by
  have hskip := skipSpace_eq (p ++ [nul]) [] ws hseps (by simp)
  rw [List.append_nil] at hskip
  simp [nextWord, hskip, openQuote]

/-- At the end of a field, the word is ended and the cursor goes on. -/
theorem run_field (hf : f.Readable) {c : Char} (hc : isspacePluginsd c = true) :
    ∃ seps, (∀ d ∈ seps, isspacePluginsd d = true) ∧
      reader.run ⟨p, f.text ++ f.quote.toList ++ c :: rest, f.quote, ws, false⟩ =
        reader.run (nextWord isspacePluginsd pluginsdMaxWords ⟨p ++ f.text, [], none, ws, false⟩
          (seps ++ rest)) := by
  have hback : c ≠ '\\' := by
    rintro rfl
    cases hc
  obtain ⟨quote, text⟩ := f
  have hpasses := hf.passes
  cases quote with
  | none =>
    refine ⟨[], by simp, ?_⟩
    rw [reader, List.append_assoc, run_passes text hpasses, Option.toList_none, List.nil_append,
      run_separator hback hc, List.nil_append]
  | some q =>
    refine ⟨[c], by simpa using hc, ?_⟩
    rw [reader, List.append_assoc, run_passes text hpasses, Option.toList_some, List.singleton_append,
      run_close (opens_quoted hf.opens).2, run_separator (by decide) rfl, List.singleton_append]

theorem run_next (hf : f.Readable) (hg : g.Opens) (hws : ws.length < pluginsdMaxWords) :
    ∃ p', p ++ f.text ++ [nul] <+: p' ∧
      reader.run ⟨p, f.text ++ f.quote.toList ++ ' ' :: (g.encode ++ rest), f.quote, ws, false⟩ =
        reader.run ⟨p', g.text ++ g.quote.toList ++ rest, g.quote, ws ++ [p'.length], false⟩ := by
  obtain ⟨seps, hseps, hfield⟩ := run_field p (g.encode ++ rest) ws hf (c := ' ') rfl
  obtain ⟨p', hp', hnext⟩ := nextWord_field (p ++ f.text) rest ws hg hseps hws
  exact ⟨p', hp', by rw [hfield, hnext]⟩

/-- The fields after the first, each behind a space, and the newline. -/
def fieldsAfter (gs : List Field) : CStr := (gs.flatMap fun g => ' ' :: g.encode) ++ ['\n']

theorem fieldsAfter_cons (g : Field) (gs : List Field) :
    fieldsAfter (g :: gs) = ' ' :: (g.encode ++ fieldsAfter gs) := by
  simp [fieldsAfter]

/-- From the text of a field on, the splitter reads that field and those after it. -/
theorem run_fields (hf : f.Readable) (gs : List Field) (hgs : ∀ g ∈ gs, g.Readable)
    (hlen : ws.length + 1 + gs.length ≤ pluginsdMaxWords) {st : Splitter}
    (hst : st = reader.run
      ⟨p, f.text ++ f.quote.toList ++ fieldsAfter gs, f.quote, ws ++ [p.length], false⟩) :
    ∃ offsets, st.words = ws ++ offsets ∧ offsets.map st.wordAt = (f :: gs).map Field.text := by
  induction gs generalizing p ws f with
  | nil =>
    obtain ⟨seps, hseps, hfield⟩ := run_field p [] (ws ++ [p.length]) hf (c := '\n') rfl
    rw [List.append_nil, nextWord_end _ _ hseps] at hfield
    have hend := hst.trans hfield
    have hword : st.wordAt p.length = f.text := by
      rw [hend]
      exact wordAt_run_ended hf.no_nul (List.prefix_append _ _)
    refine ⟨[p.length], ?_, by simp [hword]⟩
    rw [hend, Loop.run_done rfl]
  | cons g gs ih =>
    obtain ⟨hg, hgs⟩ := List.forall_mem_cons.mp hgs
    have hlen' : (ws ++ [p.length]).length + 1 + gs.length ≤ pluginsdMaxWords := by
      simp only [List.length_append, List.length_cons, List.length_nil] at hlen ⊢
      omega
    obtain ⟨p', hp', hnext⟩ :=
      run_next p (fieldsAfter gs) (ws ++ [p.length]) hf hg.opens (by omega)
    rw [fieldsAfter_cons] at hst
    have hat := hst.trans hnext
    have hword : st.wordAt p.length = f.text := by
      rw [hat]
      exact wordAt_run_ended hf.no_nul hp'
    obtain ⟨offsets, hwords, htexts⟩ := ih p' (ws ++ [p.length]) hg hgs hlen' hat
    refine ⟨p.length :: offsets, by simpa using hwords, ?_⟩
    rw [List.map_cons, hword, htexts]
    rfl

/-- The first word of a line. -/
theorem splitter_start (hf : f.Opens) :
    quotedStringsSplitter isspacePluginsd pluginsdMaxWords (f.encode ++ rest) =
      (reader.run ⟨f.quote.toList, f.text ++ f.quote.toList ++ rest, f.quote,
        [f.quote.toList.length], false⟩).texts := by
  have hseps : ∀ c ∈ ([] : CStr), isspacePluginsd c = true := List.forall_mem_nil _
  have hskip := skipSpace_eq [] (f.encode ++ rest) [] hseps (head_encode rest hf)
  have hne : f.encode ++ rest ≠ [] := by
    intro hnil
    apply text_ne_nil rest hf
    simp_all [Field.encode]
  simp only [List.nil_append, List.append_nil] at hskip
  simp only [quotedStringsSplitter, hskip, if_neg hne, openQuote_encode [] rest [] hf, store,
    List.nil_append]

/-- Over readable fields, the cursor comes to the text of the field after them. -/
theorem run_to (hf : f.Readable) (fs : List Field) (hfs : ∀ h ∈ fs, h.Readable) (hg : g.Opens)
    (gs : List Field) (hlen : ws.length + 1 + fs.length < pluginsdMaxWords) :
    ∃ p' ws', ws'.length = ws.length + 1 + fs.length ∧
      reader.run ⟨p, f.text ++ f.quote.toList ++ fieldsAfter (fs ++ g :: gs), f.quote,
          ws ++ [p.length], false⟩ =
        reader.run ⟨p', g.text ++ g.quote.toList ++ fieldsAfter gs, g.quote,
          ws' ++ [p'.length], false⟩ := by
  induction fs generalizing p ws f with
  | nil =>
    have hws : (ws ++ [p.length]).length < pluginsdMaxWords := by simpa using hlen
    obtain ⟨p', -, hnext⟩ := run_next p (fieldsAfter gs) (ws ++ [p.length]) hf hg hws
    refine ⟨p', ws ++ [p.length], by simp, ?_⟩
    rw [List.nil_append, fieldsAfter_cons, hnext]
  | cons h fs ih =>
    obtain ⟨hh, hfs⟩ := List.forall_mem_cons.mp hfs
    have hlen' : (ws ++ [p.length]).length + 1 + fs.length < pluginsdMaxWords := by
      simp only [List.length_append, List.length_cons, List.length_nil] at hlen ⊢
      omega
    obtain ⟨p', -, hnext⟩ :=
      run_next p (fieldsAfter (fs ++ g :: gs)) (ws ++ [p.length]) hf hh.opens (by omega)
    obtain ⟨p'', ws', hws', hto⟩ := ih p' (ws ++ [p.length]) hh hfs hlen'
    refine ⟨p'', ws', ?_, ?_⟩
    · simp only [List.length_append, List.length_cons, List.length_nil] at hws' ⊢
      omega
    · rw [List.cons_append, fieldsAfter_cons, hnext, hto]

/-- A quoted text that the cursor cannot move over is read as another: its part up to
the quote in it, or more than the text, as its last backslash hides the closing quote. -/
theorem wordAt_unreadable {q : Char} {v : CStr} (hq : q = '\'' ∨ q = '"') (hnul : nul ∉ v)
    (hv : passes (stops isspacePluginsd (some q)) v = false) :
    (reader.run ⟨p, v ++ q :: rest, some q, ws, false⟩).wordAt p.length ≠ v := by
  have hquote : q ≠ '\\' ∧ q ≠ nul := by
    cases hq with
    | inl hq => rw [hq]; decide
    | inr hq => rw [hq]; decide
  obtain ⟨a, ha, hstop | hlone⟩ := not_passes hv
  · obtain ⟨c, b, rfl, hc, hstop⟩ := hstop
    obtain rfl : c = q := by simpa [stops] using hstop
    have hend : reader.run ⟨p, a ++ c :: b ++ c :: rest, some c, ws, false⟩ =
        reader.run (nextWord isspacePluginsd pluginsdMaxWords ⟨p ++ a, [], none, ws, false⟩
          (b ++ c :: rest)) := by
      rw [List.append_assoc, run_passes a ha, List.cons_append, run_close hc,
        run_separator (by decide) rfl]
    have hkeeps := (nextWord_keeps isspacePluginsd pluginsdMaxWords ⟨p ++ a, [], none, ws, false⟩
      (b ++ c :: rest)).1
    rw [hend, wordAt_run_ended (fun hmem => hnul (List.mem_append_left _ hmem)) hkeeps]
    intro heq
    simpa using congrArg List.length heq
  · have hend : reader.run ⟨p, v ++ q :: rest, some q, ws, false⟩ =
        reader.run ⟨p ++ a ++ ['\\', q], rest, some q, ws, false⟩ := by
      rw [hlone, List.append_assoc, run_passes a ha, List.singleton_append, run_escape]
    have hword : nul ∉ a ++ ['\\', q] := by
      rw [hlone] at hnul
      simp only [List.mem_append, List.mem_cons, List.not_mem_nil, or_false, not_or] at hnul ⊢
      exact ⟨hnul.1, hnul.2, hquote.2.symm⟩
    have hlonger : a ++ ['\\', q] <+:
        (reader.run ⟨p ++ a ++ ['\\', q], rest, some q, ws, false⟩).wordAt p.length :=
      wordAt_run hword (by simp)
    intro heq
    rw [← hend, heq, hlone] at hlonger
    simpa using hlonger.length_le

theorem joined_fields (f : Field) (gs : List Field) :
    joined ((f :: gs).map Field.encode) ++ ['\n'] = f.encode ++ fieldsAfter gs := by
  induction gs generalizing f with
  | nil => simp [joined_singleton, fieldsAfter]
  | cons g gs ih =>
    have hrest := ih g
    simp only [List.map_cons] at hrest ⊢
    rw [joined_cons_cons, List.append_assoc, List.cons_append, hrest, fieldsAfter_cons]

end Fields

end Splitter

/-- **A line of readable fields is split into their texts.** -/
theorem splitLine_fields (f : Field) (gs : List Field) (h : ∀ g ∈ f :: gs, g.Readable)
    (hlen : gs.length < pluginsdMaxWords) :
    splitLine (joined ((f :: gs).map Field.encode)) = (f :: gs).map Field.text := by
  obtain ⟨hf, hgs⟩ := List.forall_mem_cons.mp h
  obtain ⟨offsets, hwords, htexts⟩ := Splitter.run_fields f.quote.toList [] hf gs hgs
    (by simp only [List.length_nil]; omega) rfl
  simp only [List.nil_append] at hwords htexts
  rw [splitLine, Splitter.joined_fields, Splitter.splitter_start _ hf.opens, Splitter.texts, hwords]
  exact htexts

/-- The word at the place of a quoted text that cannot be read is not that text. -/
theorem splitLine_unreadable (f : Field) (fs gs : List Field) (hfs : ∀ h ∈ f :: fs, h.Readable)
    (hlen : fs.length + 1 < pluginsdMaxWords) {q : Char} (hq : q = '\'' ∨ q = '"') {v : CStr}
    (hnul : nul ∉ v) (hv : Splitter.passes (Splitter.stops isspacePluginsd (some q)) v = false) :
    (splitLine (joined ((f :: (fs ++ ⟨some q, v⟩ :: gs)).map Field.encode)))[fs.length + 1]? ≠ some v := by
  obtain ⟨hf, hfs⟩ := List.forall_mem_cons.mp hfs
  have hg : Field.Opens ⟨some q, v⟩ := hq
  obtain ⟨p, ws, hws, hto⟩ := Splitter.run_to f.quote.toList [] hf fs hfs hg gs
    (by simp only [List.length_nil]; omega)
  have hword := Splitter.wordAt_unreadable p (Splitter.fieldsAfter gs) (ws ++ [p.length]) hq hnul hv
  obtain ⟨more, hmore⟩ := (Splitter.run_keeps isspacePluginsd pluginsdMaxWords
    ⟨p, v ++ [q] ++ Splitter.fieldsAfter gs, some q, ws ++ [p.length], false⟩).2
  simp only [List.nil_append, Option.toList_some, List.append_assoc, List.singleton_append]
    at hto hword hmore
  have hplace : fs.length + 1 = ws.length := by
    simp only [List.length_nil] at hws
    omega
  rw [splitLine, Splitter.joined_fields, Splitter.splitter_start _ hf.opens, List.append_assoc, hto,
    Splitter.texts, ← hmore, hplace]
  simpa using hword

end UpsdPlugin
