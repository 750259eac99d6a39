import UpsdPlugin.Netdata.Handover
import UpsdPlugin.Netdata.Lines

/-! From the plugin to Netdata's parser.

The plugin's standard output is block-buffered, and flushed once a cycle. What has left the buffer
goes through a pipe, and Netdata cuts it into lines again. As long as the answers of upsd are free
of newlines, the parser is given the plugin's own lines, from the first on; and when everything in
the pipe has been read, all lines that were printed before a flush are among them, and all
lines when the buffer is empty, as it is after a normal exit (`printed_lines_arrive`). -/
namespace UpsdPlugin

variable {env : Env} {t : Nat}

/-! ### The standard output -/

/-- The lines the plugin has printed, each with its newline. -/
def written (trace : List Event) : List CStr := (printed trace).map fun l => l.2.text ++ ['\n']

theorem written_append (a b : List Event) : written (a ++ b) = written a ++ written b := by
  simp [written, printed]

/-- What has left the plugin, and what its buffer still holds. -/
structure Stdout where
  out : CStr := []
  held : CStr := []

namespace Stdout

/-- `printf` and `fflush`. A flush that does not report `EPIPE` has written everything. -/
def act (env : Env) (s : Stdout) (e : Event) : Stdout :=
  match e.action with
  | .print _ line => {s with held := s.held ++ (line.text ++ ['\n'])}
  | .flush => if env.epipe e.cycle then s else {out := s.out ++ s.held}
  | _ => s

/-- The standard output after a trace. Some of the buffer may be written at any time, in front of a
line that does not fit any more; the rest of it is written at a normal exit, and lost in a crash. -/
inductive After (env : Env) : List Event → Stdout → Prop where
  | start : After env [] {}
  | act {trace : List Event} {s : Stdout} (h : After env trace s) (e : Event) :
      After env (trace ++ [e]) (s.act env e)
  | spill {trace : List Event} {out front held : CStr} (h : After env trace ⟨out, front ++ held⟩) :
      After env trace ⟨out ++ front, held⟩

theorem act_written (env : Env) (s : Stdout) (e : Event) :
    (s.act env e).out ++ (s.act env e).held = s.out ++ s.held ++ (written [e]).flatten := by
  obtain ⟨n, a⟩ := e
  cases a with
  | print origin line =>
    have hline : written [⟨n, .print origin line⟩] = [line.text ++ ['\n']] := rfl
    simp [act, hline]
  | flush =>
    have hline : written [⟨n, .flush⟩] = [] := rfl
    simp only [act, hline]
    split <;> simp
  | _ => exact (List.append_nil _).symm

/-- Nothing is lost between `printf` and the pipe. -/
theorem After.written {trace : List Event} {s : Stdout} (h : After env trace s) :
    s.out ++ s.held = (written trace).flatten := by
  induction h with
  | start => rfl
  | act h e ih => rw [act_written, ih, written_append, List.flatten_append]
  | spill h ih => rw [← ih, List.append_assoc]

theorem act_out (env : Env) (s : Stdout) (e : Event) : s.out <+: (s.act env e).out := by
  unfold act
  split
  · exact List.prefix_refl _
  · split
    · exact List.prefix_refl _
    · exact List.prefix_append _ _
  · exact List.prefix_refl _

/-- What was printed before a flush has left the plugin. -/
theorem After.flushed {trace : List Event} {s : Stdout} (h : After env trace s) {pre post : List Event} {n : Nat}
    (hflush : trace = pre ++ ⟨n, .flush⟩ :: post) (hopen : env.epipe n = false) :
    (UpsdPlugin.written pre).flatten <+: s.out := by
  induction h generalizing post with
  | start => simp at hflush
  | act h e ih =>
    rcases List.eq_nil_or_concat post with rfl | ⟨post', e', rfl⟩
    · obtain ⟨rfl, heq⟩ := List.append_inj' hflush rfl
      obtain rfl := (List.cons.inj heq).1
      have hact : ∀ s : Stdout, s.act env ⟨n, .flush⟩ = {out := s.out ++ s.held} := by
        intro s
        simp [Stdout.act, hopen]
      rw [← h.written, hact]
    · rw [List.concat_eq_append, ← List.cons_append, ← List.append_assoc] at hflush
      exact (ih (List.append_inj_left' hflush rfl)).trans (act_out env _ e)
  | spill h ih => exact (ih hflush).trans (List.prefix_append _ _)

/-- The standard output when the buffer never gets full. -/
def run (env : Env) (trace : List Event) : Stdout := trace.foldl (Stdout.act env) {}

theorem after_run (env : Env) (trace : List Event) : After env trace (Stdout.run env trace) := by
  induction trace using List.reverseRecOn with
  | nil => exact .start
  | append_singleton trace e ih =>
    rw [Stdout.run, List.foldl_append]
    exact ih.act e

end Stdout

/-! ### Through the pipe -/

theorem written_isLine (henv : env.Unbroken) : ∀ l ∈ written (run env t).world.trace, IsLine l := by
  intro l hl
  obtain ⟨⟨origin, line⟩, hline, rfl⟩ := List.mem_map.mp hl
  exact ⟨line.text, (unbroken_iff.mp (printed_unbroken henv hline)).1, rfl⟩

theorem cString_of_not_mem {text : CStr} (h : nul ∉ text) : cString text = text := by
  refine List.takeWhile_eq_self_iff.mpr fun c hc => ?_
  exact decide_eq_true (ne_of_mem_of_not_mem hc h)

/-- The parser sees the whole lines, for they have no NUL. -/
theorem written_cString (henv : env.Unbroken) {handed : List CStr} (h : handed ⊆ written (run env t).world.trace) :
    handed.map cString = handed := by
  have hself : ∀ l ∈ handed, cString l = l := by
    intro l hl
    obtain ⟨⟨origin, line⟩, hline, rfl⟩ := List.mem_map.mp (h hl)
    have hnul := (unbroken_iff.mp (printed_unbroken henv hline)).2
    refine cString_of_not_mem fun hmem => ?_
    rcases List.mem_append.mp hmem with hmem | hmem
    · exact hnul hmem
    · exact absurd (List.mem_singleton.mp hmem) (by decide)
  exact (List.map_congr_left hself).trans (List.map_id handed)

theorem cut_written (henv : env.Unbroken) :
    Framing.cut '\n' (written (run env t).world.trace).flatten = (written (run env t).world.trace, []) := by
  have hcut := Framing.cut_lines (written_isLine henv (t := t)) []
  rwa [Framing.cut_open List.not_mem_nil, List.append_nil, List.append_nil] at hcut

/-- **Netdata's parser gets the lines the plugin prints.** When no answer of upsd holds a newline or
a NUL, then in every run, whatever has left the buffer by then and wherever the pipe cuts it, the
parser is given lines that were printed, each whole and in order, from the first on. When
everything in the pipe has been read, and unless the parser says stop, these are all that were
printed before a flush, and all that were printed if the buffer is empty. -/
theorem printed_lines_arrive (henv : env.Unbroken) (t : Nat) {s : Stdout}
    (hout : Stdout.After env (run env t).world.trace s) (netdata : PluginsdEnv) {σ : Type}
    (action : σ → CStr → Bool × σ) (parser : σ) :
    ∃ p handed, p = pluginsdProcess netdata action parser s.out ∧ handed <+: written (run env t).world.trace ∧
      Framing.feed action parser handed = (decide (p.ended = some .action), p.parser) ∧
      (p.ended ≠ some .action → p.pipe = [] → p.reader.unread = [] →
        (∀ pre n post, (run env t).world.trace = pre ++ ⟨n, .flush⟩ :: post → env.epipe n = false →
          written pre <+: handed) ∧
        (s.held = [] → handed = written (run env t).world.trace)) := by
  have hcut := cut_written henv (t := t)
  obtain ⟨read, handed, hpipe, hhanded, hfeed, hall⟩ := handed_lines netdata action parser s.out
  -- The lines of what was read come first among those of the whole output.
  have hprefix : (Framing.cut '\n' read).1 <+: written (run env t).world.trace := by
    have hlines := Framing.cut_append '\n' read ((pluginsdProcess netdata action parser s.out).pipe ++ s.held)
    rw [← List.append_assoc, ← hpipe, hout.written, hcut] at hlines
    exact hlines
  have hself := written_cString henv (hhanded.trans hprefix).subset
  rw [hself] at hfeed
  refine ⟨_, handed, rfl, hhanded.trans hprefix, hfeed, ?_⟩
  intro _ hempty hunread
  have hread : s.out = read := by
    rw [hpipe, hempty]
    exact List.append_nil read
  rw [hall hunread, ← hread]
  constructor
  · intro pre n post htrace hopen
    obtain ⟨rest, hrest⟩ := hout.flushed htrace hopen
    have hpre : ∀ l ∈ written pre, IsLine l := by
      intro l hl
      apply written_isLine henv (t := t)
      rw [htrace, written_append]
      exact List.mem_append_left _ hl
    rw [← hrest, Framing.cut_lines hpre]
    exact List.prefix_append _ _
  · intro hheld
    have hwhole := hout.written
    rw [hheld, List.append_nil] at hwhole
    rw [hwhole, hcut]

/-- A parser that keeps every line. -/
def keepLine (lines : List CStr) (line : CStr) : Bool × List CStr := (false, lines ++ [line])

theorem feed_keepLine (kept lines : List CStr) : Framing.feed keepLine kept lines = (false, kept ++ lines) := by
  induction lines generalizing kept with
  | nil => rw [List.append_nil]; rfl
  | cons line lines ih =>
    have hgo : keepLine kept line = (false, kept ++ [line]) := rfl
    rw [Framing.feed_cons_go hgo, ih]
    simp

/-- The first cycle of a UPS that answers nothing, read a hundred bytes at a time until the plugin
hangs up: every line arrives. -/
theorem silent_ups_arrives :
    (pluginsdProcess (readsUntil 99 45) keepLine []
      (Stdout.run (silentUps ["rack 1".toList]) (run (silentUps ["rack 1".toList]) 6).world.trace).out).ended =
        some (.reader (.poll .hup)) ∧
    (pluginsdProcess (readsUntil 99 45) keepLine []
      (Stdout.run (silentUps ["rack 1".toList]) (run (silentUps ["rack 1".toList]) 6).world.trace).out).parser =
        written (run (silentUps ["rack 1".toList]) 6).world.trace := by
  have hunbroken : (silentUps ["rack 1".toList]).Unbroken := by
    refine ⟨fun n u hu => ?_, fun k u var value hvalue => nomatch hvalue⟩
    rw [List.mem_singleton.mp hu]
    decide
  have hout := Stdout.after_run (silentUps ["rack 1".toList]) (run (silentUps ["rack 1".toList]) 6).world.trace
  have hheld : (Stdout.run (silentUps ["rack 1".toList]) (run (silentUps ["rack 1".toList]) 6).world.trace).held = [] := by
    decide +kernel
  have hended : (pluginsdProcess (readsUntil 99 45) keepLine []
      (Stdout.run (silentUps ["rack 1".toList]) (run (silentUps ["rack 1".toList]) 6).world.trace).out).ended =
        some (.reader (.poll .hup)) := by
    decide +kernel
  have hempty : (pluginsdProcess (readsUntil 99 45) keepLine []
      (Stdout.run (silentUps ["rack 1".toList]) (run (silentUps ["rack 1".toList]) 6).world.trace).out).pipe = [] := by
    decide +kernel
  have hunread : (pluginsdProcess (readsUntil 99 45) keepLine []
      (Stdout.run (silentUps ["rack 1".toList]) (run (silentUps ["rack 1".toList]) 6).world.trace).out).reader.unread =
        [] := by
    decide +kernel
  obtain ⟨p, handed, hp, -, hfeed, hall⟩ := printed_lines_arrive hunbroken 6 hout (readsUntil 99 45) keepLine []
  rw [← hp] at hended hempty hunread ⊢
  have hlines := (hall (by simp [hended]) hempty hunread).2 hheld
  rw [hlines, feed_keepLine, List.nil_append] at hfeed
  exact ⟨hended, (Prod.mk.inj hfeed).2.symm⟩

end UpsdPlugin
