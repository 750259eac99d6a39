import UpsdPlugin.Netdata.Process

/-! What Netdata's reading loop hands to the parser.

What is handed over are the complete lines of what has been read, in order; the loop is left only
for a reason that lies outside of it, and no copy runs out of space (`lines_handed_over`). Once
everything has been read, it does not matter where the reads have cut it (`reads_cut_anywhere`). -/
namespace UpsdPlugin

/-- The text ends with its one newline. -/
def IsLine (text : CStr) : Prop := ∃ body, '\n' ∉ body ∧ text = body ++ ['\n']

namespace Process
variable {σ : Type} {env : PluginsdEnv} {action : σ → CStr → Bool × σ} {p p' : Process σ} {parser : σ} {pipe : CStr}

/-- The line that has not been completed. -/
def pending (p : Process σ) : CStr := if p.ended = some .action then [] else p.buffer.text

/-- The loop was left for a reason outside of it: the parser, the service, the end of the pipe, or
the wait or read of the last round. -/
def Reason (env : PluginsdEnv) (p : Process σ) : Ending → Prop
  | .action => True
  | .service => env.running p.rounds = false
  | .reader (.poll error) => env.poll (p.rounds - 1) = .fails error
  | .reader .failed => p.pipe = [] ∨ env.poll (p.rounds - 1) = .unreadable
  | .reader .bufferFull => False
  | .reader .ok => False

/-- Of all that was written, some lines have been handed over, and the rest is still there. -/
structure Fed (env : PluginsdEnv) (action : σ → CStr → Bool × σ) (parser : σ) (pipe : CStr) (p : Process σ) :
    Prop where
  fits : p.buffer.Fits
  bounded : p.reader.readBuffer.length ≤ pluginsdLineMax
  pending : '\n' ∉ p.pending
  lines : ∃ lines : List CStr, (∀ l ∈ lines, IsLine l) ∧
    pipe = lines.flatten ++ (p.pending ++ (p.reader.unread ++ p.pipe)) ∧
    Framing.feed action parser (lines.map cString) = (decide (p.ended = some .action), p.parser)
  running : ∀ k < p.rounds, env.running k = true
  reason : ∀ why, p.ended = some why → p.Reason env why
  copied : ∀ ret, p.ended = some (.reader ret) → p.reader.unread = []

theorem Fed.start (env : PluginsdEnv) (action : σ → CStr → Bool × σ) (parser : σ) (pipe : CStr) :
    Fed env action parser pipe {parser, pipe} where
  fits := Nat.zero_le _
  bounded := Nat.zero_le _
  pending := List.not_mem_nil
  lines := ⟨[], by simp, by simp [Process.pending, BufferedReader.unread], rfl⟩
  running k hk := absurd hk (Nat.not_lt_zero k)
  reason why hwhy := by cases hwhy
  copied ret hret := by cases hret

theorem pending_running (h : p.ended ≠ some .action) : p.pending = p.buffer.text := if_neg h

theorem Fed.running_round (h : Fed env action parser pipe p) (hrunning : env.running p.rounds = true) :
    ∀ k < p.rounds + 1, env.running k = true := by
  intro k hk
  rcases Nat.lt_succ_iff_lt_or_eq.mp hk with hlt | rfl
  · exact h.running k hlt
  · exact hrunning

/-- A round that hands nothing over, and only moves text on. -/
theorem Fed.idle {q : Process σ} (h : Fed env action parser pipe p) (hruns : p.ended = none)
    (hparser : q.parser = p.parser) (hfits : q.buffer.Fits) (hbounded : q.reader.readBuffer.length ≤ pluginsdLineMax)
    (hopen : '\n' ∉ q.buffer.text)
    (hstream : p.buffer.text ++ (p.reader.unread ++ p.pipe) = q.buffer.text ++ (q.reader.unread ++ q.pipe))
    (hrunning : ∀ k < q.rounds, env.running k = true) (hended : q.ended ≠ some .action)
    (hreason : ∀ why, q.ended = some why → q.Reason env why)
    (hcopied : ∀ ret, q.ended = some (.reader ret) → q.reader.unread = []) : Fed env action parser pipe q := by
  obtain ⟨lines, hlines, hpipe, hfeed⟩ := h.lines
  have hold : p.pending = p.buffer.text := pending_running (by simp [hruns])
  have hnew : q.pending = q.buffer.text := pending_running hended
  refine ⟨hfits, hbounded, by rwa [hnew], ⟨lines, hlines, ?_, ?_⟩, hrunning, hreason, hcopied⟩
  · rw [hpipe, hold, hnew, hstream]
  · rw [hfeed, hruns, hparser]
    simp [hended]

theorem Fed.service (h : Fed env action parser pipe p) (hruns : p.ended = none)
    (hstopped : env.running p.rounds = false) : Fed env action parser pipe {p with ended := some .service} := by
  have hopen := h.pending
  rw [pending_running (by simp [hruns])] at hopen
  refine h.idle hruns rfl h.fits h.bounded hopen rfl h.running (by simp) ?_ ?_
  · intro why hwhy
    cases hwhy
    exact hstopped
  · intro ret hret
    cases hret

theorem Fed.wait {buffer : LineBuffer} (h : Fed env action parser pipe p) (hruns : p.ended = none)
    (hrunning : env.running p.rounds = true) (htext : buffer.text = p.buffer.text ++ p.reader.unread)
    (hfits : buffer.Fits) (hopen : '\n' ∉ p.reader.unread) :
    Fed env action parser pipe (wait (env.poll p.rounds) {p with rounds := p.rounds + 1, reader := {}, buffer}) := by
  have hpending : '\n' ∉ buffer.text := by
    have hold := h.pending
    rw [pending_running (by simp [hruns])] at hold
    rw [htext, List.mem_append]
    exact not_or.mpr ⟨hold, hopen⟩
  rcases wait_cases (env.poll p.rounds) {p with rounds := p.rounds + 1, reader := {}, buffer} rfl with
    ⟨ret, hok, hfull, hfailed, herror, heq⟩ | ⟨bytes, rest, -, hlength, hrest, heq⟩
  · rw [heq]
    refine h.idle hruns rfl hfits (Nat.zero_le _) hpending ?_ (h.running_round hrunning) (by simp) ?_ fun _ _ => rfl
    · simp [htext, BufferedReader.unread]
    · intro why hwhy
      cases hwhy
      cases ret with
      | ok => exact hok rfl
      | bufferFull => exact hfull rfl
      | failed => exact hfailed rfl
      | poll error => exact herror error rfl
  · rw [heq]
    have hpipe : p.pipe = bytes ++ rest := hrest
    refine h.idle hruns rfl hfits hlength hpending ?_ (h.running_round hrunning) (by simp) ?_ ?_
    · -- The text is what there was before, wherever the read has cut it.
      simp [htext, hpipe, BufferedReader.unread]
    · intro why hwhy
      cases hwhy
    · intro ret hret
      cases hret

/-- A round that hands a line over. -/
theorem Fed.handed {q : Process σ} {line : CStr} (h : Fed env action parser pipe p) (hruns : p.ended = none)
    (hline : IsLine line) (hact : action p.parser (cString line) = (decide (q.ended = some .action), q.parser))
    (hpending : q.pending = []) (hfits : q.buffer.Fits) (hbounded : q.reader.readBuffer.length ≤ pluginsdLineMax)
    (hstream : p.buffer.text ++ (p.reader.unread ++ p.pipe) = line ++ (q.reader.unread ++ q.pipe))
    (hrunning : ∀ k < q.rounds, env.running k = true) (hended : ∀ why, q.ended = some why → why = .action) :
    Fed env action parser pipe q := by
  obtain ⟨lines, hlines, hpipe, hfeed⟩ := h.lines
  have hold : p.pending = p.buffer.text := pending_running (by simp [hruns])
  have hgoes : Framing.feed action parser (lines.map cString) = (false, p.parser) := by
    rw [hfeed, hruns]
    rfl
  refine ⟨hfits, hbounded, by simp [hpending], ⟨lines ++ [line], ?_, ?_, ?_⟩, hrunning, ?_, ?_⟩
  · exact List.forall_mem_append.mpr ⟨hlines, List.forall_mem_singleton.mpr hline⟩
  · rw [hpipe, hold, hstream, hpending]
    simp
  · rw [List.map_append, Framing.feed_append, hgoes]
    exact (Framing.feed_singleton ..).trans hact
  · intro why hwhy
    rw [hended why hwhy]
    trivial
  · intro ret hret
    cases hended _ hret

/-- A completed line is handed over whole. -/
theorem Fed.handle {reader : BufferedReader} {buffer : LineBuffer} {body rest : CStr}
    (h : Fed env action parser pipe p) (hruns : p.ended = none) (hrunning : env.running p.rounds = true)
    (hbody : '\n' ∉ body) (hunread : p.reader.unread = body ++ '\n' :: rest) (hrest : reader.unread = rest)
    (hread : reader.readBuffer = p.reader.readBuffer) (htext : buffer.text = p.buffer.text ++ (body ++ ['\n']))
    (hfits : buffer.Fits) :
    Fed env action parser pipe (handle action {p with rounds := p.rounds + 1, reader, buffer}) := by
  have hbounded : reader.readBuffer.length ≤ pluginsdLineMax := by
    rw [hread]
    exact h.bounded
  have hline : IsLine buffer.text := by
    refine ⟨p.buffer.text ++ body, ?_, by rw [htext, List.append_assoc]⟩
    have hopen := h.pending
    rw [pending_running (by simp [hruns])] at hopen
    rw [List.mem_append]
    exact not_or.mpr ⟨hopen, hbody⟩
  have hstream : p.buffer.text ++ (p.reader.unread ++ p.pipe) = buffer.text ++ (reader.unread ++ p.pipe) := by
    rw [htext, hunread, hrest]
    simp
  unfold Process.handle
  rcases hact : action p.parser (cString buffer.text) with ⟨stop, parser'⟩
  cases stop with
  | true =>
    refine h.handed hruns hline (by simpa using hact) (if_pos rfl) hfits hbounded hstream (h.running_round hrunning) ?_
    intro why hwhy
    cases hwhy
    rfl
  | false =>
    have hgoes : action p.parser (cString buffer.text) = (decide (p.ended = some .action), parser') := by
      rw [hact, hruns]
      rfl
    refine h.handed hruns hline hgoes (pending_running (by simp [hruns])) (Nat.zero_le _) hbounded hstream
      (h.running_round hrunning) ?_
    intro why hwhy
    exact absurd (hruns.symm.trans hwhy) (by simp)

theorem Fed.step (h : Fed env action parser pipe p) (hs : step env action p = some p') :
    Fed env action parser pipe p' := by
  obtain ⟨hruns, hround⟩ := step_cases hs
  rcases hround with ⟨hstopped, rfl⟩ | ⟨reader, buffer, hnext, -, hrunning, rfl⟩ | ⟨buffer, hnext, hrunning, rfl⟩
  · exact h.service hruns hstopped
  · rcases Framing.stream_cases '\n' p.reader.unread with hopen | ⟨body, rest, hbody, hunread⟩
    · obtain ⟨buffer', hnext', -⟩ := BufferedReader.nextLine_open h.fits hopen
      rw [hnext] at hnext'
      cases hnext'
    · obtain ⟨reader', buffer', hnext', hrest, hread, htext, hfits⟩ :=
        BufferedReader.nextLine_found h.fits hbody hunread
      rw [hnext] at hnext'
      cases hnext'
      exact h.handle hruns hrunning hbody hunread hrest hread htext hfits
  · rcases Framing.stream_cases '\n' p.reader.unread with hopen | ⟨body, rest, hbody, hunread⟩
    · obtain ⟨buffer', hnext', htext, hfits⟩ := BufferedReader.nextLine_open h.fits hopen
      rw [hnext] at hnext'
      cases hnext'
      exact h.wait hruns hrunning htext hfits hopen
    · obtain ⟨reader', buffer', hnext', -⟩ := BufferedReader.nextLine_found h.fits hbody hunread
      rw [hnext] at hnext'
      cases hnext'

/-- There is space for the next copy: for all that is unread, in the buffer as
`buffer_need_bytes` leaves it, and for the NUL. What is unread fits the fixed buffer. -/
def Roomy (p : Process σ) : Prop :=
  p.reader.readBuffer.length ≤ pluginsdLineMax ∧
    p.reader.unread.length ≤ (p.buffer.needBytes (p.reader.readBuffer.length - p.reader.pos + 2)).size -
      p.buffer.text.length - 2

theorem Fed.roomy (h : Fed env action parser pipe p) : p.Roomy := by
  obtain ⟨grown, hgrown, htext, hspace⟩ := p.reader.needBytes_unread h.fits
  refine ⟨h.bounded, ?_⟩
  rw [hgrown, ← htext]
  omega

end Process

variable {σ : Type} (env : PluginsdEnv) (action : σ → CStr → Bool × σ) (parser : σ) (pipe : CStr)

/-- The loop is left at last. -/
theorem pluginsdProcess_ended : ∃ why, (pluginsdProcess env action parser pipe).ended = some why := by
  have hdone := (Process.loop env action).step_run {parser, pipe}
  apply Option.isSome_iff_exists.mp
  by_contra hruns
  have hstep : Process.step env action (pluginsdProcess env action parser pipe) = none := hdone
  rw [Process.step, if_neg hruns] at hstep
  split at hstep <;> cases hstep

theorem iterate_fed (n : Nat) :
    Process.Fed env action parser pipe ((Process.loop env action).iterate n {parser, pipe}) :=
  Loop.iterate_invariant (P := Process.Fed env action parser pipe) (fun _ _ hs h => Process.Fed.step h hs)
    (Process.Fed.start env action parser pipe) n

theorem pluginsdProcess_fed : Process.Fed env action parser pipe (pluginsdProcess env action parser pipe) :=
  iterate_fed env action parser pipe _

/-- The lines that were handed over come first among those that were read; when everything has been
copied, they are all of them. -/
theorem handed_lines : ∃ read handed, pipe = read ++ (pluginsdProcess env action parser pipe).pipe ∧
    handed <+: (Framing.cut '\n' read).1 ∧
    Framing.feed action parser (handed.map cString) =
      (decide ((pluginsdProcess env action parser pipe).ended = some .action),
        (pluginsdProcess env action parser pipe).parser) ∧
    ((pluginsdProcess env action parser pipe).reader.unread = [] → handed = (Framing.cut '\n' read).1) := by
  have hfed := pluginsdProcess_fed env action parser pipe
  generalize pluginsdProcess env action parser pipe = p at hfed ⊢
  obtain ⟨handed, hlines, hpipe, hfeed⟩ := hfed.lines
  have hcut := Framing.cut_lines hlines (p.pending ++ p.reader.unread)
  refine ⟨handed.flatten ++ (p.pending ++ p.reader.unread), handed, ?_, ?_, hfeed, ?_⟩
  · rw [hpipe]
    simp
  · rw [hcut]
    exact List.prefix_append _ _
  · intro hunread
    rw [hcut, hunread, List.append_nil, Framing.cut_open hfed.pending, List.append_nil]

/-- **The parser gets the complete lines of what was read, whole and in order**, from the first on. The
loop goes on as long as the service runs, and is left for a reason outside of it; unless that is
the parser or the service, every complete line that was read has been handed over. In no round does
a copy run out of space. -/
theorem lines_handed_over :
    ∃ p, p = pluginsdProcess env action parser pipe ∧
      (∃ read handed, pipe = read ++ p.pipe ∧ handed <+: (Framing.cut '\n' read).1 ∧
        Framing.feed action parser (handed.map cString) = (decide (p.ended = some .action), p.parser) ∧
        ∃ why, p.ended = some why ∧ p.Reason env why ∧ (∀ k < p.rounds, env.running k = true) ∧
          ∀ ret, why = .reader ret → handed = (Framing.cut '\n' read).1) ∧
      ∀ n, ((Process.loop env action).iterate n {parser, pipe}).Roomy := by
  have hfed := pluginsdProcess_fed env action parser pipe
  obtain ⟨read, handed, hpipe, hhanded, hfeed, hall⟩ := handed_lines env action parser pipe
  obtain ⟨why, hwhy⟩ := pluginsdProcess_ended env action parser pipe
  refine ⟨_, rfl, ⟨read, handed, hpipe, hhanded, hfeed, why, hwhy, hfed.reason why hwhy, hfed.running, ?_⟩, ?_⟩
  · intro ret hret
    subst hret
    exact hall (hfed.copied ret hwhy)
  · intro n
    exact (iterate_fed env action parser pipe n).roomy

/-- **It does not matter how the output is cut into reads.** When everything has been read and
copied at the end, or the parser has said stop, the parser has been given every line of the output
up to the one where it says stop, and nothing else. -/
theorem reads_cut_anywhere
    (hdrained : (pluginsdProcess env action parser pipe).ended ≠ some .action →
      (pluginsdProcess env action parser pipe).pipe = [] ∧
        (pluginsdProcess env action parser pipe).reader.unread = []) :
    Framing.feed action parser ((Framing.cut '\n' pipe).1.map cString) =
      (decide ((pluginsdProcess env action parser pipe).ended = some .action),
        (pluginsdProcess env action parser pipe).parser) := by
  have hfed := pluginsdProcess_fed env action parser pipe
  generalize pluginsdProcess env action parser pipe = p at hdrained hfed ⊢
  obtain ⟨lines, hlines, hpipe, hfeed⟩ := hfed.lines
  rw [hpipe, Framing.cut_lines hlines]
  by_cases haction : p.ended = some .action
  · rw [haction, decide_eq_true rfl] at hfeed ⊢
    rw [List.map_append, Framing.feed_append, hfeed]
  · obtain ⟨hempty, hunread⟩ := hdrained haction
    rw [hempty, hunread, List.append_nil, List.append_nil, Framing.cut_open hfed.pending, List.append_nil]
    exact hfeed

/-- Reads of `size + 1` bytes, until the plugin hangs up in round `n`. -/
def readsUntil (size n : Nat) : PluginsdEnv where
  running _ := true
  poll k := if k < n then .ready size else .fails .hup

/-- Two lines and the beginning of a third, read byte by byte. -/
theorem cut_byte_by_byte :
    (pluginsdProcess (readsUntil 0 19) (fun lines line => (false, lines ++ [line])) [] "SET a = 1\nEND\nBEG".toList).ended =
      some (.reader (.poll .hup)) ∧
    (pluginsdProcess (readsUntil 0 19) (fun lines line => (false, lines ++ [line])) []
      "SET a = 1\nEND\nBEG".toList).parser = ["SET a = 1\n".toList, "END\n".toList] := by
  have hended : (pluginsdProcess (readsUntil 0 19) (fun lines line => (false, lines ++ [line])) ([] : List CStr)
      "SET a = 1\nEND\nBEG".toList).ended = some (.reader (.poll .hup)) := by decide +kernel
  have hempty : (pluginsdProcess (readsUntil 0 19) (fun lines line => (false, lines ++ [line])) ([] : List CStr)
      "SET a = 1\nEND\nBEG".toList).pipe = [] := by decide +kernel
  have hunread : (pluginsdProcess (readsUntil 0 19) (fun lines line => (false, lines ++ [line])) ([] : List CStr)
      "SET a = 1\nEND\nBEG".toList).reader.unread = [] := by decide +kernel
  have hcut := reads_cut_anywhere (readsUntil 0 19) (fun lines line => (false, lines ++ [line])) ([] : List CStr)
    "SET a = 1\nEND\nBEG".toList fun _ => ⟨hempty, hunread⟩
  exact ⟨hended, (congrArg Prod.snd hcut).symm.trans (by decide)⟩

end UpsdPlugin
