import UpsdPlugin.Lib.Loop
import UpsdPlugin.Netdata.Reader

/-! How Netdata reads the plugin's output: the loop of `pluginsd_process`.

A round hands a complete line to `parser_action` if there is one in the buffer, and waits for more
if there is none. Where the reads cut the output is up to the kernel, and before every round the
service may be stopped (`PluginsdEnv`).

Every byte is read once and copied once, so the loop ends (`left_step`). -/
namespace UpsdPlugin

/-- What the loop does not decide, by rounds. -/
structure PluginsdEnv where
  /-- `service_running(SERVICE_COLLECTORS)` -/
  running : Nat → Bool
  /-- What a wait in this round gives. -/
  poll : Nat → Poll

/-- Why the loop was left. -/
inductive Ending where
  /-- `parser_action` has said so. -/
  | action
  | reader (ret : ReadRet)
  /-- The collectors are being stopped. -/
  | service
  deriving DecidableEq

structure Process (σ : Type) where
  parser : σ
  /-- What the plugin has written and nobody has read. -/
  pipe : CStr
  rounds : Nat := 0
  reader : BufferedReader := {}
  buffer : LineBuffer := {size := pluginsdLineMax + 1 + 2 + 1}
  ended : Option Ending := none

/-- Up to the first NUL. -/
def cString (text : CStr) : CStr := text.takeWhile (· ≠ nul)

namespace Process
variable {σ : Type}

/-- No line has been completed: wait for more. -/
def wait (poll : Poll) (p : Process σ) : Process σ :=
  let (ret, reader, pipe) := p.reader.readTimeout p.pipe poll
  {p with reader, pipe, ended := if ret = .ok then none else some (.reader ret)}

/-- A line has been completed. -/
def handle (action : σ → CStr → Bool × σ) (p : Process σ) : Process σ :=
  let (stop, parser) := action p.parser (cString p.buffer.text)
  if stop then {p with parser, ended := some .action}
  else {p with parser, buffer := {p.buffer with text := []}}

/-- A round of the loop. -/
def step (env : PluginsdEnv) (action : σ → CStr → Bool × σ) (p : Process σ) : Option (Process σ) :=
  if p.ended.isSome then none
  else if env.running p.rounds then
    let (found, reader, buffer) := p.reader.nextLine p.buffer
    let round := {p with rounds := p.rounds + 1, reader, buffer}
    some (if found then handle action round else wait (env.poll p.rounds) round)
  else some {p with ended := some .service}

/-- What there is still to do: every byte is read and copied. -/
def left (p : Process σ) : Nat :=
  2 * p.pipe.length + p.reader.unread.length + (if p.ended.isSome then 0 else 1)

variable {env : PluginsdEnv} {action : σ → CStr → Bool × σ} {p p' : Process σ}

/-- A wait with the buffer empty leaves the loop, or brings what comes next in the pipe. -/
theorem wait_cases (poll : Poll) (p : Process σ) (hreader : p.reader = {}) :
    (∃ ret, ret ≠ .ok ∧ ret ≠ .bufferFull ∧ (ret = .failed → p.pipe = [] ∨ poll = .unreadable) ∧
      (∀ error, ret = .poll error → poll = .fails error) ∧ wait poll p = {p with ended := some (.reader ret)}) ∨
      ∃ bytes rest, bytes ≠ [] ∧ bytes.length ≤ pluginsdLineMax ∧ p.pipe = bytes ++ rest ∧
        wait poll p = {p with reader := {readBuffer := bytes}, pipe := rest, ended := none} := by
  obtain ⟨parser, pipe, rounds, reader, buffer, ended⟩ := p
  obtain rfl : reader = {} := hreader
  cases poll with
  | fails error => exact Or.inl ⟨.poll error, by simp, by simp, by simp, by simp, rfl⟩
  | unreadable => exact Or.inl ⟨.failed, by simp, by simp, by simp, by simp, rfl⟩
  | ready n =>
    rcases BufferedReader.read_empty pipe n with ⟨hpipe, hread⟩ | ⟨bytes, rest, hbytes, hlength, hpipe, hread⟩
    · refine Or.inl ⟨.failed, by simp, by simp, fun _ => Or.inl hpipe, by simp, ?_⟩
      simp [wait, BufferedReader.readTimeout, hread]
    · refine Or.inr ⟨bytes, rest, hbytes, hlength, hpipe, ?_⟩
      simp [wait, BufferedReader.readTimeout, hread]

/-- A line goes to the parser, which may have the loop left. -/
theorem handle_cases (action : σ → CStr → Bool × σ) (p : Process σ) :
    (∃ parser, handle action p = {p with parser, ended := some .action}) ∨
      ∃ parser buffer, handle action p = {p with parser, buffer} := by
  unfold handle
  dsimp only
  split
  · exact Or.inl ⟨_, rfl⟩
  · exact Or.inr ⟨_, _, rfl⟩

theorem step_cases (h : step env action p = some p') :
    p.ended = none ∧
      ((env.running p.rounds = false ∧ p' = {p with ended := some .service}) ∨
      (∃ reader buffer, p.reader.nextLine p.buffer = (true, reader, buffer) ∧
        reader.unread.length < p.reader.unread.length ∧ env.running p.rounds = true ∧
        p' = handle action {p with rounds := p.rounds + 1, reader, buffer}) ∨
      ∃ buffer, p.reader.nextLine p.buffer = (false, {}, buffer) ∧ env.running p.rounds = true ∧
        p' = wait (env.poll p.rounds) {p with rounds := p.rounds + 1, reader := {}, buffer}) := by
  unfold step at h
  split at h
  · cases h
  · next hsome =>
    refine ⟨Option.not_isSome_iff_eq_none.mp hsome, ?_⟩
    split at h
    · next hrunning =>
      rcases p.reader.nextLine_cases p.buffer with ⟨reader, buffer, hnext, hshorter⟩ | ⟨buffer, hnext⟩
      · rw [hnext] at h
        exact Or.inr (Or.inl ⟨reader, buffer, hnext, hshorter, hrunning, (Option.some.inj h).symm⟩)
      · rw [hnext] at h
        exact Or.inr (Or.inr ⟨buffer, hnext, hrunning, (Option.some.inj h).symm⟩)
    · next hstopped => exact Or.inl ⟨Bool.eq_false_iff.mpr hstopped, (Option.some.inj h).symm⟩

theorem left_running (h : p.ended = none) : p.left = 2 * p.pipe.length + p.reader.unread.length + 1 := by
  simp [left, h]

theorem left_ended {why : Ending} (h : p.ended = some why) :
    p.left = 2 * p.pipe.length + p.reader.unread.length := by
  simp [left, h]

theorem left_step (h : step env action p = some p') : p'.left < p.left := by
  obtain ⟨hruns, hround⟩ := step_cases h
  rw [left_running hruns]
  rcases hround with ⟨-, rfl⟩ | ⟨reader, buffer, -, hshorter, -, rfl⟩ | ⟨buffer, -, -, rfl⟩
  · rw [left_ended rfl]
    exact Nat.lt_succ_self _
  · rcases handle_cases action {p with rounds := p.rounds + 1, reader, buffer} with ⟨parser, heq⟩ | ⟨parser, buffer', heq⟩
    · rw [heq, left_ended rfl]
      dsimp only
      omega
    · rw [heq, left_running (p := {p with parser, rounds := p.rounds + 1, reader, buffer := buffer'}) hruns]
      dsimp only
      omega
  · rcases wait_cases (env.poll p.rounds) {p with rounds := p.rounds + 1, reader := {}, buffer} rfl with
      ⟨ret, -, -, -, -, heq⟩ | ⟨bytes, rest, hbytes, -, hpipe, heq⟩
    · have hnil : BufferedReader.unread {} = [] := rfl
      rw [heq, left_ended rfl]
      dsimp only
      rw [hnil, List.length_nil]
      omega
    · -- The bytes count twice in the pipe and once in the buffer.
      have hmoved : p.pipe.length = bytes.length + rest.length :=
        (congrArg List.length hpipe).trans List.length_append
      have hpos := List.length_pos_iff.mpr hbytes
      have hunread : BufferedReader.unread {readBuffer := bytes} = bytes := rfl
      rw [heq, left_running rfl]
      dsimp only
      rw [hunread]
      omega

def loop (env : PluginsdEnv) (action : σ → CStr → Bool × σ) : Loop (Process σ) where
  step := step env action
  measure := left
  decreases := left_step

end Process

/-- `pluginsd_process`, with the parser and what `parser_action` does to it. -/
def pluginsdProcess {σ : Type} (env : PluginsdEnv) (action : σ → CStr → Bool × σ) (parser : σ) (pipe : CStr) :
    Process σ :=
  (Process.loop env action).run {parser, pipe}

end UpsdPlugin
