import UpsdPlugin.PowerQueries

/-! The load usage chart and its frames.

`send_metric_ups_realpower` never looks at what was declared. Its frames follow a declaration
exactly when every UPS that gives the load usage in a cycle has given it at a registration
before (`load_usage_declared_iff`). -/
namespace UpsdPlugin

/-! ### The invariant -/

/-- A load usage frame comes after the declaration of its chart. -/
def FrameDeclared (before : List Event) (e : Event) : Prop :=
  ∀ type, e.action.SendsPower type → PowerDeclared (printed before) type

/-- A UPS whose load usage is learned has been found to give it at an earlier registration. -/
def FoundBefore (env : Env) (before : List Event) (e : Event) : Prop :=
  ∀ type, e.action.LearnsPower env type → ∃ e' ∈ before, e'.action.FindsPower env type

/-- What has been declared is what has been found, and the frames are declared exactly if
what is learned was found before. -/
structure PowerAgrees (env : Env) (w : World) : Prop where
  found : ∀ v, PowerDeclared (printed w.trace) (cleanName v) ↔
    ∃ e ∈ w.trace, e.action.FindsPower env (cleanName v)
  frames : Trace.Past FrameDeclared [] w.trace ↔ Trace.Past (FoundBefore env) [] w.trace

section Invariant
variable {env : Env} {w : World}

theorem exists_event {p : Action → Prop} (n : Nat) (script : List Action) :
    (∃ e ∈ script.map (Event.mk n), p e.action) ↔ ∃ a ∈ script, p a := by
  simp

theorem PowerAgrees.play (h : PowerAgrees env w) {script : List Action}
    (hheaded : Headed (printedOf script))
    (hfound : ∀ v, PowerDeclared (printedOf script) (cleanName v) ↔
      ∃ a ∈ script, a.FindsPower env (cleanName v))
    (hframes : Trace.Past FrameDeclared w.trace (script.map (Event.mk w.cycle)) ↔
      Trace.Past (FoundBefore env) w.trace (script.map (Event.mk w.cycle))) :
    PowerAgrees env (w.play script) where
  found := by
    intro v
    rw [PowerDeclared, printed_play, declaredIn_append hheaded, World.play_trace]
    simp only [List.mem_append, or_and_right, exists_or, exists_event (p := Action.FindsPower env (cleanName v))]
    exact or_congr (h.found v) (hfound v)
  frames := by
    rw [World.play_trace, Trace.past_append, Trace.past_append, h.frames]
    exact and_congr_right fun _ => by simpa using hframes

/-- Scripts that send and learn no load usage. -/
theorem frames_of_neither (past : List Event) (n : Nat) {script : List Action}
    (h : ∀ a ∈ script, ∀ type, ¬ a.SendsPower type ∧ ¬ a.LearnsPower env type) :
    Trace.Past FrameDeclared past (script.map (Event.mk n)) ↔
      Trace.Past (FoundBefore env) past (script.map (Event.mk n)) := by
  have hevent : ∀ pre e post, script.map (Event.mk n) = pre ++ e :: post → e.action ∈ script := by
    intro pre e post heq
    have hmem : e ∈ script.map (Event.mk n) := by simp [heq]
    obtain ⟨a, ha, rfl⟩ := List.mem_map.mp hmem
    exact ha
  refine iff_of_true ((Trace.past_iff _ _).mpr fun pre e post heq type hsends => ?_)
    ((Trace.past_iff _ _).mpr fun pre e post heq type hlearns => ?_)
  · exact absurd hsends (h _ (hevent pre e post heq) type).1
  · exact absurd hlearns (h _ (hevent pre e post heq) type).2

section Metrics
variable {u : CStr} {dt : Nat} {charts : List NdChart} {k : Nat} {a : Action} {type : CStr}

/-- Sending metrics declares nothing, finds nothing, and is about one UPS. -/
structure OneUps (env : Env) (u : CStr) (a : Action) : Prop where
  lines : ∀ l, a.printed? = some l → l.2.dimension? = none
  finds : ∀ type, ¬ a.FindsPower env type
  sends : ∀ type, a.SendsPower type → type = cleanName u
  learns : ∀ type, a.LearnsPower env type → type = cleanName u

theorem metrics_oneUps (h : a ∈ (metricsDeed env u dt charts k).actions) : OneUps env u a := by
  rcases metricsDeed_mem env u h with rfl | h
  · exact ⟨nofun, fun _ => nofun, fun _ => nofun, fun _ => nofun⟩
  · cases h with
    | ask origin var k horigin =>
      refine ⟨nofun, fun _ hf => ?_, fun _ => nofun, fun _ hl => ?_⟩
      · cases origin with
        | registerUps => exact horigin rfl
        | _ => exact hf
      · cases origin with
        | upsRealpower => exact hl.2.2.symm
        | _ => exact absurd hl not_false
    | convert arg => exact ⟨nofun, fun _ => nofun, fun _ => nofun, fun _ => nofun⟩
    | begin origin id h =>
      refine ⟨fun l hl => by cases hl; rfl, fun _ => nofun, fun _ hs => ?_, fun _ => nofun⟩
      cases origin with
      | upsRealpower => exact hs.1.symm
      | _ => exact absurd hs not_false
    | set origin name value h =>
      refine ⟨fun l hl => by cases hl; rfl, fun _ => nofun, fun _ hs => ?_, fun _ => nofun⟩
      cases origin <;> exact absurd hs not_false
    | close origin h =>
      refine ⟨fun l hl => by cases hl; rfl, fun _ => nofun, fun _ hs => ?_, fun _ => nofun⟩
      cases origin <;> exact absurd hs not_false

/-- Events that declare nothing leave what is declared. -/
theorem powerDeclared_append {pre : List Event} (past : List Event)
    (h : ∀ e ∈ pre, OneUps env u e.action) :
    PowerDeclared (printed (past ++ pre)) type ↔ PowerDeclared (printed past) type := by
  have hnone : ∀ l ∈ printed pre, l.2.dimension? = none := by
    intro l hl
    obtain ⟨e, he, hprint⟩ := List.mem_filterMap.mp hl
    exact (h e he).lines l hprint
  have hsplit : printed (past ++ pre) = printed past ++ printed pre := List.filterMap_append
  rw [PowerDeclared, hsplit, declaredIn_append (Headed.of_none hnone)]
  exact or_iff_left (not_declaredIn_of_none hnone)

theorem findsPower_append {pre : List Event} (past : List Event)
    (h : ∀ e ∈ pre, OneUps env u e.action) :
    (∃ e ∈ past ++ pre, e.action.FindsPower env type) ↔ ∃ e ∈ past, e.action.FindsPower env type := by
  constructor
  · intro hex
    obtain ⟨e, he, hfinds⟩ := hex
    rcases List.mem_append.mp he with he | he
    · exact ⟨e, he, hfinds⟩
    · exact absurd hfinds ((h e he).finds type)
  · intro hex
    obtain ⟨e, he, hfinds⟩ := hex
    exact ⟨e, List.mem_append_left _ he, hfinds⟩

/-- Sending metrics: all turns on what was declared, and found, before. -/
theorem frames_metrics (h : PowerAgrees env w) (u : CStr) (dt : Nat) (charts : List NdChart) (k : Nat) :
    Trace.Past FrameDeclared w.trace ((metricsDeed env u dt charts k).actions.map (Event.mk w.cycle)) ↔
      Trace.Past (FoundBefore env) w.trace
        ((metricsDeed env u dt charts k).actions.map (Event.mk w.cycle)) := by
  have hone : ∀ e ∈ (metricsDeed env u dt charts k).actions.map (Event.mk w.cycle),
      OneUps env u e.action := by
    intro e he
    obtain ⟨a, ha, rfl⟩ := List.mem_map.mp he
    exact metrics_oneUps ha
  generalize hevents : (metricsDeed env u dt charts k).actions.map (Event.mk w.cycle) = events at hone
  have hsent : Trace.Past FrameDeclared w.trace events ↔
      ((∃ e ∈ events, e.action.SendsPower (cleanName u)) → PowerDeclared (printed w.trace) (cleanName u)) := by
    refine Trace.past_iff_once _ _ fun pre e post heq => ?_
    rw [heq] at hone
    have hpre := (List.forall_mem_append.mp hone).1
    have he := hone e (List.mem_append_right _ (List.mem_cons_self ..))
    constructor
    · exact fun hall hsends => (powerDeclared_append w.trace hpre).mp (hall _ hsends)
    · intro hall type hsends
      obtain rfl := he.sends type hsends
      exact (powerDeclared_append w.trace hpre).mpr (hall hsends)
  have hfound : Trace.Past (FoundBefore env) w.trace events ↔
      ((∃ e ∈ events, e.action.LearnsPower env (cleanName u)) →
        ∃ e ∈ w.trace, e.action.FindsPower env (cleanName u)) := by
    refine Trace.past_iff_once _ _ fun pre e post heq => ?_
    rw [heq] at hone
    have hpre := (List.forall_mem_append.mp hone).1
    have he := hone e (List.mem_append_right _ (List.mem_cons_self ..))
    constructor
    · exact fun hall hlearns => (findsPower_append w.trace hpre).mp (hall _ hlearns)
    · intro hall type hlearns
      obtain rfl := he.learns type hlearns
      exact (findsPower_append w.trace hpre).mpr (hall hlearns)
  rw [hsent, hfound, h.found u, ← hevents, exists_event (p := Action.SendsPower (cleanName u)),
    exists_event (p := Action.LearnsPower env (cleanName u))]
  exact imp_congr_left (metricsDeed_matched dt charts k)

end Metrics

/-- Scripts that print nothing, and neither find nor learn anything. -/
theorem PowerAgrees.play_still (h : PowerAgrees env w) {script : List Action}
    (hstill : ∀ a ∈ script, a.printed? = none ∧ ∀ type, ¬ a.FindsPower env type ∧
      ¬ a.SendsPower type ∧ ¬ a.LearnsPower env type) : PowerAgrees env (w.play script) := by
  have hnone : printedOf script = [] := List.filterMap_eq_nil_iff.mpr fun a ha => (hstill a ha).1
  refine h.play ?_ (fun v => ?_) (frames_of_neither _ _ fun a ha type => ((hstill a ha).2 type).2)
  · rw [hnone]
    exact Headed.of_none (List.forall_mem_nil _)
  · rw [hnone]
    refine iff_of_false (not_declaredIn_of_none (List.forall_mem_nil _)) fun hex => ?_
    obtain ⟨a, ha, hfinds⟩ := hex
    exact ((hstill a ha).2 _).1 hfinds

theorem PowerAgrees.register (h : PowerAgrees env w) (u : CStr) :
    PowerAgrees env (w.play (registerScript env u w.dicts w.gets)) := by
  refine h.play ?_ (fun v => ?_) (frames_of_neither _ _ fun a ha type => ?_)
  · obtain ⟨blocks, hemits, -, -⟩ := registerScript_emits env u w.dicts w.gets
    rw [show printedOf (registerScript env u w.dicts w.gets) = _ from hemits]
    exact blocks_headed _
  · rw [registerScript_declares, registerScript_finds]
  · rcases registerScript_cases env u ha with rfl | rfl | rfl | rfl | ha
    · exact ⟨nofun, nofun⟩
    · exact ⟨nofun, nofun⟩
    · exact ⟨nofun, nofun⟩
    · exact ⟨nofun, nofun⟩
    · cases ha <;> exact ⟨nofun, nofun⟩

theorem PowerAgrees.metrics (h : PowerAgrees env w) (u : CStr) :
    PowerAgrees env
      (w.play (metricsDeed env u (env.dt w.cycle) (w.charts u) w.gets).actions) := by
  have hnone : ∀ l ∈ printedOf (metricsDeed env u (env.dt w.cycle) (w.charts u) w.gets).actions,
      l.2.dimension? = none := by
    intro l hl
    obtain ⟨a, ha, hprint⟩ := List.mem_filterMap.mp hl
    exact (metrics_oneUps ha).lines l hprint
  refine h.play (Headed.of_none hnone) (fun v => ?_) (frames_metrics h u _ _ _)
  refine iff_of_false (not_declaredIn_of_none hnone) fun hex => ?_
  obtain ⟨a, ha, hfinds⟩ := hex
  exact (metrics_oneUps ha).finds _ hfinds

end Invariant

theorem powerAgrees_run (env : Env) (t : Nat) : PowerAgrees env (run env t).world := by
  have hempty : PowerAgrees env {} := by
    refine ⟨fun v => iff_of_false (not_declaredIn_of_none (List.forall_mem_nil _)) ?_, Iff.rfl⟩
    intro hex
    obtain ⟨e, he, -⟩ := hex
    cases he
  refine run_moves hempty ?_ t
  intro w w' _ hw hm
  have hstill : ∀ a : Action, a.printed? = none → (∀ type, ¬ a.FindsPower env type) →
      (∀ type, ¬ a.SendsPower type) → (∀ type, ¬ a.LearnsPower env type) → PowerAgrees env (w.act a) := by
    intro a hprint hfinds hsends hlearns
    exact hw.play_still (List.forall_mem_singleton (a := a).mpr
      ⟨hprint, fun type => ⟨hfinds type, hsends type, hlearns type⟩⟩)
  cases hm with
  | tick => exact ⟨hw.found, hw.frames⟩
  | list answer => exact hstill _ rfl (fun _ => nofun) (fun _ => nofun) (fun _ => nofun)
  | flush => exact hstill _ rfl (fun _ => nofun) (fun _ => nofun) (fun _ => nofun)
  | nameless => exact hstill _ rfl (fun _ => nofun) (fun _ => nofun) (fun _ => nofun)
  | register u hu => exact hw.register u
  | metrics u hu => exact hw.metrics u
  | unmark u hu => exact hstill _ rfl (fun _ => nofun) (fun _ => nofun) (fun _ => nofun)
  | drop u =>
    refine hw.play_still fun a ha => ?_
    rcases dropScript_cases ha with ⟨vars, -, rfl⟩ | rfl | rfl | rfl
      <;> exact ⟨rfl, fun _ => ⟨nofun, nofun, nofun⟩⟩

/-- **When load usage frames are declared.** In a run up to any point, every BEGIN line of
`send_metric_ups_realpower` comes after a CHART line with its id and a DIMENSION line
`load_usage` under it, exactly when every time `send_metric_ups_realpower` finds the load usage
of a UPS answered, a registration of that name has found it answered before. -/
theorem load_usage_declared_iff (env : Env) (t : Nat) :
    (∀ before cycle type dt after,
        (run env t).world.trace =
          before ++ ⟨cycle, .print .upsRealpower (.begin type loadUsage.chartId dt)⟩ :: after →
        DeclaredIn (printed before) (fullId type loadUsage.chartId) loadUsage.chartDimension) ↔
      ∀ before cycle conn k u reply after,
        (run env t).world.trace =
          before ++ ⟨cycle, .get conn .upsRealpower k u realpowerVar reply⟩ :: after →
        powerAnswered env u k = true →
        ∃ e ∈ before, ∃ conn' k' u' reply', e.action = .get conn' .registerUps k' u' realpowerVar reply' ∧
          powerAnswered env u' k' = true ∧ cleanName u' = cleanName u := by
  have hframes := (powerAgrees_run env t).frames
  rw [Trace.past_iff, Trace.past_iff] at hframes
  constructor
  · intro h before cycle conn k u reply after heq hanswered
    have hfound := hframes.mp (fun pre e post hs type hsends => ?_) before _ after heq (cleanName u)
      ⟨rfl, hanswered, rfl⟩
    · obtain ⟨e, he, hfinds⟩ := hfound
      obtain ⟨conn', k', u', reply', hact, hpower⟩ := Action.FindsPower.get hfinds
      exact ⟨e, he, conn', k', u', reply', hact, hpower⟩
    · obtain ⟨cycle', action⟩ := e
      obtain ⟨dt, rfl⟩ := Action.SendsPower.print hsends
      exact h pre cycle' type dt post hs
  · intro h before cycle type dt after heq
    refine hframes.mpr (fun pre e post hs type hlearns => ?_) before _ after heq type ⟨rfl, rfl⟩
    obtain ⟨cycle', action⟩ := e
    obtain ⟨conn, k, u, reply, rfl, hanswered, rfl⟩ := Action.LearnsPower.get hlearns
    obtain ⟨e, he, conn', k', u', reply', hact, hpower⟩ := h pre cycle' conn k u reply post hs hanswered
    refine ⟨e, he, ?_⟩
    rw [hact]
    exact ⟨rfl, hpower⟩

/-- A UPS whose driver connects after the plugin has started: no variable is answered during
the registration, `ups.realpower` is answered from then on. -/
def lateUps : Env :=
  .healthy (fun _ => ["a".toList]) fun k _ var =>
    if var = realpowerVar ∧ 25 ≤ k then some "500".toList else none

/-- Its load usage is sent in the first cycle, with no chart declared for it. -/
theorem late_load_usage_undeclared :
    ¬ ∀ before cycle type dt after,
        (run lateUps 5).world.trace =
          before ++ ⟨cycle, .print .upsRealpower (.begin type loadUsage.chartId dt)⟩ :: after →
        DeclaredIn (printed before) (fullId type loadUsage.chartId) loadUsage.chartDimension := by
  intro h
  have hsent : ∃ e ∈ (run lateUps 5).world.trace, e.action.SendsPower "a".toList := by decide +kernel
  have hcharts : ∀ l ∈ printed (run lateUps 5).world.trace,
      l.2.chartId? ≠ some (fullId "a".toList loadUsage.chartId) := by decide +kernel
  obtain ⟨⟨cycle, action⟩, he, hsends⟩ := hsent
  obtain ⟨dt, rfl⟩ := Action.SendsPower.print hsends
  obtain ⟨before, after, heq⟩ := List.append_of_mem he
  obtain ⟨l, hl, hid⟩ := (h before cycle _ dt after heq).head
  have hprinted : l ∈ printed (run lateUps 5).world.trace := by
    rw [heq, printed, List.filterMap_append]
    exact List.mem_append_left _ hl
  exact hcharts l hprinted hid

end UpsdPlugin
