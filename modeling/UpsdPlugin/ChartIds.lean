import UpsdPlugin.Provenance

/-! Chart ids.

The id on a CHART or BEGIN line is made of the cleaned name of the UPS and the chart's own name.
Two UPSes have a chart id in common exactly when their names clean to the same. -/
namespace UpsdPlugin

variable {env : Env} {w : World} {u : CStr}

/-- The id on a CHART or BEGIN line. -/
def Line.id? (line : Line) : Option CStr := line.chartId?.or line.beginId?

/-- The line is the CHART or a BEGIN line of this chart. -/
def Line.Names (c : Chart) : Line → Prop
  | .chartStatus .. => c = .status
  | .chart _ entry _ => c = .var entry
  | .begin _ name _ => c.Known ∧ name = c.id
  | _ => False

/-- A CHART or BEGIN line with this id has been printed for the chart `c` of the UPS `u`. -/
def PrintedFor (trace : List Event) (u : CStr) (c : Chart) (id : CStr) : Prop :=
  ∃ pre n origin line post body, trace = pre ++ ⟨n, .print origin line⟩ :: post ∧
    AtRow n u pre body ∧ line.Names c ∧ line.id? = some id

theorem PrintedFor.id_eq {t : Nat} {c : Chart} {id : CStr}
    (h : PrintedFor (run env t).world.trace u c id) : c.Known ∧ id = fullId (cleanName u) c.id := by
  obtain ⟨pre, n, origin, line, post, body, htrace, hrow, hnames, hid⟩ := h
  rcases Trace.past_split (justified_run env t) htrace with hrowless | ⟨v, body', hrow', hfor⟩
  · exact absurd hrowless not_false
  · obtain ⟨rfl, rfl⟩ := hrow.unique hrow'
    cases line with
    | chartStatus type updateEvery =>
      obtain rfl : c = .status := hnames
      obtain rfl : type = cleanName u := hfor
      exact ⟨trivial, (Option.some.inj hid).symm⟩
    | chart type entry updateEvery =>
      obtain rfl : c = .var entry := hnames
      obtain ⟨rfl, hentry⟩ := hfor
      exact ⟨hentry, (Option.some.inj hid).symm⟩
    | begin type name usec =>
      obtain ⟨hknown, rfl⟩ := hnames
      obtain ⟨rfl, -⟩ := hfor
      exact ⟨hknown, (Option.some.inj hid).symm⟩
    | _ => exact absurd hnames not_false

/-- **Chart ids tell cleaned names and charts apart.** Whatever lines a run has printed for a
chart of one UPS and for a chart of another, they have the same id exactly if it is the same
chart and the names of the UPSes are cleaned to the same string. -/
theorem chart_id_eq_iff (env : Env) (t : Nat) {u v : CStr} {c d : Chart} {id id' : CStr}
    (hu : PrintedFor (run env t).world.trace u c id) (hv : PrintedFor (run env t).world.trace v d id') :
    id = id' ↔ cleanName u = cleanName v ∧ c = d := by
  obtain ⟨hc, rfl⟩ := hu.id_eq
  obtain ⟨hd, rfl⟩ := hv.id_eq
  exact Chart.fullId_inj hc hd

theorem PrintedFor.extend {trace : List Event} {c : Chart} {id : CStr} (h : PrintedFor trace u c id)
    (more : List Event) : PrintedFor (trace ++ more) u c id := by
  obtain ⟨pre, n, origin, line, post, body, rfl, hrest⟩ := h
  exact ⟨pre, n, origin, line, post ++ more, body, by simp, hrest⟩

/-- A row of the startup listing prints the CHART line of the status chart. -/
theorem printedFor_startup {t : Nat} {rest : List CStr} {complete : Bool} (hu : u ≠ [])
    (hpc : (run env t).pc = .startup (listAnswers (u :: rest) complete)) :
    PrintedFor (run env (t + 1)).world.trace u .status (fullId (cleanName u) statusId) := by
  have hstep := (run_step env t).startup_row hpc
  rw [registerDeed, if_neg hu] at hstep
  generalize (run env t).world = w at hstep
  obtain ⟨after, hscript⟩ : ∃ after, registerScript env u w.dicts w.gets = .register u ::
      .setName u (cleanName u) :: .print .registerUps (.chartStatus (cleanName u) env.updateEvery) :: after :=
    ⟨_, rfl⟩
  rw [hstep, World.play_trace, hscript]
  let body : List Action := [.register u, .setName u (cleanName u)]
  exact ⟨w.trace ++ (.listNext (upsRow u) :: body).map (Event.mk w.cycle), w.cycle, .registerUps,
    .chartStatus (cleanName u) env.updateEvery, after.map (Event.mk w.cycle), body, by simp [body],
    ⟨⟨w.trace, rfl⟩, by simp [body]⟩, rfl, rfl⟩

/-- UPSes that are listed at startup and answer nothing. -/
def silentUps (names : List CStr) : Env := .healthy (fun _ => names) fun _ _ _ => none

/-- Both of two such UPSes have their status chart declared after three steps. -/
theorem silentUps_printed {u v : CStr} (hu : u ≠ []) (hv : v ≠ []) :
    PrintedFor (run (silentUps [u, v]) 3).world.trace u .status (fullId (cleanName u) statusId) ∧
      PrintedFor (run (silentUps [u, v]) 3).world.trace v .status (fullId (cleanName v) statusId) := by
  have hfirst : (run (silentUps [u, v]) 1).pc = .startup (listAnswers [u, v] true) := rfl
  have hstep := (run_step (silentUps [u, v]) 1).startup_row hfirst
  have hsecond : (run (silentUps [u, v]) 2).pc = .startup (listAnswers [v] true) := by
    rw [hstep, registerDeed, if_neg hu]
    rfl
  refine ⟨?_, printedFor_startup hv hsecond⟩
  rw [(run_step (silentUps [u, v]) 2).startup_row hsecond, World.play_trace]
  exact (printedFor_startup hu hfirst).extend _

theorem chart_id_ne_of_names :
    ∃ id id', PrintedFor (run (silentUps ["a".toList, "b".toList]) 3).world.trace "a".toList .status id ∧
      PrintedFor (run (silentUps ["a".toList, "b".toList]) 3).world.trace "b".toList .status id' ∧ id ≠ id' := by
  obtain ⟨ha, hb⟩ := silentUps_printed (u := "a".toList) (v := "b".toList) (by decide) (by decide)
  refine ⟨_, _, ha, hb, fun hid => ?_⟩
  have hclean := ((chart_id_eq_iff _ 3 ha hb).mp hid).1
  exact absurd hclean (by decide)

/-- Two UPSes of one listing whose status charts have the same id. -/
theorem cleaned_names_collide :
    "a.b".toList ≠ "a_b".toList ∧
    ((silentUps ["a.b".toList, "a_b".toList]).listing 0).names = ["a.b".toList, "a_b".toList] ∧
    ∃ id, PrintedFor (run (silentUps ["a.b".toList, "a_b".toList]) 3).world.trace "a.b".toList .status id ∧
      PrintedFor (run (silentUps ["a.b".toList, "a_b".toList]) 3).world.trace "a_b".toList .status id := by
  obtain ⟨hdot, hbar⟩ := silentUps_printed (u := "a.b".toList) (v := "a_b".toList) (by decide) (by decide)
  exact ⟨by decide, rfl, _, hdot, hbar⟩

end UpsdPlugin
