import UpsdPlugin.Blocks

/-! The output is a sequence of blocks, and charts are declared before they are used.

What the plugin prints is a sequence of whole blocks at every point of a run: chart
blocks, each opened by its CHART line, and data frames from BEGIN to END
(`declared_before_use`). A frame of the status chart or of a chart in `ups_vars`
comes after a chart block of the same id, and sets the dimensions that the latest
such block declares. -/
namespace UpsdPlugin

/-- Some chart block declares the chart. -/
def Declared (blocks : List Block) (type : CStr) (c : Chart) : Prop :=
  ∃ b : ChartBlock, .chart b ∈ blocks ∧ b.Declares type c

/-- A frame comes after a block that declares its chart. -/
def Follows (before : List Block) : Block → Prop
  | .chart _ => True
  | .frame f => f.origin = .upsRealpower ∨
    ∃ (u : CStr) (c : Chart), c.Known ∧ f.Sends (cleanName u) c ∧ Declared before (cleanName u) c

/-- The blocks printed so far, and what they say about the UPSes that are registered. -/
structure Announced (blocks : List Block) (w : World) : Prop where
  text : printed w.trace = blocks.flatMap Block.lines
  known : ∀ b, .chart b ∈ blocks → ∃ (u : CStr) (c : Chart), c.Known ∧ b.Declares (cleanName u) c
  charts : ∀ u ∈ w.ndUpsName.keys, ∀ c : Chart, c.Among (w.charts u) → Declared blocks (cleanName u) c
  used : Trace.Past Follows [] blocks

variable {env : Env} {w w' : World} {u : CStr} {blocks : List Block}

theorem Declared.mono {type : CStr} {c : Chart} (more : List Block) (h : Declared blocks type c) :
    Declared (blocks ++ more) type c := by
  obtain ⟨b, hb, hdecl⟩ := h
  exact ⟨b, List.mem_append_left more hb, hdecl⟩

theorem follows_mono (before more : List Block) (b : Block) (h : Follows before b) :
    Follows (before ++ more) b := by
  cases b with
  | chart b => trivial
  | frame f =>
    rcases h with h | ⟨u, c, hc, hf, hdecl⟩
    · exact Or.inl h
    · exact Or.inr ⟨u, c, hc, hf, hdecl.mono more⟩

theorem Lockstep.charts_sublist (h : Lockstep w) (u : CStr) : (w.charts u).Sublist ndCharts := by
  unfold World.charts
  cases hv : w.ndUpsVars.get u with
  | none => exact List.nil_sublist _
  | some vars =>
    obtain ⟨charts, hsub, heq⟩ := h.charts u vars hv
    simp only [heq, varsOf_values hsub]
    exact hsub

theorem Lockstep.charts_known (h : Lockstep w) : ∀ chart ∈ w.charts u, chart ∈ ndCharts :=
  fun _ hc => (h.charts_sublist u).subset hc

namespace Announced

/-- Nothing printed, nobody new, and everybody with the same charts. -/
theorem silent (h : Announced blocks w) (htext : printed w'.trace = printed w.trace)
    (hkeys : ∀ u ∈ w'.ndUpsName.keys, u ∈ w.ndUpsName.keys ∧ w'.charts u = w.charts u) :
    Announced blocks w' where
  text := htext.trans h.text
  known := h.known
  charts := by
    intro u hu c hc
    rw [(hkeys u hu).2] at hc
    exact h.charts u (hkeys u hu).1 c hc
  used := h.used

/-- Actions that print nothing and change neither names nor charts. -/
theorem silently (h : Announced blocks w) (script : List Action) (hs : Emits script [])
    (hname : (w.play script).ndUpsName = w.ndUpsName)
    (hvars : (w.play script).ndUpsVars = w.ndUpsVars) : Announced blocks (w.play script) := by
  refine h.silent (hs.silent w) fun u hu => ⟨?_, ?_⟩
  · rwa [hname] at hu
  · exact charts_of_vars (by rw [hvars])

theorem register (env : Env) (u : CStr) (h : Announced blocks w) :
    ∃ blocks', Announced blocks' (w.play (registerScript env u w.dicts w.gets)) := by
  obtain ⟨new, hemits, hknown, hall⟩ := registerScript_emits env u w.dicts w.gets
  have hreg := play_registerScript env u w
  have hdeclared : ∀ c : Chart, c.Among (registeredCharts env u w.gets) →
      Declared (blocks ++ new.map .chart) (cleanName u) c := by
    intro c hc
    obtain ⟨b, hb, hdecl⟩ := hall c hc
    exact ⟨b, List.mem_append_right _ (List.mem_map_of_mem hb), hdecl⟩
  refine ⟨blocks ++ new.map .chart, ?_, ?_, ?_, ?_⟩
  · rw [printed_play, h.text, List.flatMap_append]
    exact congrArg _ hemits
  · intro b hb
    rcases List.mem_append.mp hb with hb | hb
    · exact h.known b hb
    · obtain ⟨b', hb', heq⟩ := List.mem_map.mp hb
      cases heq
      obtain ⟨c, hc, hdecl⟩ := hknown b hb'
      exact ⟨u, c, hc.known (registeredCharts_sublist env u w.gets).subset, hdecl⟩
  · rw [hreg.name]
    intro v hv c hc
    by_cases hvu : v = u
    · subst hvu
      rw [hreg.charts_self] at hc
      exact hdeclared c hc
    · have hv' : v ∈ w.ndUpsName.keys := by
        rcases OrderedDict.mem_keys_set.mp hv with heq | hv
        · exact absurd heq hvu
        · exact hv
      have hcharts : (w.play (registerScript env u w.dicts w.gets)).charts v = w.charts v :=
        charts_of_vars (by rw [hreg.get_vars, if_neg hvu])
      rw [hcharts] at hc
      exact (h.charts v hv' c hc).mono _
  · refine (Trace.past_append [] blocks _).mpr ⟨h.used, Trace.past_of_mono follows_mono _ _ ?_⟩
    intro b hb
    obtain ⟨c, -, rfl⟩ := List.mem_map.mp hb
    trivial

theorem metrics (env : Env) (h : Announced blocks w) (hl : Lockstep w) (hu : u ∈ w.ndUpsName.keys) (dt k : Nat) :
    ∃ blocks', Announced blocks' (w.play (metricsDeed env u dt (w.charts u) k).actions) := by
  obtain ⟨frames, hemits, hof⟩ := metricsDeed_emits env u dt (w.charts u) k
  have hsame := play_metricsDeed env u dt (w.charts u) k w
  generalize hw' : w.play (metricsDeed env u dt (w.charts u) k).actions = w' at hsame
  have hname : w'.ndUpsName = w.ndUpsName := hsame.name
  have hvars : w'.ndUpsVars = w.ndUpsVars := hsame.vars
  refine ⟨blocks ++ frames.map .frame, ?_, ?_, ?_, ?_⟩
  · rw [← hw', printed_play, h.text, List.flatMap_append]
    exact congrArg _ hemits
  · intro b hb
    rcases List.mem_append.mp hb with hb | hb
    · exact h.known b hb
    · obtain ⟨f, -, heq⟩ := List.mem_map.mp hb
      cases heq
  · rw [hname]
    intro v hv c hc
    have hcharts : w'.charts v = w.charts v := charts_of_vars (by rw [hvars])
    rw [hcharts] at hc
    exact (h.charts v hv c hc).mono _
  · refine (Trace.past_append [] blocks _).mpr ⟨h.used, Trace.past_of_mono follows_mono _ _ ?_⟩
    intro b hb
    obtain ⟨f, hf, rfl⟩ := List.mem_map.mp hb
    rcases hof f hf with hpower | ⟨c, hc, hsends⟩
    · exact Or.inl hpower
    · exact Or.inr ⟨u, c, hc.known fun _ => hl.charts_known _, hsends, h.charts u hu c hc⟩

theorem drop (h : Announced blocks w) (u : CStr) : Announced blocks (w.play (dropScript w u)) := by
  have hdrop := play_dropScript w u
  have hemits : Emits (dropScript w u) [] := by
    unfold dropScript
    cases w.ndUpsVars.get u <;> rfl
  refine h.silent (hemits.silent w) fun v hv => ?_
  rw [hdrop.name, OrderedDict.mem_keys_del] at hv
  refine ⟨hv.1, charts_of_vars ?_⟩
  rw [hdrop.vars, OrderedDict.get_del, if_neg hv.2]

/-- Every move keeps the output announced. -/
theorem move (h : Announced blocks w) (hl : Lockstep w) (hm : Move env w w') :
    ∃ blocks', Announced blocks' w' := by
  cases hm with
  | tick => exact ⟨blocks, h.silent rfl fun u hu => ⟨hu, rfl⟩⟩
  | list answer => exact ⟨blocks, h.silently [.listNext answer] rfl rfl rfl⟩
  | flush => exact ⟨blocks, h.silently [.flush] rfl rfl rfl⟩
  | nameless => exact ⟨blocks, h.silently [.register []] rfl rfl rfl⟩
  | register u hu => exact h.register env u
  | metrics u hu => exact h.metrics env hl hu _ _
  | unmark u hu => exact ⟨blocks, h.silently [.setSeen u false] rfl rfl rfl⟩
  | drop u => exact ⟨blocks, h.drop u⟩

end Announced

/-- **Declared before use.** At every point of every run the output is a sequence of
whole blocks, and every frame but those of `send_metric_ups_realpower` comes after a chart
block of its id, the latest of which declares exactly the dimensions the frame sets. -/
theorem declared_before_use (env : Env) (t : Nat) :
    ∃ blocks : List Block, printed (run env t).world.trace = blocks.flatMap Block.lines ∧
      ∀ pre f post, blocks = pre ++ .frame f :: post → f.origin ≠ .upsRealpower →
        ∃ before b between, pre = before ++ .chart b :: between ∧ b.id = f.id ∧
          (∀ x ∈ between, ¬ x.Opens f.id) ∧ b.names = f.names := by
  have hrun : ∃ blocks, Announced blocks (run env t).world := by
    refine run_moves (P := fun w => ∃ blocks, Announced blocks w) ?_ ?_ t
    · exact ⟨[], rfl, fun b hb => (nomatch hb), fun u hu => (nomatch hu), trivial⟩
    · intro w w' hl hw hm
      obtain ⟨blocks, hw⟩ := hw
      exact hw.move hl hm
  obtain ⟨blocks, h⟩ := hrun
  refine ⟨blocks, h.text, fun pre f post hsplit horigin => ?_⟩
  rcases Trace.past_split h.used hsplit with hpower | ⟨u, c, hc, hf, b, hb, hdecl⟩
  · exact absurd hpower horigin
  · have hopen : ∃ x ∈ pre, x.Opens f.id := ⟨.chart b, hb, hdecl.id.trans hf.id.symm⟩
    obtain ⟨before, x, between, hpre, hx, hlast⟩ := Trace.exists_latest hopen
    cases x with
    | frame g => exact absurd hx id
    | chart b' =>
      refine ⟨before, b', between, hpre, hx, hlast, ?_⟩
      have hmem : .chart b' ∈ blocks := by
        rw [hsplit, hpre]
        simp
      obtain ⟨v, d, hd, hdecl'⟩ := h.known b' hmem
      have hid : fullId (cleanName v) d.id = fullId (cleanName u) c.id :=
        hdecl'.id.symm.trans (hx.trans hf.id)
      obtain ⟨-, rfl⟩ := (Chart.fullId_inj hd hc).mp hid
      exact hdecl'.names.trans hf.names.symm

end UpsdPlugin
