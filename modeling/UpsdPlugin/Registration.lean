import UpsdPlugin.Moves
import Mathlib.Data.List.TakeWhile

/-! What is recorded for a UPS is what its latest registration announced.

The charts of a registration are those of the CHART lines printed after its
`register` event and before the next one. At every point of a run, the charts
stored for a registered UPS are those of its latest registration, in the order of
`nd_charts` (`recorded_run`). With `Lockstep` this makes the body of the collection
loop safe: what it looks up is there and alive. -/
namespace UpsdPlugin
open Scripted
open World (getsOf)

variable {env : Env} {w w' : World} {u : CStr}

/-! ### Registrations in a trace -/

def Action.registers : Action → Bool
  | .register _ => true
  | _ => false

/-- The chart of a CHART line from the table. -/
def Action.chart? : Action → Option NdChart
  | .print _ (.chart _ chart _) => some chart
  | _ => none

/-- The charts announced before the next registration. -/
def announcedCharts (after : List Event) : List NdChart :=
  (after.takeWhile fun e => !e.action.registers).filterMap (·.action.chart?)

/-- The latest registration of the UPS announced these charts. -/
def LatestRegistration (u : CStr) (trace : List Event) (charts : List NdChart) : Prop :=
  ∃ before n after, trace = before ++ ⟨n, .register u⟩ :: after ∧
    (∀ e ∈ after, e.action ≠ .register u) ∧ announcedCharts after = charts

theorem announcedCharts_append (a b : List Event) (hb : announcedCharts b = []) :
    announcedCharts (a ++ b) = announcedCharts a := by
  induction a with
  | nil => exact hb
  | cons e a ih =>
    unfold announcedCharts at *
    cases he : e.action.registers with
    | true => simp [he]
    | false => simp [he, List.filterMap_cons, ih]

theorem LatestRegistration.extend {trace more : List Event} {charts : List NdChart}
    (h : LatestRegistration u trace charts) (hmore : ∀ e ∈ more, e.action ≠ .register u)
    (hcharts : announcedCharts more = []) : LatestRegistration u (trace ++ more) charts := by
  obtain ⟨before, n, after, rfl, hafter, heq⟩ := h
  refine ⟨before, n, after ++ more, by simp, List.forall_mem_append.mpr ⟨hafter, hmore⟩, ?_⟩
  rw [announcedCharts_append after more hcharts, heq]

/-! ### What scripts announce -/

def chartsOf (script : List Action) : List NdChart := script.filterMap Action.chart?

theorem chartsOf_append (a b : List Action) : chartsOf (a ++ b) = chartsOf a ++ chartsOf b :=
  List.filterMap_append

/-- A script that registers nobody announces its charts. -/
theorem announcedCharts_script (n : Nat) (script : List Action)
    (h : ∀ a ∈ script, a.registers = false) :
    announcedCharts (script.map (Event.mk n)) = chartsOf script := by
  have hall : (script.map (Event.mk n)).takeWhile (fun e => !e.action.registers) =
      script.map (Event.mk n) := by
    rw [List.takeWhile_eq_self_iff]
    intro e he
    obtain ⟨a, ha, rfl⟩ := List.mem_map.mp he
    simp [h a ha]
  rw [announcedCharts, hall, List.filterMap_map]
  rfl

theorem Announces.not_registers {a : Action} (h : Announces env u a) : a.registers = false := by
  cases h <;> rfl

theorem Collects.not_registers {dt : Nat} {a : Action} (h : Collects env u dt a) : a.registers = false := by
  cases h <;> rfl

theorem Collects.no_chart {dt : Nat} {a : Action} (h : Collects env u dt a) : a.chart? = none := by
  cases h <;> rfl

theorem labelScript_charts (style : LabelStyle) (label var : CStr) (k : Nat) :
    chartsOf (labelScript env u style label var k) = [] := by
  unfold labelScript
  cases env.get k u var <;> rfl

theorem varLabelsScript_charts (style : LabelStyle) (labels : List (CStr × CStr)) (k : Nat) :
    chartsOf (varLabelsScript env u style labels k) = [] := by
  induction labels generalizing k with
  | nil => rfl
  | cons label rest ih => rw [varLabelsScript, chartsOf_append, labelScript_charts, ih, List.append_nil]

theorem dimensionsScript_charts (quoted : Bool) (names : List CStr) :
    chartsOf (dimensionsScript quoted names) = [] := by
  refine List.filterMap_eq_nil_iff.mpr fun a ha => ?_
  obtain ⟨name, -, rfl⟩ := List.mem_map.mp ha
  rfl

theorem labelsScript_charts (style nameStyle : LabelStyle) (k : Nat) :
    chartsOf (labelsScript env u style nameStyle k) = [] := by
  rw [labelsScript, chartsOf_append, varLabelsScript_charts]
  rfl

theorem statusBlock_charts (k : Nat) : chartsOf (statusBlock env u k) = [] := by
  rw [statusBlock, chartsOf_append, dimensionsScript_charts, List.append_nil]
  exact labelsScript_charts _ _ _

theorem chartBlock_charts (chart : NdChart) (k : Nat) : chartsOf (chartBlock env u chart k) = [chart] := by
  rw [chartBlock, chartsOf_append, dimensionsScript_charts, List.append_nil]
  exact congrArg (chart :: ·) (labelsScript_charts _ _ _)

theorem availableScript_charts (chart : NdChart) (k : Nat) :
    chartsOf (availableScript env u chart k) = [] := by
  unfold availableScript powerQueries
  split
  · split
    · rfl
    · split <;> rfl
  · rfl

/-- The chart loop announces the charts it keeps. -/
theorem chartsScript_charts (charts : List NdChart) (k : Nat) :
    chartsOf (chartsScript env u charts k) = keptCharts env u charts k := by
  induction charts generalizing k with
  | nil => rfl
  | cons chart rest ih =>
    rw [chartsScript, keptCharts, chartsOf_append, ih, chartScript, chartsOf_append, availableScript_charts]
    cases available env u chart k with
    | false => rfl
    | true => simp [chartBlock_charts]

/-- What follows the `register` event of a registration. -/
def registerRest (env : Env) (u : CStr) (id k : Nat) : List Action :=
  .setName u (cleanName u) :: statusBlock env u k ++ [.create id] ++
    chartsScript env u ndCharts (k + getsOf (statusBlock env u k)) ++
    [.setVars u ⟨id, varsOf (registeredCharts env u k)⟩]

theorem registerScript_eq (id k : Nat) :
    registerScript env u id k = .register u :: registerRest env u id k := rfl

theorem registerRest_not_registers (id k : Nat) : ∀ a ∈ registerRest env u id k, a.registers = false := by
  refine List.forall_mem_append.mpr ⟨List.forall_mem_append.mpr ⟨List.forall_mem_append.mpr
    ⟨List.forall_mem_cons.mpr ⟨rfl, ?_⟩, ?_⟩, ?_⟩, ?_⟩
  · exact fun a ha => (statusBlock_announces env u k a ha).not_registers
  · exact List.forall_mem_singleton.mpr rfl
  · exact fun a ha => (chartsScript_announces env u ndCharts _ a ha).not_registers
  · exact List.forall_mem_singleton.mpr rfl

theorem registerRest_charts (id k : Nat) :
    chartsOf (registerRest env u id k) = registeredCharts env u k := by
  have hstatus : chartsOf (.setName u (cleanName u) :: statusBlock env u k) = [] :=
    (List.filterMap_cons_none rfl).trans (statusBlock_charts k)
  have hcreate : chartsOf [.create id] = [] := rfl
  have hend : chartsOf [.setVars u ⟨id, varsOf (registeredCharts env u k)⟩] = [] := rfl
  rw [registerRest, chartsOf_append, chartsOf_append, chartsOf_append, hstatus, hcreate, hend,
    chartsScript_charts, List.append_nil, List.append_nil, List.nil_append, registeredCharts]

/-! ### The invariant -/

/-- For every registered UPS, the charts on record are those of its latest registration. -/
def Recorded (w : World) : Prop :=
  ∀ u ∈ w.ndUpsName.keys, LatestRegistration u w.trace (w.charts u)

theorem not_register_of_registers {a : Action} (h : a.registers = false) : a ≠ .register u := by
  intro heq
  rw [heq] at h
  cases h

/-- A script that starts no registration, announces nothing and keeps names and charts. -/
theorem Recorded.bystander (h : Recorded w) (script : List Action)
    (hs : ∀ a ∈ script, a.registers = false) (hcharts : chartsOf script = [])
    (hkeys : ∀ u ∈ (w.play script).ndUpsName.keys,
      u ∈ w.ndUpsName.keys ∧ (w.play script).ndUpsVars.get u = w.ndUpsVars.get u) :
    Recorded (w.play script) := by
  intro u hu
  obtain ⟨hu, hvars⟩ := hkeys u hu
  have hsame : (w.play script).charts u = w.charts u := by
    unfold World.charts
    rw [hvars]
  rw [hsame, World.play_trace]
  refine (h u hu).extend ?_ ?_
  · intro e he
    obtain ⟨a, ha, rfl⟩ := List.mem_map.mp he
    exact not_register_of_registers (hs a ha)
  · rw [announcedCharts_script _ _ hs, hcharts]

theorem Recorded.register (h : Recorded w) (env : Env) (v : CStr) :
    Recorded (w.play (registerScript env v w.dicts w.gets)) := by
  have hreg := play_registerScript env v w
  have htrace : (w.play (registerScript env v w.dicts w.gets)).trace = w.trace ++
      ⟨w.cycle, .register v⟩ :: (registerRest env v w.dicts w.gets).map (Event.mk w.cycle) :=
    World.play_trace w _
  intro u hu
  rw [htrace]
  by_cases huv : u = v
  · subst huv
    rw [hreg.charts_self]
    refine ⟨w.trace, w.cycle, _, rfl, ?_, ?_⟩
    · intro e he
      obtain ⟨a, ha, rfl⟩ := List.mem_map.mp he
      exact not_register_of_registers (registerRest_not_registers _ _ a ha)
    · rw [announcedCharts_script _ _ (registerRest_not_registers _ _), registerRest_charts]
  · rw [hreg.name] at hu
    have hu' : u ∈ w.ndUpsName.keys := (OrderedDict.mem_keys_set.mp hu).resolve_left huv
    have hsame : (w.play (registerScript env v w.dicts w.gets)).charts u = w.charts u := by
      unfold World.charts
      rw [hreg.get_vars, if_neg huv]
    rw [hsame]
    refine (h u hu').extend (List.forall_mem_cons.mpr ⟨?_, ?_⟩) rfl
    · exact fun heq => huv (Action.register.inj heq).symm
    · intro e he
      obtain ⟨a, ha, rfl⟩ := List.mem_map.mp he
      exact not_register_of_registers (registerRest_not_registers _ _ a ha)

theorem Recorded.move (h : Recorded w) (hl : Lockstep w) (hm : Move env w w') : Recorded w' := by
  cases hm with
  | tick => exact h
  | list answer => exact h.bystander [.listNext answer] (by simp [Action.registers]) rfl fun u hu => ⟨hu, rfl⟩
  | flush => exact h.bystander [.flush] (by simp [Action.registers]) rfl fun u hu => ⟨hu, rfl⟩
  | nameless =>
    intro u hu
    have hnil : u ≠ [] := hl.named u hu
    refine (h u hu).extend (List.forall_mem_singleton.mpr ?_) rfl
    exact fun heq => hnil (Action.register.inj heq).symm
  | register u hu => exact h.register env u
  | metrics u hu =>
    obtain ⟨rest, heq, hrest⟩ := metricsDeed_actions env u (env.dt w.cycle) (w.charts u) w.gets
    have hsame := play_metricsDeed env u (env.dt w.cycle) (w.charts u) w.gets w
    rw [heq] at hsame ⊢
    refine h.bystander _ (List.forall_mem_cons.mpr ⟨rfl, fun a ha => (hrest a ha).not_registers⟩) ?_ ?_
    · exact List.filterMap_eq_nil_iff.mpr
        (List.forall_mem_cons.mpr ⟨rfl, fun a ha => (hrest a ha).no_chart⟩)
    · intro v hv
      rw [hsame.name] at hv
      exact ⟨hv, by rw [hsame.vars]; rfl⟩
  | unmark u hu => exact h.bystander [.setSeen u false] (by simp [Action.registers]) rfl fun u hu => ⟨hu, rfl⟩
  | drop u =>
    have hdrop := play_dropScript w u
    have hscript : ∀ a ∈ dropScript w u, a.registers = false ∧ a.chart? = none := by
      unfold dropScript
      cases w.ndUpsVars.get u <;> simp [Action.registers, Action.chart?]
    refine h.bystander _ (fun a ha => (hscript a ha).1)
      (List.filterMap_eq_nil_iff.mpr fun a ha => (hscript a ha).2) fun v hv => ?_
    rw [hdrop.name, OrderedDict.mem_keys_del] at hv
    exact ⟨hv.1, by rw [hdrop.vars, OrderedDict.get_del, if_neg hv.2]⟩

theorem recorded_run (env : Env) (t : Nat) : Recorded (run env t).world :=
  run_moves (fun _ hu => nomatch hu) (fun _ _ hl h hm => h.move hl hm) t

/-! ### Lookups -/

theorem statusDeed_stop {dt k : Nat} {why : Stop} (h : (statusDeed env u dt k).stop = some why) :
    ∃ fault, why = .scan fault := by
  unfold statusDeed at h
  split at h
  · cases h
  · next fault _ => exact ⟨fault, (Option.some.inj h).symm⟩

theorem varsDeed_stop {dt k : Nat} {charts : List NdChart} {why : Stop}
    (h : (varsDeed env u dt charts k).stop = some why) : why = .nullValue := by
  induction charts generalizing k with
  | nil => cases h
  | cons chart rest ih =>
    unfold varsDeed at h
    split at h
    · exact (Option.some.inj h).symm
    · exact ih h

/-- What the metrics of a UPS can stop the run with. -/
theorem metricsDeed_stop {dt k : Nat} {charts : List NdChart} {why : Stop}
    (h : (metricsDeed env u dt charts k).stop = some why) :
    (∃ fault, why = .scan fault) ∨ why = .nullValue := by
  unfold metricsDeed at h
  rcases (specialDeed env u dt k).andThen_cases
      (varsDeed env u dt charts (k + 1 + getsOf (powerScript env u dt (k + 1)))) with ⟨-, heq⟩ | ⟨-, heq⟩
  · rw [heq] at h
    have hspecial : ((statusDeed env u dt k).andThen ⟨powerScript env u dt (k + 1), none⟩).stop = some why := h
    rcases (statusDeed env u dt k).andThen_cases ⟨powerScript env u dt (k + 1), none⟩ with
      ⟨-, heq'⟩ | ⟨-, heq'⟩
    · rw [heq'] at hspecial
      exact Or.inl (statusDeed_stop hspecial)
    · rw [heq'] at hspecial
      cases hspecial
  · rw [heq] at h
    exact Or.inr (varsDeed_stop h)

theorem collectDeed_stop {dt : Nat} {why : Stop} (h : (collectDeed env w dt u).stop = some why) :
    (∃ fault, why = .scan fault) ∨ why = .nullValue ∨ why = .nullName := by
  rcases collectDeed_cases env w dt u with ⟨-, heq⟩ | ⟨-, -, heq⟩ | ⟨-, -, heq⟩
  · rw [heq] at h
    exact (metricsDeed_stop h).imp_right Or.inl
  · rw [heq] at h
    exact Or.inr (Or.inr (Option.some.inj h).symm)
  · rw [heq] at h
    exact (metricsDeed_stop h).imp_right Or.inl

/-- No run ends on a destroyed dictionary. -/
theorem run_not_destroyedVars (env : Env) (t : Nat) : (run env t).pc ≠ .stopped .destroyedVars := by
  refine run_invariant (P := fun m => m.pc ≠ .stopped .destroyedVars) (fun h => nomatch h) ?_ t
  intro m m' _ hm hs hpc
  cases hs with
  | register w u rest complete =>
    rcases goOn_cases (registerDeed env u w.dicts w.gets) (.startup (listAnswers rest complete))
      with ⟨-, heq⟩ | ⟨why, hstop, heq⟩
    · exact nomatch heq.symm.trans hpc
    · obtain rfl := Pc.stopped.inj (heq.symm.trans hpc)
      unfold registerDeed at hstop
      split at hstop <;> cases hstop
  | collect w u rest complete =>
    rcases goOn_cases (collectDeed env w (env.dt w.cycle) u) (.listing (listAnswers rest complete))
      with ⟨-, heq⟩ | ⟨why, hstop, heq⟩
    · exact nomatch heq.symm.trans hpc
    · obtain rfl := Pc.stopped.inj (heq.symm.trans hpc)
      rcases collectDeed_stop hstop with ⟨fault, hwhy⟩ | hwhy | hwhy <;> cases hwhy
  | listed w =>
    rcases afterListing_cases env w with heq | heq | heq <;> exact nomatch heq.symm.trans hpc
  | stay why w => exact hm hpc
  | _ => cases hpc

theorem Lockstep.lookup (env : Env) {p : Ptr} (hl : Lockstep w) (hu : u ≠ []) (h : Lists w p u) :
    ∃ w', lookupCleanName env p w = .ok (cleanName u) w' ∧ Lockstep w' ∧ u ∈ w'.ndUpsName.keys ∧
      Lists w' p u := by
  have hlookup : Performs World.act (lookupCleanName env p) w _ _ := lookupCleanName_performs hl h
  by_cases hmem : u ∈ w.ndUpsName.keys
  · rw [if_pos hmem] at hlookup
    exact ⟨w, hlookup, hl, hmem, h⟩
  · rw [if_neg hmem, registerDeed, if_neg hu] at hlookup
    have hreg := play_registerScript env u w
    refine ⟨_, hlookup, hl.register hu hreg, ?_, h.conn, h.reads.of_buf (by rw [h.conn]; exact hreg.list)⟩
    rw [hreg.name]
    exact OrderedDict.mem_keys_set.mpr (Or.inl rfl)

/-- **The dictionaries stay in lockstep.** The stored charts of a UPS are those its latest
registration announced, the dictionary that holds them is alive, and in the body of the
collection loop the lookups of the cleaned name and of that dictionary find them. -/
theorem dictionaries_in_lockstep (env : Env) (t : Nat) :
    (run env t).world.ndUpsName.keys = (run env t).world.ndUpsVars.keys ∧
    (∀ k ∈ (run env t).world.ndUpsSeen.keys, k ∈ (run env t).world.ndUpsName.keys) ∧
    (∀ k v, (run env t).world.ndUpsName.get k = some v → v = cleanName k) ∧
    (∀ k vars, (run env t).world.ndUpsVars.get k = some vars →
      vars.id ∉ (run env t).world.destroyed ∧ vars.charts.values.Sublist ndCharts ∧
        LatestRegistration k (run env t).world.trace vars.charts.values) ∧
    (∀ u answers p, u ≠ [] → (run env t).pc = .listing (upsRow u :: answers) →
      Lists ((run env t).world.act (.listNext (upsRow u))) p u →
      ∃ w, lookupCleanName env p ((run env t).world.act (.listNext (upsRow u))) = .ok (cleanName u) w ∧
        ∀ dt w', sendSpecialMetrics env dt p (cleanName u) w = .ok () w' →
          ∃ vars, w'.ndUpsVars.get u = some vars ∧ vars.id ∉ w'.destroyed) ∧
    (run env t).pc ≠ .stopped .destroyedVars ∧ (run env t).world.destroyed.Nodup := by
  have hl := (sound_run env t).lockstep
  refine ⟨hl.keys, hl.seen, hl.clean, ?_, ?_, run_not_destroyedVars env t, hl.once⟩
  · intro k vars hk
    obtain ⟨charts, hsub, heq⟩ := hl.charts k vars hk
    have hmem : k ∈ (run env t).world.ndUpsName.keys := by
      rw [hl.keys]
      exact OrderedDict.mem_keys_of_get hk
    have hrecorded := recorded_run env t k hmem
    simp only [World.charts, hk] at hrecorded
    refine ⟨hl.alive k vars hk, ?_, hrecorded⟩
    rw [heq, varsOf_values hsub]
    exact hsub
  · intro u answers p hu _ hp
    have hl1 : Lockstep ((run env t).world.act (.listNext (upsRow u))) := hl.of_eq rfl rfl rfl rfl rfl
    obtain ⟨w, hlookup, hlw, hmem, hlists⟩ := hl1.lookup env hu hp
    refine ⟨w, hlookup, fun dt w' hspecial => ?_⟩
    obtain ⟨vars, hv⟩ := hlw.get_vars hmem
    have hsame := play_specialDeed env u dt w.gets w
    have hperforms : Performs World.act (sendSpecialMetrics env dt p (cleanName u)) w _ () :=
      sendSpecialMetrics_performs hlists dt
    rw [Performs, hspecial] at hperforms
    cases hstop : (specialDeed env u dt w.gets).stop with
    | some why =>
      rw [hstop] at hperforms
      cases hperforms
    | none =>
      rw [hstop] at hperforms
      cases hperforms
      refine ⟨vars, hsame.vars ▸ hv, ?_⟩
      rw [hsame.destroyed]
      exact hlw.alive u vars hv

end UpsdPlugin
