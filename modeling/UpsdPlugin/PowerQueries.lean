import UpsdPlugin.Declarations

/-! What the plugin learns about the load usage.

`register_ups` declares the chart `load_usage` when `ups.realpower` is answered, or
both `ups.load` and `ups.realpower.nominal` (`registerScript_declares`).
`send_metric_ups_realpower` asks the same questions again in every cycle and sends a frame
exactly when they are answered (`powerScript_matched`). -/
namespace UpsdPlugin
open Scripted
open World (getsOf)

/-! ### Queries for the load usage -/

/-- A query of `register_ups` for `ups.realpower` by which it finds that a UPS with this
cleaned name gives the load usage. -/
def Action.FindsPower (env : Env) (type : CStr) : Action → Prop
  | .get _ .registerUps k u var _ => var = realpowerVar ∧ powerAnswered env u k = true ∧ cleanName u = type
  | _ => False

/-- The load usage chart is declared for a UPS with this cleaned name. -/
def PowerDeclared (lines : List (Origin × Line)) (type : CStr) : Prop :=
  DeclaredIn lines (fullId type loadUsage.chartId) loadUsage.chartDimension

section Registration
variable {env : Env} {u : CStr}

theorem labelScript_finds (style : LabelStyle) {label var : CStr} (k : Nat) (type : CStr)
    (hvar : var ≠ realpowerVar) : ∀ a ∈ labelScript env u style label var k, ¬ a.FindsPower env type := by
  unfold labelScript
  refine List.forall_mem_cons.mpr ⟨fun h => hvar h.1, ?_⟩
  cases env.get k u var with
  | none => exact List.forall_mem_nil _
  | some value => exact List.forall_mem_singleton.mpr id

theorem varLabelsScript_finds (style : LabelStyle) (type : CStr) {vars : List (CStr × CStr)} (k : Nat)
    (hvars : ∀ v ∈ vars, v.2 ≠ realpowerVar) :
    ∀ a ∈ varLabelsScript env u style vars k, ¬ a.FindsPower env type := by
  induction vars generalizing k with
  | nil => exact List.forall_mem_nil _
  | cons v rest ih =>
    refine List.forall_mem_append.mpr ⟨labelScript_finds style k type (hvars v (List.mem_cons_self ..)), ?_⟩
    exact ih (k + 1) fun x hx => hvars x (List.mem_cons_of_mem v hx)

/-- No label is taken from `ups.realpower`. -/
theorem labelVars_ne_realpower : ∀ v ∈ labelVars, v.2 ≠ realpowerVar := by decide

theorem block_finds {head : Line} (style nameStyle : LabelStyle) (quoted : Bool) (names : List CStr)
    (k : Nat) (type : CStr) :
    ∀ a ∈ .print .registerUps head :: labelsScript env u style nameStyle k ++ dimensionsScript quoted names,
      ¬ a.FindsPower env type := by
  refine List.forall_mem_append.mpr ⟨List.forall_mem_cons.mpr ⟨id, ?_⟩, ?_⟩
  · refine List.forall_mem_append.mpr ⟨varLabelsScript_finds style type k labelVars_ne_realpower, ?_⟩
    exact List.forall_mem_cons.mpr ⟨id, List.forall_mem_singleton.mpr id⟩
  · intro a ha
    obtain ⟨name, -, rfl⟩ := List.mem_map.mp ha
    exact id

theorem powerQueries_cases {k : Nat} {a : Action} (h : a ∈ powerQueries env u k) :
    a = ask env u .registerUps realpowerVar k ∨ a = ask env u .registerUps loadVar (k + 1) ∨
      a = ask env u .registerUps realpowerNominalVar (k + 2) := by
  unfold powerQueries at h
  rcases List.mem_cons.mp h with h | h
  · exact Or.inl h
  · split at h
    · cases h
    · rcases List.mem_cons.mp h with h | h
      · exact Or.inr (Or.inl h)
      · split at h
        · exact Or.inr (Or.inr (List.mem_singleton.mp h))
        · cases h

/-- The queries that decide on a chart find the load usage when they decide for it. -/
theorem availableScript_finds (chart : NdChart) (k : Nat) (type : CStr) :
    (∃ a ∈ availableScript env u chart k, a.FindsPower env type) ↔
      chart.nutVariable = realpowerVar ∧ available env u chart k = true ∧ cleanName u = type := by
  unfold availableScript available
  by_cases hvar : chart.nutVariable = realpowerVar
  · rw [if_pos hvar, if_pos hvar]
    constructor
    · intro h
      obtain ⟨a, ha, hfinds⟩ := h
      rcases powerQueries_cases ha with rfl | rfl | rfl
      · exact ⟨hvar, hfinds.2⟩
      · exact absurd hfinds.1 (by decide)
      · exact absurd hfinds.1 (by decide)
    · intro h
      exact ⟨ask env u .registerUps realpowerVar k, List.mem_cons_self .., rfl, h.2⟩
  · rw [if_neg hvar]
    constructor
    · intro h
      obtain ⟨a, ha, hfinds⟩ := h
      rw [List.mem_singleton.mp ha] at hfinds
      exact absurd hfinds.1 hvar
    · exact fun h => absurd h.1 hvar

theorem chartScript_finds (chart : NdChart) (k : Nat) (type : CStr) :
    (∃ a ∈ chartScript env u chart k, a.FindsPower env type) ↔
      chart.nutVariable = realpowerVar ∧ available env u chart k = true ∧ cleanName u = type := by
  rw [← availableScript_finds]
  constructor
  · intro h
    obtain ⟨a, ha, hfinds⟩ := h
    rcases List.mem_append.mp ha with ha | ha
    · exact ⟨a, ha, hfinds⟩
    · split at ha
      · exact absurd hfinds (block_finds _ _ _ _ _ _ a ha)
      · cases ha
  · intro h
    obtain ⟨a, ha, hfinds⟩ := h
    exact ⟨a, List.mem_append_left _ ha, hfinds⟩

theorem chartsScript_finds (env : Env) (u : CStr) (charts : List NdChart) (k : Nat) (type : CStr) :
    (∃ a ∈ chartsScript env u charts k, a.FindsPower env type) ↔
      cleanName u = type ∧ ∃ chart ∈ keptCharts env u charts k, chart.nutVariable = realpowerVar := by
  induction charts generalizing k with
  | nil => simp [chartsScript, keptCharts]
  | cons chart rest ih =>
    unfold chartsScript keptCharts
    simp only [List.mem_append, or_and_right, exists_or, ih, chartScript_finds]
    cases available env u chart k with
    | false => simp
    | true =>
      simp only [if_true, List.mem_singleton, exists_eq_left, true_and, and_or_left]
      rw [and_comm]

/-- Only one chart of the table is about `ups.realpower`. -/
theorem eq_loadUsage {chart : NdChart} (h : chart ∈ ndCharts) (hvar : chart.nutVariable = realpowerVar) :
    chart = loadUsage :=
  List.inj_on_of_nodup_map ndCharts_variables_nodup h (by decide) hvar

/-- A registration finds the load usage exactly when it records the load usage chart. -/
theorem registerScript_finds (id k : Nat) (type : CStr) :
    (∃ a ∈ registerScript env u id k, a.FindsPower env type) ↔
      cleanName u = type ∧ loadUsage ∈ registeredCharts env u k := by
  have hcharts := chartsScript_finds env u ndCharts (k + getsOf (statusBlock env u k)) type
  constructor
  · intro h
    obtain ⟨a, ha, hfinds⟩ := h
    simp only [registerScript, List.mem_append, List.mem_cons, List.not_mem_nil, or_false] at ha
    rcases ha with ((((rfl | rfl) | ha) | rfl) | ha) | rfl
    · exact absurd hfinds not_false
    · exact absurd hfinds not_false
    · exact absurd hfinds (block_finds _ _ _ _ _ _ a ha)
    · exact absurd hfinds not_false
    · obtain ⟨htype, chart, hchart, hvar⟩ := hcharts.mp ⟨a, ha, hfinds⟩
      obtain rfl := eq_loadUsage ((keptCharts_sublist env u ndCharts _).subset hchart) hvar
      exact ⟨htype, hchart⟩
    · exact absurd hfinds not_false
  · intro h
    obtain ⟨a, ha, hfinds⟩ := hcharts.mpr ⟨h.1, loadUsage, h.2, rfl⟩
    refine ⟨a, ?_, hfinds⟩
    simp only [registerScript, List.mem_append]
    exact Or.inl (Or.inr ha)

/-- A registration declares the load usage chart exactly when it records it. -/
theorem registerScript_declares (id k : Nat) (v : CStr) :
    PowerDeclared (printedOf (registerScript env u id k)) (cleanName v) ↔
      cleanName u = cleanName v ∧ loadUsage ∈ registeredCharts env u k := by
  obtain ⟨blocks, hemits, hdecl, hall⟩ := registerScript_emits env u id k
  rw [PowerDeclared, show printedOf (registerScript env u id k) = _ from hemits, blocks_declaredIn]
  constructor
  · intro h
    obtain ⟨b, hb, hid, -⟩ := h
    obtain ⟨b', hb', heq⟩ := List.mem_map.mp hb
    cases heq
    obtain ⟨c, hc, hdeclares⟩ := hdecl b hb'
    have hknown : c.Known := hc.known (registeredCharts_sublist env u k).subset
    have hload : loadUsage ∈ ndCharts := by decide
    obtain ⟨hname, rfl⟩ := (Chart.fullId_inj (d := .var loadUsage) hknown hload).mp (hdeclares.id.symm.trans hid)
    exact ⟨hname, hc⟩
  · intro h
    obtain ⟨b, hb, hdeclares⟩ := hall (.var loadUsage) h.2
    refine ⟨b, List.mem_map_of_mem hb, ?_, ?_⟩
    · rw [hdeclares.id, h.1]
      rfl
    · rw [hdeclares.names]
      exact List.mem_singleton.mpr rfl

end Registration

/-! ### The frames of `send_metric_ups_realpower` -/

/-- The BEGIN line of a frame for the load usage chart of a UPS with this cleaned name. -/
def Action.SendsPower (type : CStr) : Action → Prop
  | .print .upsRealpower (.begin t name _) => t = type ∧ name = loadUsage.chartId
  | _ => False

instance (type : CStr) : DecidablePred (Action.SendsPower type) := by
  intro a
  unfold Action.SendsPower
  split <;> infer_instance

/-- A query of `send_metric_ups_realpower` for `ups.realpower` by which it learns the load
usage of a UPS with this cleaned name. -/
def Action.LearnsPower (env : Env) (type : CStr) : Action → Prop
  | .get _ .upsRealpower k u var _ => var = realpowerVar ∧ powerAnswered env u k = true ∧ cleanName u = type
  | _ => False

theorem Action.FindsPower.get {env : Env} {type : CStr} {a : Action} (h : a.FindsPower env type) :
    ∃ conn k u reply, a = .get conn .registerUps k u realpowerVar reply ∧
      powerAnswered env u k = true ∧ cleanName u = type := by
  unfold Action.FindsPower at h
  split at h
  · obtain ⟨rfl, h⟩ := h
    exact ⟨_, _, _, _, rfl, h⟩
  · exact absurd h not_false

theorem Action.LearnsPower.get {env : Env} {type : CStr} {a : Action} (h : a.LearnsPower env type) :
    ∃ conn k u reply, a = .get conn .upsRealpower k u realpowerVar reply ∧
      powerAnswered env u k = true ∧ cleanName u = type := by
  unfold Action.LearnsPower at h
  split at h
  · obtain ⟨rfl, h⟩ := h
    exact ⟨_, _, _, _, rfl, h⟩
  · exact absurd h not_false

theorem Action.SendsPower.print {type : CStr} {a : Action} (h : a.SendsPower type) :
    ∃ dt, a = .print .upsRealpower (.begin type loadUsage.chartId dt) := by
  unfold Action.SendsPower at h
  split at h
  · obtain ⟨rfl, rfl⟩ := h
    exact ⟨_, rfl⟩
  · exact absurd h not_false

section Metrics
variable {env : Env} {u : CStr} {type : CStr}

/-- The load usage is sent in the script exactly when it is learned in it. -/
def Matched (env : Env) (type : CStr) : List Action → Prop :=
  Tied (Action.SendsPower type) (Action.LearnsPower env type)

theorem frame_matched {origin : Origin} (id : CStr) (dt : Nat) (values : List (CStr × Int))
    (h : origin ≠ .upsRealpower) : Matched env type (frame u origin id dt values) := by
  refine Tied.of_neither fun a ha => ?_
  simp only [frame, List.cons_append, List.mem_cons, List.mem_append, List.mem_map,
    List.not_mem_nil, or_false] at ha
  cases origin with
  | upsRealpower => exact absurd rfl h
  | _ =>
    rcases ha with rfl | ⟨value, -, rfl⟩ | rfl
    all_goals exact ⟨by rintro ⟨⟩, by rintro ⟨⟩⟩

theorem statusDeed_matched (dt k : Nat) : Matched env type (statusDeed env u dt k).actions := by
  unfold statusDeed
  split
  · exact .cons nofun nofun (frame_matched _ _ _ (by decide))
  · exact .single nofun nofun

theorem varsDeed_matched (dt : Nat) (charts : List NdChart) (k : Nat) :
    Matched env type (varsDeed env u dt charts k).actions := by
  induction charts generalizing k with
  | nil => exact .nil
  | cons chart rest ih =>
    unfold varsDeed
    split
    · exact .cons nofun nofun (.single nofun nofun)
    · exact Tied.append (.cons nofun nofun (.cons nofun nofun (frame_matched _ _ _ (by decide)))) (ih _)

/-- The queries of `send_metric_ups_realpower`, and its conversions. -/
inductive PowerQuery (env : Env) (u : CStr) (k : Nat) : Action → Prop where
  | realpower : PowerQuery env u k (ask env u .upsRealpower realpowerVar k)
  | load : PowerQuery env u k (ask env u .upsRealpower loadVar (k + 1))
  | nominal : PowerQuery env u k (ask env u .upsRealpower realpowerNominalVar (k + 2))
  | convert (value : CStr) : PowerQuery env u k (.str2ndd (some value))

/-- `send_metric_ups_realpower` queries and, if the load usage is answered, sends a frame. -/
theorem powerScript_cases (env : Env) (u : CStr) (dt k : Nat) :
    ∃ queries, ask env u .upsRealpower realpowerVar k ∈ queries ∧ (∀ a ∈ queries, PowerQuery env u k a) ∧
      ((powerAnswered env u k = true ∧
          ∃ realpower, powerScript env u dt k = queries ++ powerFrame u dt realpower) ∨
        (powerAnswered env u k = false ∧ powerScript env u dt k = queries)) := by
  unfold powerScript powerAnswered
  cases env.get k u realpowerVar with
  | some value =>
    refine ⟨[ask env u .upsRealpower realpowerVar k, .str2ndd (some value)], List.mem_cons_self .., ?_,
      Or.inl ⟨rfl, _, rfl⟩⟩
    exact List.forall_mem_cons.mpr ⟨.realpower, List.forall_mem_singleton.mpr (.convert value)⟩
  | none =>
    cases env.get (k + 1) u loadVar with
    | none =>
      refine ⟨_, List.mem_cons_self .., ?_, Or.inr ⟨rfl, rfl⟩⟩
      exact List.forall_mem_cons.mpr ⟨.realpower, List.forall_mem_singleton.mpr .load⟩
    | some load =>
      cases env.get (k + 2) u realpowerNominalVar with
      | none =>
        refine ⟨_, List.mem_cons_self .., ?_, Or.inr ⟨rfl, rfl⟩⟩
        exact List.forall_mem_cons.mpr ⟨.realpower, List.forall_mem_cons.mpr ⟨.load,
          List.forall_mem_cons.mpr ⟨.convert load, List.forall_mem_singleton.mpr .nominal⟩⟩⟩
      | some nominal =>
        refine ⟨[ask env u .upsRealpower realpowerVar k, ask env u .upsRealpower loadVar (k + 1),
          .str2ndd (some load), ask env u .upsRealpower realpowerNominalVar (k + 2),
          .str2ndd (some nominal)], List.mem_cons_self .., ?_, Or.inl ⟨rfl, _, rfl⟩⟩
        exact List.forall_mem_cons.mpr ⟨.realpower, List.forall_mem_cons.mpr ⟨.load,
          List.forall_mem_cons.mpr ⟨.convert load, List.forall_mem_cons.mpr ⟨.nominal,
            List.forall_mem_singleton.mpr (.convert nominal)⟩⟩⟩⟩

theorem PowerQuery.not_sends {k : Nat} {a : Action} (h : PowerQuery env u k a) : ¬ a.SendsPower type := by
  cases h <;> exact nofun

theorem PowerQuery.learns {k : Nat} {a : Action} (h : PowerQuery env u k a) (hl : a.LearnsPower env type) :
    powerAnswered env u k = true ∧ cleanName u = type := by
  cases h with
  | realpower => exact hl.2
  | load => exact absurd hl.1 (by decide)
  | nominal => exact absurd hl.1 (by decide)
  | convert value => exact absurd hl not_false

/-- The one place where the load usage is learned and sent. -/
theorem powerScript_matched (dt k : Nat) : Matched env type (powerScript env u dt k) := by
  obtain ⟨queries, hmem, hqueries, ⟨hanswered, realpower, heq⟩ | ⟨hanswered, heq⟩⟩ :=
    powerScript_cases env u dt k
  · rw [heq]
    constructor
    · intro h
      obtain ⟨a, ha, hsends⟩ := h
      refine ⟨_, List.mem_append_left _ hmem, rfl, hanswered, ?_⟩
      rcases List.mem_append.mp ha with ha | ha
      · exact absurd hsends (hqueries a ha).not_sends
      · simp only [powerFrame, frame, List.map_cons, List.map_nil, List.cons_append, List.nil_append,
          List.mem_cons, List.not_mem_nil, or_false] at ha
        rcases ha with rfl | rfl | rfl
        · exact hsends.1
        · exact absurd hsends not_false
        · exact absurd hsends not_false
    · intro h
      obtain ⟨a, ha, hlearns⟩ := h
      refine ⟨_, List.mem_append_right _ (List.mem_cons_self ..), ?_, rfl⟩
      rcases List.mem_append.mp ha with ha | ha
      · exact ((hqueries a ha).learns hlearns).2
      · simp only [powerFrame, frame, List.map_cons, List.map_nil, List.cons_append, List.nil_append,
          List.mem_cons, List.not_mem_nil, or_false] at ha
        rcases ha with rfl | rfl | rfl <;> exact absurd hlearns not_false
  · rw [heq]
    refine Tied.of_neither fun a ha => ⟨(hqueries a ha).not_sends, fun hlearns => ?_⟩
    rw [((hqueries a ha).learns hlearns).1] at hanswered
    cases hanswered

theorem metricsDeed_matched (dt : Nat) (charts : List NdChart) (k : Nat) :
    Matched env type (metricsDeed env u dt charts k).actions := by
  refine Tied.andThen (Tied.andThen (.single nofun nofun) ?_) (varsDeed_matched dt charts _)
  exact Tied.andThen (statusDeed_matched dt k) (powerScript_matched dt (k + 1))

end Metrics

end UpsdPlugin
