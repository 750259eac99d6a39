import UpsdPlugin.Plugin

/-! What the functions of the plugin do, as lists of actions.

A script is written over values: the name of the UPS, the replies of the
environment, and the number `k` of the first query it sends. No pointer, buffer
or dictionary occurs in it. `Refine` shows that the functions perform these
scripts. -/
namespace UpsdPlugin

abbrev Deed := Scripted.Deed Action Stop

open World (getsOf)

section Scripts
variable (env : Env) (u : CStr)

/-- Query number `k`. -/
def ask (origin : Origin) (var : CStr) (k : Nat) : Action :=
  .get .ups2 origin k u var (env.get k u var)

/-! ### Registration -/

/-- The variables published as labels. -/
def labelVars : List (CStr × CStr) :=
  [("battery_type".toList, "battery.type".toList), ("device_model".toList, "device.model".toList),
    ("device_serial".toList, "device.serial".toList),
    ("device_manufacturer".toList, "device.mfr".toList), ("device_type".toList, "device.type".toList)]

/-- A label is printed when its variable is answered. -/
def labelScript (style : LabelStyle) (label var : CStr) (k : Nat) : List Action :=
  ask env u .registerUps var k ::
    match env.get k u var with
    | none => []
    | some value => [.print .registerUps (.clabel style label value)]

def varLabelsScript (style : LabelStyle) : List (CStr × CStr) → Nat → List Action
  | [], _ => []
  | (label, var) :: rest, k =>
    labelScript env u style label var k ++ varLabelsScript style rest (k + 1)

def labelsScript (style nameStyle : LabelStyle) (k : Nat) : List Action :=
  varLabelsScript env u style labelVars k ++
    [.print .registerUps (.clabel nameStyle "ups_name".toList u), .print .registerUps .clabelCommit]

def dimensionsScript (quoted : Bool) (names : List CStr) : List Action :=
  names.map fun name => .print .registerUps (.dimension quoted name pluginPrecision)

def statusBlock (k : Nat) : List Action :=
  .print .registerUps (.chartStatus (cleanName u) env.updateEvery) ::
    labelsScript env u .bare .bare k ++ dimensionsScript false statusDimensions

/-- Whether queries from number `k` on give the load usage: from `ups.realpower`, or
else from `ups.load` and `ups.realpower.nominal`. -/
def powerAnswered (k : Nat) : Bool :=
  (env.get k u realpowerVar).isSome ||
    ((env.get (k + 1) u loadVar).isSome && (env.get (k + 2) u realpowerNominalVar).isSome)

/-- The queries of `register_ups` for the load usage. -/
def powerQueries (k : Nat) : List Action :=
  ask env u .registerUps realpowerVar k ::
    if (env.get k u realpowerVar).isSome then []
    else
      ask env u .registerUps loadVar (k + 1) ::
        if (env.get (k + 1) u loadVar).isSome then
          [ask env u .registerUps realpowerNominalVar (k + 2)]
        else []

/-- Whether `register_ups` declares a chart. -/
def available (chart : NdChart) (k : Nat) : Bool :=
  if chart.nutVariable = realpowerVar then powerAnswered env u k
  else (env.get k u chart.nutVariable).isSome

def availableScript (chart : NdChart) (k : Nat) : List Action :=
  if chart.nutVariable = realpowerVar then powerQueries env u k
  else [ask env u .registerUps chart.nutVariable k]

def chartBlock (chart : NdChart) (k : Nat) : List Action :=
  .print .registerUps (.chart (cleanName u) chart env.updateEvery) ::
    labelsScript env u .quoted .quotedName k ++ dimensionsScript true [chart.chartDimension]

def chartScript (chart : NdChart) (k : Nat) : List Action :=
  availableScript env u chart k ++
    if available env u chart k then
      chartBlock env u chart (k + getsOf (availableScript env u chart k))
    else []

def chartsScript : List NdChart → Nat → List Action
  | [], _ => []
  | chart :: rest, k =>
    chartScript env u chart k ++ chartsScript rest (k + getsOf (chartScript env u chart k))

/-- The charts among these that are declared. -/
def keptCharts : List NdChart → Nat → List NdChart
  | [], _ => []
  | chart :: rest, k =>
    (if available env u chart k then [chart] else []) ++
      keptCharts rest (k + getsOf (chartScript env u chart k))

/-- The per-UPS dictionary of these charts. -/
def varsOf (charts : List NdChart) : OrderedDict CStr NdChart :=
  charts.foldl (fun d chart => d.set chart.nutVariable chart) .empty

/-- The charts declared by a registration whose first query is number `k`. -/
def registeredCharts (k : Nat) : List NdChart :=
  keptCharts env u ndCharts (k + getsOf (statusBlock env u k))

/-- A registration of a UPS with a name; `id` is the per-UPS dictionary it makes. -/
def registerScript (id k : Nat) : List Action :=
  [.register u, .setName u (cleanName u)] ++ statusBlock env u k ++ [.create id] ++
    chartsScript env u ndCharts (k + getsOf (statusBlock env u k)) ++
    [.setVars u ⟨id, varsOf (registeredCharts env u k)⟩]

def registerDeed (id k : Nat) : Deed :=
  if u = [] then ⟨[.register u], some .nullName⟩ else ⟨registerScript env u id k, none⟩

/-! ### Collection -/

/-- The flags read from a reply to `ups.status`. -/
def statusOf : Option CStr → Except ScanFault UpsStatus
  | none => .ok {}
  | some value => scanStatus value

/-- BEGIN, SET for each value, END. -/
def frame (origin : Origin) (id : CStr) (dt : Nat) (values : List (CStr × Int)) : List Action :=
  .print origin (.begin (cleanName u) id dt) ::
    values.map (fun (name, value) => .print origin (.set name value)) ++ [.print origin .close]

def statusValues (status : UpsStatus) : List (CStr × Int) :=
  status.flags.map fun (name, flag) => (name, (flag.toNat : Int))

def statusDeed (dt k : Nat) : Deed :=
  match statusOf (env.get k u upsStatusVar) with
  | .ok status =>
    ⟨ask env u .upsStatus upsStatusVar k :: frame u .upsStatus statusId dt (statusValues status), none⟩
  | .error fault => ⟨[ask env u .upsStatus upsStatusVar k], some (.scan fault)⟩

def powerFrame (dt : Nat) (realpower : Ndd) : List Action :=
  frame u .upsRealpower loadUsage.chartId dt [(loadUsage.chartDimension, realpower.toInt64)]

def powerScript (dt k : Nat) : List Action :=
  ask env u .upsRealpower realpowerVar k ::
    match env.get k u realpowerVar with
    | some value =>
      .str2ndd (some value) :: powerFrame u dt ((str2ndd env.libm value).times pluginPrecision)
    | none =>
      ask env u .upsRealpower loadVar (k + 1) ::
        match env.get (k + 1) u loadVar with
        | none => []
        | some load =>
          .str2ndd (some load) :: ask env u .upsRealpower realpowerNominalVar (k + 2) ::
            match env.get (k + 2) u realpowerNominalVar with
            | none => []
            | some nominal =>
              .str2ndd (some nominal) ::
                powerFrame u dt
                  (((str2ndd env.libm load).div 100).mul ((str2ndd env.libm nominal).times pluginPrecision))

/-- One round of the loop over `ups_vars`, for a value that is there. -/
def varScript (dt : Nat) (chart : NdChart) (value : CStr) (k : Nat) : List Action :=
  ask env u .upsVars chart.nutVariable k :: .str2ndd (some value) ::
    frame u .upsVars chart.chartId dt
      [(chart.chartDimension, ((str2ndd env.libm value).times pluginPrecision).toInt64)]

def varsDeed (dt : Nat) : List NdChart → Nat → Deed
  | [], _ => ⟨[], none⟩
  | chart :: rest, k =>
    match env.get k u chart.nutVariable with
    | none => ⟨[ask env u .upsVars chart.nutVariable k, .str2ndd none], some .nullValue⟩
    | some value =>
      Scripted.Deed.andThen ⟨varScript env u dt chart value k, none⟩ (varsDeed dt rest (k + 1))

/-- Marking the UPS and sending the special cases. -/
def specialDeed (dt k : Nat) : Deed :=
  Scripted.Deed.andThen ⟨[.setSeen u true], none⟩ <|
    (statusDeed env u dt k).andThen ⟨powerScript env u dt (k + 1), none⟩

/-- The per-UPS body of the collection loop once the UPS is registered. -/
def metricsDeed (dt : Nat) (charts : List NdChart) (k : Nat) : Deed :=
  (specialDeed env u dt k).andThen
    (varsDeed env u dt charts (k + 1 + getsOf (powerScript env u dt (k + 1))))

/-! ### What the scripts are made of -/

/-- The queries and lines of a registration of `u`. -/
inductive Announces : Action → Prop where
  | ask (var : CStr) (k : Nat) : Announces (ask env u .registerUps var k)
  | status : Announces (.print .registerUps (.chartStatus (cleanName u) env.updateEvery))
  | chart (chart : NdChart) : Announces (.print .registerUps (.chart (cleanName u) chart env.updateEvery))
  | label (style : LabelStyle) (name value : CStr) : Announces (.print .registerUps (.clabel style name value))
  | commit : Announces (.print .registerUps .clabelCommit)
  | dimension (quoted : Bool) (name : CStr) :
      Announces (.print .registerUps (.dimension quoted name pluginPrecision))

/-- The queries, conversions and lines of sending the metrics of `u`. -/
inductive Collects (dt : Nat) : Action → Prop where
  | ask (origin : Origin) (var : CStr) (k : Nat) (h : origin ≠ .registerUps) :
      Collects dt (ask env u origin var k)
  | convert (arg : Option CStr) : Collects dt (.str2ndd arg)
  | begin (origin : Origin) (id : CStr) (h : origin ≠ .registerUps) :
      Collects dt (.print origin (.begin (cleanName u) id dt))
  | set (origin : Origin) (name : CStr) (value : Int) (h : origin ≠ .registerUps) :
      Collects dt (.print origin (.set name value))
  | close (origin : Origin) (h : origin ≠ .registerUps) : Collects dt (.print origin .close)

theorem labelScript_announces (style : LabelStyle) (label var : CStr) (k : Nat) :
    ∀ a ∈ labelScript env u style label var k, Announces env u a := by
  unfold labelScript
  refine List.forall_mem_cons.mpr ⟨.ask _ _, ?_⟩
  cases env.get k u var with
  | none => exact List.forall_mem_nil _
  | some value => exact List.forall_mem_singleton.mpr (.label _ _ _)

theorem varLabelsScript_announces (style : LabelStyle) (labels : List (CStr × CStr)) (k : Nat) :
    ∀ a ∈ varLabelsScript env u style labels k, Announces env u a := by
  induction labels generalizing k with
  | nil => exact List.forall_mem_nil _
  | cons label rest ih =>
    exact List.forall_mem_append.mpr ⟨labelScript_announces env u _ _ _ _, ih (k + 1)⟩

/-- A CHART line, labels and dimensions. -/
theorem block_announces {head : Line} (style nameStyle : LabelStyle) (quoted : Bool) (names : List CStr)
    (hhead : Announces env u (.print .registerUps head)) (k : Nat) :
    ∀ a ∈ .print .registerUps head :: labelsScript env u style nameStyle k ++ dimensionsScript quoted names,
      Announces env u a := by
  refine List.forall_mem_append.mpr ⟨List.forall_mem_cons.mpr ⟨hhead, ?_⟩, ?_⟩
  · refine List.forall_mem_append.mpr ⟨varLabelsScript_announces env u _ _ _, ?_⟩
    exact List.forall_mem_cons.mpr ⟨.label _ _ _, List.forall_mem_singleton.mpr .commit⟩
  · intro a ha
    obtain ⟨name, -, rfl⟩ := List.mem_map.mp ha
    exact .dimension _ _

theorem statusBlock_announces (k : Nat) : ∀ a ∈ statusBlock env u k, Announces env u a :=
  block_announces env u _ _ _ _ .status k

theorem chartBlock_announces (chart : NdChart) (k : Nat) :
    ∀ a ∈ chartBlock env u chart k, Announces env u a :=
  block_announces env u _ _ _ _ (.chart chart) k

theorem availableScript_announces (chart : NdChart) (k : Nat) :
    ∀ a ∈ availableScript env u chart k, Announces env u a := by
  unfold availableScript powerQueries
  split
  · refine List.forall_mem_cons.mpr ⟨.ask _ _, ?_⟩
    split
    · exact List.forall_mem_nil _
    · refine List.forall_mem_cons.mpr ⟨.ask _ _, ?_⟩
      split
      · exact List.forall_mem_singleton.mpr (.ask _ _)
      · exact List.forall_mem_nil _
  · exact List.forall_mem_singleton.mpr (.ask _ _)

theorem chartScript_announces (chart : NdChart) (k : Nat) :
    ∀ a ∈ chartScript env u chart k, Announces env u a := by
  refine List.forall_mem_append.mpr ⟨availableScript_announces env u chart k, ?_⟩
  split
  · exact chartBlock_announces env u chart _
  · exact List.forall_mem_nil _

theorem chartsScript_announces (charts : List NdChart) (k : Nat) :
    ∀ a ∈ chartsScript env u charts k, Announces env u a := by
  induction charts generalizing k with
  | nil => exact List.forall_mem_nil _
  | cons chart rest ih =>
    exact List.forall_mem_append.mpr ⟨chartScript_announces env u chart k, ih _⟩

theorem registerScript_cases {id k : Nat} {a : Action} (h : a ∈ registerScript env u id k) :
    a = .register u ∨ a = .setName u (cleanName u) ∨ a = .create id ∨
      a = .setVars u ⟨id, varsOf (registeredCharts env u k)⟩ ∨ Announces env u a := by
  simp only [registerScript, List.mem_append, List.mem_cons, List.not_mem_nil, or_false] at h
  rcases h with (((h | h) | h) | h) | h
  · exact h.imp_right Or.inl
  · exact Or.inr (Or.inr (Or.inr (Or.inr (statusBlock_announces env u k a h))))
  · exact Or.inr (Or.inr (Or.inl h))
  · exact Or.inr (Or.inr (Or.inr (Or.inr (chartsScript_announces env u ndCharts _ a h))))
  · exact Or.inr (Or.inr (Or.inr (Or.inl h)))

theorem frame_collects {origin : Origin} (id : CStr) (dt : Nat) (values : List (CStr × Int))
    (h : origin ≠ .registerUps) : ∀ a ∈ frame u origin id dt values, Collects env u dt a := by
  refine List.forall_mem_append.mpr ⟨List.forall_mem_cons.mpr ⟨.begin _ _ h, ?_⟩, ?_⟩
  · intro a ha
    obtain ⟨value, -, rfl⟩ := List.mem_map.mp ha
    exact .set _ _ _ h
  · exact List.forall_mem_singleton.mpr (.close _ h)

theorem statusDeed_collects (dt k : Nat) : ∀ a ∈ (statusDeed env u dt k).actions, Collects env u dt a := by
  unfold statusDeed
  split
  · exact List.forall_mem_cons.mpr ⟨.ask _ _ _ (by decide), frame_collects env u _ _ _ (by decide)⟩
  · exact List.forall_mem_singleton.mpr (.ask _ _ _ (by decide))

theorem powerScript_collects (dt k : Nat) : ∀ a ∈ powerScript env u dt k, Collects env u dt a := by
  unfold powerScript
  refine List.forall_mem_cons.mpr ⟨.ask _ _ _ (by decide), ?_⟩
  split
  · exact List.forall_mem_cons.mpr ⟨.convert _, frame_collects env u _ _ _ (by decide)⟩
  · refine List.forall_mem_cons.mpr ⟨.ask _ _ _ (by decide), ?_⟩
    split
    · exact List.forall_mem_nil _
    · refine List.forall_mem_cons.mpr ⟨.convert _, List.forall_mem_cons.mpr ⟨.ask _ _ _ (by decide), ?_⟩⟩
      split
      · exact List.forall_mem_nil _
      · exact List.forall_mem_cons.mpr ⟨.convert _, frame_collects env u _ _ _ (by decide)⟩

theorem varScript_collects (dt : Nat) (chart : NdChart) (value : CStr) (k : Nat) :
    ∀ a ∈ varScript env u dt chart value k, Collects env u dt a :=
  List.forall_mem_cons.mpr ⟨.ask _ _ _ (by decide),
    List.forall_mem_cons.mpr ⟨.convert _, frame_collects env u _ _ _ (by decide)⟩⟩

theorem varsDeed_collects (dt : Nat) (charts : List NdChart) (k : Nat) :
    ∀ a ∈ (varsDeed env u dt charts k).actions, Collects env u dt a := by
  induction charts generalizing k with
  | nil => exact List.forall_mem_nil _
  | cons chart rest ih =>
    unfold varsDeed
    split
    · exact List.forall_mem_cons.mpr ⟨.ask _ _ _ (by decide), List.forall_mem_singleton.mpr (.convert _)⟩
    · exact List.forall_mem_append.mpr ⟨varScript_collects env u _ _ _ _, ih _⟩

/-- The special cases begin with marking the UPS. -/
theorem specialDeed_actions (dt k : Nat) :
    ∃ rest, (specialDeed env u dt k).actions = .setSeen u true :: rest ∧
      ∀ a ∈ rest, Collects env u dt a := by
  refine ⟨_, rfl, Scripted.Deed.forall_andThen (statusDeed_collects env u dt k) ?_⟩
  exact powerScript_collects env u dt (k + 1)

theorem metricsDeed_actions (dt : Nat) (charts : List NdChart) (k : Nat) :
    ∃ rest, (metricsDeed env u dt charts k).actions = .setSeen u true :: rest ∧
      ∀ a ∈ rest, Collects env u dt a := by
  obtain ⟨special, hspecial, hcollects⟩ := specialDeed_actions env u dt k
  unfold metricsDeed
  rcases (specialDeed env u dt k).andThen_cases
      (varsDeed env u dt charts (k + 1 + getsOf (powerScript env u dt (k + 1)))) with ⟨-, heq⟩ | ⟨-, heq⟩
  · rw [heq]
    exact ⟨special, hspecial, hcollects⟩
  · rw [heq]
    refine ⟨_, congrArg (· ++ _) hspecial, ?_⟩
    exact List.forall_mem_append.mpr ⟨hcollects, varsDeed_collects env u dt _ _⟩

theorem metricsDeed_mem {dt : Nat} {charts : List NdChart} {k : Nat} {a : Action}
    (h : a ∈ (metricsDeed env u dt charts k).actions) : a = .setSeen u true ∨ Collects env u dt a := by
  obtain ⟨rest, heq, hrest⟩ := metricsDeed_actions env u dt charts k
  rw [heq] at h
  exact (List.mem_cons.mp h).imp_right (hrest a)

variable {env u}

theorem Announces.quiet {a : Action} (h : Announces env u a) : a.Quiet := by
  cases h <;> first | rfl | trivial

theorem Collects.quiet {dt : Nat} {a : Action} (h : Collects env u dt a) : a.Quiet := by
  cases h <;> first | rfl | trivial

end Scripts

/-- The charts recorded for a UPS. -/
def World.charts (w : World) (u : CStr) : List NdChart :=
  match w.ndUpsVars.get u with
  | none => []
  | some vars => vars.charts.values

theorem charts_of_vars {w w' : World} {u : CStr} (hv : w'.ndUpsVars.get u = w.ndUpsVars.get u) :
    w'.charts u = w.charts u := by
  unfold World.charts
  rw [hv]

/-- The per-UPS body of the collection loop. -/
def collectDeed (env : Env) (w : World) (dt : Nat) (u : CStr) : Deed :=
  if u ∈ w.ndUpsName.keys then metricsDeed env u dt (w.charts u) w.gets
  else
    (registerDeed env u w.dicts w.gets).andThen
      (metricsDeed env u dt (registeredCharts env u w.gets)
        (w.gets + getsOf (registerScript env u w.dicts w.gets)))

/-- Dropping a UPS. -/
def dropScript (w : World) (u : CStr) : List Action :=
  (match w.ndUpsVars.get u with
    | none => []
    | some vars => [.destroy vars.id]) ++
    [.delVars u, .delSeen u, .delName u]

theorem dropScript_cases {w : World} {u : CStr} {a : Action} (h : a ∈ dropScript w u) :
    (∃ vars, w.ndUpsVars.get u = some vars ∧ a = .destroy vars.id) ∨ a = .delVars u ∨
      a = .delSeen u ∨ a = .delName u := by
  unfold dropScript at h
  rcases List.mem_append.mp h with h | h
  · cases hv : w.ndUpsVars.get u with
    | none =>
      rw [hv] at h
      cases h
    | some vars =>
      rw [hv] at h
      exact Or.inl ⟨vars, rfl, List.mem_singleton.mp h⟩
  · simp only [List.mem_cons, List.not_mem_nil, or_false] at h
    exact Or.inr h

def sweepScript (w : World) (u : CStr) : List Action :=
  if wasSeen w u then [.setSeen u false] else dropScript w u

end UpsdPlugin
