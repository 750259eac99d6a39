import UpsdPlugin.Cycles
import UpsdPlugin.LoadUsage
import UpsdPlugin.Registration

/-! The frames of a cycle.

The body of the collection loop sends the status chart, then the load usage if
`send_metric_ups_realpower` finds it answered, then every chart of `ups_vars`. The frames of a
complete cycle are those of its bodies (`cycle_bodies`). -/
namespace UpsdPlugin
open Scripted

variable {env : Env} {w : World} {u : CStr}

/-- The chart id on a BEGIN line. -/
def Action.beginId? : Action → Option CStr
  | .print _ (.begin type name _) => some (fullId type name)
  | _ => none

def beginIds (script : List Action) : List CStr := script.filterMap Action.beginId?

/-- A query of `send_metric_ups_realpower` for `ups.realpower`: for which UPS, and which query it is. -/
def Action.powerQuery? : Action → Option (CStr × Nat)
  | .get _ .upsRealpower k u var _ => if var = realpowerVar then some (u, k) else none
  | _ => none

def powerAsks (script : List Action) : List (CStr × Nat) := script.filterMap Action.powerQuery?

theorem mem_powerAsks {script : List Action} {k : Nat} :
    (u, k) ∈ powerAsks script ↔
      ∃ conn reply, .get conn .upsRealpower k u realpowerVar reply ∈ script := by
  rw [powerAsks, List.mem_filterMap]
  constructor
  · intro h
    obtain ⟨a, ha, hquery⟩ := h
    unfold Action.powerQuery? at hquery
    split at hquery
    · split at hquery
      · next hvar =>
        cases hquery
        rw [hvar] at ha
        exact ⟨_, _, ha⟩
      · cases hquery
    · cases hquery
  · intro h
    obtain ⟨conn, reply, ha⟩ := h
    exact ⟨_, ha, rfl⟩

/-! ### The frames of one body -/

/-- The frames that a body sends and the load usage queries that it makes. -/
structure Tallies (script : List Action) (ids : List CStr) (asks : List (CStr × Nat)) : Prop where
  begins : beginIds script = ids
  asks : powerAsks script = asks

section Scripts
variable {script script' : List Action} {ids ids' : List CStr} {asks asks' : List (CStr × Nat)}

theorem Tallies.append (h : Tallies script ids asks) (h' : Tallies script' ids' asks') :
    Tallies (script ++ script') (ids ++ ids') (asks ++ asks') where
  begins := by rw [beginIds, List.filterMap_append, ← h.begins, ← h'.begins]; rfl
  asks := by rw [powerAsks, List.filterMap_append, ← h.asks, ← h'.asks]; rfl

/-- Actions that neither begin a frame nor ask for the load usage. -/
theorem Tallies.nothing (h : ∀ a ∈ script, a.beginId? = none ∧ a.powerQuery? = none) :
    Tallies script [] [] where
  begins := List.filterMap_eq_nil_iff.mpr fun a ha => (h a ha).1
  asks := List.filterMap_eq_nil_iff.mpr fun a ha => (h a ha).2

theorem Tallies.cons {a : Action} (hb : a.beginId? = none) (hq : a.powerQuery? = none)
    (h : Tallies script ids asks) : Tallies (a :: script) ids asks :=
  (Tallies.nothing (List.forall_mem_singleton.mpr ⟨hb, hq⟩)).append h

theorem frame_tallies (origin : Origin) (id : CStr) (dt : Nat) (values : List (CStr × Int)) :
    Tallies (frame u origin id dt values) [fullId (cleanName u) id] [] := by
  have hvalues : ∀ print : CStr × Int → Action, (∀ v, (print v).beginId? = none ∧ (print v).powerQuery? = none) →
      Tallies (values.map print) [] [] := by
    refine fun print hprint => .nothing fun a ha => ?_
    obtain ⟨value, -, rfl⟩ := List.mem_map.mp ha
    exact hprint value
  have hbegin : Tallies [.print origin (.begin (cleanName u) id dt)] [fullId (cleanName u) id] [] := ⟨rfl, rfl⟩
  exact hbegin.append ((hvalues _ fun _ => ⟨rfl, rfl⟩).append (.nothing (List.forall_mem_singleton.mpr ⟨rfl, rfl⟩)))

/-- The frames of `send_metric_ups_realpower`. -/
def powerCharts (env : Env) (u : CStr) (k : Nat) : List Chart :=
  if powerAnswered env u k then [.var loadUsage] else []

theorem powerFrame_tallies (dt : Nat) (realpower : Ndd) :
    Tallies (powerFrame u dt realpower) [fullId (cleanName u) loadUsage.chartId] [] :=
  frame_tallies _ _ _ _

theorem powerScript_tallies (env : Env) (u : CStr) (dt k : Nat) :
    Tallies (powerScript env u dt k)
      ((powerCharts env u k).map fun c => fullId (cleanName u) c.id) [(u, k)] := by
  have hask : Tallies [ask env u .upsRealpower realpowerVar k] [] [(u, k)] := ⟨rfl, rfl⟩
  unfold powerScript powerCharts powerAnswered
  cases env.get k u realpowerVar with
  | some value => exact hask.append (.cons rfl rfl (powerFrame_tallies dt _))
  | none =>
    cases env.get (k + 1) u loadVar with
    | none => exact hask.append (.cons rfl rfl (.nothing (List.forall_mem_nil _)))
    | some load =>
      cases env.get (k + 2) u realpowerNominalVar with
      | none =>
        exact hask.append (.cons rfl rfl (.cons rfl rfl (.cons rfl rfl (.nothing (List.forall_mem_nil _)))))
      | some nominal =>
        exact hask.append (.cons rfl rfl (.cons rfl rfl (.cons rfl rfl (.cons rfl rfl
          (powerFrame_tallies dt _)))))

theorem statusDeed_tallies {dt k : Nat} (h : (statusDeed env u dt k).stop = none) :
    Tallies (statusDeed env u dt k).actions [fullId (cleanName u) statusId] [] := by
  unfold statusDeed at h ⊢
  split
  · exact .cons rfl rfl (frame_tallies _ _ _ _)
  · next hstatus =>
    rw [hstatus] at h
    cases h

theorem varsDeed_tallies {dt k : Nat} {charts : List NdChart} (h : (varsDeed env u dt charts k).stop = none) :
    Tallies (varsDeed env u dt charts k).actions
      (charts.map fun chart => fullId (cleanName u) chart.chartId) [] := by
  induction charts generalizing k with
  | nil => exact .nothing (List.forall_mem_nil _)
  | cons chart rest ih =>
    unfold varsDeed at h ⊢
    split
    · next hget =>
      rw [hget] at h
      cases h
    · next value hget =>
      rw [hget] at h
      have hround : Tallies (varScript env u dt chart value k) [fullId (cleanName u) chart.chartId] [] :=
        .cons rfl rfl (.cons rfl rfl (frame_tallies _ _ _ _))
      exact hround.append (ih h)

/-- The frames of a body, for the charts of `ups_vars`; `k` is the query for `ups.realpower`. -/
def bodyCharts (env : Env) (u : CStr) (charts : List NdChart) (k : Nat) : List Chart :=
  .status :: (powerCharts env u k ++ charts.map .var)

def bodyIds (env : Env) (u : CStr) (charts : List NdChart) (k : Nat) : List CStr :=
  (bodyCharts env u charts k).map fun c => fullId (cleanName u) c.id

theorem metricsDeed_tallies {dt k : Nat} {charts : List NdChart}
    (h : (metricsDeed env u dt charts k).stop = none) :
    Tallies (metricsDeed env u dt charts k).actions (bodyIds env u charts (k + 1)) [(u, k + 1)] := by
  unfold metricsDeed specialDeed at h ⊢
  obtain ⟨hspecial, hvars, hall⟩ := Deed.andThen_goes_on h
  obtain ⟨-, hmetrics, hmark⟩ := Deed.andThen_goes_on hspecial
  obtain ⟨hstatus, -, hsent⟩ := Deed.andThen_goes_on hmetrics
  rw [hall, hmark, hsent]
  have hseen : Tallies [.setSeen u true] [] [] := .nothing (List.forall_mem_singleton.mpr ⟨rfl, rfl⟩)
  have hbody := (hseen.append ((statusDeed_tallies hstatus).append
    (powerScript_tallies env u dt (k + 1)))).append (varsDeed_tallies hvars)
  have hids : bodyIds env u charts (k + 1) =
      [] ++ ([fullId (cleanName u) statusId] ++ (powerCharts env u (k + 1)).map fun c =>
        fullId (cleanName u) c.id) ++ charts.map fun chart => fullId (cleanName u) chart.chartId := by
    rw [bodyIds, bodyCharts, List.map_cons, List.map_append, List.map_map]
    rfl
  rw [hids]
  exact hbody

theorem registerScript_tallies (env : Env) (u : CStr) (id k : Nat) : Tallies (registerScript env u id k) [] [] := by
  refine .nothing fun a ha => ?_
  rcases registerScript_cases env u ha with rfl | rfl | rfl | rfl | ha
  · exact ⟨rfl, rfl⟩
  · exact ⟨rfl, rfl⟩
  · exact ⟨rfl, rfl⟩
  · exact ⟨rfl, rfl⟩
  · cases ha <;> exact ⟨rfl, rfl⟩

end Scripts

/-! ### The frames of a cycle -/

/-- The bodies of the current cycle, each given by its UPS and its query for `ups.realpower`. -/
structure Collecting (env : Env) (w : World) (bodies : List (CStr × Nat)) : Prop where
  known : ∀ body ∈ bodies, body.1 ∈ w.ndUpsName.keys
  tallies : Tallies w.now (bodies.flatMap fun body => bodyIds env body.1 (w.charts body.1) body.2) bodies

/-- A body that goes on adds its frames, and leaves the charts of the other UPSes. -/
structure Sent (env : Env) (u : CStr) (w w' : World) (script : List Action) (k : Nat) : Prop where
  tallies : Tallies script (bodyIds env u (w'.charts u) k) [(u, k)]
  known : u ∈ w'.ndUpsName.keys
  keeps : ∀ v ∈ w.ndUpsName.keys, v ∈ w'.ndUpsName.keys ∧ w'.charts v = w.charts v

theorem sent_metrics {dt : Nat} (hu : u ∈ w.ndUpsName.keys)
    (h : (metricsDeed env u dt (w.charts u) w.gets).stop = none) :
    Sent env u w (w.play (metricsDeed env u dt (w.charts u) w.gets).actions)
      (metricsDeed env u dt (w.charts u) w.gets).actions (w.gets + 1) := by
  have hsame := play_metricsDeed env u dt (w.charts u) w.gets w
  have hcharts : ∀ v, (w.play (metricsDeed env u dt (w.charts u) w.gets).actions).charts v = w.charts v := by
    intro v
    refine charts_of_vars ?_
    rw [hsame.vars]
    rfl
  refine ⟨?_, ?_, fun v hv => ⟨?_, hcharts v⟩⟩
  · rw [hcharts u]
    exact metricsDeed_tallies h
  · rw [hsame.name]
    exact hu
  · rw [hsame.name]
    exact hv

theorem Sent.after_register {w' : World} {script : List Action} {k : Nat} (hu : u ∉ w.ndUpsName.keys)
    (h : Sent env u (w.play (registerScript env u w.dicts w.gets)) w' script k) :
    Sent env u w w' (registerScript env u w.dicts w.gets ++ script) k := by
  have hreg := play_registerScript env u w
  refine ⟨(registerScript_tallies env u _ _).append h.tallies, h.known, fun v hv => ?_⟩
  have hne : v ≠ u := fun heq => hu (heq ▸ hv)
  have hkept := h.keeps v (by
    rw [hreg.name]
    exact OrderedDict.mem_keys_set.mpr (Or.inr hv))
  refine ⟨hkept.1, hkept.2.trans (charts_of_vars ?_)⟩
  rw [hreg.vars, OrderedDict.get_set_ne _ _ hne]

/-- What one body adds when it goes on. -/
theorem sent_collect {dt : Nat} (h : (collectDeed env w dt u).stop = none) :
    ∃ k, Sent env u w (w.play (collectDeed env w dt u).actions) (collectDeed env w dt u).actions k := by
  rcases collectDeed_cases env w dt u with ⟨hu, heq⟩ | ⟨-, -, heq⟩ | ⟨hu, hnil, heq⟩
  · rw [heq] at h ⊢
    exact ⟨_, sent_metrics hu h⟩
  · rw [heq] at h
    cases h
  · rw [heq] at h ⊢
    obtain ⟨-, hstop, hall⟩ := Deed.andThen_goes_on h
    have hreg := play_registerScript env u w
    have hmem : u ∈ (w.play (registerScript env u w.dicts w.gets)).ndUpsName.keys := by
      rw [hreg.name]
      exact OrderedDict.mem_keys_set.mpr (Or.inl rfl)
    rw [← hreg.charts_self, ← World.play_gets] at hstop hall ⊢
    have hsent := (sent_metrics hmem hstop).after_register hu
    refine ⟨(w.play (registerScript env u w.dicts w.gets)).gets + 1, ?_⟩
    rw [hall]
    show Sent env u w (play World.act w (registerScript env u w.dicts w.gets ++ _)) _ _
    rw [play_append]
    exact hsent

theorem Collecting.list {bodies : List (CStr × Nat)} (hc : Collecting env w bodies)
    (answer : Option (List CStr)) : Collecting env (w.act (.listNext answer)) bodies := by
  have hrow : Tallies [.listNext answer] [] [] := .nothing (List.forall_mem_singleton.mpr ⟨rfl, rfl⟩)
  have hnow : (w.act (.listNext answer)).now = w.now ++ [.listNext answer] :=
    World.now_play w [.listNext answer]
  have htallies := hc.tallies.append hrow
  rw [List.append_nil, List.append_nil, ← hnow] at htallies
  exact ⟨hc.known, htallies⟩

theorem Collecting.collect {dt : Nat} {bodies : List (CStr × Nat)} (hc : Collecting env w bodies)
    (h : (collectDeed env w dt u).stop = none) :
    ∃ k, Collecting env (w.play (collectDeed env w dt u).actions) (bodies ++ [(u, k)]) := by
  obtain ⟨k, hsent⟩ := sent_collect h
  refine ⟨k, List.forall_mem_append.mpr ⟨fun body hbody => (hsent.keeps _ (hc.known body hbody)).1,
    List.forall_mem_singleton.mpr hsent.known⟩, ?_⟩
  have hothers : bodies.flatMap (fun body =>
      bodyIds env body.1 ((w.play (collectDeed env w dt u).actions).charts body.1) body.2) =
        bodies.flatMap fun body => bodyIds env body.1 (w.charts body.1) body.2 := by
    refine List.flatMap_congr fun body hbody => ?_
    rw [(hsent.keeps body.1 (hc.known body hbody)).2]
  rw [World.now_play, List.flatMap_append, hothers]
  simpa using hc.tallies.append hsent.tallies

/-- In a listing, there is a body for each of the rows so far. -/
def Accounted (env : Env) (m : Machine) : Prop :=
  match m.pc with
  | .listing answers =>
    ∃ bodies, (env.listing m.world.cycle).At (bodies.map Prod.fst) answers ∧ Collecting env m.world bodies
  | _ => True

theorem Accounted.step {m m' : Machine} (h : Accounted env m) (hd : Dated m.world) (hs : Step env m m') :
    Accounted env m' := by
  cases hs with
  | register w u rest complete =>
    rcases goOn_cases (registerDeed env u w.dicts w.gets) (.startup (listAnswers rest complete))
      with ⟨-, hpc⟩ | ⟨why, -, hpc⟩ <;> rw [hpc] <;> trivial
  | cycle w hexit hstart =>
    refine ⟨[], Listing.At.start _, List.forall_mem_nil _, ?_⟩
    rw [hd.now_tick]
    exact .nothing (List.forall_mem_nil _)
  | collect w u rest complete =>
    obtain ⟨bodies, hat, hc⟩ := h
    rcases goOn_cases (collectDeed env w (env.dt w.cycle) u) (.listing (listAnswers rest complete))
      with ⟨hstop, hpc⟩ | ⟨why, -, hpc⟩
    · rw [hpc]
      obtain ⟨k, hcollected⟩ := (hc.list (upsRow u)).collect hstop
      refine ⟨bodies ++ [(u, k)], ?_, hcollected⟩
      rw [World.play_cycle, List.map_append]
      exact hat.next
    · rw [hpc]
      trivial
  | listed w =>
    rcases afterListing_cases env w with hpc | hpc | hpc <;> rw [hpc] <;> trivial
  | _ => trivial

theorem accounted_run (env : Env) (t : Nat) : Accounted env (run env t) := by
  induction t with
  | zero => trivial
  | succ t ih => exact ih.step (dated_run env t) (run_step env t)

theorem Action.Housekeeping.tallies {a : Action} (h : a.Housekeeping) :
    a.beginId? = none ∧ a.powerQuery? = none := by
  cases a <;> first | exact ⟨rfl, rfl⟩ | exact absurd h not_false

/-- A complete cycle has one body for each name of its listing. -/
theorem cycle_bodies {t n : Nat} {pre post : List Event}
    (h : (run env t).world.trace = pre ++ ⟨n, .flush⟩ :: post) :
    ∃ (bodies : List (CStr × Nat)) (charts : CStr → List NdChart), bodies.map Prod.fst = (env.listing n).names ∧
      Tallies (cycleOf n (run env t).world.trace)
        (bodies.flatMap fun body => bodyIds env body.1 (charts body.1) body.2) bodies ∧
      ∀ body ∈ bodies, LatestRegistration body.1 pre (charts body.1) ∧ (charts body.1).Sublist ndCharts := by
  obtain ⟨s, hst, hpc, rfl, rfl⟩ := flush_step h
  have hacc := accounted_run env s
  unfold Accounted at hacc
  rw [hpc] at hacc
  obtain ⟨bodies, ⟨rest, hnames, hrest⟩, hc⟩ := hacc
  obtain ⟨hnil, -⟩ := listAnswers_inj hrest
  subst hnil
  obtain ⟨after, hcycle, hafter⟩ := cycle_closed hpc hst
  refine ⟨bodies, (run env s).world.charts, by simpa using hnames.symm, ?_, fun body hbody => ⟨?_, ?_⟩⟩
  · have hrows : Tallies [.listNext endRow, .flush] [] [] :=
      .nothing (List.forall_mem_cons.mpr ⟨⟨rfl, rfl⟩, List.forall_mem_singleton.mpr ⟨rfl, rfl⟩⟩)
    have hhouse : Tallies after [] [] := .nothing fun a ha => (hafter a ha).tallies
    rw [hcycle]
    simpa using (hc.tallies.append hrows).append hhouse
  · refine (recorded_run env s body.1 (hc.known body hbody)).extend ?_ rfl
    exact List.forall_mem_singleton.mpr nofun
  · exact (sound_run env s).lockstep.charts_sublist body.1

end UpsdPlugin
