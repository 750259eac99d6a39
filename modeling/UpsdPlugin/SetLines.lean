import UpsdPlugin.Provenance

/-! The SET lines of a run.

A SET line belongs to the chart whose frame is open, at the row of a UPS, and comes after the
queries whose replies it was computed from (`SetLine`). At the row of a registered UPS the flags
of `ups.status` and the load usage are such lines (`setLine_status`, `setLine_power`). -/
namespace UpsdPlugin
open Scripted
open World (getsOf)

variable {env : Env} {u : CStr}

/-- A SET line of the chart `c`, printed at a row of `u` right after the queries with these replies. -/
def SetLine (trace : List Event) (u : CStr) (c : Chart) (answers : List (CStr × Option CStr)) (name : CStr)
    (value : Int) : Prop :=
  ∃ pre n origin post body, trace = pre ++ ⟨n, .print origin (.set name value)⟩ :: post ∧
    AtRow n u pre body ∧ Sending u c body ∧ LastReplies origin u answers body

section Body
variable {origin : Origin} {c : Chart} {answers : List (CStr × Option CStr)}

theorem setLine_of_actions {t : Nat} {rest : List CStr} {complete : Bool} {body back : List Action} {name : CStr}
    {value : Int} (hpc : (run env t).pc = .listing (listAnswers (u :: rest) complete))
    (hactions : (collectDeed env (run env t).world (env.dt (run env t).world.cycle) u).actions =
      body ++ .print origin (.set name value) :: back)
    (hsending : Sending u c body) (hlast : LastReplies origin u answers body) :
    SetLine (run env (t + 1)).world.trace u c answers name value := by
  have hfits : Fits env u [] (collectDeed env (run env t).world (env.dt (run env t).world.cycle) u).actions :=
    collectDeed_fits (sound_run env t).lockstep _ []
  have hstep := (run_step env t).listing_row hpc
  rw [hactions] at hfits hstep
  generalize (run env t).world = w at hstep
  refine ⟨w.trace ++ (.listNext (upsRow u) :: body).map (Event.mk w.cycle), w.cycle, origin,
    back.map (Event.mk w.cycle), body, ?_, ⟨⟨w.trace, rfl⟩, ?_⟩, hsending, hlast⟩
  · rw [hstep, World.play_trace]
    simp
  · exact fun a ha => hfits.no_row a (List.mem_append_left _ ha)

/-- The SET lines of a frame are SET lines of its chart, with the replies before the frame. -/
theorem setLine_of_frame {t dt : Nat} {rest : List CStr} {complete : Bool} {front back : List Action}
    {values : List (CStr × Int)} {name : CStr} {value : Int}
    (hpc : (run env t).pc = .listing (listAnswers (u :: rest) complete))
    (hactions : (collectDeed env (run env t).world (env.dt (run env t).world.cycle) u).actions =
      front ++ frame u origin c.id dt values ++ back)
    (hlast : LastReplies origin u answers front) (hv : (name, value) ∈ values) :
    SetLine (run env (t + 1)).world.trace u c answers name value := by
  obtain ⟨earlier, later, rfl⟩ := List.append_of_mem hv
  let sets (values : List (CStr × Int)) : List Action := values.map fun v => .print origin (.set v.1 v.2)
  have hquiet : ∀ a ∈ sets earlier, a.beginId? = none ∧ a.reply? = none := by
    intro a ha
    obtain ⟨v, -, rfl⟩ := List.mem_map.mp ha
    exact ⟨rfl, rfl⟩
  have hsplit : front ++ frame u origin c.id dt (earlier ++ (name, value) :: later) ++ back =
      (front ++ .print origin (.begin (cleanName u) c.id dt) :: sets earlier) ++
        .print origin (.set name value) :: (sets later ++ .print origin .close :: back) := by
    simp [frame, sets]
  refine setLine_of_actions hpc (hactions.trans hsplit) ?_ ?_
  · have hsets : beginIds (sets earlier) = [] := List.filterMap_eq_nil_iff.mpr fun a ha => (hquiet a ha).1
    rw [Sending, beginIds, List.filterMap_append]
    show (beginIds front ++ _ :: beginIds (sets earlier)).getLast? = _
    rw [hsets, List.getLast?_concat]
  · exact hlast.skip_all (List.forall_mem_cons.mpr ⟨rfl, fun a ha => (hquiet a ha).2⟩)

theorem collectDeed_of_mem {w : World} (hu : u ∈ w.ndUpsName.keys) {dt : Nat} :
    collectDeed env w dt u = metricsDeed env u dt (w.charts u) w.gets :=
  if_pos hu

theorem metricsDeed_power {status : UpsStatus} {k : Nat} {value : CStr}
    (h : statusOf (env.get k u upsStatusVar) = .ok status) (hvalue : env.get (k + 1) u realpowerVar = some value)
    (dt : Nat) (charts : List NdChart) :
    ∃ front back, (metricsDeed env u dt charts k).actions =
      front ++ frame u .upsRealpower (Chart.var loadUsage).id dt
        [(loadUsage.chartDimension, ((str2ndd env.libm value).times pluginPrecision).toInt64)] ++ back ∧
      LastReplies .upsRealpower u [(realpowerVar, some value)] front := by
  have hlast := (LastReplies.asked env u .upsRealpower realpowerVar (k + 1)
    (.setSeen u true :: (statusDeed env u dt k).actions)).skip (a := .str2ndd (some value)) rfl
  rw [hvalue] at hlast
  refine ⟨.setSeen u true :: (statusDeed env u dt k).actions ++ [ask env u .upsRealpower realpowerVar (k + 1)] ++
      [.str2ndd (some value)],
    (varsDeed env u dt charts (k + 1 + getsOf (powerScript env u dt (k + 1)))).actions, ?_, hlast⟩
  have hpower : powerScript env u dt (k + 1) = ask env u .upsRealpower realpowerVar (k + 1) ::
      .str2ndd (some value) :: powerFrame u dt ((str2ndd env.libm value).times pluginPrecision) := by
    rw [powerScript, hvalue]
  unfold metricsDeed specialDeed
  rw [hpower]
  unfold statusDeed
  rw [h]
  simp [Deed.andThen, Chart.id, powerFrame]

variable {t : Nat} {rest : List CStr} {complete : Bool} {status : UpsStatus}

/-- And so is the load usage, when `ups.realpower` is answered. -/
theorem setLine_power (hpc : (run env t).pc = .listing (listAnswers (u :: rest) complete))
    (hu : u ∈ (run env t).world.ndUpsName.keys)
    (hstatus : statusOf (env.get (run env t).world.gets u upsStatusVar) = .ok status) {value : CStr}
    (hvalue : env.get ((run env t).world.gets + 1) u realpowerVar = some value) :
    SetLine (run env (t + 1)).world.trace u (.var loadUsage) [(realpowerVar, some value)]
      loadUsage.chartDimension ((str2ndd env.libm value).times pluginPrecision).toInt64 := by
  obtain ⟨front, back, hactions, hlast⟩ :=
    metricsDeed_power hstatus hvalue (env.dt (run env t).world.cycle) ((run env t).world.charts u)
  rw [← collectDeed_of_mem hu] at hactions
  exact setLine_of_frame hpc hactions hlast (List.mem_singleton.mpr rfl)

end Body

end UpsdPlugin
