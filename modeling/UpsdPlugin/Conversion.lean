import UpsdPlugin.Registration

/-! Which values are converted.

`send_metric_ups_realpower` converts a value only after testing that there is one.
The loop over `ups_vars` does not test: a variable that was there, or could be done
without, at registration is taken to be there in every later cycle. A missing value
is converted exactly when a query of that loop is not answered
(`no_missing_value_iff`). -/
namespace UpsdPlugin
open Scripted
open World (getsOf actionsOf actionsOf_play)

/-- A query of the loop over `ups_vars` that is not answered. -/
def Action.Unanswered (env : Env) : Action → Prop
  | .get _ .upsVars k u var _ => env.get k u var = none
  | _ => False

/-- A missing value is converted. -/
def Action.ConvertsNull (a : Action) : Prop := a = .str2ndd none

/-- A missing value is converted in the script exactly when a query of the loop over
`ups_vars` is not answered in it. -/
def Balanced (env : Env) : List Action → Prop := Tied Action.ConvertsNull (Action.Unanswered env)

section Scripts
variable {env : Env} {u : CStr}

theorem frame_balanced (origin : Origin) (id : CStr) (dt : Nat) (values : List (CStr × Int)) :
    Balanced env (frame u origin id dt values) := by
  refine Tied.of_neither fun a ha => ?_
  simp only [frame, List.cons_append, List.mem_cons, List.mem_append, List.mem_map,
    List.not_mem_nil, or_false] at ha
  rcases ha with rfl | ⟨value, -, rfl⟩ | rfl
  all_goals exact ⟨by rintro ⟨⟩, by rintro ⟨⟩⟩

theorem statusDeed_balanced (dt k : Nat) : Balanced env (statusDeed env u dt k).actions := by
  unfold statusDeed
  split
  · exact .cons nofun nofun (frame_balanced _ _ _ _)
  · exact .single nofun nofun

/-- `send_metric_ups_realpower` tests every value before it converts it. -/
theorem powerScript_balanced (dt k : Nat) : Balanced env (powerScript env u dt k) := by
  unfold powerScript
  refine .cons nofun nofun ?_
  split
  · exact .cons nofun nofun (frame_balanced _ _ _ _)
  · refine .cons nofun nofun ?_
    split
    · exact .nil
    · refine .cons nofun nofun (.cons nofun nofun ?_)
      split
      · exact .nil
      · exact .cons nofun nofun (frame_balanced _ _ _ _)

/-- The loop over `ups_vars` runs into the first variable that is not answered. -/
theorem varsDeed_balanced (dt : Nat) (charts : List NdChart) (k : Nat) :
    Balanced env (varsDeed env u dt charts k).actions := by
  induction charts generalizing k with
  | nil => exact .nil
  | cons chart rest ih =>
    unfold varsDeed
    cases hr : env.get k u chart.nutVariable with
    | none =>
      refine ⟨fun _ => ⟨ask env u .upsVars chart.nutVariable k, List.mem_cons_self .., hr⟩, fun _ => ?_⟩
      exact ⟨.str2ndd none, List.mem_cons_of_mem _ (List.mem_cons_self ..), rfl⟩
    | some value =>
      have hask : ¬ (ask env u .upsVars chart.nutVariable k).Unanswered env := by
        intro hun
        cases hr.symm.trans hun
      have hconvert : Balanced env (.str2ndd (some value) :: frame u .upsVars chart.chartId dt
          [(chart.chartDimension, ((str2ndd env.libm value).times pluginPrecision).toInt64)]) :=
        .cons (by rintro ⟨⟩) (by rintro ⟨⟩) (frame_balanced _ _ _ _)
      exact (Tied.cons (by rintro ⟨⟩) hask hconvert).append (ih (k + 1))

theorem metricsDeed_balanced (dt : Nat) (charts : List NdChart) (k : Nat) :
    Balanced env (metricsDeed env u dt charts k).actions := by
  refine Tied.andThen (Tied.andThen (.single nofun nofun) ?_) (varsDeed_balanced dt charts _)
  exact Tied.andThen (statusDeed_balanced dt k) (powerScript_balanced dt (k + 1))

theorem registerScript_balanced (id k : Nat) : Balanced env (registerScript env u id k) := by
  refine Tied.of_neither fun a ha => ?_
  rcases registerScript_cases env u ha with rfl | rfl | rfl | rfl | hann
  · exact ⟨nofun, nofun⟩
  · exact ⟨nofun, nofun⟩
  · exact ⟨nofun, nofun⟩
  · exact ⟨nofun, nofun⟩
  · cases hann <;> exact ⟨nofun, nofun⟩

theorem dropScript_balanced (w : World) (u : CStr) : Balanced env (dropScript w u) := by
  refine Tied.of_neither fun a ha => ?_
  rcases dropScript_cases ha with ⟨vars, -, rfl⟩ | rfl | rfl | rfl <;> exact ⟨nofun, nofun⟩

end Scripts

theorem balanced_run (env : Env) (t : Nat) : Balanced env (actionsOf (run env t).world.trace) := by
  refine run_moves (P := fun w => Balanced env (actionsOf w.trace)) .nil ?_ t
  intro w w' _ hw hm
  have hplay : ∀ script, Balanced env script → Balanced env (actionsOf (w.play script).trace) := by
    intro script hs
    rw [actionsOf_play]
    exact hw.append hs
  cases hm with
  | tick => exact hw
  | list answer => exact hplay [.listNext answer] (.single nofun nofun)
  | flush => exact hplay [.flush] (.single nofun nofun)
  | nameless => exact hplay [.register []] (.single nofun nofun)
  | register u hu => exact hplay _ (registerScript_balanced _ _)
  | metrics u hu => exact hplay _ (metricsDeed_balanced _ _ _)
  | unmark u hu => exact hplay [.setSeen u false] (.single nofun nofun)
  | drop u => exact hplay _ (dropScript_balanced w u)

/-- **When a missing value is converted.** `str2ndd` is applied to replies only, in a run up
to any point, exactly when every query of the loop over `ups_vars` is answered up to there. -/
theorem no_missing_value_iff (env : Env) (t : Nat) :
    (∀ e ∈ (run env t).world.trace, e.action ≠ .str2ndd none) ↔
      ∀ e ∈ (run env t).world.trace, ∀ conn k u var reply,
        e.action = .get conn .upsVars k u var reply → (env.get k u var).isSome := by
  have h := balanced_run env t
  constructor
  · intro hno e he conn k u var reply heq
    by_contra hnone
    have hun : e.action.Unanswered env := by
      rw [heq]
      exact Option.not_isSome_iff_eq_none.mp hnone
    obtain ⟨a, ha, hconv⟩ := h.mpr ⟨_, List.mem_map_of_mem he, hun⟩
    obtain ⟨e', he', rfl⟩ := List.mem_map.mp ha
    exact hno e' he' hconv
  · intro hall e he heq
    obtain ⟨a, ha, hun⟩ := h.mp ⟨_, List.mem_map_of_mem he, heq⟩
    obtain ⟨e', he', rfl⟩ := List.mem_map.mp ha
    cases hact : e'.action with
    | get conn origin k u var reply =>
      rw [hact] at hun
      cases origin with
      | upsVars =>
        have hsome := hall e' he' conn k u var reply hact
        rw [show env.get k u var = none from hun] at hsome
        cases hsome
      | _ => exact hun
    | _ =>
      rw [hact] at hun
      exact hun

/-- A UPS that answers `ups.load` and `ups.realpower.nominal` but not `ups.realpower`. -/
def fallbackUps : Env :=
  .healthy (fun _ => ["a".toList]) fun _ _ var =>
    if var = loadVar then some "50".toList
    else if var = realpowerNominalVar then some "1000".toList
    else none

/-- In its first cycle, the missing `ups.realpower` is converted. -/
theorem fallback_converts_null :
    ¬ ∀ e ∈ (run fallbackUps 5).world.trace, e.action ≠ .str2ndd none := by
  intro h
  have hmem : ((run fallbackUps 5).world.trace.any fun e =>
      match e.action with
      | .str2ndd none => true
      | _ => false) = true := by decide +kernel
  obtain ⟨e, he, hnull⟩ := List.any_eq_true.mp hmem
  refine h e he ?_
  split at hnull
  · assumption
  · cases hnull

end UpsdPlugin
