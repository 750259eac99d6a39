import UpsdPlugin.Lifecycle

/-! Two UPSes that give the same replies.

What a script asks, what a registration finds and where a deed stops depend on the replies alone,
not on the name of the UPS. -/
namespace UpsdPlugin
open Scripted
open World (getsOf getsOf_append)

variable {env env' : Env} {u v : CStr}

theorem getsOf_print (origin : Origin) (line : Line) (rest : List Action) :
    getsOf (.print origin line :: rest) = getsOf rest := rfl

theorem getsOf_varLabelsScript (style : LabelStyle) (labels : List (CStr × CStr)) (k : Nat) :
    getsOf (varLabelsScript env u style labels k) = labels.length := by
  induction labels generalizing k with
  | nil => rfl
  | cons label rest ih =>
    rw [varLabelsScript, getsOf_append, getsOf_labelScript, ih, List.length_cons, Nat.add_comm]

theorem getsOf_dimensionsScript (quoted : Bool) (names : List CStr) :
    getsOf (dimensionsScript quoted names) = 0 := by
  unfold dimensionsScript
  induction names with
  | nil => rfl
  | cons name rest ih => exact ih

theorem getsOf_convert (arg : Option CStr) (rest : List Action) :
    getsOf (.str2ndd arg :: rest) = getsOf rest := rfl

/-- How many queries `send_metric_ups_realpower` sends. -/
theorem getsOf_powerScript (dt k : Nat) :
    getsOf (powerScript env u dt k) =
      match env.get k u realpowerVar with
      | some _ => 1
      | none =>
        match env.get (k + 1) u loadVar with
        | none => 2
        | some _ => 3 := by
  unfold powerScript powerFrame
  rw [getsOf_ask]
  cases env.get k u realpowerVar with
  | some value => simp only [getsOf_convert, getsOf_frame]
  | none =>
    cases env.get (k + 1) u loadVar with
    | none => rfl
    | some load =>
      cases env.get (k + 2) u realpowerNominalVar with
      | none => rfl
      | some nominal => simp only [getsOf_ask, getsOf_convert, getsOf_frame]

/-- A chart block asks for the labels. -/
theorem getsOf_block (head : Line) (style nameStyle : LabelStyle) (quoted : Bool) (names : List CStr)
    (k : Nat) :
    getsOf (.print .registerUps head :: labelsScript env u style nameStyle k ++
      dimensionsScript quoted names) = labelVars.length := by
  have hlast : getsOf [.print .registerUps (.clabel nameStyle "ups_name".toList u),
      .print .registerUps .clabelCommit] = 0 := rfl
  rw [List.cons_append, getsOf_print, getsOf_append, getsOf_dimensionsScript, labelsScript, getsOf_append,
    getsOf_varLabelsScript, hlast, Nat.add_zero]

variable (h : ∀ k var, env'.get k v var = env.get k u var)
include h

theorem available_same (chart : NdChart) (k : Nat) : available env' v chart k = available env u chart k := by
  simp only [available, powerAnswered, h]

theorem getsOf_availableScript_same (chart : NdChart) (k : Nat) :
    getsOf (availableScript env' v chart k) = getsOf (availableScript env u chart k) := by
  unfold availableScript powerQueries
  rw [h, h]
  split
  · split
    · rfl
    · split <;> rfl
  · rfl

theorem getsOf_chartScript_same (chart : NdChart) (k : Nat) :
    getsOf (chartScript env' v chart k) = getsOf (chartScript env u chart k) := by
  rw [chartScript, chartScript, getsOf_append, getsOf_append, getsOf_availableScript_same h, available_same h]
  split
  · rw [chartBlock, chartBlock, getsOf_block, getsOf_block]
  · rfl

theorem chartsScript_same (charts : List NdChart) (k : Nat) :
    getsOf (chartsScript env' v charts k) = getsOf (chartsScript env u charts k) ∧
      keptCharts env' v charts k = keptCharts env u charts k := by
  induction charts generalizing k with
  | nil => exact ⟨rfl, rfl⟩
  | cons chart rest ih =>
    have hrest := ih (k + getsOf (chartScript env u chart k))
    rw [chartsScript, chartsScript, keptCharts, keptCharts, getsOf_append, getsOf_append,
      getsOf_chartScript_same h, available_same h]
    exact ⟨by rw [hrest.1], by rw [hrest.2]⟩

/-- A registration declares the same charts with the same number of queries. -/
theorem registerScript_same (id id' k : Nat) :
    getsOf (registerScript env' v id' k) = getsOf (registerScript env u id k) ∧
      registeredCharts env' v k = registeredCharts env u k := by
  have hstatus : getsOf (statusBlock env' v k) = getsOf (statusBlock env u k) := by
    rw [statusBlock, statusBlock, getsOf_block, getsOf_block]
  have hcharts := chartsScript_same h ndCharts (k + getsOf (statusBlock env u k))
  constructor
  · simp only [registerScript, getsOf_append, hstatus, hcharts.1]
    rfl
  · rw [registeredCharts, registeredCharts, hstatus, hcharts.2]

theorem getsOf_powerScript_same (dt dt' k : Nat) :
    getsOf (powerScript env' v dt' k) = getsOf (powerScript env u dt k) := by
  simp only [getsOf_powerScript, h]

/-- A deed that asks as many queries and ends the same way. -/
def Matches (d e : Deed) : Prop := d.stop = e.stop ∧ getsOf d.actions = getsOf e.actions

omit h in
theorem Matches.andThen {d d' e e' : Deed} (hd : Matches d d') (he : Matches e e') :
    Matches (d.andThen e) (d'.andThen e') := by
  cases hstop : d.stop with
  | some why =>
    rw [Deed.andThen_of_stop hstop, Deed.andThen_of_stop (hd.1.symm.trans hstop)]
    exact hd
  | none =>
    rw [Deed.andThen_of_none hstop, Deed.andThen_of_none (hd.1.symm.trans hstop)]
    exact ⟨he.1, by rw [getsOf_append, getsOf_append, hd.2, he.2]⟩

theorem statusDeed_matches (dt dt' k : Nat) :
    Matches (statusDeed env' v dt' k) (statusDeed env u dt k) := by
  refine ⟨?_, (getsOf_statusDeed _ _).trans (getsOf_statusDeed _ _).symm⟩
  unfold statusDeed
  rw [h]
  split <;> rfl

theorem varsDeed_matches (dt dt' : Nat) (charts : List NdChart) (k : Nat) :
    Matches (varsDeed env' v dt' charts k) (varsDeed env u dt charts k) := by
  induction charts generalizing k with
  | nil => exact ⟨rfl, rfl⟩
  | cons chart rest ih =>
    unfold varsDeed
    rw [h]
    split
    · exact ⟨rfl, rfl⟩
    · refine Matches.andThen ⟨rfl, ?_⟩ (ih (k + 1))
      simp only [varScript, getsOf_ask, getsOf_convert, getsOf_frame]

/-- Sending metrics asks as many queries and ends the same way. -/
theorem metricsDeed_matches (dt dt' : Nat) (charts : List NdChart) (k : Nat) :
    Matches (metricsDeed env' v dt' charts k) (metricsDeed env u dt charts k) := by
  unfold metricsDeed specialDeed
  rw [getsOf_powerScript_same h dt dt' (k + 1)]
  refine Matches.andThen (Matches.andThen ⟨rfl, rfl⟩ ?_) (varsDeed_matches h dt dt' charts _)
  exact (statusDeed_matches h dt dt' k).andThen ⟨rfl, getsOf_powerScript_same h dt dt' (k + 1)⟩

end UpsdPlugin
