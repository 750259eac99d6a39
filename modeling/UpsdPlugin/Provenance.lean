import UpsdPlugin.Frames

/-! Where the plugin's strings and values come from.

No string of an answer is read after a later call on its connection. From one
`upscli_list_next` to the next, the name of the row is the UPS that `main` queries,
registers and records; every label and every value it prints in between is computed
from the replies to the last queries it has sent, which are queries for that UPS and
for the variables the line stands for (`values_from_own_replies`). -/
namespace UpsdPlugin
open Trace (Past)

variable {env : Env} {w : World} {u : CStr}

/-! ### Replies -/

/-- A query that has been sent, with what upsd replied. -/
structure Reply where
  origin : Origin
  ups : CStr
  var : CStr
  value : Option CStr

def Action.reply? : Action → Option Reply
  | .get _ origin _ ups var value => some ⟨origin, ups, var, value⟩
  | _ => none

def replies (script : List Action) : List Reply := script.filterMap Action.reply?

/-- The last queries of the script are these: sent by `origin`, for variables of `u`. -/
def LastReplies (origin : Origin) (u : CStr) (answers : List (CStr × Option CStr)) (script : List Action) : Prop :=
  answers.map (fun answer => ⟨origin, u, answer.1, answer.2⟩) <:+ replies script

section Replies
variable {origin : Origin} {answers : List (CStr × Option CStr)} {script : List Action}

theorem LastReplies.nil : LastReplies origin u [] script := List.nil_suffix

theorem LastReplies.ask (h : LastReplies origin u answers script) (env : Env) (var : CStr) (k : Nat) :
    LastReplies origin u (answers ++ [(var, env.get k u var)]) (script ++ [ask env u origin var k]) := by
  obtain ⟨earlier, heq⟩ := h
  refine ⟨earlier, ?_⟩
  have hreplies : replies (script ++ [UpsdPlugin.ask env u origin var k]) =
      replies script ++ [⟨origin, u, var, env.get k u var⟩] := List.filterMap_append
  rw [hreplies, ← heq, List.map_append, List.append_assoc]
  rfl

theorem LastReplies.asked (env : Env) (u : CStr) (origin : Origin) (var : CStr) (k : Nat) (script : List Action) :
    LastReplies origin u [(var, env.get k u var)] (script ++ [UpsdPlugin.ask env u origin var k]) :=
  LastReplies.nil.ask env var k

theorem LastReplies.last {answer : CStr × Option CStr} (h : LastReplies origin u (answers ++ [answer]) script) :
    LastReplies origin u [answer] script := by
  rw [LastReplies, List.map_append] at h
  exact (List.suffix_append _ _).trans h

theorem LastReplies.skip_all (h : LastReplies origin u answers script) {more : List Action}
    (hmore : ∀ a ∈ more, a.reply? = none) : LastReplies origin u answers (script ++ more) := by
  have hreplies : replies (script ++ more) = replies script := by
    rw [replies, List.filterMap_append, List.filterMap_eq_nil_iff.mpr hmore, List.append_nil]
    rfl
  rwa [LastReplies, hreplies]

theorem LastReplies.skip (h : LastReplies origin u answers script) {a : Action} (ha : a.reply? = none) :
    LastReplies origin u answers (script ++ [a]) :=
  h.skip_all (List.forall_mem_singleton.mpr ha)

theorem LastReplies.eq {answers' : List (CStr × Option CStr)} (h : LastReplies origin u answers script)
    (h' : LastReplies origin u answers' script) (hlen : answers.length = answers'.length) : answers = answers' := by
  have hsuffix := List.suffix_of_suffix_length_le h h' (by simp [hlen])
  have hmap := hsuffix.eq_of_length (by simp [hlen])
  refine List.map_injective_iff.mpr (fun a b hab => ?_) hmap
  exact Prod.ext (Reply.mk.inj hab).2.2.1 (Reply.mk.inj hab).2.2.2

end Replies

/-! ### What lines and actions stand for -/

/-- How the value of the dimension `name` of a chart is computed, and from which replies. -/
inductive Computed (m : Libm) : Chart → List (CStr × Option CStr) → CStr → Int → Prop where
  | flag {reply : Option CStr} {status : UpsStatus} {name : CStr} {flag : Bool}
      (hstatus : statusOf reply = .ok status) (hflag : (name, flag) ∈ status.flags) :
      Computed m .status [(upsStatusVar, reply)] name flag.toNat
  | number {chart : NdChart} (hchart : chart ∈ ndCharts) (text : CStr) :
      Computed m (.var chart) [(chart.nutVariable, some text)] chart.chartDimension
        ((str2ndd m text).times pluginPrecision).toInt64
  | product (load nominal : CStr) :
      Computed m (.var loadUsage)
        [(realpowerVar, none), (loadVar, some load), (realpowerNominalVar, some nominal)]
        loadUsage.chartDimension
        (((str2ndd m load).div 100).mul ((str2ndd m nominal).times pluginPrecision)).toInt64

theorem Computed.known {m : Libm} {c : Chart} {answers : List (CStr × Option CStr)} {name : CStr} {value : Int}
    (h : Computed m c answers name value) : c.Known := by
  cases h with
  | flag hstatus hflag => trivial
  | number hchart text => exact hchart
  | product load nominal =>
    show loadUsage ∈ ndCharts
    decide

/-- The chart whose frame is open after the script. -/
def Sending (u : CStr) (c : Chart) (script : List Action) : Prop :=
  (beginIds script).getLast? = some (fullId (cleanName u) c.id)

/-- A line printed by `origin` for the UPS `u`, after the actions `body` at its row. -/
def Line.For (m : Libm) (u : CStr) (body : List Action) (origin : Origin) : Line → Prop
  | .chartStatus type _ => type = cleanName u
  | .chart type c _ => type = cleanName u ∧ c ∈ ndCharts
  | .clabel _ name value =>
    (name = "ups_name".toList ∧ value = u) ∨
      ∃ var, (name, var) ∈ labelVars ∧ LastReplies origin u [(var, some value)] body
  | .begin type name _ => type = cleanName u ∧ ∃ c : Chart, c.Known ∧ name = c.id
  | .set name value =>
    ∃ c answers, Sending u c body ∧ LastReplies origin u answers body ∧ Computed m c answers name value
  | .dimension _ _ divisor => divisor = pluginPrecision
  | .clabelCommit | .close => True

/-- An action at the row of `u`, after the actions `body`: the strings it takes from the row
are the name `u`, and those it takes from a reply are from the last one. -/
def Action.For (env : Env) (u : CStr) (body : List Action) : Action → Prop
  | .get conn _ call ups var reply => conn = .ups2 ∧ ups = u ∧ reply = env.get call u var
  | .register ups => ups = u
  | .setName ups clean => ups = u ∧ clean = cleanName u
  | .setVars ups _ => ups = u
  | .setSeen ups seen => ups = u ∧ seen = true
  | .str2ndd arg => ∃ origin var, LastReplies origin u [(var, arg)] body
  | .print origin line => line.For env.libm u body origin
  | .create _ => True
  | _ => False

/-- Every action of the script is one at the row of `u`, after the actions `body`. -/
abbrev Fits (env : Env) (u : CStr) (body script : List Action) : Prop :=
  Past (Action.For env u) body script

/-! ### Registration -/

section Scripts
variable {body : List Action}

theorem fits_append {a b : List Action} (ha : ∀ body, Fits env u body a) (hb : ∀ body, Fits env u body b)
    (body : List Action) : Fits env u body (a ++ b) :=
  (Trace.past_append body a b).mpr ⟨ha body, hb _⟩

theorem fits_ask (origin : Origin) (var : CStr) (k : Nat) (body : List Action) :
    (ask env u origin var k).For env u body :=
  ⟨rfl, rfl, rfl⟩

theorem labelScript_fits {label var : CStr} (h : (label, var) ∈ labelVars) (style : LabelStyle) (k : Nat)
    (body : List Action) : Fits env u body (labelScript env u style label var k) := by
  have hlast := LastReplies.asked env u .registerUps var k body
  unfold labelScript
  refine ⟨fits_ask _ _ _ _, ?_⟩
  cases hreply : env.get k u var with
  | none => trivial
  | some value =>
    rw [hreply] at hlast
    exact ⟨Or.inr ⟨var, h, hlast⟩, trivial⟩

theorem varLabelsScript_fits (style : LabelStyle) (labels : List (CStr × CStr))
    (h : ∀ l ∈ labels, l ∈ labelVars) (k : Nat) (body : List Action) :
    Fits env u body (varLabelsScript env u style labels k) := by
  induction labels generalizing k body with
  | nil => trivial
  | cons label rest ih =>
    obtain ⟨hlabel, hrest⟩ := List.forall_mem_cons.mp h
    exact fits_append (labelScript_fits hlabel style k) (ih hrest (k + 1)) body

/-- A CHART line, labels and dimensions. -/
theorem block_fits {head : Line} (hhead : ∀ body, head.For env.libm u body .registerUps) (style nameStyle : LabelStyle)
    (quoted : Bool) (names : List CStr) (k : Nat) (body : List Action) :
    Fits env u body
      (.print .registerUps head :: labelsScript env u style nameStyle k ++ dimensionsScript quoted names) := by
  refine fits_append ?_ ?_ body
  · intro body
    refine ⟨hhead body, fits_append (varLabelsScript_fits style labelVars (fun _ h => h) k) ?_ _⟩
    exact fun body => ⟨Or.inl ⟨rfl, rfl⟩, trivial, trivial⟩
  · intro body
    refine Trace.past_of_forall _ _ fun before a ha => ?_
    obtain ⟨name, -, rfl⟩ := List.mem_map.mp ha
    rfl

theorem availableScript_fits (chart : NdChart) (k : Nat) (body : List Action) :
    Fits env u body (availableScript env u chart k) := by
  unfold availableScript powerQueries
  split
  · refine ⟨fits_ask _ _ _ _, ?_⟩
    split
    · trivial
    · refine ⟨fits_ask _ _ _ _, ?_⟩
      split
      · exact ⟨fits_ask _ _ _ _, trivial⟩
      · trivial
  · exact ⟨fits_ask _ _ _ _, trivial⟩

theorem chartScript_fits {chart : NdChart} (h : chart ∈ ndCharts) (k : Nat) (body : List Action) :
    Fits env u body (chartScript env u chart k) := by
  unfold chartScript
  refine fits_append (availableScript_fits chart k) (fun body => ?_) body
  split
  · apply block_fits
    exact fun _ => ⟨rfl, h⟩
  · trivial

theorem chartsScript_fits (charts : List NdChart) (h : ∀ chart ∈ charts, chart ∈ ndCharts) (k : Nat)
    (body : List Action) : Fits env u body (chartsScript env u charts k) := by
  induction charts generalizing k body with
  | nil => trivial
  | cons chart rest ih =>
    obtain ⟨hchart, hrest⟩ := List.forall_mem_cons.mp h
    exact fits_append (chartScript_fits hchart k) (ih hrest _) body

theorem registerScript_fits (id k : Nat) (body : List Action) : Fits env u body (registerScript env u id k) := by
  unfold registerScript
  refine fits_append (fits_append (fits_append (fits_append ?_ ?_) ?_) ?_) ?_ body
  · exact fun body => ⟨rfl, ⟨rfl, rfl⟩, trivial⟩
  · apply block_fits
    exact fun _ => rfl
  · exact fun body => ⟨trivial, trivial⟩
  · exact chartsScript_fits ndCharts (fun _ h => h) _
  · exact fun body => ⟨rfl, trivial⟩

theorem registerDeed_fits (id k : Nat) (body : List Action) :
    Fits env u body (registerDeed env u id k).actions := by
  unfold registerDeed
  split
  · exact ⟨rfl, trivial⟩
  · exact registerScript_fits id k body

/-! ### Collection -/

theorem fits_andThen {d e : Deed} (hd : ∀ body, Fits env u body d.actions)
    (he : ∀ body, Fits env u body e.actions) (body : List Action) : Fits env u body (d.andThen e).actions := by
  rcases d.andThen_cases e with ⟨-, heq⟩ | ⟨-, heq⟩
  · rw [heq]
    exact hd body
  · rw [heq]
    exact fits_append hd he body

section Frame
variable {origin : Origin} {c : Chart} {answers : List (CStr × Option CStr)} {values : List (CStr × Int)}

theorem sets_fit (hsending : Sending u c body) (hlast : LastReplies origin u answers body)
    (hvalues : ∀ v ∈ values, Computed env.libm c answers v.1 v.2) :
    Fits env u body (values.map (fun (name, value) => .print origin (.set name value)) ++
      [.print origin .close]) := by
  induction values generalizing body with
  | nil => exact ⟨trivial, trivial⟩
  | cons v values ih =>
    obtain ⟨hv, hrest⟩ := List.forall_mem_cons.mp hvalues
    refine ⟨⟨c, answers, hsending, hlast, hv⟩, ih ?_ (hlast.skip rfl) hrest⟩
    -- A SET line opens no frame.
    simpa [Sending, beginIds, Action.beginId?] using hsending

theorem frame_fits (hlast : LastReplies origin u answers body) (hc : c.Known)
    (hvalues : ∀ v ∈ values, Computed env.libm c answers v.1 v.2) (dt : Nat) :
    Fits env u body (frame u origin c.id dt values) := by
  refine ⟨⟨rfl, c, hc, rfl⟩, sets_fit ?_ (hlast.skip rfl) hvalues⟩
  simp [Sending, beginIds, Action.beginId?]

end Frame

theorem statusDeed_fits (dt k : Nat) (body : List Action) : Fits env u body (statusDeed env u dt k).actions := by
  have hlast := LastReplies.asked env u .upsStatus upsStatusVar k body
  unfold statusDeed
  split
  · next status hstatus =>
    refine ⟨fits_ask _ _ _ _, frame_fits (c := .status) hlast trivial ?_ dt⟩
    intro v hv
    obtain ⟨⟨name, flag⟩, hflag, rfl⟩ := List.mem_map.mp hv
    exact .flag hstatus hflag
  · exact ⟨fits_ask _ _ _ _, trivial⟩

theorem powerFrame_fits {answers : List (CStr × Option CStr)} {realpower : Ndd}
    (hlast : LastReplies .upsRealpower u answers body)
    (h : Computed env.libm (.var loadUsage) answers loadUsage.chartDimension realpower.toInt64) (dt : Nat) :
    Fits env u body (powerFrame u dt realpower) :=
  frame_fits (c := .var loadUsage) hlast h.known (List.forall_mem_singleton.mpr h) dt

theorem powerScript_fits (dt k : Nat) (body : List Action) : Fits env u body (powerScript env u dt k) := by
  unfold powerScript
  refine ⟨fits_ask _ _ _ _, ?_⟩
  have hpower := LastReplies.asked env u .upsRealpower realpowerVar k body
  cases hp : env.get k u realpowerVar with
  | some value =>
    rw [hp] at hpower
    refine ⟨⟨_, _, hpower⟩, powerFrame_fits (hpower.skip rfl) ?_ dt⟩
    exact .number (by decide) value
  | none =>
    rw [hp] at hpower
    refine ⟨fits_ask _ _ _ _, ?_⟩
    have hload := hpower.ask env loadVar (k + 1)
    cases hl : env.get (k + 1) u loadVar with
    | none => trivial
    | some load =>
      rw [hl] at hload
      refine ⟨⟨_, _, hload.last⟩, fits_ask _ _ _ _, ?_⟩
      have hnominal := (hload.skip (a := .str2ndd (some load)) rfl).ask env realpowerNominalVar (k + 2)
      cases hn : env.get (k + 2) u realpowerNominalVar with
      | none => trivial
      | some nominal =>
        rw [hn] at hnominal
        refine ⟨⟨_, _, hnominal.last⟩, powerFrame_fits (hnominal.skip rfl) ?_ dt⟩
        exact .product load nominal

theorem varsDeed_fits (dt : Nat) (charts : List NdChart) (h : ∀ chart ∈ charts, chart ∈ ndCharts) (k : Nat)
    (body : List Action) : Fits env u body (varsDeed env u dt charts k).actions := by
  induction charts generalizing k body with
  | nil => trivial
  | cons chart rest ih =>
    obtain ⟨hchart, hrest⟩ := List.forall_mem_cons.mp h
    unfold varsDeed
    cases hreply : env.get k u chart.nutVariable with
    | none =>
      have hlast := LastReplies.asked env u .upsVars chart.nutVariable k body
      rw [hreply] at hlast
      exact ⟨fits_ask _ _ _ _, ⟨_, _, hlast⟩, trivial⟩
    | some value =>
      refine fits_andThen (fun body => ?_) (ih hrest (k + 1)) body
      have hlast := LastReplies.asked env u .upsVars chart.nutVariable k body
      rw [hreply] at hlast
      refine ⟨fits_ask _ _ _ _, ⟨_, _, hlast⟩, frame_fits (c := .var chart) (hlast.skip rfl) hchart ?_ dt⟩
      exact List.forall_mem_singleton.mpr (.number hchart value)

theorem metricsDeed_fits (dt : Nat) (charts : List NdChart) (h : ∀ chart ∈ charts, chart ∈ ndCharts) (k : Nat)
    (body : List Action) : Fits env u body (metricsDeed env u dt charts k).actions := by
  refine fits_andThen (fits_andThen ?_ (fits_andThen ?_ ?_)) ?_ body
  · exact fun body => ⟨⟨rfl, rfl⟩, trivial⟩
  · exact statusDeed_fits dt k
  · exact powerScript_fits dt (k + 1)
  · exact varsDeed_fits dt charts h _

theorem collectDeed_fits (hl : Lockstep w) (dt : Nat) (body : List Action) :
    Fits env u body (collectDeed env w dt u).actions := by
  unfold collectDeed
  split
  · exact metricsDeed_fits dt _ hl.charts_known _ body
  · refine fits_andThen (registerDeed_fits _ _) (metricsDeed_fits dt _ ?_ _) body
    exact fun chart hchart => (registeredCharts_sublist env u w.gets).subset hchart

end Scripts

/-! ### Runs -/

/-- After the events `before`, `main` is in cycle `n` at the row of `u`: since `upscli_list_next`
returned that row, it has done `body`. -/
structure AtRow (n : Nat) (u : CStr) (before : List Event) (body : List Action) : Prop where
  row : ∃ earlier, before = earlier ++ (.listNext (upsRow u) :: body).map (Event.mk n)
  no_row : ∀ a ∈ body, ∀ answer, a ≠ .listNext answer

theorem AtRow.unique {n : Nat} {v : CStr} {before : List Event} {body body' : List Action}
    (h : AtRow n u before body) (h' : AtRow n v before body') : u = v ∧ body = body' := by
  obtain ⟨earlier, hrow⟩ := h.row
  obtain ⟨earlier', hrow'⟩ := h'.row
  have hsame := hrow.symm.trans hrow'
  have hafter : ∀ {n : Nat} {body : List Action}, (∀ a ∈ body, ∀ answer, a ≠ .listNext answer) →
      ∀ e ∈ body.map (Event.mk n), ¬ ∃ answer, e.action = .listNext answer := by
    rintro n body hbody e he ⟨answer, heq⟩
    obtain ⟨a, ha, rfl⟩ := List.mem_map.mp he
    exact hbody a ha answer heq
  have hbody := Trace.latest_unique (p := fun e => ∃ answer, e.action = .listNext answer) hsame
    ⟨_, rfl⟩ ⟨_, rfl⟩ (hafter h.no_row) (hafter h'.no_row)
  obtain rfl := List.map_injective_iff.mpr (fun a b hab => (Event.mk.inj hab).2) hbody
  obtain ⟨hhead, -⟩ := List.cons.inj (List.append_inj_right' hsame rfl)
  exact ⟨upsRow_injective (Action.listNext.inj (Event.mk.inj hhead).2), rfl⟩

/-- Actions that use neither a row nor a reply: `upscli_list_next` and the flush, and those of
the sweep and of the final cleanup, which take their names from `nd_ups_name`. -/
def Action.Rowless : Action → Prop
  | .listNext _ | .flush | .setSeen _ false | .delName _ | .delVars _ | .delSeen _ | .destroy _ => True
  | _ => False

/-- Any other action happens at the row of a UPS and is one for that UPS. -/
def Justified (env : Env) (before : List Event) (e : Event) : Prop :=
  e.action.Rowless ∨ ∃ u body, AtRow e.cycle u before body ∧ e.action.For env u body

theorem Fits.no_row {script : List Action} (h : Fits env u [] script) :
    ∀ a ∈ script, ∀ answer, a ≠ .listNext answer := by
  rintro a ha answer rfl
  obtain ⟨front, back, hsplit⟩ := List.append_of_mem ha
  exact Trace.past_split h hsplit

theorem Fits.justified {script : List Action} (h : Fits env u [] script) (n : Nat) (before : List Event) :
    Past (Justified env) before ((.listNext (upsRow u) :: script).map (Event.mk n)) := by
  refine ⟨Or.inl trivial, (Trace.past_iff _ _).mpr fun pre e post hsplit => Or.inr ?_⟩
  obtain ⟨body, rest, rfl, rfl, hrest⟩ := List.map_eq_append_iff.mp hsplit
  obtain ⟨a, back, rfl, rfl, -⟩ := List.map_eq_cons_iff.mp hrest
  refine ⟨u, body, ⟨⟨before, by simp⟩, ?_⟩, Trace.past_split h rfl⟩
  exact fun b hb => h.no_row b (List.mem_append_left _ hb)

theorem rowless_justified {script : List Action} (h : ∀ a ∈ script, a.Rowless) (n : Nat) (before : List Event) :
    Past (Justified env) before (script.map (Event.mk n)) := by
  refine Trace.past_of_forall _ _ fun _ e he => Or.inl ?_
  obtain ⟨a, ha, rfl⟩ := List.mem_map.mp he
  exact h a ha

theorem dropScript_rowless {a : Action} (h : a ∈ dropScript w u) : a.Rowless := by
  rcases dropScript_cases h with ⟨vars, -, rfl⟩ | rfl | rfl | rfl <;> trivial

theorem sweepScript_rowless {a : Action} (h : a ∈ sweepScript w u) : a.Rowless := by
  unfold sweepScript at h
  split at h
  · rw [List.mem_singleton.mp h]
    trivial
  · exact dropScript_rowless h

theorem play_justified {script : List Action} (h : Past (Justified env) [] w.trace)
    (hscript : ∀ n before, Past (Justified env) before (script.map (Event.mk n))) :
    Past (Justified env) [] (w.play script).trace := by
  rw [World.play_trace]
  exact (Trace.past_append _ _ _).mpr ⟨h, hscript _ _⟩

theorem Step.justified {m m' : Machine} (hs : Step env m m') (hl : Lockstep m.world)
    (h : Past (Justified env) [] m.world.trace) : Past (Justified env) [] m'.world.trace := by
  cases hs with
  | register w u rest complete => exact play_justified h (registerDeed_fits _ _ []).justified
  | registered w => exact play_justified h (rowless_justified (List.forall_mem_singleton.mpr trivial))
  | startupFails w => exact play_justified h (rowless_justified (List.forall_mem_singleton.mpr trivial))
  | collect w u rest complete => exact play_justified h (collectDeed_fits hl _ []).justified
  | listed w =>
    exact play_justified h (rowless_justified (List.forall_mem_cons.mpr
      ⟨trivial, List.forall_mem_singleton.mpr trivial⟩))
  | listingFails w => exact play_justified h (rowless_justified (List.forall_mem_singleton.mpr trivial))
  | sweep w todo rest key hnext => exact play_justified h (rowless_justified fun _ => sweepScript_rowless)
  | clean w todo rest key hnext => exact play_justified h (rowless_justified fun _ => dropScript_rowless)
  | _ => exact h

theorem justified_run (env : Env) (t : Nat) : Past (Justified env) [] (run env t).world.trace :=
  run_invariant (P := fun m => Past (Justified env) [] m.world.trace) trivial
    (fun _ _ hsound h hs => hs.justified hsound.lockstep h) t

theorem Move.stale {w' : World} (hm : Move env w w') : w'.stale = w.stale := by
  cases hm with
  | register u hu => exact World.play_stale _ _
  | metrics u hu => exact World.play_stale _ _
  | drop u => exact World.play_stale _ _
  | _ => rfl

/-- **Every value is the reply to its own query.** In every run no string of an answer is read
after a later call on the connection it came from. Every query, registration and record made at
a row is for the UPS of that row, and so is every line: a label is the name or the reply to the
query just sent for the label's variable, and a SET value is computed from the replies to the
last queries, sent at this row by the same sender for the variables of the dimension. -/
theorem values_from_own_replies (env : Env) (t : Nat) :
    (run env t).world.stale = false ∧ Past (Justified env) [] (run env t).world.trace := by
  refine ⟨?_, justified_run env t⟩
  refine run_moves (P := fun w => w.stale = false) rfl (fun w w' _ h hm => ?_) t
  exact hm.stale.trans h

end UpsdPlugin
