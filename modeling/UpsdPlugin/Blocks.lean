import UpsdPlugin.Moves
import UpsdPlugin.Lib.Past

/-! The blocks of the output.

A registration prints chart blocks, each opened by its CHART line, and the body of the
collection loop prints data frames from BEGIN to END (`Emits`). -/
namespace UpsdPlugin
open World (getsOf)

/-! ### Charts of a UPS -/

/-- The charts a UPS can have. -/
inductive Chart where
  | status
  | var (chart : NdChart)
  deriving DecidableEq

namespace Chart

def id : Chart → CStr
  | status => statusId
  | var chart => chart.chartId

def dimensions : Chart → List CStr
  | status => statusDimensions
  | var chart => [chart.chartDimension]

def Known : Chart → Prop
  | status => True
  | var chart => chart ∈ ndCharts

theorem id_inj {c d : Chart} (hc : c.Known) (hd : d.Known) (h : c.id = d.id) : c = d := by
  have hnodup := List.nodup_cons.mp chartIds_nodup
  cases c with
  | status =>
    cases d with
    | status => rfl
    | var d => exact absurd (List.mem_map.mpr ⟨d, hd, h.symm⟩) hnodup.1
  | var c =>
    cases d with
    | status => exact absurd (List.mem_map.mpr ⟨c, hc, h⟩) hnodup.1
    | var d => exact congrArg var (List.inj_on_of_nodup_map hnodup.2 hc hd h)

/-- The id on the CHART and BEGIN lines tells the cleaned name and the chart. -/
theorem fullId_inj {u v : CStr} {c d : Chart} (hc : c.Known) (hd : d.Known) :
    fullId (cleanName u) c.id = fullId (cleanName v) d.id ↔ cleanName u = cleanName v ∧ c = d := by
  rw [UpsdPlugin.fullId_inj (cleanName_no_dot u) (cleanName_no_dot v)]
  constructor
  · intro h
    exact ⟨h.1, id_inj hc hd h.2⟩
  · intro h
    exact ⟨h.1, congrArg id h.2⟩

end Chart

/-! ### Blocks -/

/-- A chart block: CHART, at least one CLABEL, CLABEL_COMMIT, and the DIMENSION lines. -/
structure ChartBlock where
  head : Line
  id : CStr
  opens : head.chartId? = some id
  labels : List (LabelStyle × CStr × CStr)
  labelled : labels ≠ []
  dimensions : List (Bool × CStr × Nat)

/-- A data frame: BEGIN, at least one SET, END. -/
structure Frame where
  origin : Origin
  type : CStr
  name : CStr
  usec : Nat
  values : List (CStr × Int)
  filled : values ≠ []

inductive Block where
  | chart (block : ChartBlock)
  | frame (frame : Frame)

def labelLine (l : LabelStyle × CStr × CStr) : Origin × Line := (.registerUps, .clabel l.1 l.2.1 l.2.2)

def dimensionLine (d : Bool × CStr × Nat) : Origin × Line := (.registerUps, .dimension d.1 d.2.1 d.2.2)

/-- The names on the DIMENSION lines. -/
def ChartBlock.names (b : ChartBlock) : List CStr := b.dimensions.map fun d => d.2.1

/-- The names on the SET lines. -/
def Frame.names (f : Frame) : List CStr := f.values.map Prod.fst

/-- The id on the BEGIN line. -/
def Frame.id (f : Frame) : CStr := fullId f.type f.name

def Block.lines : Block → List (Origin × Line)
  | chart b =>
    (.registerUps, b.head) :: b.labels.map labelLine ++ (.registerUps, .clabelCommit) ::
      b.dimensions.map dimensionLine
  | frame f =>
    (f.origin, .begin f.type f.name f.usec) :: f.values.map (fun v => (f.origin, .set v.1 v.2)) ++
      [(f.origin, .close)]

/-- The block has a CHART line with this id. -/
def Block.Opens (id : CStr) : Block → Prop
  | chart b => b.id = id
  | frame _ => False

/-- The block declares the chart `c` of the UPS with this cleaned name. -/
structure ChartBlock.Declares (b : ChartBlock) (type : CStr) (c : Chart) : Prop where
  id : b.id = fullId type c.id
  names : b.names = c.dimensions

/-- The frame is one of the chart `c` of the UPS with this cleaned name. -/
structure Frame.Sends (f : Frame) (type : CStr) (c : Chart) : Prop where
  id : f.id = fullId type c.id
  names : f.names = c.dimensions

/-! ### What scripts print -/

def Action.printed? : Action → Option (Origin × Line)
  | .print origin line => some (origin, line)
  | _ => none

def printedOf (script : List Action) : List (Origin × Line) := script.filterMap Action.printed?

/-- The lines printed in a run, with the code that printed each. -/
def printed (trace : List Event) : List (Origin × Line) := trace.filterMap (·.action.printed?)

theorem printed_play (w : World) (script : List Action) :
    printed (w.play script).trace = printed w.trace ++ printedOf script := by
  rw [World.play_trace, printed, List.filterMap_append, List.filterMap_map]
  rfl

/-- The script prints these blocks. -/
def Emits (script : List Action) (blocks : List Block) : Prop :=
  printedOf script = blocks.flatMap Block.lines

theorem Emits.silent {script : List Action} (h : Emits script []) (w : World) :
    printed (w.play script).trace = printed w.trace := by
  rw [printed_play, h]
  exact List.append_nil _

theorem Emits.append {a b : List Action} {as bs : List Block} (ha : Emits a as) (hb : Emits b bs) :
    Emits (a ++ b) (as ++ bs) := by
  unfold Emits printedOf at *
  rw [List.filterMap_append, List.flatMap_append, ha, hb]

theorem Emits.cons {a : Action} {b : List Action} {bs : List Block} (ha : a.printed? = none)
    (hb : Emits b bs) : Emits (a :: b) bs := by
  unfold Emits printedOf at *
  rw [List.filterMap_cons_none ha, hb]

theorem Emits.nil : Emits [] [] := rfl

section Emissions
variable (env : Env) (u : CStr)

theorem printedOf_append (a b : List Action) : printedOf (a ++ b) = printedOf a ++ printedOf b :=
  List.filterMap_append

theorem labelScript_printed (style : LabelStyle) (label var : CStr) (k : Nat) :
    ∃ labels : List (LabelStyle × CStr × CStr),
      printedOf (labelScript env u style label var k) = labels.map labelLine := by
  unfold labelScript
  cases env.get k u var with
  | none => exact ⟨[], rfl⟩
  | some value => exact ⟨[(style, label, value)], rfl⟩

theorem varLabelsScript_printed (style : LabelStyle) (vars : List (CStr × CStr)) (k : Nat) :
    ∃ labels : List (LabelStyle × CStr × CStr),
      printedOf (varLabelsScript env u style vars k) = labels.map labelLine := by
  induction vars generalizing k with
  | nil => exact ⟨[], rfl⟩
  | cons var rest ih =>
    obtain ⟨first, hfirst⟩ := labelScript_printed env u style var.1 var.2 k
    obtain ⟨others, hothers⟩ := ih (k + 1)
    refine ⟨first ++ others, ?_⟩
    rw [varLabelsScript, printedOf_append, hfirst, hothers, List.map_append]

/-- There is always a label: the name of the UPS. -/
theorem labelsScript_printed (style nameStyle : LabelStyle) (k : Nat) :
    ∃ labels : List (LabelStyle × CStr × CStr), labels ≠ [] ∧
      printedOf (labelsScript env u style nameStyle k) = labels.map labelLine ++ [(.registerUps, .clabelCommit)] := by
  obtain ⟨labels, hlabels⟩ := varLabelsScript_printed env u style labelVars k
  refine ⟨labels ++ [(nameStyle, "ups_name".toList, u)], by simp, ?_⟩
  rw [labelsScript, printedOf_append, hlabels, List.map_append, List.append_assoc]
  rfl

theorem dimensionsScript_printed (quoted : Bool) (names : List CStr) :
    printedOf (dimensionsScript quoted names) =
      (names.map fun name => (quoted, name, pluginPrecision)).map dimensionLine := by
  rw [printedOf, dimensionsScript, List.filterMap_map, List.map_map]
  exact congrFun (List.filterMap_eq_map (f := fun name => dimensionLine (quoted, name, pluginPrecision))) names

/-- A CHART line, labels and dimensions are a chart block. -/
theorem block_emits {head : Line} {type : CStr} {c : Chart} (style nameStyle : LabelStyle)
    (quoted : Bool) (hopen : head.chartId? = some (fullId type c.id)) (k : Nat) :
    ∃ b : ChartBlock, b.Declares type c ∧
      Emits (.print .registerUps head :: labelsScript env u style nameStyle k ++
        dimensionsScript quoted c.dimensions) [.chart b] := by
  obtain ⟨labels, hlabelled, hlabels⟩ := labelsScript_printed env u style nameStyle k
  refine ⟨⟨head, _, hopen, labels, hlabelled,
    c.dimensions.map fun name => (quoted, name, pluginPrecision)⟩, ⟨rfl, ?_⟩, ?_⟩
  · simp [ChartBlock.names, Function.comp_def]
  · have hhead : printedOf (.print .registerUps head :: labelsScript env u style nameStyle k) =
        (.registerUps, head) :: printedOf (labelsScript env u style nameStyle k) := rfl
    rw [Emits, printedOf_append, hhead, hlabels, dimensionsScript_printed]
    simp [Block.lines]

theorem statusBlock_emits (k : Nat) :
    ∃ b : ChartBlock, b.Declares (cleanName u) .status ∧ Emits (statusBlock env u k) [.chart b] :=
  block_emits env u .bare .bare false rfl k

theorem chartBlock_emits (chart : NdChart) (k : Nat) :
    ∃ b : ChartBlock, b.Declares (cleanName u) (.var chart) ∧
      Emits (chartBlock env u chart k) [.chart b] :=
  block_emits env u (c := .var chart) .quoted .quotedName true rfl k

theorem availableScript_emits (chart : NdChart) (k : Nat) : Emits (availableScript env u chart k) [] := by
  unfold availableScript powerQueries
  split
  · split
    · rfl
    · split <;> rfl
  · rfl

/-- The chart loop of a registration prints a block for each chart it keeps. -/
theorem chartsScript_emits (charts : List NdChart) (k : Nat) :
    ∃ blocks : List ChartBlock, Emits (chartsScript env u charts k) (blocks.map .chart) ∧
      (∀ b ∈ blocks, ∃ chart ∈ keptCharts env u charts k, b.Declares (cleanName u) (.var chart)) ∧
      ∀ chart ∈ keptCharts env u charts k, ∃ b ∈ blocks, b.Declares (cleanName u) (.var chart) := by
  induction charts generalizing k with
  | nil => exact ⟨[], rfl, fun b hb => (nomatch hb), fun chart hc => (nomatch hc)⟩
  | cons chart rest ih =>
    obtain ⟨others, hothers, hdecl, hkept⟩ := ih (k + getsOf (chartScript env u chart k))
    have hquery := availableScript_emits env u chart k
    unfold chartsScript keptCharts
    cases havail : available env u chart k with
    | false =>
      have hfirst : Emits (chartScript env u chart k) [] := by
        rw [chartScript, havail]
        exact hquery.append Emits.nil
      exact ⟨others, hfirst.append hothers, hdecl, hkept⟩
    | true =>
      obtain ⟨block, hblock, hemits⟩ :=
        chartBlock_emits env u chart (k + getsOf (availableScript env u chart k))
      have hfirst : Emits (chartScript env u chart k) [.chart block] := by
        rw [chartScript, havail]
        exact hquery.append hemits
      refine ⟨block :: others, hfirst.append hothers, ?_, ?_⟩
      · intro b hb
        rcases List.mem_cons.mp hb with rfl | hb
        · exact ⟨chart, List.mem_cons_self .., hblock⟩
        · obtain ⟨c, hc, hb⟩ := hdecl b hb
          exact ⟨c, List.mem_cons_of_mem chart hc, hb⟩
      · intro c hc
        rcases List.mem_cons.mp hc with rfl | hc
        · exact ⟨block, List.mem_cons_self .., hblock⟩
        · obtain ⟨b, hb, hdecl⟩ := hkept c hc
          exact ⟨b, List.mem_cons_of_mem block hb, hdecl⟩

/-- The chart is the status chart or one of these. -/
def Chart.Among (c : Chart) (charts : List NdChart) : Prop :=
  match c with
  | .status => True
  | .var chart => chart ∈ charts

theorem Chart.Among.mono {c : Chart} {charts more : List NdChart} (h : c.Among charts)
    (hsub : charts ⊆ more) : c.Among more := by
  cases c with
  | status => trivial
  | var chart => exact hsub h

theorem Chart.Among.known {c : Chart} {charts : List NdChart} (h : c.Among charts)
    (hsub : charts ⊆ ndCharts) : c.Known :=
  h.mono hsub

/-- A registration declares the status chart and the charts it records, and no others. -/
theorem registerScript_emits (id k : Nat) :
    ∃ blocks : List ChartBlock, Emits (registerScript env u id k) (blocks.map .chart) ∧
      (∀ b ∈ blocks, ∃ c : Chart, c.Among (registeredCharts env u k) ∧ b.Declares (cleanName u) c) ∧
      ∀ c : Chart, c.Among (registeredCharts env u k) → ∃ b ∈ blocks, b.Declares (cleanName u) c := by
  obtain ⟨status, hstatus, hemits⟩ := statusBlock_emits env u k
  obtain ⟨others, hothers, hdecl, hkept⟩ :=
    chartsScript_emits env u ndCharts (k + getsOf (statusBlock env u k))
  refine ⟨status :: others, ?_, ?_, ?_⟩
  · have hhead : Emits [.register u, .setName u (cleanName u)] [] := rfl
    have hcreate : Emits [.create id] [] := rfl
    have hend : Emits [.setVars u ⟨id, varsOf (registeredCharts env u k)⟩] [] := rfl
    simpa [registerScript] using (((hhead.append hemits).append hcreate).append hothers).append hend
  · intro b hb
    rcases List.mem_cons.mp hb with rfl | hb
    · exact ⟨.status, trivial, hstatus⟩
    · obtain ⟨chart, hchart, hb⟩ := hdecl b hb
      exact ⟨.var chart, hchart, hb⟩
  · intro c hc
    cases c with
    | status => exact ⟨status, List.mem_cons_self .., hstatus⟩
    | var chart =>
      obtain ⟨b, hb, hdecl⟩ := hkept chart hc
      exact ⟨b, List.mem_cons_of_mem status hb, hdecl⟩

theorem frame_emits (origin : Origin) (id : CStr) (dt : Nat) {values : List (CStr × Int)}
    (hfilled : values ≠ []) :
    Emits (frame u origin id dt values) [.frame ⟨origin, cleanName u, id, dt, values, hfilled⟩] := by
  have hsets : ∀ print : CStr × Int → Action, (∀ v, (print v).printed? = some (origin, .set v.1 v.2)) →
      printedOf (values.map print) = values.map fun v => (origin, .set v.1 v.2) := by
    intro print hprint
    have hcomp : Action.printed? ∘ print = some ∘ fun v => (origin, Line.set v.1 v.2) := by
      funext v
      exact hprint v
    rw [printedOf, List.filterMap_map, hcomp, List.filterMap_eq_map]
  have hhead : printedOf [.print origin (.begin (cleanName u) id dt)] = [(origin, .begin (cleanName u) id dt)] :=
    rfl
  have hend : printedOf [.print origin .close] = [(origin, .close)] := rfl
  rw [Emits, frame, ← List.singleton_append, printedOf_append, printedOf_append, hhead, hend,
    hsets _ fun _ => rfl]
  simp [Block.lines]

/-- A frame of one of these charts, or one of `send_metric_ups_realpower`. -/
def Frame.Of (f : Frame) (type : CStr) (charts : List NdChart) : Prop :=
  f.origin = .upsRealpower ∨ ∃ c : Chart, c.Among charts ∧ f.Sends type c

theorem statusDeed_emits (dt k : Nat) (charts : List NdChart) :
    ∃ frames : List Frame, Emits (statusDeed env u dt k).actions (frames.map .frame) ∧
      ∀ f ∈ frames, f.Of (cleanName u) charts := by
  unfold statusDeed
  split
  · next status _ =>
    have hnames : (statusValues status).map Prod.fst = statusDimensions := rfl
    have hfilled : statusValues status ≠ [] := fun h => by simp [h, statusDimensions] at hnames
    refine ⟨[_], (frame_emits u .upsStatus statusId dt hfilled).cons rfl, ?_⟩
    exact List.forall_mem_singleton.mpr (Or.inr ⟨.status, trivial, rfl, hnames⟩)
  · exact ⟨[], rfl, fun f hf => (nomatch hf)⟩

theorem powerScript_emits (dt k : Nat) (charts : List NdChart) :
    ∃ frames : List Frame, Emits (powerScript env u dt k) (frames.map .frame) ∧
      ∀ f ∈ frames, f.Of (cleanName u) charts := by
  have hframe : ∀ realpower : Ndd, ∃ f : Frame, f.Of (cleanName u) charts ∧
      Emits (powerFrame u dt realpower) [.frame f] := fun realpower =>
    ⟨_, Or.inl rfl, frame_emits u .upsRealpower _ dt (List.cons_ne_nil _ _)⟩
  unfold powerScript
  cases env.get k u realpowerVar with
  | some value =>
    obtain ⟨f, hf, hemits⟩ := hframe ((str2ndd env.libm value).times pluginPrecision)
    exact ⟨[f], (hemits.cons rfl).cons rfl, List.forall_mem_singleton.mpr hf⟩
  | none =>
    cases env.get (k + 1) u loadVar with
    | none => exact ⟨[], rfl, fun f hf => (nomatch hf)⟩
    | some load =>
      cases env.get (k + 2) u realpowerNominalVar with
      | none => exact ⟨[], rfl, fun f hf => (nomatch hf)⟩
      | some nominal =>
        obtain ⟨f, hf, hemits⟩ :=
          hframe (((str2ndd env.libm load).div 100).mul ((str2ndd env.libm nominal).times pluginPrecision))
        exact ⟨[f], ((((hemits.cons rfl).cons rfl).cons rfl).cons rfl).cons rfl,
          List.forall_mem_singleton.mpr hf⟩

theorem varsDeed_emits (dt : Nat) (charts : List NdChart) (k : Nat) :
    ∃ frames : List Frame, Emits (varsDeed env u dt charts k).actions (frames.map .frame) ∧
      ∀ f ∈ frames, f.Of (cleanName u) charts := by
  induction charts generalizing k with
  | nil => exact ⟨[], rfl, List.forall_mem_nil _⟩
  | cons chart rest ih =>
    unfold varsDeed
    cases env.get k u chart.nutVariable with
    | none => exact ⟨[], rfl, List.forall_mem_nil _⟩
    | some value =>
      obtain ⟨others, hothers, hof⟩ := ih (k + 1)
      have hfirst := ((frame_emits u .upsVars chart.chartId dt (List.cons_ne_nil
        (chart.chartDimension, ((str2ndd env.libm value).times pluginPrecision).toInt64) [])).cons
          (a := .str2ndd (some value)) rfl).cons (a := ask env u .upsVars chart.nutVariable k) rfl
      refine ⟨_ :: others, hfirst.append hothers, ?_⟩
      intro f hf
      rcases List.mem_cons.mp hf with rfl | hf
      · exact Or.inr ⟨.var chart, List.mem_cons_self .., rfl, rfl⟩
      · refine (hof f hf).imp_right fun hsends => ?_
        obtain ⟨c, hc, h⟩ := hsends
        exact ⟨c, hc.mono fun _ => List.mem_cons_of_mem chart, h⟩

/-- One deed after another prints the frames of the first, and maybe those of the second. -/
theorem Emits.andThen {d e : Deed} {P : Frame → Prop}
    (hd : ∃ frames : List Frame, Emits d.actions (frames.map .frame) ∧ ∀ f ∈ frames, P f)
    (he : ∃ frames : List Frame, Emits e.actions (frames.map .frame) ∧ ∀ f ∈ frames, P f) :
    ∃ frames : List Frame, Emits (d.andThen e).actions (frames.map .frame) ∧ ∀ f ∈ frames, P f := by
  rcases d.andThen_cases e with ⟨-, heq⟩ | ⟨-, heq⟩
  · rw [heq]
    exact hd
  · rw [heq]
    obtain ⟨first, hfirst, h1⟩ := hd
    obtain ⟨second, hsecond, h2⟩ := he
    refine ⟨first ++ second, ?_, List.forall_mem_append.mpr ⟨h1, h2⟩⟩
    rw [List.map_append]
    exact hfirst.append hsecond

theorem metricsDeed_emits (dt : Nat) (charts : List NdChart) (k : Nat) :
    ∃ frames : List Frame, Emits (metricsDeed env u dt charts k).actions (frames.map .frame) ∧
      ∀ f ∈ frames, f.Of (cleanName u) charts := by
  have hspecial := Emits.andThen (statusDeed_emits env u dt k charts)
    (e := ⟨powerScript env u dt (k + 1), none⟩) (powerScript_emits env u dt (k + 1) charts)
  refine Emits.andThen ?_ (varsDeed_emits env u dt charts _)
  exact Emits.andThen (d := ⟨[.setSeen u true], none⟩) ⟨[], rfl, fun f hf => (nomatch hf)⟩ hspecial

end Emissions

end UpsdPlugin
