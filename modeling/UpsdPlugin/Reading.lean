import UpsdPlugin.ChartIds
import UpsdPlugin.Fields

/-! What Netdata reads from the plugin's lines.

Each line is written here as fields, quoted or not, so that what the splitter makes of it
follows from what its fields are: a label value arrives unchanged unless it has a single
quote or ends with a backslash, and a chart id arrives the same from the quoted CHART line
and from the unquoted BEGIN line. -/
namespace UpsdPlugin

/-! ### Fields -/

namespace Field

def bare (text : CStr) : Field := ⟨none, text⟩
def quoted (text : CStr) : Field := ⟨some '\'', text⟩

end Field

/-- Neither a separator nor a quote, a backslash or a NUL. -/
def plain (c : Char) : Bool :=
  !isspacePluginsd c && c ≠ '\'' && c ≠ '"' && c ≠ '\\' && c ≠ nul

theorem plain_iff {c : Char} : plain c = true ↔
    isspacePluginsd c = false ∧ c ≠ '\'' ∧ c ≠ '"' ∧ c ≠ '\\' ∧ c ≠ nul := by
  simp [plain, and_assoc]

/-- Neither a single quote nor a backslash or a NUL. -/
def quotable (c : Char) : Bool := c ≠ '\'' && c ≠ '\\' && c ≠ nul

theorem quotable_iff {c : Char} : quotable c = true ↔ c ≠ '\'' ∧ c ≠ '\\' ∧ c ≠ nul := by
  simp [quotable, and_assoc]

theorem quotable_of_plain {c : Char} (h : plain c = true) : quotable c = true := by
  obtain ⟨-, hsingle, -, hback, hnul⟩ := plain_iff.mp h
  exact quotable_iff.mpr ⟨hsingle, hback, hnul⟩

theorem Field.readable_bare {s : CStr} (hne : s ≠ []) (h : s.all plain = true) :
    (bare s).Readable where
  opens := by
    obtain ⟨c, t, rfl⟩ := List.exists_cons_of_ne_nil hne
    obtain ⟨hspace, hsingle, hdouble, -⟩ := plain_iff.mp (List.all_eq_true.mp h c (by simp))
    exact ⟨c, rfl, hsingle, hdouble, hspace⟩
  passes := by
    apply Splitter.passes_of_forall
    intro c hc
    obtain ⟨hspace, -, -, hback, -⟩ := plain_iff.mp (List.all_eq_true.mp h c hc)
    exact ⟨hback, hspace⟩
  no_nul := fun hmem => (plain_iff.mp (List.all_eq_true.mp h nul hmem)).2.2.2.2 rfl

theorem Field.readable_quoted {s : CStr} (hnul : nul ∉ s)
    (h : Splitter.passes (· = '\'') s = true) : (quoted s).Readable where
  opens := Or.inl rfl
  passes := h
  no_nul := hnul

theorem Field.readable_quotable {s : CStr} (h : s.all quotable = true) : (quoted s).Readable := by
  have hchar (c : Char) (hc : c ∈ s) := quotable_iff.mp (List.all_eq_true.mp h c hc)
  apply readable_quoted
  · intro hmem
    exact (hchar nul hmem).2.2 rfl
  · apply Splitter.passes_of_forall
    intro c hc
    exact ⟨(hchar c hc).2.1, by simpa using (hchar c hc).1⟩

theorem Field.readable_plain {s : CStr} (h : s.all plain = true) : (quoted s).Readable := by
  apply readable_quotable
  apply List.all_eq_true.mpr
  intro c hc
  exact quotable_of_plain (List.all_eq_true.mp h c hc)

theorem plain_of_isDigit {c : Char} (h : c.isDigit) : plain c = true := by
  have hne (d : Char) (hd : d.isDigit = false) : c ≠ d := by
    rintro rfl
    simp [h] at hd
  simp [plain, isspacePluginsd, hne ' ' rfl, hne '\t' rfl, hne '\r' rfl, hne '\n' rfl,
    hne '\x0c' rfl, hne '\x0b' rfl, hne '=' rfl, hne '\'' rfl, hne '"' rfl, hne '\\' rfl, hne nul rfl]

theorem nat_plain (n : Nat) : (Line.nat n).all plain = true := by
  apply List.all_eq_true.mpr
  intro c hc
  exact plain_of_isDigit (Nat.isDigit_of_mem_toDigits (by decide) (by decide) hc)

theorem nat_bare (n : Nat) : (Field.bare (Line.nat n)).Readable :=
  Field.readable_bare Nat.toDigits_ne_nil (nat_plain n)

theorem nat_quoted (n : Nat) : (Field.quoted (Line.nat n)).Readable :=
  Field.readable_plain (nat_plain n)

/-! ### Labels -/

def labelNames : List CStr := "ups_name".toList :: labelVars.map Prod.fst

theorem labelNames_plain : ∀ name ∈ labelNames, name ≠ [] ∧ name.all plain = true := by
  decide

/-- The name and the source of a label, quoted as the style says. -/
def labelName : LabelStyle → CStr → Field
  | .bare, name => .bare name
  | .quoted, name | .quotedName, name => .quoted name

def labelSource : LabelStyle → Field
  | .quoted => .quoted (Line.nat clabelSourceAuto)
  | .bare | .quotedName => .bare (Line.nat clabelSourceAuto)

theorem clabel_text (style : LabelStyle) (name v : CStr) :
    (Line.clabel style name v).text =
      joined ([.bare "CLABEL".toList, labelName style name, .quoted v, labelSource style].map
        Field.encode) := by
  have hword : "CLABEL ".toList = "CLABEL".toList ++ [' '] := by decide
  show "CLABEL ".toList ++ Line.labelText style name v = _
  cases style <;>
    simp only [hword, Line.labelText, Line.quote, List.map_cons, List.map_nil,
      joined_cons_cons, joined_singleton, labelName, labelSource, Field.encode, Field.bare, Field.quoted,
      Option.toList_none, Option.toList_some, List.append_assoc, List.cons_append, List.nil_append,
      List.append_nil]

theorem labelName_readable (style : LabelStyle) {name : CStr} (h : name ∈ labelNames) :
    (labelName style name).Readable := by
  obtain ⟨hne, hplain⟩ := labelNames_plain name h
  cases style with
  | bare => exact Field.readable_bare hne hplain
  | quoted => exact Field.readable_plain hplain
  | quotedName => exact Field.readable_plain hplain

theorem labelSource_readable (style : LabelStyle) : (labelSource style).Readable := by
  cases style with
  | bare => exact nat_bare _
  | quoted => exact nat_quoted _
  | quotedName => exact nat_bare _

theorem clabel_words_iff (style : LabelStyle) {name : CStr} (hname : name ∈ labelNames) {v : CStr}
    (hnul : nul ∉ v) :
    splitLine (Line.clabel style name v).text =
        ["CLABEL".toList, name, v, Line.nat clabelSourceAuto] ↔
      Splitter.passes (· = '\'') v = true := by
  have hclabel : (Field.bare "CLABEL".toList).Readable :=
    Field.readable_bare (by decide) rfl
  have hfields : ∀ f ∈ [Field.bare "CLABEL".toList, labelName style name], f.Readable :=
    List.forall_mem_cons.mpr ⟨hclabel, List.forall_mem_singleton.mpr (labelName_readable style hname)⟩
  have htexts : [Field.bare "CLABEL".toList, labelName style name, .quoted v, labelSource style].map
      Field.text = ["CLABEL".toList, name, v, Line.nat clabelSourceAuto] := by
    cases style <;> rfl
  rw [clabel_text]
  constructor
  · intro hwords
    by_contra hpasses
    apply splitLine_unreadable (.bare "CLABEL".toList) [labelName style name] [labelSource style] hfields
      (by simp [pluginsdMaxWords]) (Or.inl rfl) hnul (Bool.eq_false_iff.mpr hpasses)
    exact congrArg (·[2]?) hwords
  · intro hpasses
    rw [← htexts]
    apply splitLine_fields (.bare "CLABEL".toList) [labelName style name, .quoted v, labelSource style]
    · exact List.forall_mem_append.mpr ⟨hfields, List.forall_mem_cons.mpr
        ⟨Field.readable_quoted hnul hpasses, List.forall_mem_singleton.mpr (labelSource_readable style)⟩⟩
    · simp [pluginsdMaxWords]

variable {env : Env} {t : Nat}

/-- Every label that a run prints is one of those of `register_ups`. -/
theorem printed_label_name {n : Nat} {origin : Origin} {style : LabelStyle} {name v : CStr}
    (h : ⟨n, .print origin (.clabel style name v)⟩ ∈ (run env t).world.trace) : name ∈ labelNames := by
  obtain ⟨before, after, htrace⟩ := List.append_of_mem h
  cases Trace.past_split (justified_run env t) htrace with
  | inl hrowless => exact absurd hrowless not_false
  | inr hrow =>
    obtain ⟨u, body, -, hlabel | hlabel⟩ := hrow
    · rw [hlabel.1]
      exact List.mem_cons_self
    · obtain ⟨var, hvar, -⟩ := hlabel
      exact List.mem_cons_of_mem _ (List.mem_map.mpr ⟨_, hvar, rfl⟩)

/-- **When a label survives Netdata's tokenizer.** Every CLABEL line that a run prints is
split into the keyword, the label's name, the value and the source exactly if the value
has no single quote but behind a backslash, and does not end with a backslash that would
hide the closing quote. -/
theorem label_survives_iff (env : Env) (t : Nat) {n : Nat} {origin : Origin} {style : LabelStyle}
    {name v : CStr} (h : ⟨n, .print origin (.clabel style name v)⟩ ∈ (run env t).world.trace)
    (hnul : nul ∉ v) :
    splitLine (Line.clabel style name v).text =
        ["CLABEL".toList, name, v, Line.nat clabelSourceAuto] ↔
      Splitter.passes (· = '\'') v = true :=
  clabel_words_iff style (printed_label_name h) hnul

/-- A row of the startup listing prints the name of the UPS as a label. -/
theorem printed_ups_name {u : CStr} {rest : List CStr} {complete : Bool} (hu : u ≠ [])
    (hpc : (run env t).pc = .startup (listAnswers (u :: rest) complete)) :
    ∃ n, ⟨n, .print .registerUps (.clabel .bare "ups_name".toList u)⟩ ∈
      (run env (t + 1)).world.trace := by
  have hstep := (run_step env t).startup_row hpc
  rw [registerDeed, if_neg hu] at hstep
  generalize (run env t).world = w at hstep
  refine ⟨w.cycle, ?_⟩
  rw [hstep, World.play_trace]
  apply List.mem_append_right
  apply List.mem_map.mpr
  refine ⟨_, ?_, rfl⟩
  simp [registerScript, statusBlock, labelsScript]

theorem plain_name_survives :
    ∃ n, ⟨n, .print .registerUps (.clabel .bare "ups_name".toList "rack 1".toList)⟩ ∈
        (run (silentUps ["rack 1".toList]) 2).world.trace ∧
      nul ∉ "rack 1".toList ∧
      splitLine (Line.clabel .bare "ups_name".toList "rack 1".toList).text =
        ["CLABEL".toList, "ups_name".toList, "rack 1".toList, Line.nat clabelSourceAuto] := by
  have hpc : (run (silentUps ["rack 1".toList]) 1).pc =
      .startup (listAnswers ["rack 1".toList] true) := rfl
  obtain ⟨n, hprinted⟩ := printed_ups_name (by decide) hpc
  rw [show (2 : Nat) = 1 + 1 from rfl]
  exact ⟨n, hprinted, by decide, (label_survives_iff _ (1 + 1) hprinted (by decide)).mpr (by decide)⟩

/-- The name of this UPS is cut at its quote, and the rest of it is taken for the source. -/
theorem quoted_name_cut :
    ∃ n, ⟨n, .print .registerUps (.clabel .bare "ups_name".toList "bob's".toList)⟩ ∈
        (run (silentUps ["bob's".toList]) 2).world.trace ∧
      splitLine (Line.clabel .bare "ups_name".toList "bob's".toList).text =
        ["CLABEL".toList, "ups_name".toList, "bob".toList, "s'".toList, "1".toList] := by
  have hpc : (run (silentUps ["bob's".toList]) 1).pc =
      .startup (listAnswers ["bob's".toList] true) := rfl
  obtain ⟨n, hprinted⟩ := printed_ups_name (by decide) hpc
  rw [show (2 : Nat) = 1 + 1 from rfl]
  exact ⟨n, hprinted, by decide +kernel⟩

/-! ### Chart ids -/

/-- Names whose chart ids are read alike from both lines: without single quotes, `=`, and
white space other than spaces. -/
def Admissible (u : CStr) : Prop :=
  u ≠ [] ∧ u.all (· ∉ ['\'', '=', '\t', '\r', '\n', '\x0c', '\x0b', nul]) = true

/-- `clean_name` takes care of the spaces. -/
theorem cleanName_chars {u : CStr} (hu : Admissible u) :
    ∀ c ∈ cleanName u, isspacePluginsd c = false ∧ c ≠ '\'' ∧ c ≠ nul := by
  intro c hc
  obtain ⟨d, hd, rfl⟩ := List.mem_map.mp hc
  have hne := List.all_eq_true.mp hu.2 d hd
  unfold cleanChar
  split
  case isTrue => decide
  case isFalse hclean =>
    simp only [decide_eq_true_eq, List.mem_cons, List.not_mem_nil, or_false, not_or] at hne hclean
    simp [isspacePluginsd, hne, hclean]

theorem chartIds_plain (c : Chart) (hc : c.Known) : c.id.all plain = true := by
  cases c with
  | status => decide
  | var chart =>
    have hall : ndCharts.all (fun chart => chart.chartId.all plain) = true := by decide +kernel
    exact List.all_eq_true.mp hall chart hc

/-- The id of a chart can be read in quotes and without. A backslash at the end of the
name is followed by the dot. -/
theorem fullId_readable {u : CStr} (hu : Admissible u) {c : Chart} (hc : c.Known) :
    (Field.bare (fullId (cleanName u) c.id)).Readable ∧
      (Field.quoted (fullId (cleanName u) c.id)).Readable := by
  have hstart : ∀ d ∈ "upsd_".toList, plain d = true := List.all_eq_true.mp rfl
  have hend : ∀ d ∈ '.' :: c.id, plain d = true :=
    List.forall_mem_cons.mpr ⟨rfl, List.all_eq_true.mp (chartIds_plain c hc)⟩
  have hfront : ∀ d ∈ "upsd_".toList ++ cleanName u,
      isspacePluginsd d = false ∧ d ≠ '\'' ∧ d ≠ nul := by
    apply List.forall_mem_append.mpr ⟨_, cleanName_chars hu⟩
    intro d hd
    obtain ⟨hspace, hsingle, -, -, hnul⟩ := plain_iff.mp (hstart d hd)
    exact ⟨hspace, hsingle, hnul⟩
  have hpasses (stop : Char → Bool) (ha : ∀ d ∈ "upsd_".toList ++ cleanName u, stop d = false)
      (hb : ∀ d, plain d = true → stop d = false) :
      Splitter.passes stop (fullId (cleanName u) c.id) = true := by
    apply Splitter.passes_append ha _ (List.cons_ne_nil _ _)
    intro d hd
    exact ⟨(plain_iff.mp (hend d hd)).2.2.2.1, hb d (hend d hd)⟩
  have hnul : nul ∉ fullId (cleanName u) c.id := by
    intro hmem
    cases List.mem_append.mp hmem with
    | inl h => exact (hfront nul h).2.2 rfl
    | inr h => exact (plain_iff.mp (hend nul h)).2.2.2.2 rfl
  constructor
  · refine ⟨⟨'u', rfl, by decide⟩, ?_, hnul⟩
    apply hpasses
    · exact fun d hd => (hfront d hd).1
    · exact fun d hd => (plain_iff.mp hd).1
  · apply Field.readable_quoted hnul
    apply hpasses
    · exact fun d hd => by simpa using (hfront d hd).2.1
    · exact fun d hd => by simpa using (plain_iff.mp hd).2.1

/-- The cut of the CHART handler: `id = strchr(type, '.')`, `*id = '\0'`, `id++`. -/
def cutType (type : CStr) : CStr × Option CStr :=
  match type.findIdx? (· = '.') with
  | some i => (type.take i, some (type.drop (i + 1)))
  | none => (type, none)

theorem cutType_append {a : CStr} (h : '.' ∉ a) (b : CStr) : cutType (a ++ '.' :: b) = (a, some b) := by
  have hdot : (a ++ '.' :: b).findIdx? (· = '.') = some a.length := by
    simp [List.findIdx?_append, List.findIdx?_cons, findIdx?_of_not_mem h]
  simp [cutType, hdot]

theorem cutType_fullId {type : CStr} (h : '.' ∉ type) (id : CStr) :
    cutType (fullId type id) = ("upsd_".toList ++ type, some id) := by
  have hupsd : '.' ∉ "upsd_".toList := by decide
  apply cutType_append
  rw [List.mem_append]
  exact not_or.mpr ⟨hupsd, h⟩

/-- The CHART line of a chart. -/
def Chart.line (c : Chart) (type : CStr) (updateEvery : Nat) : Line :=
  match c with
  | .status => .chartStatus type updateEvery
  | .var chart => .chart type chart updateEvery

theorem begin_text (type id : CStr) (dt : Nat) :
    (Line.begin type id dt).text =
      joined ([.bare "BEGIN".toList, .bare (fullId type id), .bare (Line.nat dt)].map Field.encode) := by
  have hword : "BEGIN ".toList = "BEGIN".toList ++ [' '] := by decide
  show "BEGIN ".toList ++ fullId type id ++ ' ' :: Line.nat dt = _
  simp only [hword, List.map_cons, List.map_nil, joined_cons_cons, joined_singleton, Field.encode,
    Field.bare, Option.toList_none, List.append_assoc, List.cons_append, List.nil_append, List.append_nil]

/-- The name, title, units, family, context and type on the CHART line. -/
def Chart.texts : Chart → List CStr
  | .status =>
    [[], "UPS status".toList, "status".toList, "ups".toList, "upsd.ups_status".toList, "line".toList]
  | .var chart =>
    [[], chart.chartTitle, chart.chartUnits, chart.chartFamily, chart.chartContext, chart.chartType]

/-- The priority, the frequency and what follows them. -/
def Chart.numbers (updateEvery : Nat) : Chart → List Field
  | .status => [.bare (Line.nat chartPrioStatus), .bare (Line.nat updateEvery)]
  | .var chart =>
    [.quoted (Line.nat chart.chartPriority), .quoted (Line.nat updateEvery), .quoted [],
      .quoted "upsd.plugin".toList]

theorem chart_text (c : Chart) (type : CStr) (updateEvery : Nat) :
    (c.line type updateEvery).text =
      joined ((.bare "CHART".toList :: .quoted (fullId type c.id) ::
        (c.texts.map Field.quoted ++ c.numbers updateEvery)).map Field.encode) := by
  have hword : "CHART ".toList = "CHART".toList ++ [' '] := by decide
  cases c with
  | status =>
    have hmiddle : " '' 'UPS status' 'status' 'ups' 'upsd.ups_status' 'line' ".toList =
        ' ' :: (joined ([.quoted [], .quoted "UPS status".toList, .quoted "status".toList,
          .quoted "ups".toList, .quoted "upsd.ups_status".toList, .quoted "line".toList].map
            Field.encode) ++ [' ']) := by decide
    show "CHART ".toList ++ Line.quote (fullId type statusId) ++
      " '' 'UPS status' 'status' 'ups' 'upsd.ups_status' 'line' ".toList ++
      Line.nat chartPrioStatus ++ ' ' :: Line.nat updateEvery = _
    simp only [hword, hmiddle, Line.quote, Chart.id, Chart.texts, Chart.numbers, List.map_cons, List.map_nil,
      joined_cons_cons, joined_singleton, Field.encode, Field.bare, Field.quoted, Option.toList_none,
      Option.toList_some, List.append_assoc, List.cons_append, List.nil_append, List.append_nil]
  | var chart =>
    have hname : " '' ".toList = [' ', '\'', '\'', ' '] := by decide
    have hplugin : " '' 'upsd.plugin'".toList = ' ' :: '\'' :: '\'' :: ' ' :: '\'' ::
        ("upsd.plugin".toList ++ ['\'']) := by decide
    show "CHART ".toList ++ Line.quote (fullId type chart.chartId) ++ " '' ".toList ++
      Line.quote chart.chartTitle ++ ' ' :: Line.quote chart.chartUnits ++
      ' ' :: Line.quote chart.chartFamily ++ ' ' :: Line.quote chart.chartContext ++
      ' ' :: Line.quote chart.chartType ++ ' ' :: Line.quote (Line.nat chart.chartPriority) ++
      ' ' :: Line.quote (Line.nat updateEvery) ++ " '' 'upsd.plugin'".toList = _
    simp only [hword, hname, hplugin, Line.quote, Chart.id, Chart.texts, Chart.numbers, List.map_cons, List.map_nil,
      joined_cons_cons, joined_singleton, Field.encode, Field.bare, Field.quoted, Option.toList_none,
      Option.toList_some, List.append_assoc, List.cons_append, List.nil_append, List.append_nil]

/-- The texts on the CHART lines have no single quotes and backslashes. -/
theorem chart_texts_quotable {c : Chart} (hc : c.Known) :
    c.texts.all (fun s => s.all quotable) = true := by
  cases c with
  | status => decide +kernel
  | var chart =>
    have hall : ndCharts.all (fun chart => (Chart.var chart).texts.all fun s => s.all quotable) = true := by
      decide +kernel
    exact List.all_eq_true.mp hall chart hc

theorem chart_numbers_readable (c : Chart) (updateEvery : Nat) :
    ∀ f ∈ c.numbers updateEvery, f.Readable := by
  cases c with
  | status =>
    exact List.forall_mem_cons.mpr ⟨nat_bare _, List.forall_mem_singleton.mpr (nat_bare _)⟩
  | var chart =>
    refine List.forall_mem_cons.mpr ⟨nat_quoted _, List.forall_mem_cons.mpr ⟨nat_quoted _,
      List.forall_mem_cons.mpr ⟨?_, List.forall_mem_singleton.mpr ?_⟩⟩⟩
    · exact Field.readable_plain rfl
    · exact Field.readable_plain rfl

theorem chart_fields_readable {c : Chart} (hc : c.Known) (updateEvery : Nat) :
    ∀ f ∈ c.texts.map Field.quoted ++ c.numbers updateEvery, f.Readable := by
  apply List.forall_mem_append.mpr ⟨_, chart_numbers_readable c updateEvery⟩
  intro f hf
  obtain ⟨s, hs, rfl⟩ := List.mem_map.mp hf
  exact Field.readable_quotable (List.all_eq_true.mp (chart_texts_quotable hc) s hs)

/-- **Quoted CHART ids and unquoted BEGIN ids are read alike.** -/
theorem chart_ids_read_alike (u : CStr) (hu : Admissible u) (c : Chart) (hc : c.Known)
    (updateEvery dt : Nat) :
    (splitLine (c.line (cleanName u) updateEvery).text)[1]? = some (fullId (cleanName u) c.id) ∧
      splitLine (Line.begin (cleanName u) c.id dt).text =
        ["BEGIN".toList, fullId (cleanName u) c.id, Line.nat dt] ∧
      cutType (fullId (cleanName u) c.id) = ("upsd_".toList ++ cleanName u, some c.id) := by
  obtain ⟨hbare, hquoted⟩ := fullId_readable hu hc
  refine ⟨?_, ?_, cutType_fullId (cleanName_no_dot u) c.id⟩
  · have hchart : (Field.bare "CHART".toList).Readable := Field.readable_bare (by decide) rfl
    rw [chart_text, splitLine_fields]
    · rfl
    · exact List.forall_mem_cons.mpr ⟨hchart, List.forall_mem_cons.mpr
        ⟨hquoted, chart_fields_readable hc updateEvery⟩⟩
    · cases c <;> simp [Chart.texts, Chart.numbers, pluginsdMaxWords]
  · have hbegin : (Field.bare "BEGIN".toList).Readable := Field.readable_bare (by decide) rfl
    rw [begin_text, splitLine_fields]
    · rfl
    · exact List.forall_mem_cons.mpr ⟨hbegin, List.forall_mem_cons.mpr
        ⟨hbare, List.forall_mem_singleton.mpr (nat_bare dt)⟩⟩
    · simp [pluginsdMaxWords]

theorem backslash_name_read_alike :
    Admissible "rack 1.\\".toList ∧ Chart.status.Known ∧
      splitLine (Line.begin (cleanName "rack 1.\\".toList) Chart.status.id 1000000).text =
        ["BEGIN".toList, fullId (cleanName "rack 1.\\".toList) Chart.status.id, Line.nat 1000000] :=
  ⟨⟨by decide, rfl⟩, trivial,
    (chart_ids_read_alike "rack 1.\\".toList ⟨by decide, rfl⟩ .status trivial 1 1000000).2.1⟩

end UpsdPlugin
