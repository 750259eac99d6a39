import Mathlib.Data.List.Nodup

/-! The charts: `struct nd_chart`, the table `nd_charts`, and the names printed from them.

Strings are C strings, character by character and without the final NUL. A chart
is printed under the id `upsd_<type>.<id>`, where the type is the UPS name as
`clean_name` leaves it. -/
namespace UpsdPlugin

abbrev CStr := List Char

theorem findIdx?_of_not_mem {s : CStr} {c : Char} (h : c ∉ s) : s.findIdx? (· = c) = none := by
  rw [List.findIdx?_eq_none_iff]
  intro d hd
  simpa using ne_of_mem_of_not_mem hd h

/-- Words with a space between them. -/
def joined (words : List CStr) : CStr := List.intercalate [' '] words

theorem joined_singleton (s : CStr) : joined [s] = s := by
  simp [joined, List.intercalate]

theorem joined_cons_cons (s t : CStr) (words : List CStr) :
    joined (s :: t :: words) = s ++ ' ' :: joined (t :: words) := by
  simp [joined, List.intercalate]

/-- `*c = (*c == ' ' || *c == '.') ? '_' : *c` -/
def cleanChar (c : Char) : Char :=
  if c = ' ' ∨ c = '.' then '_' else c

def cleanName (name : CStr) : CStr := name.map cleanChar

/-- `NETDATA_PLUGIN_PRECISION` -/
def pluginPrecision : Nat := 100

/-- `NETDATA_CLABEL_SOURCE_AUTO` -/
def clabelSourceAuto : Nat := 1

/-- `NETDATA_CHART_PRIO_UPSD_UPS_STATUS` -/
def chartPrioStatus : Nat := 70002

/-! ### Variables the code names outside the table -/

def upsStatusVar : CStr := "ups.status".toList
def realpowerVar : CStr := "ups.realpower".toList
def loadVar : CStr := "ups.load".toList
def realpowerNominalVar : CStr := "ups.realpower.nominal".toList

/-! ### The table -/

structure NdChart where
  nutVariable : CStr
  chartId : CStr
  chartTitle : CStr
  chartUnits : CStr
  chartFamily : CStr
  chartContext : CStr
  chartType : CStr
  chartPriority : Nat
  chartDimension : CStr
  deriving DecidableEq

def loadPercentage : NdChart where
  nutVariable := loadVar
  chartId := "load_percentage".toList
  chartTitle := "UPS load".toList
  chartUnits := "percentage".toList
  chartFamily := "ups".toList
  chartContext := "upsd.ups_load".toList
  chartType := "area".toList
  chartPriority := 70000
  chartDimension := "load".toList

def loadUsage : NdChart where
  nutVariable := realpowerVar
  chartId := "load_usage".toList
  chartTitle := "UPS load usage (power output)".toList
  chartUnits := "Watts".toList
  chartFamily := "ups".toList
  chartContext := "upsd.ups_load_usage".toList
  chartType := "line".toList
  chartPriority := 70001
  chartDimension := "load_usage".toList

def temperature : NdChart where
  nutVariable := "ups.temperature".toList
  chartId := "temperature".toList
  chartTitle := "UPS temperature".toList
  chartUnits := "Celsius".toList
  chartFamily := "ups".toList
  chartContext := "upsd.ups_temperature".toList
  chartType := "line".toList
  chartPriority := 70003
  chartDimension := "temperature".toList

def batteryCharge : NdChart where
  nutVariable := "battery.charge".toList
  chartId := "battery_charge_percentage".toList
  chartTitle := "UPS Battery charge".toList
  chartUnits := "percentage".toList
  chartFamily := "battery".toList
  chartContext := "upsd.ups_battery_charge".toList
  chartType := "area".toList
  chartPriority := 70004
  chartDimension := "charge".toList

def batteryRuntime : NdChart where
  nutVariable := "battery.runtime".toList
  chartId := "battery_estimated_runtime".toList
  chartTitle := "UPS Battery estimated runtime".toList
  chartUnits := "seconds".toList
  chartFamily := "battery".toList
  chartContext := "upsd.ups_battery_estimated_runtime".toList
  chartType := "line".toList
  chartPriority := 70005
  chartDimension := "runtime".toList

def batteryVoltage : NdChart where
  nutVariable := "battery.voltage".toList
  chartId := "battery_voltage".toList
  chartTitle := "UPS Battery voltage".toList
  chartUnits := "Volts".toList
  chartFamily := "battery".toList
  chartContext := "upsd.ups_battery_voltage".toList
  chartType := "line".toList
  chartPriority := 70006
  chartDimension := "voltage".toList

def batteryVoltageNominal : NdChart where
  nutVariable := "battery.voltage.nominal".toList
  chartId := "battery_voltage_nominal".toList
  chartTitle := "UPS Battery voltage nominal".toList
  chartUnits := "Volts".toList
  chartFamily := "battery".toList
  chartContext := "upsd.ups_battery_voltage_nominal".toList
  chartType := "line".toList
  chartPriority := 70007
  chartDimension := "nominal_voltage".toList

def inputVoltage : NdChart where
  nutVariable := "input.voltage".toList
  chartId := "input_voltage".toList
  chartTitle := "UPS Input voltage".toList
  chartUnits := "Volts".toList
  chartFamily := "input".toList
  chartContext := "upsd.ups_input_voltage".toList
  chartType := "line".toList
  chartPriority := 70008
  chartDimension := "voltage".toList

def inputVoltageNominal : NdChart where
  nutVariable := "input.voltage.nominal".toList
  chartId := "input_voltage_nominal".toList
  chartTitle := "UPS Input voltage nominal".toList
  chartUnits := "Volts".toList
  chartFamily := "input".toList
  chartContext := "upsd.ups_input_voltage_nominal".toList
  chartType := "line".toList
  chartPriority := 70009
  chartDimension := "nominal_voltage".toList

def inputCurrent : NdChart where
  nutVariable := "input.current".toList
  chartId := "input_current".toList
  chartTitle := "UPS Input current".toList
  chartUnits := "Ampere".toList
  chartFamily := "input".toList
  chartContext := "upsd.ups_input_current".toList
  chartType := "line".toList
  chartPriority := 70010
  chartDimension := "current".toList

def inputCurrentNominal : NdChart where
  nutVariable := "input.current.nominal".toList
  chartId := "input_current_nominal".toList
  chartTitle := "UPS Input current nominal".toList
  chartUnits := "Ampere".toList
  chartFamily := "input".toList
  chartContext := "upsd.ups_input_current_nominal".toList
  chartType := "line".toList
  chartPriority := 70011
  chartDimension := "nominal_current".toList

def inputFrequency : NdChart where
  nutVariable := "input.frequency".toList
  chartId := "input_frequency".toList
  chartTitle := "UPS Input frequency".toList
  chartUnits := "Hz".toList
  chartFamily := "input".toList
  chartContext := "upsd.ups_input_frequency".toList
  chartType := "line".toList
  chartPriority := 70012
  chartDimension := "frequency".toList

def inputFrequencyNominal : NdChart where
  nutVariable := "input.frequency.nominal".toList
  chartId := "input_frequency_nominal".toList
  chartTitle := "UPS Input frequency nominal".toList
  chartUnits := "Hz".toList
  chartFamily := "input".toList
  chartContext := "upsd.ups_input_frequency_nominal".toList
  chartType := "line".toList
  chartPriority := 70013
  chartDimension := "nominal_frequency".toList

def outputVoltage : NdChart where
  nutVariable := "output.voltage".toList
  chartId := "output_voltage".toList
  chartTitle := "UPS Output voltage".toList
  chartUnits := "Volts".toList
  chartFamily := "output".toList
  chartContext := "upsd.ups_output_voltage".toList
  chartType := "line".toList
  chartPriority := 70014
  chartDimension := "voltage".toList

def outputVoltageNominal : NdChart where
  nutVariable := "output.voltage.nominal".toList
  chartId := "output_voltage_nominal".toList
  chartTitle := "UPS Output voltage nominal".toList
  chartUnits := "Volts".toList
  chartFamily := "output".toList
  chartContext := "upsd.ups_output_voltage_nominal".toList
  chartType := "line".toList
  chartPriority := 70015
  chartDimension := "nominal_voltage".toList

def outputCurrent : NdChart where
  nutVariable := "output.current".toList
  chartId := "output_current".toList
  chartTitle := "UPS Output current".toList
  chartUnits := "Ampere".toList
  chartFamily := "output".toList
  chartContext := "upsd.ups_output_current".toList
  chartType := "line".toList
  chartPriority := 70016
  chartDimension := "current".toList

def outputCurrentNominal : NdChart where
  nutVariable := "output.current.nominal".toList
  chartId := "output_current_nominal".toList
  chartTitle := "UPS Output current nominal".toList
  chartUnits := "Ampere".toList
  chartFamily := "output".toList
  chartContext := "upsd.ups_output_current_nominal".toList
  chartType := "line".toList
  chartPriority := 70017
  chartDimension := "nominal_current".toList

def outputFrequency : NdChart where
  nutVariable := "output.frequency".toList
  chartId := "output_frequency".toList
  chartTitle := "UPS Output frequency".toList
  chartUnits := "Hz".toList
  chartFamily := "output".toList
  chartContext := "upsd.ups_output_frequency".toList
  chartType := "line".toList
  chartPriority := 70018
  chartDimension := "frequency".toList

def outputFrequencyNominal : NdChart where
  nutVariable := "output.frequency.nominal".toList
  chartId := "output_frequency_nominal".toList
  chartTitle := "UPS Output frequency nominal".toList
  chartUnits := "Hz".toList
  chartFamily := "output".toList
  chartContext := "upsd.ups_output_frequency_nominal".toList
  chartType := "line".toList
  chartPriority := 70019
  chartDimension := "nominal_frequency".toList

def ndCharts : List NdChart :=
  [loadPercentage, loadUsage, temperature, batteryCharge, batteryRuntime, batteryVoltage,
    batteryVoltageNominal, inputVoltage, inputVoltageNominal, inputCurrent, inputCurrentNominal,
    inputFrequency, inputFrequencyNominal, outputVoltage, outputVoltageNominal, outputCurrent,
    outputCurrentNominal, outputFrequency, outputFrequencyNominal]

/-- The id of the status chart, which is not in the table. -/
def statusId : CStr := "status".toList

/-- No two entries of the table are about the same variable. -/
theorem ndCharts_variables_nodup : (ndCharts.map NdChart.nutVariable).Nodup := by decide +kernel

theorem ndCharts_nodup : ndCharts.Nodup := ndCharts_variables_nodup.of_map

/-- The chart ids of one UPS: the status chart and the table, all different. -/
def chartIds : List CStr := statusId :: ndCharts.map NdChart.chartId

theorem chartIds_nodup : chartIds.Nodup := by decide +kernel

/-! ### Chart ids -/

/-- `upsd_<type>.<id>`, as in the CHART and BEGIN lines. -/
def fullId (type id : CStr) : CStr := "upsd_".toList ++ type ++ '.' :: id

theorem fullId_eq (type id : CStr) : fullId type id = "upsd_".toList ++ (type ++ '.' :: id) :=
  List.append_assoc _ _ _

theorem cleanChar_ne_dot (c : Char) : cleanChar c ≠ '.' := by
  unfold cleanChar
  split
  · decide
  · rename_i h
    exact fun he => h (Or.inr he)

theorem cleanName_no_dot (name : CStr) : '.' ∉ cleanName name := by
  intro h
  obtain ⟨c, _, hc⟩ := List.mem_map.mp h
  exact cleanChar_ne_dot c hc

theorem cleanChar_idem (c : Char) : cleanChar (cleanChar c) = cleanChar c := by
  by_cases h : c = ' ' ∨ c = '.'
  · simp only [cleanChar, h, if_true]
    decide
  · simp only [cleanChar, h, if_false]

/-- Cleaning twice is cleaning once: a cleaned name is clean. -/
theorem cleanName_idem (name : CStr) : cleanName (cleanName name) = cleanName name := by
  simp only [cleanName, List.map_map, Function.comp_def, cleanChar_idem]

@[simp] theorem cleanName_eq_nil {name : CStr} : cleanName name = [] ↔ name = [] :=
  List.map_eq_nil_iff

/-- The first dot of `t.c` is the separating one when `t` has none. -/
theorem split_at_dot {t t' c c' : CStr} (ht : '.' ∉ t) (ht' : '.' ∉ t')
    (h : t ++ '.' :: c = t' ++ '.' :: c') : t = t' ∧ c = c' := by
  induction t generalizing t' with
  | nil =>
    cases t' with
    | nil => exact ⟨rfl, (List.cons.inj h).2⟩
    | cons a t' => exact absurd (List.cons.inj h).1 (fun he => ht' (he ▸ List.mem_cons_self ..))
  | cons a t ih =>
    cases t' with
    | nil => exact absurd (List.cons.inj h).1 (fun he => ht (he ▸ List.mem_cons_self ..))
    | cons b t' =>
      obtain ⟨rfl, h'⟩ := List.cons.inj h
      obtain ⟨rfl, hc⟩ := ih (fun hm => ht (List.mem_cons_of_mem _ hm))
        (fun hm => ht' (List.mem_cons_of_mem _ hm)) h'
      exact ⟨rfl, hc⟩

theorem fullId_inj {t t' c c' : CStr} (ht : '.' ∉ t) (ht' : '.' ∉ t') :
    fullId t c = fullId t' c' ↔ t = t' ∧ c = c' := by
  constructor
  · intro h
    rw [fullId_eq, fullId_eq] at h
    exact split_at_dot ht ht' (List.append_cancel_left h)
  · rintro ⟨rfl, rfl⟩
    rfl

end UpsdPlugin
