import UpsdPlugin.Charts

/-! The lines the plugin prints, and their text.

Each constructor is one `printf` (or `puts`) format of the source. The two CHART
formats differ in quoting and in the options and plugin fields; the CLABEL lines
come in three quotings, the DIMENSION lines in two. -/
namespace UpsdPlugin

/-- How a CLABEL line quotes its name and its source. -/
inductive LabelStyle where
  /-- `CLABEL name '%s' %u`, in the status block. -/
  | bare
  /-- `CLABEL 'name' '%s' '%u'`, in the other blocks. -/
  | quoted
  /-- `CLABEL 'ups_name' '%s' %u`, in the other blocks. -/
  | quotedName
  deriving DecidableEq

inductive Line where
  | chartStatus (type : CStr) (updateEvery : Nat)
  | chart (type : CStr) (chart : NdChart) (updateEvery : Nat)
  | clabel (style : LabelStyle) (name value : CStr)
  | clabelCommit
  | dimension (quoted : Bool) (name : CStr) (divisor : Nat)
  | begin (type name : CStr) (usec : Nat)
  | set (name : CStr) (value : Int)
  | close
  deriving DecidableEq

namespace Line

/-- `%u`, `%lu` and `PRIu64` -/
def nat (n : Nat) : CStr := Nat.toDigits 10 n

/-- `PRId64` -/
def int : Int → CStr
  | .ofNat n => nat n
  | .negSucc n => '-' :: nat (n + 1)

/-- `'%s'` -/
def quote (s : CStr) : CStr := '\'' :: s ++ ['\'']

def labelText : LabelStyle → CStr → CStr → CStr
  | .bare, name, value => name ++ ' ' :: quote value ++ ' ' :: nat clabelSourceAuto
  | .quoted, name, value => quote name ++ ' ' :: quote value ++ ' ' :: quote (nat clabelSourceAuto)
  | .quotedName, name, value => quote name ++ ' ' :: quote value ++ ' ' :: nat clabelSourceAuto

/-- The characters of the line, without the newline. -/
def text : Line → CStr
  | chartStatus type updateEvery =>
    "CHART ".toList ++ quote (fullId type statusId) ++
      " '' 'UPS status' 'status' 'ups' 'upsd.ups_status' 'line' ".toList ++
      nat chartPrioStatus ++ ' ' :: nat updateEvery
  | chart type c updateEvery =>
    "CHART ".toList ++ quote (fullId type c.chartId) ++ " '' ".toList ++ quote c.chartTitle ++
      ' ' :: quote c.chartUnits ++ ' ' :: quote c.chartFamily ++ ' ' :: quote c.chartContext ++
      ' ' :: quote c.chartType ++ ' ' :: quote (nat c.chartPriority) ++
      ' ' :: quote (nat updateEvery) ++ " '' 'upsd.plugin'".toList
  | clabel style name value => "CLABEL ".toList ++ labelText style name value
  | clabelCommit => "CLABEL_COMMIT".toList
  | dimension quoted name divisor =>
    "DIMENSION ".toList ++ (if quoted then quote name else name) ++ " '' '' '' ".toList ++
      nat divisor
  | begin type name usec => "BEGIN ".toList ++ fullId type name ++ ' ' :: nat usec
  | set name value => "SET ".toList ++ name ++ " = ".toList ++ int value
  | close => "END".toList

/-- The chart id on a CHART line. -/
def chartId? : Line → Option CStr
  | chartStatus type _ => some (fullId type statusId)
  | chart type c _ => some (fullId type c.chartId)
  | _ => none

/-- The chart id on a BEGIN line. -/
def beginId? : Line → Option CStr
  | begin type name _ => some (fullId type name)
  | _ => none

end Line
end UpsdPlugin
