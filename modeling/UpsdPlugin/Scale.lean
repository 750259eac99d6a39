import UpsdPlugin.OneFrame
import UpsdPlugin.SetLines
import UpsdPlugin.Rounding

/-! Emitted integers and declared divisors.

Netdata divides what a SET line carries by the divisor of its DIMENSION line. All
divisors are the plugin's precision. The charts of `nd_charts` are sent multiplied by
it, so the quotient is the value of the reply truncated to two decimals, unless the roundings
of the doubles carry the product across a whole number; the flags of the status chart are sent
as they are, so a raised flag arrives as a hundredth of what it stands for
(`scaled_value_iff`). Replies of few digits are missed by a hundredth at most, and only where they
are whole hundredths themselves (`short_replies_sent`). -/
namespace UpsdPlugin
open Scripted

variable {env : Env} {u : CStr}

/-! ### Divisors -/

/-- The DIMENSION lines among these, each with the id of the CHART line it comes after. -/
def dimensionsOf : Option CStr → List Line → List (CStr × CStr × Nat)
  | _, [] => []
  | chart, .dimension _ name divisor :: rest =>
    (chart.map fun id => (id, name, divisor)).toList ++ dimensionsOf chart rest
  | chart, line :: rest => dimensionsOf (line.chartId?.or chart) rest

/-- The dimensions declared in a run: chart id, name and divisor. -/
def declaredDimensions (trace : List Event) : List (CStr × CStr × Nat) :=
  dimensionsOf none ((printed trace).map Prod.snd)

theorem mem_of_mem_dimensionsOf {chart : Option CStr} {lines : List Line} {id name : CStr} {divisor : Nat}
    (h : (id, name, divisor) ∈ dimensionsOf chart lines) :
    ∃ quoted, .dimension quoted name divisor ∈ lines := by
  induction chart, lines using dimensionsOf.induct with
  | case1 chart => cases h
  | case2 chart quoted name' divisor' rest ih =>
    rw [dimensionsOf] at h
    rcases List.mem_append.mp h with h | h
    · obtain ⟨id', -, heq⟩ := Option.map_eq_some_iff.mp (Option.mem_toList.mp h)
      cases heq
      exact ⟨quoted, List.mem_cons_self ..⟩
    · obtain ⟨q, hq⟩ := ih h
      exact ⟨q, List.mem_cons_of_mem _ hq⟩
  | case3 chart line rest hline ih =>
    rw [dimensionsOf.eq_3 _ _ _ hline] at h
    obtain ⟨q, hq⟩ := ih h
    exact ⟨q, List.mem_cons_of_mem _ hq⟩

/-- Every divisor is the plugin's precision. -/
theorem divisor_eq {t : Nat} {id name : CStr} {divisor : Nat}
    (h : (id, name, divisor) ∈ declaredDimensions (run env t).world.trace) : divisor = pluginPrecision := by
  obtain ⟨quoted, hline⟩ := mem_of_mem_dimensionsOf h
  obtain ⟨⟨origin, line⟩, hprinted, rfl⟩ := List.mem_map.mp hline
  obtain ⟨e, he, haction⟩ := List.mem_filterMap.mp hprinted
  obtain ⟨pre, post, hsplit⟩ := List.append_of_mem he
  obtain ⟨n, a⟩ := e
  have ha : a = .print origin (.dimension quoted name divisor) := by
    cases a with
    | print origin' line' => cases haction; rfl
    | _ => cases haction
  subst ha
  rcases Trace.past_split (justified_run env t) hsplit with hrowless | ⟨v, body, -, hfor⟩
  · exact absurd hrowless not_false
  · exact hfor

/-! ### Quantities -/

/-- What the dimension `name` of a chart stands for, given the replies: the flag itself, the
value of the reply, or a share of the nominal power, with the numerals that were replied. -/
inductive Quantity : Chart → List (CStr × Option CStr) → CStr → List Numeral → ℚ → Prop where
  | flag {reply : Option CStr} {status : UpsStatus} {name : CStr} {flag : Bool}
      (hstatus : statusOf reply = .ok status) (hflag : (name, flag) ∈ status.flags) :
      Quantity .status [(upsStatusVar, reply)] name [] (if flag then 1 else 0)
  | number {chart : NdChart} (hchart : chart ∈ ndCharts) (x : Numeral) :
      Quantity (.var chart) [(chart.nutVariable, some x.text)] chart.chartDimension [x] x.value
  | product (load nominal : Numeral) :
      Quantity (.var loadUsage)
        [(realpowerVar, none), (loadVar, some load.text), (realpowerNominalVar, some nominal.text)]
        loadUsage.chartDimension [load, nominal] (load.value / 100 * nominal.value)

theorem Quantity.known {c : Chart} {answers : List (CStr × Option CStr)} {name : CStr} {numerals : List Numeral}
    {q : ℚ} (h : Quantity c answers name numerals q) : c.Known := by
  cases h with
  | flag hstatus hflag => trivial
  | number hchart x => exact hchart
  | product load nominal =>
    show loadUsage ∈ ndCharts
    decide

/-- A hundred times the quantity, in doubles: the reply, or the load over 100 times the nominal
power. Every operation rounds. -/
def hundredfold (m : Libm) : List Numeral → Ndd
  | [x] => (str2ndd m x.text).times 100
  | [load, nominal] => ((str2ndd m load.text).div 100).mul ((str2ndd m nominal.text).times 100)
  | _ => .nan

/-- The two ways to the load usage end with different queries, so the last replies tell which
one it was. -/
theorem Computed.same_answers {m : Libm} {origin : Origin} {script : List Action} {c : Chart}
    {answers answers' : List (CStr × Option CStr)} {name name' : CStr} {value : Int} {numerals : List Numeral}
    {q : ℚ} (hv : Computed m c answers name value) (hq : Quantity c answers' name' numerals q)
    (h : LastReplies origin u answers script) (h' : LastReplies origin u answers' script) :
    answers = answers' := by
  cases hv with
  | flag hstatus hflag => cases hq with | flag hstatus' hflag' => exact h.eq h' rfl
  | number hchart text =>
    cases hq with
    | number hchart' x => exact h.eq h' rfl
    | product load nominal =>
      have hlast := (show LastReplies origin u ([_, _] ++ [_]) script from h').last
      have hpair := (List.cons.inj (h.eq hlast rfl)).1
      exact absurd (Prod.mk.inj hpair).1 (by decide)
  | product load nominal =>
    cases hq with
    | number hchart' x =>
      have hlast := (show LastReplies origin u ([_, _] ++ [_]) script from h).last
      have hpair := (List.cons.inj (h'.eq hlast rfl)).1
      exact absurd (Prod.mk.inj hpair).1 (by decide)
    | product load' nominal' => exact h.eq h' rfl

/-- Off the status chart, the integer is the hundredfold truncated. -/
theorem Computed.eq_hundredfold {m : Libm} {c : Chart} {answers : List (CStr × Option CStr)} {name : CStr}
    {value : Int} {numerals : List Numeral} {q : ℚ} (hv : Computed m c answers name value)
    (hq : Quantity c answers name numerals q) (hc : c ≠ .status) : value = (hundredfold m numerals).toInt64 := by
  cases hv with
  | flag hstatus hflag => exact absurd rfl hc
  | number hchart text => cases hq with | number hchart' x => rfl
  | product load nominal => cases hq with | product x y => rfl

/-- The SET lines of a run are computed from the replies before them. -/
theorem SetLine.computed {t : Nat} {c : Chart} {answers : List (CStr × Option CStr)} {name : CStr} {value : Int}
    {numerals : List Numeral} {q : ℚ} (hset : SetLine (run env t).world.trace u c answers name value)
    (hq : Quantity c answers name numerals q) : Computed env.libm c answers name value := by
  obtain ⟨pre, n, origin, post, body, htrace, hrow, hsending, hlast⟩ := hset
  rcases Trace.past_split (justified_run env t) htrace with
    hrowless | ⟨v, body', hrow', c', answers', hsending', hlast', hvalue⟩
  · exact absurd hrowless not_false
  · obtain ⟨rfl, rfl⟩ := hrow.unique hrow'
    -- The open frame tells the chart, and the last queries tell the replies.
    have hid : fullId (cleanName u) c.id = fullId (cleanName u) c'.id :=
      Option.some.inj (hsending.symm.trans hsending')
    obtain ⟨-, rfl⟩ := (Chart.fullId_inj hq.known hvalue.known).mp hid
    obtain rfl := hvalue.same_answers hq hlast' hlast
    exact hvalue

/-- **Short replies are missed by a hundredth at most.** When the numerals that were replied have
no exponent and 13 digits together, the integer of the SET line is the quantity in units of the
divisor, truncated; or that is a whole number, and the integer is the one before it. A reply
without a fraction is sent exactly. -/
theorem short_replies_sent (env : Env) (t : Nat) {u : CStr} {c : Chart} {answers : List (CStr × Option CStr)}
    {name : CStr} {value : Int} {divisor : Nat} {numerals : List Numeral} {q : ℚ}
    (hset : SetLine (run env t).world.trace u c answers name value)
    (hdivisor : (fullId (cleanName u) c.id, name, divisor) ∈ declaredDimensions (run env t).world.trace)
    (hq : Quantity c answers name numerals q) (hc : c ≠ .status) (hexponent : ∀ x ∈ numerals, x.exponent = none)
    (hlen : (numerals.flatMap mantissa).length ≤ 13) :
    (value = truncate (q * divisor) ∨ Binary64.OneShort value (q * divisor)) ∧
      ∀ x, numerals = [x] → x.fraction.getD [] = [] → (value : ℚ) = q * divisor := by
  obtain rfl := divisor_eq hdivisor
  have hvalue := (hset.computed hq).eq_hundredfold hq hc
  have hprecision : (pluginPrecision : ℚ) = 100 := by norm_num [pluginPrecision]
  rw [hprecision, hvalue]
  cases hq with
  | flag hstatus hflag => exact absurd rfl hc
  | number hchart x =>
    have hx := hexponent x List.mem_cons_self
    have hdigits : (mantissa x).length ≤ 13 := by simpa using hlen
    refine ⟨hundredfold_short env.libm hx hdigits, fun y hy hwhole => ?_⟩
    cases hy
    exact hundredfold_whole env.libm hx hwhole hdigits
  | product load nominal =>
    have hload := hexponent load List.mem_cons_self
    have hnominal := hexponent nominal (List.mem_cons_of_mem _ List.mem_cons_self)
    have hdigits : (mantissa load).length + (mantissa nominal).length ≤ 13 := by simpa using hlen
    exact ⟨share_short env.libm hload hnominal hdigits, fun y hy => nomatch hy⟩

/-- A UPS whose real power is 8.2 W. -/
def tenthsUps : Env := {realpowerUps with
  get := fun _ _ var =>
    if var = upsStatusVar then some "OL".toList
    else if var = realpowerVar then some "8.2".toList
    else none}

/-- `8.2` -/
def eightPointTwo : Numeral where
  sign := .none
  whole := ['8']
  fraction := some ['2']
  exponent := none
  whole_digits := List.all_eq_true.mp rfl
  fraction_digits := by simp
  exponent_digits := by simp
  some_digit := by decide

theorem eightPointTwo_value : eightPointTwo.value = 8.2 := by
  have hwhole : Numeral.digits ['8'] = 8 := by decide
  have hfraction : Numeral.digits ['2'] = 2 := by decide
  norm_num [Numeral.value, eightPointTwo, hwhole, hfraction, Sign.value, Numeral.fractionValue,
    Numeral.exponentValue]

theorem tenthsUps_sends :
    SetLine (run tenthsUps 5).world.trace "a".toList (.var loadUsage) [(realpowerVar, some "8.2".toList)]
      loadUsage.chartDimension 819 := by
  have hpc : (run tenthsUps 4).pc = .listing (listAnswers ["a".toList] true) := by decide +kernel
  have hu : "a".toList ∈ (run tenthsUps 4).world.ndUpsName.keys := by decide +kernel
  have hstatus : ∀ k, statusOf (tenthsUps.get k "a".toList upsStatusVar) = .ok {OL := true} := fun _ => rfl
  have hpower : ∀ k, tenthsUps.get k "a".toList realpowerVar = some "8.2".toList := fun _ => rfl
  have hvalue : ((str2ndd tenthsUps.libm "8.2".toList).times pluginPrecision).toInt64 = 819 := by
    decide +kernel
  have hload := setLine_power hpc hu (hstatus _) (hpower _)
  rw [hvalue] at hload
  rw [show (5 : Nat) = 4 + 1 from rfl]
  exact hload

/-- 8.2 is sent as 819 hundredths. -/
theorem tenths_one_short :
    SetLine (run tenthsUps 5).world.trace "a".toList (.var loadUsage) [(realpowerVar, some "8.2".toList)]
      loadUsage.chartDimension 819 ∧
    Binary64.OneShort 819 (8.2 * (100 : Nat)) := by
  have hset := tenthsUps_sends
  have hdivisor : (fullId (cleanName "a".toList) (Chart.var loadUsage).id, loadUsage.chartDimension, 100) ∈
      declaredDimensions (run tenthsUps 5).world.trace := by decide +kernel
  have hq : Quantity (.var loadUsage) [(realpowerVar, some "8.2".toList)] loadUsage.chartDimension
      [eightPointTwo] eightPointTwo.value := .number (by decide) eightPointTwo
  rw [eightPointTwo_value] at hq
  have hstatus : Chart.var loadUsage ≠ .status := nofun
  have hexponent : ∀ x ∈ [eightPointTwo], x.exponent = none := List.forall_mem_singleton.mpr rfl
  have hlen : ([eightPointTwo].flatMap mantissa).length ≤ 13 := by decide
  have hmissed : (819 : Int) ≠ truncate (8.2 * (100 : Nat)) := by norm_num [truncate]
  refine ⟨hset, Or.resolve_left ?_ hmissed⟩
  exact (short_replies_sent tenthsUps 5 hset hdivisor hq hstatus hexponent hlen).1

end UpsdPlugin
