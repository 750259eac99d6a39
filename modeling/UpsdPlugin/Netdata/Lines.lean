import UpsdPlugin.Lifecycle
import UpsdPlugin.Reading

/-! The plugin's lines are lines.

Netdata cuts the plugin's output after every newline, so what it gets are the plugin's lines only
when none of them holds one. Most of a line is fixed by its format; the names of the UPSes and the
labels are what upsd has answered. A printed line is therefore of one piece whenever the answers are
free of newlines (`printed_unbroken`). -/
namespace UpsdPlugin

variable {env : Env} {t : Nat}

/-! ### Lines of one piece -/

/-- Neither a newline nor a NUL. -/
def unbroken (c : Char) : Bool := c ≠ '\n' && c ≠ nul

theorem unbroken_iff {s : CStr} : s.all unbroken = true ↔ '\n' ∉ s ∧ nul ∉ s := by
  simp only [List.all_eq_true, unbroken, Bool.and_eq_true, decide_eq_true_eq]
  constructor
  · intro h
    exact ⟨fun hmem => (h _ hmem).1 rfl, fun hmem => (h _ hmem).2 rfl⟩
  · intro h c hc
    exact ⟨ne_of_mem_of_not_mem hc h.1, ne_of_mem_of_not_mem hc h.2⟩

theorem unbroken_of_plain {s : CStr} (h : s.all plain = true) : s.all unbroken = true := by
  refine unbroken_iff.mpr ⟨fun hmem => ?_, fun hmem => ?_⟩
  · exact absurd (List.all_eq_true.mp h _ hmem) (by decide)
  · exact absurd (List.all_eq_true.mp h _ hmem) (by decide)

theorem cleanName_unbroken {u : CStr} (h : u.all unbroken = true) : (cleanName u).all unbroken = true := by
  rw [cleanName, List.all_map]
  refine List.all_eq_true.mpr fun c hc => ?_
  show unbroken (cleanChar c) = true
  unfold cleanChar
  split
  · decide
  · exact List.all_eq_true.mp h c hc

namespace Line

/-- What the `%s` of the format stand for. -/
def strings : Line → List CStr
  | chartStatus type _ => [type]
  | chart type c _ =>
    [type, c.chartId, c.chartTitle, c.chartUnits, c.chartFamily, c.chartContext, c.chartType]
  | clabel _ name value => [name, value]
  | dimension _ name _ => [name]
  | begin type name _ => [type, name]
  | set name _ => [name]
  | clabelCommit | close => []

theorem nat_unbroken (n : Nat) : (nat n).all unbroken = true := unbroken_of_plain (nat_plain n)

theorem int_unbroken (n : Int) : (int n).all unbroken = true := by
  cases n with
  | ofNat n => exact nat_unbroken n
  | negSucc n => exact List.all_cons.trans (by rw [nat_unbroken]; rfl)

theorem quote_unbroken (s : CStr) : (quote s).all unbroken = s.all unbroken := by
  have hquote : unbroken '\'' = true := rfl
  simp [quote, hquote]

theorem fullId_unbroken (type id : CStr) :
    (fullId type id).all unbroken = (type.all unbroken && id.all unbroken) := by
  have hstart : "upsd_".toList.all unbroken = true := rfl
  have hdot : unbroken '.' = true := rfl
  rw [fullId_eq, List.all_append, List.all_append, List.all_cons, hstart, hdot, Bool.true_and, Bool.true_and]

/-- The text between the strings holds neither a newline nor a NUL. -/
theorem text_unbroken (line : Line) (h : ∀ s ∈ line.strings, s.all unbroken = true) :
    line.text.all unbroken = true := by
  have hspace : unbroken ' ' = true := rfl
  cases line with
  | chartStatus type updateEvery =>
    have htype : type.all unbroken = true := h type List.mem_cons_self
    unfold text
    simp only [List.all_append, List.all_cons, quote_unbroken, fullId_unbroken, nat_unbroken, htype, hspace]
    decide +kernel
  | chart type c updateEvery =>
    simp only [strings, List.forall_mem_cons] at h
    unfold text
    simp only [List.all_append, List.all_cons, quote_unbroken, fullId_unbroken, nat_unbroken, h, hspace]
    decide +kernel
  | clabel style name value =>
    simp only [strings, List.forall_mem_cons] at h
    unfold text labelText
    cases style <;>
      simp only [List.all_append, List.all_cons, quote_unbroken, nat_unbroken, h, hspace] <;> decide +kernel
  | clabelCommit => decide +kernel
  | dimension quoted name divisor =>
    have hname : name.all unbroken = true := h name List.mem_cons_self
    have hquoted : (if quoted then quote name else name).all unbroken = true := by
      cases quoted with
      | true => exact (quote_unbroken name).trans hname
      | false => exact hname
    unfold text
    simp only [List.all_append, nat_unbroken, hquoted]
    decide +kernel
  | begin type name usec =>
    simp only [strings, List.forall_mem_cons] at h
    unfold text
    simp only [List.all_append, List.all_cons, fullId_unbroken, nat_unbroken, h, hspace]
    decide +kernel
  | set name value =>
    have hname : name.all unbroken = true := h name List.mem_cons_self
    unfold text
    simp only [List.all_append, int_unbroken, hname]
    decide +kernel
  | close => decide +kernel

end Line

theorem charts_unbroken {chart : NdChart} {type : CStr} (hchart : chart ∈ ndCharts)
    (htype : type.all unbroken = true) (updateEvery : Nat) :
    ∀ s ∈ (Line.chart type chart updateEvery).strings, s.all unbroken = true := by
  have hall : ndCharts.all (fun chart => (Line.chart [] chart 0).strings.all fun s => s.all unbroken) = true := by
    decide +kernel
  have hchart := List.all_eq_true.mp (List.all_eq_true.mp hall chart hchart)
  exact List.forall_mem_cons.mpr ⟨htype, fun s hs => hchart s (List.mem_cons_of_mem _ hs)⟩

theorem dimensions_unbroken {c : Chart} (hc : c.Known) : ∀ name ∈ c.dimensions, name.all unbroken = true := by
  cases c with
  | status => decide +kernel
  | var chart =>
    have hall : ndCharts.all (fun chart => chart.chartDimension.all unbroken) = true := by decide +kernel
    exact List.forall_mem_singleton.mpr (List.all_eq_true.mp hall chart hc)

/-! ### Answers -/

/-- No answer of upsd holds a newline or a NUL. -/
structure Env.Unbroken (env : Env) : Prop where
  names : ∀ n, ∀ u ∈ (env.listing n).names, u.all unbroken = true
  replies : ∀ k u var value, env.get k u var = some value → value.all unbroken = true

/-- The rows read so far are rows of the listings. -/
def RowsListed (env : Env) (w : World) : Prop :=
  ∀ n u, ⟨n, .listNext (upsRow u)⟩ ∈ w.trace → ∃ k, u ∈ (env.listing k).names

theorem RowsListed.play {w : World} {script : List Action} (h : RowsListed env w)
    (hscript : ∀ u, .listNext (upsRow u) ∈ script → ∃ k, u ∈ (env.listing k).names) :
    RowsListed env (w.play script) := by
  intro n u hmem
  rw [World.play_trace] at hmem
  rcases List.mem_append.mp hmem with hmem | hmem
  · exact h n u hmem
  · obtain ⟨a, ha, heq⟩ := List.mem_map.mp hmem
    obtain rfl : a = _ := congrArg Event.action heq
    exact hscript u ha

theorem Listing.At.mem {l : Listing} {done rest : List CStr} {u : CStr} {complete : Bool}
    (h : l.At done (listAnswers (u :: rest) complete)) : u ∈ l.names :=
  h.next.isPrefix.subset (List.mem_append_right _ List.mem_cons_self)

theorem rowsListed_run (env : Env) (t : Nat) : RowsListed env (run env t).world := by
  have hrow : ∀ {w : World} {u : CStr} {script : List Action} {k : Nat}, RowsListed env w →
      u ∈ (env.listing k).names → (∀ a ∈ script, ∀ answer, a ≠ .listNext answer) →
      RowsListed env (w.play (.listNext (upsRow u) :: script)) := by
    intro w u script k h hu hscript
    refine h.play fun v hv => ?_
    rcases List.mem_cons.mp hv with heq | hv
    · rw [upsRow_injective (Action.listNext.inj heq)]
      exact ⟨k, hu⟩
    · exact absurd rfl (hscript _ hv _)
  refine run_invariant (P := fun m => RowsListed env m.world) (fun n u hmem => nomatch hmem) ?_ t
  intro m m' hsound h hs
  cases hs with
  | register w u rest complete =>
    obtain ⟨done, hat⟩ := hsound.placed
    exact hrow h hat.mem fun _ => registerDeed_not_list
  | collect w u rest complete =>
    obtain ⟨done, hat⟩ := hsound.placed
    exact hrow h hat.mem fun _ => collectDeed_not_list
  | registered w => exact h.play (by simp [upsRow, endRow])
  | startupFails w => exact h.play (by simp [upsRow])
  | listed w => exact h.play (by simp [upsRow, endRow])
  | listingFails w => exact h.play (by simp [upsRow])
  | sweep w todo rest key hnext => exact h.play fun u hu => absurd (sweepScript_housekeeping hu) id
  | clean w todo rest key hnext => exact h.play fun u hu => absurd (dropScript_housekeeping hu) id
  | _ => exact h

/-- Every reply is one of the environment. -/
theorem reply_given {n k : Nat} {conn : Conn} {origin : Origin} {u var : CStr} {reply : Option CStr}
    (h : ⟨n, .get conn origin k u var reply⟩ ∈ (run env t).world.trace) : reply = env.get k u var := by
  obtain ⟨before, after, htrace⟩ := List.append_of_mem h
  cases Trace.past_split (justified_run env t) htrace with
  | inl hrowless => exact absurd hrowless not_false
  | inr hrow =>
    obtain ⟨v, body, -, -, rfl, hreply⟩ := hrow
    exact hreply

theorem LastReplies.mem {origin : Origin} {u var : CStr} {reply : Option CStr} {script : List Action}
    (h : LastReplies origin u [(var, reply)] script) : ∃ conn k, .get conn origin k u var reply ∈ script := by
  obtain ⟨a, ha, hreply⟩ := List.mem_filterMap.mp (h.subset List.mem_cons_self)
  cases a with
  | get conn origin' k u' var' reply' =>
    cases hreply
    exact ⟨conn, k, ha⟩
  | _ => cases hreply

section Row
variable {before after : List Event} {e : Event} {n : Nat} {u : CStr} {body : List Action}

/-- The row and what has been done at it are in the trace. -/
theorem AtRow.mem (h : AtRow n u before body) {a : Action} (ha : a ∈ .listNext (upsRow u) :: body) :
    ⟨n, a⟩ ∈ before := by
  obtain ⟨earlier, rfl⟩ := h.row
  exact List.mem_append_right _ (List.mem_map_of_mem ha)

theorem name_unbroken (henv : env.Unbroken) (htrace : (run env t).world.trace = before ++ e :: after)
    (hrow : AtRow n u before body) : u.all unbroken = true := by
  have hmem : ⟨n, .listNext (upsRow u)⟩ ∈ (run env t).world.trace := by
    rw [htrace]
    exact List.mem_append_left _ (hrow.mem List.mem_cons_self)
  obtain ⟨k, hu⟩ := rowsListed_run env t n u hmem
  exact henv.names k u hu

theorem reply_unbroken (henv : env.Unbroken) (htrace : (run env t).world.trace = before ++ e :: after)
    (hrow : AtRow n u before body) {origin : Origin} {var value : CStr}
    (h : LastReplies origin u [(var, some value)] body) : value.all unbroken = true := by
  obtain ⟨conn, k, hget⟩ := h.mem
  have hmem : ⟨n, .get conn origin k u var (some value)⟩ ∈ (run env t).world.trace := by
    rw [htrace]
    exact List.mem_append_left _ (hrow.mem (List.mem_cons_of_mem _ hget))
  exact henv.replies k u var value (reply_given hmem).symm

end Row

theorem Computed.dimension {m : Libm} {c : Chart} {answers : List (CStr × Option CStr)} {name : CStr} {value : Int}
    (h : Computed m c answers name value) : name ∈ c.dimensions := by
  cases h with
  | flag hstatus hflag =>
    show name ∈ statusDimensions
    rw [← flags_dimensions]
    exact List.mem_map_of_mem hflag
  | number hchart text => exact List.mem_cons_self
  | product load nominal => exact List.mem_cons_self

/-! ### Printed lines -/

theorem announced_run (env : Env) (t : Nat) : ∃ blocks, Announced blocks (run env t).world := by
  refine run_moves (P := fun w => ∃ blocks, Announced blocks w) ?_ ?_ t
  · exact ⟨[], rfl, fun b hb => (nomatch hb), fun u hu => (nomatch hu), trivial⟩
  · intro w w' hl hw hm
    obtain ⟨blocks, h⟩ := hw
    exact h.move hl hm

/-- A DIMENSION line stands in the block of a chart and names one of its dimensions. -/
theorem printed_dimension {origin : Origin} {quoted : Bool} {name : CStr} {divisor : Nat}
    (h : (origin, .dimension quoted name divisor) ∈ printed (run env t).world.trace) :
    ∃ c : Chart, c.Known ∧ name ∈ c.dimensions := by
  obtain ⟨blocks, hblocks⟩ := announced_run env t
  rw [hblocks.text] at h
  obtain ⟨block, hblock, hline⟩ := List.mem_flatMap.mp h
  cases block with
  | frame f => simp [Block.lines] at hline
  | chart b =>
    obtain ⟨u, c, hc, hdecl⟩ := hblocks.known b hblock
    refine ⟨c, hc, ?_⟩
    rw [← hdecl.names]
    have hopens := b.opens
    simp only [Block.lines, List.cons_append, List.mem_cons, List.mem_append, List.mem_map, labelLine, dimensionLine,
      Prod.mk.injEq, reduceCtorEq, and_false, exists_false, false_or] at hline
    rcases hline with ⟨-, hhead⟩ | ⟨d, hd, -, heq⟩
    · rw [← hhead] at hopens
      cases hopens
    · cases heq
      exact List.mem_map_of_mem hd

theorem mem_printed {trace : List Event} {origin : Origin} {line : Line} (h : (origin, line) ∈ printed trace) :
    ∃ n, ⟨n, .print origin line⟩ ∈ trace := by
  obtain ⟨⟨n, a⟩, he, haction⟩ := List.mem_filterMap.mp h
  cases a with
  | print origin' line' =>
    cases haction
    exact ⟨n, he⟩
  | _ => cases haction

/-- A printed line is one line: what it takes from upsd are names and replies. -/
theorem printed_unbroken (henv : env.Unbroken) {origin : Origin} {line : Line}
    (h : (origin, line) ∈ printed (run env t).world.trace) : line.text.all unbroken = true := by
  apply Line.text_unbroken
  obtain ⟨n, he⟩ := mem_printed h
  obtain ⟨before, after, htrace⟩ := List.append_of_mem he
  obtain hrowless | ⟨u, body, hrow, hfor⟩ := Trace.past_split (justified_run env t) htrace
  · exact absurd hrowless not_false
  · have hu := name_unbroken henv htrace hrow
    have hclean := cleanName_unbroken hu
    cases line with
    | chartStatus type updateEvery =>
      obtain rfl : type = cleanName u := hfor
      exact List.forall_mem_singleton.mpr hclean
    | chart type chart updateEvery =>
      obtain ⟨rfl, hchart⟩ := hfor
      exact charts_unbroken hchart hclean updateEvery
    | clabel style name value =>
      refine List.forall_mem_cons.mpr ⟨unbroken_of_plain (labelNames_plain name (printed_label_name he)).2, ?_⟩
      rw [List.forall_mem_singleton]
      rcases hfor with ⟨-, rfl⟩ | ⟨var, -, hlast⟩
      · exact hu
      · exact reply_unbroken henv htrace hrow hlast
    | dimension quoted name divisor =>
      obtain ⟨c, hc, hname⟩ := printed_dimension h
      exact List.forall_mem_singleton.mpr (dimensions_unbroken hc name hname)
    | begin type name usec =>
      obtain ⟨rfl, c, hc, rfl⟩ := hfor
      exact List.forall_mem_cons.mpr
        ⟨hclean, List.forall_mem_singleton.mpr (unbroken_of_plain (chartIds_plain c hc))⟩
    | set name value =>
      obtain ⟨c, answers, -, -, hvalue⟩ := hfor
      exact List.forall_mem_singleton.mpr (dimensions_unbroken hvalue.known name hvalue.dimension)
    | clabelCommit => exact List.forall_mem_nil _
    | close => exact List.forall_mem_nil _

end UpsdPlugin
