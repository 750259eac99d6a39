import UpsdPlugin.Frames

/-! How many frames a cycle sends for a chart.

A cycle sends one frame for a chart of a UPS, but the load usage chart is sent twice when it is in
`ups_vars` and is found answered (`one_frame_iff`). -/
namespace UpsdPlugin

variable {env : Env} {w : World} {u : CStr}

/-- The latest registration is unique. -/
theorem LatestRegistration.unique {trace : List Event} {charts charts' : List NdChart}
    (h : LatestRegistration u trace charts) (h' : LatestRegistration u trace charts') : charts = charts' := by
  obtain ⟨before, n, after, rfl, hafter, rfl⟩ := h
  obtain ⟨before', n', after', heq, hafter', rfl⟩ := h'
  rw [Trace.latest_unique (p := fun e => e.action = .register u) heq rfl rfl hafter hafter']

theorem bodyCharts_known {v : CStr} {charts : List NdChart} {k : Nat} (hsub : charts.Sublist ndCharts) :
    ∀ c ∈ bodyCharts env v charts k, c.Known := by
  refine List.forall_mem_cons.mpr ⟨trivial, List.forall_mem_append.mpr ⟨?_, ?_⟩⟩
  · intro c hc
    have hload : loadUsage ∈ ndCharts := by decide
    unfold powerCharts at hc
    split at hc
    · rw [List.mem_singleton.mp hc]
      exact hload
    · cases hc
  · intro c hc
    obtain ⟨chart, hchart, rfl⟩ := List.mem_map.mp hc
    exact hsub.subset hchart

/-- How often a body sends a chart. -/
theorem bodyIds_count {v : CStr} {charts : List NdChart} {k : Nat} {c : Chart} (hsub : charts.Sublist ndCharts)
    (hc : c.Known) :
    (bodyIds env v charts k).count (fullId (cleanName u) c.id) =
      if cleanName v = cleanName u then (bodyCharts env v charts k).count c else 0 := by
  have hsame : ∀ d ∈ bodyCharts env v charts k,
      (fullId (cleanName v) d.id = fullId (cleanName u) c.id ↔ cleanName v = cleanName u ∧ d = c) :=
    fun d hd => Chart.fullId_inj (bodyCharts_known hsub d hd) hc
  rw [bodyIds, List.count, List.countP_map]
  split
  · next hname =>
    refine List.countP_congr fun d hd => ?_
    rw [Function.comp_apply, beq_iff_eq, beq_iff_eq, hsame d hd]
    exact and_iff_right hname
  · next hname =>
    refine List.countP_eq_zero.mpr fun d hd => ?_
    rw [Function.comp_apply, beq_iff_eq, hsame d hd]
    exact fun h => hname h.1

theorem bodyCharts_count {charts : List NdChart} {k : Nat} {c : Chart} (hsub : charts.Sublist ndCharts)
    (hc : c.Among charts) :
    (bodyCharts env u charts k).count c =
      if c = .var loadUsage ∧ powerAnswered env u k = true then 2 else 1 := by
  have hnodup : charts.Nodup := hsub.nodup ndCharts_nodup
  unfold bodyCharts powerCharts
  cases c with
  | status =>
    have hnone : (charts.map Chart.var).count .status = 0 := List.count_eq_zero.mpr (by simp)
    cases powerAnswered env u k <;> simp [hnone]
  | var chart =>
    have honce : (charts.map Chart.var).count (.var chart) = 1 := by
      rw [List.count_map_of_injective _ _ fun _ _ h => Chart.var.inj h]
      exact List.count_eq_one_of_mem hnodup hc
    cases powerAnswered env u k with
    | false => simp [honce]
    | true =>
      by_cases hload : chart = loadUsage
      · subst hload
        simp [honce]
      · simp [hload, honce, Ne.symm hload]

/-- A UPS with one row has one body. -/
theorem body_of_once {bodies : List (CStr × Nat)} (h : (bodies.map Prod.fst).count u = 1) :
    ∃ front k back, bodies = front ++ (u, k) :: back ∧ ∀ body ∈ front ++ back, body.1 ≠ u := by
  have hmem : u ∈ bodies.map Prod.fst := List.count_pos_iff.mp (by omega)
  obtain ⟨⟨v, k⟩, hbody, rfl⟩ := List.mem_map.mp hmem
  obtain ⟨front, back, rfl⟩ := List.append_of_mem hbody
  have hrest : ((front ++ back).map Prod.fst).count v = 0 := by
    simp only [List.map_append, List.map_cons, List.count_append, List.count_cons_self] at h ⊢
    omega
  refine ⟨front, k, back, rfl, fun body hbody heq => ?_⟩
  exact List.count_eq_zero.mp hrest (List.mem_map.mpr ⟨body, hbody, heq⟩)

/-- If the others send nothing with this id, only its body counts. -/
theorem count_of_once {front back : List (CStr × Nat)} {body : CStr × Nat} {id : CStr}
    {ids : CStr × Nat → List CStr} (h : ∀ other ∈ front ++ back, (ids other).count id = 0) :
    ((front ++ body :: back).flatMap ids).count id = (ids body).count id := by
  have hzero : ∀ bodies : List (CStr × Nat), (∀ other ∈ bodies, (ids other).count id = 0) →
      (bodies.flatMap ids).count id = 0 := by
    intro bodies hbodies
    refine List.count_eq_zero.mpr fun hmem => ?_
    obtain ⟨other, hother, hid⟩ := List.mem_flatMap.mp hmem
    exact List.count_eq_zero.mp (hbodies other hother) hid
  obtain ⟨hfront, hback⟩ := List.forall_mem_append.mp h
  rw [List.flatMap_append, List.flatMap_cons, List.count_append, List.count_append, hzero front hfront,
    hzero back hback, Nat.zero_add, Nat.add_zero]

/-- The load usage queries for a UPS with one body. -/
theorem query_of_once {n k : Nat} {trace : List Event} {front back : List (CStr × Nat)}
    (hasks : powerAsks (cycleOf n trace) = front ++ (u, k) :: back)
    (hothers : ∀ body ∈ front ++ back, body.1 ≠ u) (k' : Nat) :
    (∃ conn reply, ⟨n, .get conn .upsRealpower k' u realpowerVar reply⟩ ∈ trace) ↔ k' = k := by
  have hquery : (∃ conn reply, ⟨n, .get conn .upsRealpower k' u realpowerVar reply⟩ ∈ trace) ↔
      (u, k') ∈ powerAsks (cycleOf n trace) := by
    simp only [mem_powerAsks, mem_cycleOf]
  rw [hquery, hasks]
  constructor
  · intro h
    by_contra hne
    have hother : (u, k') ∈ front ++ back := by
      rcases List.mem_append.mp h with h | h
      · exact List.mem_append_left _ h
      · rcases List.mem_cons.mp h with h | h
        · exact absurd (Prod.mk.inj h).2 hne
        · exact List.mem_append_right _ h
    exact hothers _ hother rfl
  · rintro rfl
    simp

/-- **How often a chart is updated in a cycle.** In a complete cycle, for a UPS with one row and
a cleaned name of its own, a chart of its latest registration gets exactly one frame, unless it is
the load usage chart and `send_metric_ups_realpower` finds the load usage answered. -/
theorem one_frame_iff (env : Env) (t n : Nat) (pre post : List Event) (u : CStr) (charts : List NdChart)
    (c : Chart) (hflush : (run env t).world.trace = pre ++ ⟨n, .flush⟩ :: post)
    (honce : (env.listing n).names.count u = 1)
    (hclean : ∀ v ∈ (env.listing n).names, v ≠ u → cleanName v ≠ cleanName u)
    (hlatest : LatestRegistration u pre charts) (hc : c.Among charts) :
    (beginIds (cycleOf n (run env t).world.trace)).count (fullId (cleanName u) c.id) = 1 ↔
      ¬ (c = .var loadUsage ∧ ∃ k, powerAnswered env u k = true ∧ ∃ conn reply,
        ⟨n, .get conn .upsRealpower k u realpowerVar reply⟩ ∈ (run env t).world.trace) := by
  obtain ⟨bodies, chartsOf, hnames, htallies, hbodies⟩ := cycle_bodies hflush
  rw [← hnames] at honce hclean
  obtain ⟨front, k, back, rfl, hothers⟩ := body_of_once honce
  obtain ⟨hown, hsub⟩ := hbodies (u, k) (by simp)
  obtain rfl := hown.unique hlatest
  have hzero : ∀ body ∈ front ++ back,
      (bodyIds env body.1 (chartsOf body.1) body.2).count (fullId (cleanName u) c.id) = 0 := by
    intro body hbody
    have hmem : body ∈ front ++ (u, k) :: back := by
      rcases List.mem_append.mp hbody with h | h <;> simp [h]
    rw [bodyIds_count (hbodies body hmem).2 (hc.known hsub.subset)]
    exact if_neg (hclean body.1 (List.mem_map_of_mem hmem) (hothers body hbody))
  have hcount : (beginIds (cycleOf n (run env t).world.trace)).count (fullId (cleanName u) c.id) =
      if c = .var loadUsage ∧ powerAnswered env u k = true then 2 else 1 := by
    rw [htallies.begins, count_of_once hzero, bodyIds_count hsub (hc.known hsub.subset), if_pos rfl]
    exact bodyCharts_count hsub hc
  have hanswered : (∃ k, powerAnswered env u k = true ∧ ∃ conn reply,
      ⟨n, .get conn .upsRealpower k u realpowerVar reply⟩ ∈ (run env t).world.trace) ↔
        powerAnswered env u k = true := by
    simp only [query_of_once htallies.asks hothers, exists_eq_right]
  rw [hcount, hanswered]
  by_cases h : c = .var loadUsage ∧ powerAnswered env u k = true
  · simp [h]
  · simp [h]

/-- A UPS that answers `ups.status` and `ups.realpower`, and nothing else. -/
def realpowerUps : Env :=
  .healthy (fun _ => ["a".toList]) fun _ _ var =>
    if var = upsStatusVar then some "OL".toList
    else if var = realpowerVar then some "500".toList
    else none

/-- Its first cycle is complete after six steps, and its load usage chart is registered by then. -/
theorem realpowerUps_complete :
    ∃ pre post charts, (run realpowerUps 6).world.trace = pre ++ ⟨1, .flush⟩ :: post ∧
      LatestRegistration "a".toList pre charts ∧ loadUsage ∈ charts := by
  have hpc : (run realpowerUps 5).pc = .listing (listAnswers [] true) := by decide +kernel
  have hcycle : (run realpowerUps 5).world.cycle = 1 := by decide +kernel
  have hmem : "a".toList ∈ (run realpowerUps 5).world.ndUpsName.keys := by decide +kernel
  have hload : loadUsage ∈ (run realpowerUps 5).world.charts "a".toList := by decide +kernel
  have hnext := (run_step realpowerUps 5).listing_end hpc
  refine ⟨(run realpowerUps 5).world.trace ++ [⟨1, .listNext endRow⟩], [], _, ?_, ?_, hload⟩
  · rw [hnext, World.play_trace, hcycle]
    simp
  · exact (recorded_run realpowerUps 5 _ hmem).extend (List.forall_mem_singleton.mpr nofun) rfl

theorem one_frame_status :
    (beginIds (cycleOf 1 (run realpowerUps 6).world.trace)).count
      (fullId (cleanName "a".toList) Chart.status.id) = 1 := by
  obtain ⟨pre, post, charts, hflush, hlatest, -⟩ := realpowerUps_complete
  refine (one_frame_iff realpowerUps 6 1 pre post _ charts .status hflush (by decide) ?_ hlatest trivial).mpr ?_
  · exact List.forall_mem_singleton.mpr fun hne => absurd rfl hne
  · exact fun h => nomatch h.1

/-- Two frames of the load usage chart in one cycle, with `ups.realpower` answered throughout. -/
theorem load_usage_sent_twice :
    (∀ k, (realpowerUps.get k "a".toList realpowerVar).isSome) ∧
    ∃ pre post charts, (run realpowerUps 6).world.trace = pre ++ ⟨1, .flush⟩ :: post ∧
      (realpowerUps.listing 1).names = ["a".toList] ∧ LatestRegistration "a".toList pre charts ∧
      (Chart.var loadUsage).Among charts ∧
      (beginIds (cycleOf 1 (run realpowerUps 6).world.trace)).count
        (fullId (cleanName "a".toList) (Chart.var loadUsage).id) = 2 := by
  obtain ⟨pre, post, charts, hflush, hlatest, hload⟩ := realpowerUps_complete
  refine ⟨fun _ => rfl, pre, post, charts, hflush, rfl, hlatest, hload, ?_⟩
  decide +kernel

end UpsdPlugin
