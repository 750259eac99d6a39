import UpsdPlugin.Lockstep

/-! The bodies of the loops.

While the dictionaries are in lockstep, the body of the collection loop and those of the two
traversals perform their scripts (`collectUps_performs`, `sweepUps_performs`,
`dropUps_performs`), and their scripts keep the dictionaries in lockstep. -/
namespace UpsdPlugin
open Scripted
open World (getsOf getsOf_append)

variable {env : Env} {w w' : World} {p : Ptr} {u : CStr}

/-! ### The bodies of the loops -/

theorem lookupCleanName_performs (hl : Lockstep w) (h : Lists w p u) :
    Performs World.act (lookupCleanName env p) w
      (if u ∈ w.ndUpsName.keys then ⟨[], none⟩ else registerDeed env u w.dicts w.gets)
      (cleanName u) := by
  unfold lookupCleanName
  refine (deref_performs h.reads).read (get_performs ?_)
  by_cases hu : u ∈ w.ndUpsName.keys
  · rw [if_pos hu]
    simp only [hl.get_name hu]
    exact .pure _ _
  · rw [if_neg hu]
    simp only [OrderedDict.get_eq_none.mpr hu]
    have hreg : Performs World.act (registerUps env p) w _ () := registerUps_performs h
    unfold registerDeed at hreg ⊢
    by_cases hnil : u = []
    · rw [if_pos hnil] at hreg ⊢
      exact hreg.bind (e := ⟨[], none⟩) (by rintro ⟨⟩)
    · rw [if_neg hnil] at hreg ⊢
      have heffect := play_registerScript env u w
      rw [← List.append_nil (registerScript env u w.dicts w.gets)]
      refine hreg.seq ?_
      have hlists : Lists (play World.act w (registerScript env u w.dicts w.gets)) p u :=
        ⟨h.conn, h.reads.of_buf (by rw [h.conn]; exact heffect.list)⟩
      refine (deref_performs hlists.reads).read (get_performs ?_)
      have hget : (play World.act w (registerScript env u w.dicts w.gets)).ndUpsName.get u =
          some (cleanName u) := by
        rw [heffect.name, OrderedDict.get_set_self]
      simp only [hget]
      exact .pure _ _

theorem getsOf_frame (origin : Origin) (id : CStr) (dt : Nat) (values : List (CStr × Int)) :
    getsOf (frame u origin id dt values) = 0 := by
  refine List.countP_eq_zero.mpr fun a ha => ?_
  simp only [frame, List.cons_append, List.mem_cons, List.mem_append, List.mem_map,
    List.not_mem_nil, or_false] at ha
  rcases ha with rfl | ⟨value, -, rfl⟩ | rfl <;> simp

theorem getsOf_ask (origin : Origin) (var : CStr) (k : Nat) (rest : List Action) :
    getsOf (ask env u origin var k :: rest) = getsOf rest + 1 :=
  List.countP_cons_of_pos rfl

theorem getsOf_statusDeed (dt k : Nat) : getsOf (statusDeed env u dt k).actions = 1 := by
  unfold statusDeed
  split
  · rw [getsOf_ask, getsOf_frame]
  · rw [getsOf_ask]
    rfl

theorem sendSpecialMetrics_performs (h : Lists w p u) (dt : Nat) :
    Performs World.act (sendSpecialMetrics env dt p (cleanName u)) w (specialDeed env u dt w.gets) () := by
  refine (deref_performs h.reads).read ((perform_performs _ _).bind fun _ => ?_)
  have hseen := h.act (a := .setSeen u true) trivial
  refine (sendMetricUpsStatus_performs hseen dt).bind fun _ => ?_
  have hlists := hseen.play fun a ha => (statusDeed_collects env u dt w.gets a ha).quiet.keepsList
  have hgets := World.play_gets (w.act (.setSeen u true)) (statusDeed env u dt w.gets).actions
  rw [getsOf_statusDeed] at hgets
  have hpower : Performs World.act (sendMetricUpsRealpower env p (cleanName u) dt) _ _ () :=
    sendMetricUpsRealpower_performs hlists dt
  rw [hgets] at hpower
  exact hpower

/-- Sending the special cases marks the UPS and touches no dictionary otherwise. -/
theorem play_specialDeed (env : Env) (u : CStr) (dt k : Nat) (w : World) :
    (w.act (.setSeen u true)).Same (w.play (specialDeed env u dt k).actions) := by
  obtain ⟨rest, heq, hrest⟩ := specialDeed_actions env u dt k
  rw [heq]
  exact World.play_collects _ hrest

theorem getsOf_specialDeed {dt k : Nat} (h : (specialDeed env u dt k).stop = none) :
    getsOf (specialDeed env u dt k).actions = 1 + getsOf (powerScript env u dt (k + 1)) := by
  rcases (statusDeed env u dt k).andThen_cases ⟨powerScript env u dt (k + 1), none⟩ with
    ⟨hstop, heq⟩ | ⟨-, heq⟩
  · have hnone : ((statusDeed env u dt k).andThen ⟨powerScript env u dt (k + 1), none⟩).stop = none := h
    rw [heq] at hnone
    rw [hnone] at hstop
    cases hstop
  · have hactions : (specialDeed env u dt k).actions =
        .setSeen u true :: ((statusDeed env u dt k).actions ++ powerScript env u dt (k + 1)) :=
      congrArg (fun d : UpsdPlugin.Deed => Action.setSeen u true :: d.actions) heq
    have hcount := getsOf_append (statusDeed env u dt k).actions (powerScript env u dt (k + 1))
    rw [getsOf_statusDeed] at hcount
    rw [hactions]
    exact hcount

theorem sendTableMetrics_performs {vars : UpsVars} (h : Lists w p u)
    (hv : w.ndUpsVars.get u = some vars) (halive : vars.id ∉ w.destroyed) (dt : Nat) :
    Performs World.act (sendTableMetrics env dt p (cleanName u)) w
      (varsDeed env u dt vars.charts.values w.gets) () := by
  refine (deref_performs h.reads).read (get_performs ?_)
  simp only [hv]
  refine get_performs ?_
  rw [if_neg halive]
  exact sendUpsVars_performs h dt _

theorem sendMetrics_performs (env : Env) {vars : UpsVars} (h : Lists w p u) (hv : w.ndUpsVars.get u = some vars)
    (halive : vars.id ∉ w.destroyed) (dt : Nat) :
    Performs World.act
      (do
        sendSpecialMetrics env dt p (cleanName u)
        sendTableMetrics env dt p (cleanName u)) w
      (metricsDeed env u dt vars.charts.values w.gets) () := by
  refine (sendSpecialMetrics_performs h dt).bind fun hstop => ?_
  have hsame := play_specialDeed env u dt w.gets w
  have hgets := World.play_gets w (specialDeed env u dt w.gets).actions
  rw [getsOf_specialDeed hstop, ← Nat.add_assoc] at hgets
  rw [← hgets]
  refine sendTableMetrics_performs ⟨h.conn, h.reads.of_buf ?_⟩ ?_ ?_ dt
  · rw [h.conn]
    exact hsame.list
  · rw [hsame.vars]
    exact hv
  · rw [hsame.destroyed]
    exact halive

/-- **The body of the collection loop depends on the name, on what is recorded for it and
on the replies only.** -/
theorem collectUps_performs (hl : Lockstep w) (h : Lists w p u) (dt : Nat) :
    Performs World.act (collectUps env dt p) w (collectDeed env w dt u) () := by
  have hlookup : Performs World.act (lookupCleanName env p) w _ _ := lookupCleanName_performs hl h
  unfold collectDeed
  by_cases hu : u ∈ w.ndUpsName.keys
  · rw [if_pos hu] at hlookup ⊢
    obtain ⟨vars, hv⟩ := hl.get_vars hu
    refine hlookup.read ?_
    have hmetrics := sendMetrics_performs env h hv (hl.alive u vars hv) dt
    simpa only [World.charts, hv] using hmetrics
  · rw [if_neg hu] at hlookup ⊢
    refine hlookup.bind fun hstop => ?_
    have hnil : u ≠ [] := by
      intro hnil
      rw [registerDeed, if_pos hnil] at hstop
      cases hstop
    rw [registerDeed, if_neg hnil]
    have heffect := play_registerScript env u w
    have hgets := World.play_gets w (registerScript env u w.dicts w.gets)
    show Performs World.act _ (World.play w (registerScript env u w.dicts w.gets)) _ _
    rw [← hgets]
    generalize World.play w (registerScript env u w.dicts w.gets) = w' at heffect
    have hlists : Lists w' p u := ⟨h.conn, h.reads.of_buf (by rw [h.conn]; exact heffect.list)⟩
    have hv := heffect.get_vars u
    rw [if_pos rfl] at hv
    have hmetrics := sendMetrics_performs env hlists hv ((hl.register hnil heffect).alive u _ hv) dt
    rwa [varsOf_values (registeredCharts_sublist env u w.gets)] at hmetrics

theorem dropUps_performs (hl : Lockstep w) (u : CStr) :
    Performs World.act (dropUps u) w ⟨dropScript w u, none⟩ () := by
  have hdels : ∀ w, Performs World.act
      (do
        perform (.delVars u)
        perform (.delSeen u)
        perform (.delName u)) w ⟨[.delVars u, .delSeen u, .delName u], none⟩ () := fun w =>
    (perform_performs w _).cons ((perform_performs _ _).cons (perform_performs _ _))
  unfold dropUps dropScript
  refine Performs.seq (a := ()) ?_ (hdels _)
  refine get_performs ?_
  cases hv : w.ndUpsVars.get u with
  | none => exact .pure _ _
  | some vars =>
    refine get_performs ?_
    rw [if_neg (hl.alive u vars hv)]
    exact perform_performs _ _

theorem sweepUps_performs (hl : Lockstep w) (u : CStr) :
    Performs World.act (sweepUps u) w ⟨sweepScript w u, none⟩ () := by
  refine get_performs ?_
  unfold sweepScript
  cases wasSeen w u with
  | false => exact dropUps_performs hl u
  | true => exact perform_performs _ _

/-! ### What the bodies do to the dictionaries -/

/-- Sending metrics marks the UPS and touches no dictionary otherwise. -/
theorem play_metricsDeed (env : Env) (u : CStr) (dt : Nat) (charts : List NdChart) (k : Nat) (w : World) :
    (w.act (.setSeen u true)).Same (w.play (metricsDeed env u dt charts k).actions) := by
  obtain ⟨rest, heq, hrest⟩ := metricsDeed_actions env u dt charts k
  rw [heq]
  exact World.play_collects _ hrest

/-- The three ways through the body of the collection loop. -/
theorem collectDeed_cases (env : Env) (w : World) (dt : Nat) (u : CStr) :
    (u ∈ w.ndUpsName.keys ∧ collectDeed env w dt u = metricsDeed env u dt (w.charts u) w.gets) ∨
    (u ∉ w.ndUpsName.keys ∧ u = [] ∧ collectDeed env w dt u = ⟨[.register u], some .nullName⟩) ∨
    (u ∉ w.ndUpsName.keys ∧ u ≠ [] ∧ collectDeed env w dt u =
      Deed.andThen ⟨registerScript env u w.dicts w.gets, none⟩
        (metricsDeed env u dt (registeredCharts env u w.gets)
          (w.gets + getsOf (registerScript env u w.dicts w.gets)))) := by
  unfold collectDeed registerDeed
  by_cases hu : u ∈ w.ndUpsName.keys
  · exact Or.inl ⟨hu, if_pos hu⟩
  · by_cases hnil : u = []
    · refine Or.inr (Or.inl ⟨hu, hnil, ?_⟩)
      rw [if_neg hu, if_pos hnil]
      rfl
    · refine Or.inr (Or.inr ⟨hu, hnil, ?_⟩)
      rw [if_neg hu, if_neg hnil]

/-- The effect of the body of the collection loop on the dictionaries. -/
inductive Collected (env : Env) (u : CStr) (w w' : World) : Prop where
  | known (hu : u ∈ w.ndUpsName.keys) (hs : (w.act (.setSeen u true)).Same w')
  | nameless (hu : u = []) (hs : w.Same w')
  | new (hu : u ∉ w.ndUpsName.keys) (hnil : u ≠ []) (w1 : World) (hr : Registered env u w w1)
      (hs : (w1.act (.setSeen u true)).Same w')

theorem play_collectDeed (env : Env) (w : World) (dt : Nat) (u : CStr) :
    Collected env u w (w.play (collectDeed env w dt u).actions) := by
  rcases collectDeed_cases env w dt u with ⟨hu, heq⟩ | ⟨-, hnil, heq⟩ | ⟨hu, hnil, heq⟩
  · rw [heq]
    exact .known hu (play_metricsDeed env u dt _ _ w)
  · rw [heq]
    exact .nameless hnil (World.play_quiet w [.register u] (List.forall_mem_singleton.mpr trivial))
  · rw [heq]
    refine .new hu hnil _ (play_registerScript env u w) ?_
    show World.Same _ (play World.act w (registerScript env u w.dicts w.gets ++ _))
    rw [play_append]
    exact play_metricsDeed env u dt _ _ _

theorem wasSeen_mem (h : Lockstep w) (hs : wasSeen w u = true) : u ∈ w.ndUpsName.keys := by
  refine h.seen u (OrderedDict.mem_keys.mpr ?_)
  unfold wasSeen at hs
  cases hget : w.ndUpsSeen.get u with
  | none => simp [hget] at hs
  | some seen => exact ⟨seen, rfl⟩

theorem Lockstep.sweep (h : Lockstep w) (u : CStr) : Lockstep (w.play (sweepScript w u)) := by
  unfold sweepScript
  split
  · next hs => exact h.setSeen (wasSeen_mem h hs) false
  · exact h.drop (play_dropScript w u)

end UpsdPlugin
