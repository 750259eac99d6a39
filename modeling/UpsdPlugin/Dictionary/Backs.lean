import UpsdPlugin.Dictionary.UpsVars

/-! The plugin's dictionaries in memory and those of `World`.

`Backs` says that they are the same. Every function of the plugin that works on dictionaries
succeeds in memory, reads there what `World` has, and leaves the two the same again: marking,
registering (`registerUps_spec`), collecting (`collectUps_spec`) and dropping a UPS
(`dropUps_spec`). -/
namespace UpsdPlugin

variable {s s' : Store} {w w' : World} {u : CStr} {todos : List (Option (List CStr))} {vars : UpsVars}

/-- The dictionaries of the store are those of the world; `todos` are the traversals of
`nd_ups_name`. -/
structure Backs (s : Store) (w : World) (todos : List (Option (List CStr))) : Prop where
  name : Refines s.ndUpsName ⟨w.ndUpsName, todos⟩
  vars : Refines s.ndUpsVars ⟨w.ndUpsVars.map UpsVars.id, []⟩
  seen : Refines s.ndUpsSeen ⟨w.ndUpsSeen, []⟩
  charts : ∀ u vars, w.ndUpsVars.get u = some vars → Stands s vars
  next : s.upsVars.next = w.dicts
  alive : ∀ id, s.upsVars.cell id ≠ none ↔ id < w.dicts ∧ id ∉ w.destroyed

theorem Backs.empty : Backs {} {} [] where
  name := refines_empty
  vars := refines_empty
  seen := refines_empty
  charts := by
    intro u vars hvars
    cases hvars
  next := rfl
  alive := by
    intro id
    simp

/-- Nothing here depends on the connections or the trace. -/
theorem Backs.of_eq (h : Backs s w todos) (hname : w'.ndUpsName = w.ndUpsName) (hvars : w'.ndUpsVars = w.ndUpsVars)
    (hseen : w'.ndUpsSeen = w.ndUpsSeen) (hdicts : w'.dicts = w.dicts) (hdestroyed : w'.destroyed = w.destroyed) :
    Backs s w' todos where
  name := hname.symm ▸ h.name
  vars := hvars.symm ▸ h.vars
  seen := hseen.symm ▸ h.seen
  charts := hvars.symm ▸ h.charts
  next := h.next.trans hdicts.symm
  alive := by
    rw [hdicts, hdestroyed]
    exact h.alive

theorem Backs.same (h : Backs s w todos) (hs : w.Same w') : Backs s w' todos :=
  h.of_eq hs.name hs.vars hs.seen hs.dicts hs.destroyed

/-- Traversals that have ended see nothing of a new name. -/
theorem map_ended {f : List CStr → List CStr} (h : ∀ todo ∈ todos, todo = none) : todos.map (·.map f) = todos := by
  have hid : ∀ todo ∈ todos, todo.map f = todo := by
    intro todo htodo
    rw [h todo htodo]
    rfl
  exact (List.map_congr_left hid).trans (List.map_id todos)

theorem View.set_none {ν : Type} (d : OrderedDict CStr ν) (hu : u ≠ []) (h : ∀ todo ∈ todos, todo = none) (value : ν)
    (edit : ν → ν) :
    View.call ⟨d, todos⟩ (.set u value edit) = (.stored true, ⟨d.set u (edit value), todos⟩) := by
  show (if u = [] then _ else _) = _
  rw [if_neg hu, map_ended h, ite_self]

theorem setSeen_spec (h : Backs s w todos) (hu : u ≠ []) (seen : Bool) :
    Succeeds (Store.setSeen u seen s) fun r => Backs r.2 (w.act (.setSeen u seen)) todos := by
  apply Succeeds.stateBind (on_spec h.seen (.set u seen id))
  intro answer s' hs'
  obtain ⟨-, session, hsession, rfl⟩ := hs'
  rw [View.set_none _ hu (by simp)] at hsession
  exact Succeeds.ret ⟨h.name, h.vars, hsession, h.charts, h.next, h.alive⟩

theorem wasSeen_spec (h : Backs s w todos) (u : CStr) :
    Succeeds (Store.wasSeen u s) fun r => r.1 = wasSeen w u ∧ Backs r.2 w todos := by
  apply Succeeds.stateBind (on_spec h.seen (.get u))
  intro answer s' hs'
  obtain ⟨hanswer, session, hsession, rfl⟩ := hs'
  obtain rfl : answer = .value (w.ndUpsSeen.get u) := hanswer
  have hbacks : Backs {s with ndUpsSeen := session} w todos :=
    ⟨h.name, h.vars, hsession, h.charts, h.next, h.alive⟩
  unfold UpsdPlugin.wasSeen
  cases w.ndUpsSeen.get u with
  | none => exact Succeeds.ret ⟨rfl, hbacks⟩
  | some seen => exact Succeeds.ret ⟨rfl, hbacks⟩

theorem getVars_spec (h : Backs s w todos) (u : CStr) :
    Succeeds (Store.getVars u s) fun r => r.1 = (w.ndUpsVars.get u).map UpsVars.id ∧ Backs r.2 w todos := by
  apply Succeeds.stateBind (on_spec h.vars (.get u))
  intro answer s' hs'
  obtain ⟨rfl, session, hsession, rfl⟩ := hs'
  exact Succeeds.ret ⟨OrderedDict.get_map .., h.name, hsession, h.seen, h.charts, h.next, h.alive⟩

theorem getName_spec (h : Backs s w todos) (u : CStr) :
    Succeeds (Store.getName u s) fun r => r.1 = w.ndUpsName.get u ∧ Backs r.2 w todos := by
  apply Succeeds.stateBind (on_spec h.name (.get u))
  intro answer s' hs'
  obtain ⟨rfl, session, hsession, rfl⟩ := hs'
  exact Succeeds.ret ⟨rfl, hsession, h.vars, h.seen, h.charts, h.next, h.alive⟩

/-- The pointers there were before, and a new one. -/
theorem Backs.created {upsVars : Heap (Session NdChart)} (h : Backs s w todos) (hl : Lockstep w)
    (hnew : upsVars.cell s.upsVars.next ≠ none)
    (hothers : ∀ j, j ≠ s.upsVars.next → upsVars.cell j = s.upsVars.cell j) (id : Nat) :
    upsVars.cell id ≠ none ↔ id < w.dicts + 1 ∧ id ∉ w.destroyed := by
  rw [h.next] at hnew hothers
  by_cases hid : id = w.dicts
  · subst hid
    have hnot : w.dicts ∉ w.destroyed := fun hmem => Nat.lt_irrefl _ (hl.past _ hmem)
    exact ⟨fun _ => ⟨Nat.lt_succ_self _, hnot⟩, fun _ => hnew⟩
  · have hbound : id < w.dicts ↔ id < w.dicts + 1 := by omega
    rw [← hbound, ← h.alive id, hothers id hid]

theorem registerUps_spec {env : Env} (h : Backs s w todos) (hl : Lockstep w) (hended : ∀ todo ∈ todos, todo = none)
    (hu : u ≠ []) (hr : Registered env u w w') :
    Succeeds (Store.registerUps u (registeredCharts env u w.gets) s) fun r => Backs r.2 w' todos := by
  apply Succeeds.stateBind (on_spec h.name (.set u u cleanName))
  intro answer s₁ hs₁
  rw [View.set_none _ hu hended] at hs₁
  obtain ⟨rfl, session, hsession, rfl⟩ := hs₁
  -- The new dictionary is behind a new pointer.
  let s₂ : Store := {s with ndUpsName := session, upsVars := s.upsVars.alloc {}}
  have hnew : s₂.upsVars.cell s.upsVars.next = some {} := if_pos rfl
  have hnamed : ∀ chart ∈ registeredCharts env u w.gets, chart.nutVariable ≠ [] :=
    fun chart hchart => ndCharts_named chart ((registeredCharts_sublist env u w.gets).mem hchart)
  have hcharts := setCharts_spec (registeredCharts env u w.gets) hnamed (Touches.refl hnew refines_empty)
  apply Succeeds.stateBind (P := fun r => r = (s.upsVars.next, s₂)) ⟨_, rfl, rfl⟩
  intro id s₂' heq
  obtain ⟨rfl, rfl⟩ := Prod.mk.inj heq
  apply Succeeds.stateBind hcharts
  intro _ s₃ htouch
  have hvars : Refines s₃.ndUpsVars ⟨w.ndUpsVars.map UpsVars.id, []⟩ := htouch.vars ▸ h.vars
  apply Succeeds.stateBind (on_spec hvars (.set u s.upsVars.next fun i => i))
  intro answer s₄ hs₄
  rw [View.set_none _ hu (by simp)] at hs₄
  obtain ⟨-, session', hsession', rfl⟩ := hs₄
  refine Succeeds.ret ⟨?_, ?_, ?_, ?_, ?_, ?_⟩
  · rw [hr.name]
    exact htouch.name ▸ hsession
  · rw [hr.vars, OrderedDict.map_set, ← h.next]
    exact hsession'
  · rw [hr.seen]
    exact htouch.seen ▸ h.seen
  · intro v vars hv
    rcases hr.get_cases hv with ⟨-, rfl⟩ | hold
    · obtain ⟨session, hcell, hrefines⟩ := htouch.shows
      exact ⟨session, [], h.next ▸ hcell, hrefines, by simp⟩
    · have hid : vars.id ≠ s.upsVars.next := by
        rw [h.next]
        exact (hl.created v vars hold).ne
      obtain ⟨session, ended, hcell, hrest⟩ := h.charts v vars hold
      exact htouch.stands hid ⟨session, ended, (if_neg hid).trans hcell, hrest⟩
  · rw [hr.dicts, ← h.next]
    exact htouch.next
  · obtain ⟨session, hcell, -⟩ := htouch.shows
    rw [hr.dicts, hr.destroyed]
    apply h.created hl
    · rw [hcell]
      exact Option.some_ne_none session
    · intro j hj
      exact (htouch.others j hj).trans (if_neg hj)

/-- A traversal of a per-UPS dictionary leaves the rest as it is. -/
theorem Backs.touched {ended : List (Option (List CStr))} (h : Backs s w todos) (hl : Lockstep w)
    (hv : w.ndUpsVars.get u = some vars) (ht : Touches vars.id ⟨vars.charts, ended⟩ s s')
    (hended : ∀ todo ∈ ended, todo = none) : Backs s' w todos where
  name := ht.name.symm ▸ h.name
  vars := ht.vars.symm ▸ h.vars
  seen := ht.seen.symm ▸ h.seen
  charts := by
    intro u' vars' hv'
    by_cases hid : vars'.id = vars.id
    · obtain rfl := hl.distinct u' u vars' vars hv' hv hid
      obtain rfl := Option.some.inj (hv'.symm.trans hv)
      obtain ⟨session, hcell, hrefines⟩ := ht.shows
      exact ⟨session, ended, hcell, hrefines, hended⟩
    · exact ht.stands hid (h.charts u' vars' hv')
  next := ht.next.trans h.next
  alive := by
    intro id
    rw [← h.alive id]
    by_cases hid : id = vars.id
    · obtain ⟨session, hcell, -⟩ := ht.shows
      obtain ⟨session', _, hcell', -⟩ := h.charts u vars hv
      rw [hid, hcell, hcell']
      simp
    · rw [ht.others id hid]

/-- The body of the collection loop once the UPS is known. -/
theorem collect_known {cleanUpsName : CStr} (h : Backs s w todos) (hl : Lockstep w) (hu : u ∈ w.ndUpsName.keys) :
    Succeeds ((do
      Store.setSeen u true
      let charts ← Store.traverseCharts (← Store.getVars u)
      return (some cleanUpsName, charts) : OnStore (Option CStr × List NdChart)) s) fun r =>
      r.1 = (some cleanUpsName, w.charts u) ∧ Backs r.2 (w.act (.setSeen u true)) todos := by
  obtain ⟨vars, hv⟩ := hl.get_vars hu
  have hl' : Lockstep (w.act (.setSeen u true)) := hl.setSeen hu true
  have hv' : (w.act (.setSeen u true)).ndUpsVars.get u = some vars := hv
  apply Succeeds.stateBind (setSeen_spec h (hl.named u hu) true)
  intro _ s₁ h₁
  apply Succeeds.stateBind (getVars_spec h₁ u)
  intro id s₂ hs₂
  obtain ⟨hid, h₂⟩ := hs₂
  rw [hv'] at hid
  obtain rfl : id = some vars.id := hid
  apply Succeeds.stateBind (traverseCharts_spec (h₂.charts u vars hv'))
  intro charts s₃ hs₃
  obtain ⟨rfl, ended, hended, ht⟩ := hs₃
  have hcharts : vars.charts.values = w.charts u := by
    unfold World.charts
    rw [hv]
  exact Succeeds.ret ⟨congrArg _ hcharts, h₂.touched hl' hv' ht hended⟩

theorem lookup_known (h : Backs s w todos) (hl : Lockstep w) (hu : u ∈ w.ndUpsName.keys) (charts : List NdChart) :
    Succeeds (Store.lookupCleanName u charts s) fun r => r.1 = some (cleanName u) ∧ Backs r.2 w todos := by
  apply Succeeds.stateBind (getName_spec h u)
  intro name s₁ hs₁
  rw [hl.get_name hu] at hs₁
  obtain ⟨rfl, h₁⟩ := hs₁
  exact Succeeds.ret ⟨rfl, h₁⟩

/-- A UPS without a name ends the run in `register_ups`. -/
theorem registerUps_nameless (h : Backs s w todos) (charts : List NdChart) :
    Succeeds (Store.registerUps [] charts s) fun r => Backs r.2 w todos := by
  apply Succeeds.stateBind (on_spec h.name (.set [] [] cleanName))
  intro answer s' hs'
  obtain ⟨rfl, session, hsession, rfl⟩ := hs'
  exact Succeeds.ret ⟨hsession, h.vars, h.seen, h.charts, h.next, h.alive⟩

theorem collectUps_nameless (h : Backs s w todos) (hl : Lockstep w) (charts : List NdChart) :
    Succeeds (Store.collectUps [] charts s) fun r => Backs r.2 w todos := by
  have hget : w.ndUpsName.get [] = none := OrderedDict.get_eq_none.mpr fun hmem => hl.named [] hmem rfl
  have hlookup : Succeeds (Store.lookupCleanName [] charts s) fun r => r.1 = none ∧ Backs r.2 w todos := by
    apply Succeeds.stateBind (getName_spec h [])
    intro name s₁ hs₁
    rw [hget] at hs₁
    obtain ⟨rfl, h₁⟩ := hs₁
    apply Succeeds.stateBind (registerUps_nameless h₁ charts)
    intro _ s₂ h₂
    have hname := getName_spec h₂ []
    rwa [hget] at hname
  apply Succeeds.stateBind hlookup
  intro name s' hs'
  obtain ⟨rfl, h'⟩ := hs'
  exact Succeeds.ret h'

theorem lookup_new {env : Env} (h : Backs s w todos) (hl : Lockstep w) (hended : ∀ todo ∈ todos, todo = none)
    (hmem : u ∉ w.ndUpsName.keys) (hu : u ≠ []) (hr : Registered env u w w') :
    Succeeds (Store.lookupCleanName u (registeredCharts env u w.gets) s) fun r =>
      r.1 = some (cleanName u) ∧ Backs r.2 w' todos := by
  apply Succeeds.stateBind (getName_spec h u)
  intro name s₁ hs₁
  rw [OrderedDict.get_eq_none.mpr hmem] at hs₁
  obtain ⟨rfl, h₁⟩ := hs₁
  apply Succeeds.stateBind (registerUps_spec h₁ hl hended hu hr)
  intro _ s₂ h₂
  have hname := getName_spec h₂ u
  rwa [hr.name, OrderedDict.get_set_self] at hname

/-- **What the body of the collection loop reads from the dictionaries is the cleaned name and the
charts of the UPS**, which it registers first when it is new. -/
theorem collectUps_spec {env : Env} (h : Backs s w todos) (hl : Lockstep w) (hended : ∀ todo ∈ todos, todo = none)
    (hu : u ≠ []) (hc : Collected env u w w') :
    Succeeds (Store.collectUps u (registeredCharts env u w.gets) s) fun r =>
      r.1 = (some (cleanName u), w'.charts u) ∧ Backs r.2 w' todos := by
  cases hc with
  | nameless hnil _ => exact absurd hnil hu
  | known hmem hs =>
    apply Succeeds.stateBind (lookup_known h hl hmem _)
    intro name s₁ hs₁
    obtain ⟨rfl, h₁⟩ := hs₁
    apply (collect_known h₁ hl hmem).imp
    intro r hr
    have hcharts : w'.charts u = w.charts u := charts_of_vars (congrArg (·.get u) hs.vars)
    exact ⟨hcharts ▸ hr.1, hr.2.same hs⟩
  | new hmem _ w₁ hr hs =>
    have hmem₁ : u ∈ w₁.ndUpsName.keys := by
      rw [hr.name]
      exact OrderedDict.mem_keys_set.mpr (Or.inl rfl)
    apply Succeeds.stateBind (lookup_new h hl hended hmem hu hr)
    intro name s₁ hs₁
    obtain ⟨rfl, h₁⟩ := hs₁
    apply (collect_known h₁ (hl.register hu hr) hmem₁).imp
    intro r hr'
    have hcharts : w'.charts u = w₁.charts u := charts_of_vars (congrArg (·.get u) hs.vars)
    exact ⟨hcharts ▸ hr'.1, hr'.2.same hs⟩

/-- A dictionary that is destroyed is freed. -/
theorem destroyUps_spec (h : Stands s vars) :
    Store.destroy vars.id s = .ok ((), {s with upsVars := s.upsVars.erase vars.id}) := by
  obtain ⟨session, ended, hcell, hrefines, hended⟩ := h
  obtain ⟨⟨freed, dict⟩, hdestroy, hfreed, -⟩ := hrefines.destroy hended
  obtain rfl : freed = true := hfreed
  unfold Store.destroy
  rw [Heap.read_ok hcell]
  show (do
    let r ← session.dict.dictionaryDestroy
    let upsVars ← if r.1 then s.upsVars.free vars.id else s.upsVars.update vars.id fun _ => {session with dict := r.2}
    return ((), {s with upsVars}) : Except Fault (Unit × Store)) = _
  rw [hdestroy]
  show (do
    let upsVars ← s.upsVars.free vars.id
    return ((), {s with upsVars}) : Except Fault (Unit × Store)) = _
  rw [Heap.free_ok (Heap.live_of_cell hcell)]
  rfl

theorem Backs.destroyed (h : Backs s w todos) (vars : UpsVars) :
    ∀ id, (s.upsVars.erase vars.id).cell id ≠ none ↔ id < w.dicts ∧ id ∉ w.destroyed ++ [vars.id] := by
  intro id
  rw [Heap.cell_erase, List.mem_append, List.mem_singleton, not_or]
  by_cases hid : id = vars.id
  · simp [hid]
  · rw [if_neg hid, h.alive id]
    simp [hid]

/-- The names a traversal has ahead of it when one is deleted. -/
def without (u : CStr) (todos : List (Option (List CStr))) : List (Option (List CStr)) :=
  todos.map (·.map (·.filter (· ≠ u)))

/-- The dictionary behind the pointer is destroyed, if there is one. -/
theorem destroyVars_spec (h : Backs s w todos) (hl : Lockstep w) (hd : Dropped u w w') :
    Succeeds (Store.destroyVars ((w.ndUpsVars.get u).map UpsVars.id) s) fun r =>
      ∃ upsVars, r.2 = {s with upsVars} ∧ upsVars.next = w.dicts ∧
        (∀ v vars, v ≠ u → w.ndUpsVars.get v = some vars → Stands r.2 vars) ∧
        ∀ id, upsVars.cell id ≠ none ↔ id < w.dicts ∧ id ∉ w'.destroyed := by
  rw [hd.destroyed]
  cases hv : w.ndUpsVars.get u with
  | none =>
    refine Succeeds.ret ⟨s.upsVars, rfl, h.next, fun v vars _ hvars => h.charts v vars hvars, ?_⟩
    simpa using h.alive
  | some vars =>
    refine ⟨_, destroyUps_spec (h.charts u vars hv), _, rfl, h.next, ?_, h.destroyed vars⟩
    intro v vars' hne hv'
    obtain ⟨session, ended, hcell, hrest⟩ := h.charts v vars' hv'
    have hid : vars'.id ≠ vars.id := fun heq => hne (hl.distinct v u vars' vars hv' hv heq)
    exact ⟨session, ended, (if_neg hid).trans hcell, hrest⟩

theorem dropUps_spec (h : Backs s w todos) (hl : Lockstep w) (hd : Dropped u w w') :
    Succeeds (Store.dropUps u s) fun r => Backs r.2 w' (without u todos) := by
  apply Succeeds.stateBind (getVars_spec h u)
  intro id s₁ hs₁
  obtain ⟨rfl, h₁⟩ := hs₁
  apply Succeeds.stateBind (destroyVars_spec h₁ hl hd)
  intro _ s₂ hs₂
  obtain ⟨upsVars, rfl, hnext, hcharts, halive⟩ := hs₂
  apply Succeeds.stateBind (on_spec (s := {s₁ with upsVars}) h₁.vars (.del u))
  intro _ s₃ hs₃
  obtain ⟨-, vars, hvars, rfl⟩ := hs₃
  apply Succeeds.stateBind (on_spec (s := {s₁ with upsVars, ndUpsVars := vars}) h₁.seen (.del u))
  intro _ s₄ hs₄
  obtain ⟨-, seen, hseen, rfl⟩ := hs₄
  apply Succeeds.stateBind (on_spec (s := {s₁ with upsVars, ndUpsVars := vars, ndUpsSeen := seen}) h₁.name (.del u))
  intro _ s₅ hs₅
  obtain ⟨-, name, hname, rfl⟩ := hs₅
  refine Succeeds.ret ⟨?_, ?_, ?_, ?_, ?_, ?_⟩
  · rw [hd.name]
    exact hname
  · rw [hd.vars, OrderedDict.map_del]
    exact hvars
  · rw [hd.seen]
    exact hseen
  · intro v vars hv
    rw [hd.vars, OrderedDict.get_del] at hv
    split at hv
    · cases hv
    · next hne => exact hcharts v vars hne hv
  · exact hnext.trans hd.dicts.symm
  · rw [hd.dicts]
    exact halive

/-- The body of the sweep. -/
theorem sweepUps_spec (h : Backs s w todos) (hl : Lockstep w) (u : CStr) :
    Succeeds (Store.sweepUps u s) fun r =>
      Backs r.2 (w.play (sweepScript w u)) (if wasSeen w u then todos else without u todos) := by
  apply Succeeds.stateBind (wasSeen_spec h u)
  intro seen s₁ hs₁
  obtain ⟨rfl, h₁⟩ := hs₁
  unfold sweepScript
  cases hseen : wasSeen w u with
  | true => exact setSeen_spec h₁ (hl.named u (wasSeen_mem hl hseen)) false
  | false => exact dropUps_spec h₁ hl (play_dropScript w u)

end UpsdPlugin
