import UpsdPlugin.Dictionary.Calls

/-! The per-UPS dictionaries of the plugin, behind their pointers.

A call on one of them leaves every other dictionary as it is (`Touches`). `register_ups` fills a new
one with the charts it finds, and the loop over `ups_vars` comes to them in their order
(`traverseCharts_spec`). -/
namespace UpsdPlugin

variable {s s' : Store} {vars : UpsVars}

/-! ### Calls -/

theorem on_spec {ν : Type} {session : Store → Session ν} {put : Store → Session ν → Store} {v : View ν}
    (h : Refines (session s) v) (op : Op ν) :
    Succeeds (Store.on session put op s) fun r =>
      r.1 = (v.call op).1 ∧ ∃ session, Refines session (v.call op).2 ∧ r.2 = put s session := by
  apply Succeeds.bind (call_refines h op)
  intro r hr
  exact Succeeds.ret ⟨hr.1, r.2, hr.2, rfl⟩

/-- Nothing is touched but the per-UPS dictionary `id`, which then shows `v`. -/
structure Touches (id : Nat) (v : View NdChart) (s s' : Store) : Prop where
  name : s'.ndUpsName = s.ndUpsName
  vars : s'.ndUpsVars = s.ndUpsVars
  seen : s'.ndUpsSeen = s.ndUpsSeen
  dfe : s'.upsNameDfe = s.upsNameDfe
  next : s'.upsVars.next = s.upsVars.next
  others : ∀ j, j ≠ id → s'.upsVars.cell j = s.upsVars.cell j
  shows : ∃ session, s'.upsVars.cell id = some session ∧ Refines session v

theorem Touches.trans {id : Nat} {v v' : View NdChart} {s'' : Store} (h : Touches id v s s')
    (h' : Touches id v' s' s'') : Touches id v' s s'' where
  name := h'.name.trans h.name
  vars := h'.vars.trans h.vars
  seen := h'.seen.trans h.seen
  dfe := h'.dfe.trans h.dfe
  next := h'.next.trans h.next
  others := fun j hj => (h'.others j hj).trans (h.others j hj)
  shows := h'.shows

theorem Touches.refl {id : Nat} {v : View NdChart} {session : Session NdChart}
    (hcell : s.upsVars.cell id = some session) (h : Refines session v) : Touches id v s s :=
  ⟨rfl, rfl, rfl, rfl, rfl, fun _ _ => rfl, session, hcell, h⟩

theorem onCharts_spec {id : Nat} {v : View NdChart} (h : Touches id v s s') (op : Op NdChart) :
    Succeeds (Store.onCharts id op s') fun r => r.1 = (v.call op).1 ∧ Touches id (v.call op).2 s r.2 := by
  obtain ⟨session, hcell, hsession⟩ := h.shows
  apply Succeeds.step (Heap.read_ok hcell)
  apply Succeeds.bind (call_refines hsession op)
  intro r hr
  apply Succeeds.step (Heap.update_ok (Heap.live_of_cell hcell) fun _ => r.2)
  have hnew : (s'.upsVars.modify id fun _ => r.2).cell id = some r.2 := by
    rw [Heap.cell_modify, if_pos rfl, hcell]
    rfl
  have htouch : Touches id (v.call op).2 s' {s' with upsVars := s'.upsVars.modify id fun _ => r.2} :=
    ⟨rfl, rfl, rfl, rfl, rfl, fun j hj => if_neg hj, r.2, hnew, hr.2⟩
  exact Succeeds.ret ⟨hr.1, h.trans htouch⟩

/-! ### The charts of a UPS -/

/-- Every chart of the table has a variable. -/
theorem ndCharts_named : ∀ chart ∈ ndCharts, chart.nutVariable ≠ [] := by
  intro chart hchart heq
  have hnone : ndCharts.all (·.nutVariable ≠ []) = true := by decide
  have hne := List.all_eq_true.mp hnone chart hchart
  simp [heq] at hne

theorem setCharts_spec {id : Nat} {d : OrderedDict CStr NdChart} (charts : List NdChart)
    (hnamed : ∀ chart ∈ charts, chart.nutVariable ≠ []) (h : Touches id ⟨d, []⟩ s s') :
    Succeeds (Store.setCharts id charts s') fun r =>
      Touches id ⟨charts.foldl (fun d chart => d.set chart.nutVariable chart) d, []⟩ s r.2 := by
  induction charts generalizing d s' with
  | nil => exact Succeeds.ret h
  | cons chart rest ih =>
    obtain ⟨hchart, hrest⟩ := List.forall_mem_cons.mp hnamed
    have hview : (View.call ⟨d, []⟩ (.set chart.nutVariable chart fun c => c)).2 = ⟨d.set chart.nutVariable chart, []⟩ := by
      show (if chart.nutVariable = [] then _ else _ : Answer NdChart × View NdChart).2 = _
      rw [if_neg hchart]
      simp
    apply Succeeds.stateBind (onCharts_spec h _)
    intro answer s₁ h₁
    rw [hview] at h₁
    exact ih hrest h₁.2

theorem visitCharts_spec {id fuel : Nat} {d : OrderedDict CStr NdChart} {ended : List (Option (List CStr))}
    (items : List (CStr × NdChart)) (hsub : ∀ p ∈ items, p ∈ d.items) (hfuel : items.length ≤ fuel)
    (h : Touches id ⟨d, ended ++ [items.head?.map fun _ => items.tail.map Prod.fst]⟩ s s') :
    Succeeds (Store.visitCharts id ended.length fuel items.head? s') fun r =>
      r.1 = items.map Prod.snd ∧ Touches id ⟨d, ended ++ [none]⟩ s r.2 := by
  induction items generalizing fuel s' with
  | nil =>
    cases fuel <;> exact Succeeds.ret ⟨rfl, h⟩
  | cons p rest ih =>
    obtain ⟨fuel, rfl⟩ : ∃ k, fuel = k + 1 := ⟨fuel - 1, by simp at hfuel; omega⟩
    obtain ⟨-, hrest⟩ := List.forall_mem_cons.mp hsub
    let v : View NdChart := ⟨d, ended ++ [some (rest.map Prod.fst)]⟩
    have hview : v.call (.next ended.length) = (.item rest.head?,
        ⟨d, ended ++ [rest.head?.map fun _ => rest.tail.map Prod.fst]⟩) := by
      rw [View.next_eq (v := v) rest (by simp [v]) hrest]
      simp [v]
    apply Succeeds.stateBind (onCharts_spec (v := v) h _)
    intro answer s₁ h₁
    rw [hview] at h₁
    obtain ⟨rfl, htouch⟩ := h₁
    apply Succeeds.stateBind (ih hrest (by simpa using hfuel) htouch)
    intro charts s₂ h₂
    obtain ⟨rfl, htouch₂⟩ := h₂
    exact Succeeds.ret ⟨rfl, htouch₂⟩

theorem Refines.length {ν : Type} {session : Session ν} {v : View ν} (h : Refines session v) :
    v.todos.length = session.traversals.length := by
  obtain ⟨l, -, -, hshows⟩ := h
  rw [hshows.todos, List.length_map]

theorem Refines.items_le {ν : Type} {session : Session ν} {v : View ν} (h : Refines session v) :
    v.dict.items.length ≤ session.dict.bound := by
  obtain ⟨l, hholds, -, hshows⟩ := h
  have hlength := Dictionary.length_le_bound hholds.linked.chain
  have hpresent : (Dictionary.present l).length ≤ l.length := by
    rw [Dictionary.present, List.length_map]
    exact List.length_filter_le _ l
  rw [hshows.items]
  omega

/-- A per-UPS dictionary stands behind its pointer, and nobody is in it. -/
def Stands (s : Store) (vars : UpsVars) : Prop :=
  ∃ session ended, s.upsVars.cell vars.id = some session ∧ Refines session ⟨vars.charts, ended⟩ ∧
    ∀ todo ∈ ended, todo = none

theorem Touches.stands {id : Nat} {v : View NdChart} (h : Touches id v s s') (hid : vars.id ≠ id)
    (hstands : Stands s vars) : Stands s' vars := by
  obtain ⟨session, ended, hcell, hrest⟩ := hstands
  exact ⟨session, ended, (h.others vars.id hid).trans hcell, hrest⟩

/-- The loop over `ups_vars` comes to the charts in their order. -/
theorem traverseCharts_spec (h : Stands s vars) :
    Succeeds (Store.traverseCharts (some vars.id) s) fun r =>
      r.1 = vars.charts.values ∧
        ∃ ended, (∀ todo ∈ ended, todo = none) ∧ Touches vars.id ⟨vars.charts, ended⟩ s r.2 := by
  obtain ⟨session, ended, hcell, hsession, hended⟩ := h
  have hread : (fun s => return (← s.upsVars.read vars.id, s) : OnStore (Session NdChart)) s = .ok (session, s) := by
    show (do let x ← s.upsVars.read vars.id; return (x, s) : Except Fault (Session NdChart × Store)) = _
    rw [Heap.read_ok hcell]
    rfl
  apply Succeeds.stateBind (P := fun r => r = (session, s)) ⟨_, hread, rfl⟩
  intro session' s₀ heq
  obtain ⟨rfl, rfl⟩ := Prod.mk.inj heq
  let items := vars.charts.items
  have hlength : session'.traversals.length = ended.length := hsession.length.symm
  have hstart : (View.call ⟨vars.charts, ended⟩ (.start false)) = (.item items.head?,
      ⟨vars.charts, ended ++ [items.head?.map fun _ => items.tail.map Prod.fst]⟩) := by
    show (_, _) = (_, _)
    rw [OrderedDict.keys, List.map_tail]
  apply Succeeds.stateBind (onCharts_spec (Touches.refl hcell hsession) (.start false))
  intro answer s₁ h₁
  rw [hstart] at h₁
  obtain ⟨rfl, htouch₁⟩ := h₁
  dsimp only
  rw [hlength]
  apply Succeeds.stateBind (visitCharts_spec items (fun p hp => hp) hsession.items_le htouch₁)
  intro charts s₂ h₂
  obtain ⟨rfl, htouch₂⟩ := h₂
  apply Succeeds.stateBind (onCharts_spec htouch₂ (.done ended.length))
  intro answer s₃ h₃
  have hdone : (View.call ⟨vars.charts, ended ++ [none]⟩ (.done ended.length)).2 = ⟨vars.charts, ended ++ [none]⟩ := by
    show View.mk vars.charts ((ended ++ [none]).set ended.length none) = _
    simp
  rw [hdone] at h₃
  refine Succeeds.ret ⟨rfl, ended ++ [none], ?_, h₃.2⟩
  exact List.forall_mem_append.mpr ⟨hended, List.forall_mem_singleton.mpr rfl⟩

end UpsdPlugin
