import UpsdPlugin.Refine

/-! The three dictionaries stay in lockstep.

`nd_ups_name` and `nd_ups_vars` always have the same keys, `nd_ups_seen` has no
others, every stored name is the cleaned key, and the per-UPS dictionaries that
are stored are distinct and alive (`Lockstep`). Registering, marking and dropping a UPS keep them
so. -/
namespace UpsdPlugin
open Scripted
open World (getsOf)

variable {env : Env} {w w' : World} {p : Ptr} {u : CStr}

/-! ### The charts of a registration -/

theorem keptCharts_sublist (env : Env) (u : CStr) (charts : List NdChart) (k : Nat) :
    (keptCharts env u charts k).Sublist charts := by
  induction charts generalizing k with
  | nil => exact List.Sublist.refl []
  | cons chart rest ih =>
    unfold keptCharts
    cases available env u chart k with
    | false => exact (ih _).cons chart
    | true => exact (ih _).cons_cons chart

theorem registeredCharts_sublist (env : Env) (u : CStr) (k : Nat) :
    (registeredCharts env u k).Sublist ndCharts :=
  keptCharts_sublist env u ndCharts _

/-- The per-UPS dictionary lists its charts in their order. -/
theorem varsOf_values {charts : List NdChart} (h : charts.Sublist ndCharts) :
    (varsOf charts).values = charts := by
  have hnodup : (charts.map NdChart.nutVariable).Nodup :=
    (h.map NdChart.nutVariable).nodup ndCharts_variables_nodup
  have hvalues := OrderedDict.values_foldl_set NdChart.nutVariable .empty charts
    (fun _ _ hmem => by simp at hmem) hnodup
  simpa [varsOf] using hvalues

/-! ### The invariant -/

structure Lockstep (w : World) : Prop where
  keys : w.ndUpsName.keys = w.ndUpsVars.keys
  seen : ∀ u ∈ w.ndUpsSeen.keys, u ∈ w.ndUpsName.keys
  named : ∀ u ∈ w.ndUpsName.keys, u ≠ []
  clean : ∀ u v, w.ndUpsName.get u = some v → v = cleanName u
  /-- The charts of a stored per-UPS dictionary stand in it in the order of `nd_charts`. -/
  charts : ∀ u vars, w.ndUpsVars.get u = some vars →
    ∃ charts, charts.Sublist ndCharts ∧ vars.charts = varsOf charts
  created : ∀ u vars, w.ndUpsVars.get u = some vars → vars.id < w.dicts
  alive : ∀ u vars, w.ndUpsVars.get u = some vars → vars.id ∉ w.destroyed
  distinct : ∀ u v vars vars', w.ndUpsVars.get u = some vars → w.ndUpsVars.get v = some vars' →
    vars.id = vars'.id → u = v
  past : ∀ id ∈ w.destroyed, id < w.dicts
  once : w.destroyed.Nodup

theorem Lockstep.empty : Lockstep {} where
  keys := rfl
  seen := fun _ h => nomatch h
  named := fun _ h => nomatch h
  clean := fun _ _ h => nomatch h
  charts := fun _ _ h => nomatch h
  created := fun _ _ h => nomatch h
  alive := fun _ _ h => nomatch h
  distinct := fun _ _ _ _ h => nomatch h
  past := fun _ h => nomatch h
  once := List.nodup_nil

namespace Lockstep

theorem get_name (h : Lockstep w) (hu : u ∈ w.ndUpsName.keys) :
    w.ndUpsName.get u = some (cleanName u) := by
  obtain ⟨v, hv⟩ := OrderedDict.mem_keys.mp hu
  rw [hv, h.clean u v hv]

theorem get_vars (h : Lockstep w) (hu : u ∈ w.ndUpsName.keys) :
    ∃ vars, w.ndUpsVars.get u = some vars := by
  rw [h.keys] at hu
  exact OrderedDict.mem_keys.mp hu

/-- Nothing here depends on the connections or the trace. -/
theorem of_eq (h : Lockstep w) (hname : w'.ndUpsName = w.ndUpsName)
    (hvars : w'.ndUpsVars = w.ndUpsVars) (hseen : w'.ndUpsSeen = w.ndUpsSeen)
    (hdicts : w'.dicts = w.dicts) (hdestroyed : w'.destroyed = w.destroyed) : Lockstep w' := by
  obtain ⟨h1, h2, h3, h4, h5, h6, h7, h8, h9, h10⟩ := h
  rw [← hname] at h1 h2 h3 h4
  rw [← hvars] at h1 h5 h6 h7 h8
  rw [← hseen] at h2
  rw [← hdicts] at h6 h9
  rw [← hdestroyed] at h7 h9 h10
  exact ⟨h1, h2, h3, h4, h5, h6, h7, h8, h9, h10⟩

theorem same (h : Lockstep w) (hs : w.Same w') : Lockstep w' :=
  h.of_eq hs.name hs.vars hs.seen hs.dicts hs.destroyed

end Lockstep

/-! ### What registration does to the dictionaries -/

/-- The effect of a registration. -/
structure Registered (env : Env) (u : CStr) (w w' : World) : Prop where
  name : w'.ndUpsName = w.ndUpsName.set u (cleanName u)
  vars : w'.ndUpsVars = w.ndUpsVars.set u ⟨w.dicts, varsOf (registeredCharts env u w.gets)⟩
  seen : w'.ndUpsSeen = w.ndUpsSeen
  dicts : w'.dicts = w.dicts + 1
  destroyed : w'.destroyed = w.destroyed
  list : w'.buf .ups1 = w.buf .ups1

theorem play_registerScript (env : Env) (u : CStr) (w : World) :
    Registered env u w (w.play (registerScript env u w.dicts w.gets)) := by
  simp only [registerScript, List.append_assoc, World.play, play_append]
  generalize hw1 : play World.act w [.register u, .setName u (cleanName u)] = w1
  have h1 : w1.Same (play World.act w1 (statusBlock env u w.gets)) :=
    World.play_announces w1 (statusBlock_announces env u w.gets)
  generalize play World.act w1 (statusBlock env u w.gets) = w2 at h1
  generalize hw3 : play World.act w2 [.create w.dicts] = w3
  have h3 : w3.Same (play World.act w3 (chartsScript env u ndCharts _)) :=
    World.play_announces w3
      (chartsScript_announces env u ndCharts (w.gets + getsOf (statusBlock env u w.gets)))
  generalize play World.act w3 (chartsScript env u ndCharts _) = w4 at h3
  subst hw1 hw3
  constructor
  · exact (h3.name.trans h1.name : w4.ndUpsName = _)
  · show w4.ndUpsVars.set _ _ = _
    rw [h3.vars]
    show w2.ndUpsVars.set _ _ = _
    rw [h1.vars]
    rfl
  · exact (h3.seen.trans h1.seen : w4.ndUpsSeen = _)
  · show w4.dicts = _
    rw [h3.dicts]
    show w2.dicts + 1 = _
    rw [h1.dicts]
    rfl
  · exact (h3.destroyed.trans h1.destroyed : w4.destroyed = _)
  · exact (h3.list.trans h1.list : w4.buf .ups1 = _)

/-- A new per-UPS dictionary, known under the UPS it was made for. -/
theorem Registered.get_vars (hr : Registered env u w w') (v : CStr) :
    w'.ndUpsVars.get v =
      if v = u then some ⟨w.dicts, varsOf (registeredCharts env u w.gets)⟩ else w.ndUpsVars.get v := by
  rw [hr.vars, OrderedDict.get_set]

theorem Registered.get_cases (hr : Registered env u w w') {v : CStr} {vars : UpsVars}
    (hv : w'.ndUpsVars.get v = some vars) :
    (v = u ∧ vars = ⟨w.dicts, varsOf (registeredCharts env u w.gets)⟩) ∨
      w.ndUpsVars.get v = some vars := by
  rw [hr.get_vars] at hv
  split at hv
  · next hvu => exact Or.inl ⟨hvu, (Option.some.inj hv).symm⟩
  · exact Or.inr hv

theorem Lockstep.register (h : Lockstep w) (hu : u ≠ []) (hr : Registered env u w w') :
    Lockstep w' where
  keys := by
    rw [hr.name, hr.vars]
    exact OrderedDict.keys_set_congr h.keys _ _ _
  seen := by
    rw [hr.name, hr.seen]
    exact fun v hv => OrderedDict.mem_keys_set.mpr (Or.inr (h.seen v hv))
  named := by
    rw [hr.name]
    intro v hv
    rcases OrderedDict.mem_keys_set.mp hv with rfl | hv
    · exact hu
    · exact h.named v hv
  clean := by
    rw [hr.name]
    intro v x hv
    rw [OrderedDict.get_set] at hv
    split at hv
    · next heq => exact heq ▸ (Option.some.inj hv).symm
    · exact h.clean v x hv
  charts := by
    intro v vars hv
    rcases hr.get_cases hv with ⟨-, rfl⟩ | hv
    · exact ⟨_, registeredCharts_sublist env u w.gets, rfl⟩
    · exact h.charts v vars hv
  created := by
    intro v vars hv
    rw [hr.dicts]
    rcases hr.get_cases hv with ⟨-, rfl⟩ | hv
    · exact Nat.lt_succ_self _
    · exact Nat.lt_succ_of_lt (h.created v vars hv)
  alive := by
    intro v vars hv
    rw [hr.destroyed]
    rcases hr.get_cases hv with ⟨-, rfl⟩ | hv
    · exact fun hd => Nat.lt_irrefl _ (h.past _ hd)
    · exact h.alive v vars hv
  distinct := by
    -- The new id is above all the ids in use.
    intro v x vars vars' hv hx hid
    rcases hr.get_cases hv with ⟨rfl, rfl⟩ | hv
    · rcases hr.get_cases hx with ⟨rfl, -⟩ | hx
      · rfl
      · exact absurd hid (h.created x vars' hx).ne'
    · rcases hr.get_cases hx with ⟨rfl, rfl⟩ | hx
      · exact absurd hid (h.created v vars hv).ne
      · exact h.distinct v x vars vars' hv hx hid
  past := by
    rw [hr.destroyed, hr.dicts]
    exact fun id hid => Nat.lt_succ_of_lt (h.past id hid)
  once := by
    rw [hr.destroyed]
    exact h.once

/-! ### Marking and dropping -/

theorem Lockstep.setSeen (h : Lockstep w) (hu : u ∈ w.ndUpsName.keys) (seen : Bool) :
    Lockstep (w.act (.setSeen u seen)) :=
  {h with
    seen := by
      intro v hv
      rcases OrderedDict.mem_keys_set.mp hv with rfl | hv
      · exact hu
      · exact h.seen v hv}

/-- The effect of dropping a UPS. -/
structure Dropped (u : CStr) (w w' : World) : Prop where
  name : w'.ndUpsName = w.ndUpsName.del u
  vars : w'.ndUpsVars = w.ndUpsVars.del u
  seen : w'.ndUpsSeen = w.ndUpsSeen.del u
  dicts : w'.dicts = w.dicts
  destroyed : w'.destroyed = w.destroyed ++ ((w.ndUpsVars.get u).map UpsVars.id).toList
  list : w'.buf .ups1 = w.buf .ups1

theorem play_dropScript (w : World) (u : CStr) : Dropped u w (w.play (dropScript w u)) := by
  unfold dropScript
  cases hu : w.ndUpsVars.get u with
  | none => constructor <;> simp [hu, play, World.act, World.effect]
  | some vars => constructor <;> simp [hu, play, World.act, World.effect]

theorem Lockstep.drop (h : Lockstep w) (hd : Dropped u w w') : Lockstep w' := by
  have hget : ∀ v vars, w'.ndUpsVars.get v = some vars → v ≠ u ∧ w.ndUpsVars.get v = some vars := by
    intro v vars hv
    rw [hd.vars, OrderedDict.get_del] at hv
    split at hv
    · cases hv
    · next hne => exact ⟨hne, hv⟩
  have hgone : ∀ id ∈ w'.destroyed, id ∈ w.destroyed ∨
      ∃ vars, w.ndUpsVars.get u = some vars ∧ vars.id = id := by
    intro id hid
    rw [hd.destroyed, List.mem_append, Option.mem_toList, Option.map_eq_some_iff] at hid
    exact hid
  constructor
  · rw [hd.name, hd.vars, OrderedDict.keys_del, OrderedDict.keys_del, h.keys]
  · rw [hd.seen, hd.name]
    intro v hv
    have hv' := OrderedDict.mem_keys_del.mp hv
    exact OrderedDict.mem_keys_del.mpr ⟨h.seen v hv'.1, hv'.2⟩
  · rw [hd.name]
    exact fun v hv => h.named v (OrderedDict.mem_keys_del.mp hv).1
  · rw [hd.name]
    intro v x hv
    rw [OrderedDict.get_del] at hv
    split at hv
    · cases hv
    · exact h.clean v x hv
  · exact fun v vars hv => h.charts v vars (hget v vars hv).2
  · rw [hd.dicts]
    exact fun v vars hv => h.created v vars (hget v vars hv).2
  · intro v vars hv hmem
    obtain ⟨hne, hv⟩ := hget v vars hv
    rcases hgone _ hmem with hmem | ⟨vars', hu, hid⟩
    · exact h.alive v vars hv hmem
    · exact hne (h.distinct v u vars vars' hv hu hid.symm)
  · intro v x vars vars' hv hx hid
    exact h.distinct v x vars vars' (hget v vars hv).2 (hget x vars' hx).2 hid
  · rw [hd.dicts]
    intro id hmem
    rcases hgone id hmem with hmem | ⟨vars, hu, rfl⟩
    · exact h.past id hmem
    · exact h.created u vars hu
  · rw [hd.destroyed, List.nodup_append]
    refine ⟨h.once, ?_, ?_⟩
    · cases w.ndUpsVars.get u <;> simp
    · intro id hid id' hid' heq
      rw [Option.mem_toList, Option.map_eq_some_iff] at hid'
      obtain ⟨vars, hu, rfl⟩ := hid'
      exact h.alive u vars hu (heq ▸ hid)

end UpsdPlugin
