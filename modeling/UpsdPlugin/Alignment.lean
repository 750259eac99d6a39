import UpsdPlugin.SameReplies

/-! Two runs under a renaming of the UPSes.

`Aligned` says that two runs are at the same point up to the renaming, with the same queries asked
and the same UPSes registered in the same cycles. The sweep and the final cleanup are taken as a whole,
since the two runs need not take the same number of steps there: they only drop UPSes
(`Thinned`) and they end. -/
namespace UpsdPlugin
open World (getsOf)

/-! ### Registrations in a trace -/

/-- The calls of `register_ups`, each with its cycle. -/
def registeredIn (trace : List Event) : List (Nat × CStr) :=
  trace.filterMap fun e => e.action.registered?.map fun u => (e.cycle, u)

theorem mem_registeredIn {trace : List Event} {n : Nat} {u : CStr} :
    (n, u) ∈ registeredIn trace ↔ ⟨n, .register u⟩ ∈ trace := by
  simp only [registeredIn, List.mem_filterMap, Option.map_eq_some_iff, Prod.mk.injEq]
  constructor
  · intro h
    obtain ⟨⟨cycle, action⟩, he, v, hv, rfl, rfl⟩ := h
    cases action <;> cases hv
    exact he
  · intro h
    exact ⟨_, h, u, rfl, rfl, rfl⟩

theorem registeredIn_play (w : World) (script : List Action) :
    registeredIn (w.play script).trace =
      registeredIn w.trace ++ (registrations script).map fun u => (w.cycle, u) := by
  have hscript : registeredIn (script.map (Event.mk w.cycle)) =
      (registrations script).map fun u => (w.cycle, u) := by
    rw [registeredIn, registrations, List.filterMap_map, List.map_filterMap]
    rfl
  rw [World.play_trace, registeredIn, List.filterMap_append]
  exact congrArg _ hscript

/-! ### The sweep and the final cleanup as a whole -/

variable {env env' : Env} {w w' : World} {u : CStr}

/-- Nothing has happened but that UPSes have been dropped. -/
structure Thinned (w w' : World) : Prop where
  cycle : w'.cycle = w.cycle
  gets : w'.gets = w.gets
  registered : registeredIn w'.trace = registeredIn w.trace
  charts : ∀ k ∈ w'.ndUpsName.keys, k ∈ w.ndUpsName.keys ∧ w'.charts k = w.charts k

theorem Thinned.refl (w : World) : Thinned w w := ⟨rfl, rfl, rfl, fun _ hk => ⟨hk, rfl⟩⟩

theorem Thinned.trans {w1 w2 w3 : World} (h : Thinned w1 w2) (h' : Thinned w2 w3) : Thinned w1 w3 where
  cycle := h'.cycle.trans h.cycle
  gets := h'.gets.trans h.gets
  registered := h'.registered.trans h.registered
  charts := by
    intro k hk
    obtain ⟨hk2, heq⟩ := h'.charts k hk
    obtain ⟨hk1, heq'⟩ := h.charts k hk2
    exact ⟨hk1, heq.trans heq'⟩

theorem thinned_housekeeping {script : List Action} (h : ∀ a ∈ script, a.Housekeeping)
    (hcharts : ∀ k ∈ (w.play script).ndUpsName.keys,
      k ∈ w.ndUpsName.keys ∧ (w.play script).charts k = w.charts k) : Thinned w (w.play script) where
  cycle := World.play_cycle w script
  gets := by
    have hnone : getsOf script = 0 := by
      refine List.countP_eq_zero.mpr fun a ha => ?_
      cases a with
      | get => exact absurd (h _ ha) not_false
      | _ => exact Bool.false_ne_true
    rw [World.play_gets, hnone, Nat.add_zero]
  registered := by
    rw [registeredIn_play, registrations_nothing fun a ha => (h a ha).registered]
    exact List.append_nil _
  charts := hcharts

theorem thinned_drop (w : World) (u : CStr) : Thinned w (w.play (dropScript w u)) := by
  have hdrop := play_dropScript w u
  refine thinned_housekeeping (fun a ha => dropScript_housekeeping ha) fun k hk => ?_
  rw [hdrop.name, OrderedDict.mem_keys_del] at hk
  refine ⟨hk.1, charts_of_vars ?_⟩
  rw [hdrop.vars, OrderedDict.get_del, if_neg hk.2]

theorem thinned_sweep (w : World) (u : CStr) : Thinned w (w.play (sweepScript w u)) := by
  by_cases hseen : wasSeen w u = true
  · refine thinned_housekeeping (fun a ha => sweepScript_housekeeping ha) fun k hk => ?_
    rw [sweepScript, if_pos hseen] at hk ⊢
    exact ⟨hk, rfl⟩
  · rw [sweepScript, if_neg hseen]
    exact thinned_drop w u

/-- A traversal that only drops UPSes comes to its end. -/
theorem traversal_ends {loop : List CStr → Pc} {final : Pc}
    (hstep : ∀ t todo, (run env t).pc = loop todo →
      ((run env (t + 1)).pc = final ∧ Thinned (run env t).world (run env (t + 1)).world) ∨
        ∃ rest : List CStr, rest.length < todo.length ∧ (run env (t + 1)).pc = loop rest ∧
          Thinned (run env t).world (run env (t + 1)).world)
    {t : Nat} {todo : List CStr} (hpc : (run env t).pc = loop todo) :
    ∃ s, (run env s).pc = final ∧ Thinned (run env t).world (run env s).world := by
  generalize hn : todo.length = n
  induction n using Nat.strong_induction_on generalizing t todo with
  | _ n ih =>
    rcases hstep t todo hpc with ⟨hfinal, hthin⟩ | ⟨rest, hlt, hpc', hthin⟩
    · exact ⟨t + 1, hfinal, hthin⟩
    · obtain ⟨s, hs, hthin'⟩ := ih rest.length (hn ▸ hlt) hpc' rfl
      exact ⟨s, hs, hthin.trans hthin'⟩

theorem next_shorter {ν : Type} {d : OrderedDict CStr ν} {todo rest : List CStr} {item : CStr × ν}
    (h : d.next todo = some (item, rest)) : rest.length < todo.length := by
  obtain ⟨-, skipped, rfl, -⟩ := OrderedDict.next_eq_some h
  simp only [List.length_append, List.length_cons]
  omega

theorem sweep_ends (env : Env) {t : Nat} {todo : List CStr} (hpc : (run env t).pc = .sweep todo) :
    ∃ s, (run env s).pc = .head ∧ Thinned (run env t).world (run env s).world := by
  refine traversal_ends (fun t todo hpc => ?_) hpc
  rcases (run_step env t).at_sweep hpc with ⟨-, hnext⟩ | ⟨key, rest, hitem, hnext⟩
  · rw [hnext]
    exact Or.inl ⟨rfl, Thinned.refl _⟩
  · rw [hnext]
    exact Or.inr ⟨rest, next_shorter hitem, rfl, thinned_sweep _ _⟩

theorem cleanup_ends (env : Env) {t : Nat} {todo : List CStr} (hpc : (run env t).pc = .cleanup todo) :
    ∃ s, (run env s).pc = .stopped .restart ∧ Thinned (run env t).world (run env s).world := by
  refine traversal_ends (fun t todo hpc => ?_) hpc
  rcases (run_step env t).at_cleanup hpc with ⟨-, hnext⟩ | ⟨key, rest, hitem, hnext⟩
  · rw [hnext]
    exact Or.inl ⟨rfl, Thinned.refl _⟩
  · rw [hnext]
    exact Or.inr ⟨rest, next_shorter hitem, rfl, thinned_drop _ _⟩

/-! ### Renamed environments -/

/-- The same UPSes under new names: the listings name them so, and the replies are given to
the new names. Nothing else that decides where a run goes is different. -/
structure Renamed (r : CStr → CStr) (env env' : Env) : Prop where
  injective : ∀ m n, ∀ u ∈ env.names m, ∀ v ∈ env.names n, r u = r v → u = v
  names : ∀ n, env'.names n = (env.names n).map r
  get : ∀ k n, ∀ u ∈ env.names n, ∀ var, env'.get k (r u) var = env.get k u var
  started : ∀ n, (env'.listing n).started = (env.listing n).started
  complete : ∀ n, (env'.listing n).complete = (env.listing n).complete
  init : env'.init = env.init
  connect1 : env'.connect1 = env.connect1
  connect2 : env'.connect2 = env.connect2
  exitBefore : env'.exitBefore = env.exitBefore
  epipe : env'.epipe = env.epipe
  exitAfter : env'.exitAfter = env.exitAfter
  elapsed : env'.elapsed = env.elapsed

/-- The same point of `main`; the traversals may be at different items. -/
inductive SamePc (r : CStr → CStr) : Pc → Pc → Prop where
  | start : SamePc r .start .start
  | startup (rest : List CStr) (complete : Bool) :
      SamePc r (.startup (listAnswers rest complete)) (.startup (listAnswers (rest.map r) complete))
  | head : SamePc r .head .head
  | listing (rest : List CStr) (complete : Bool) :
      SamePc r (.listing (listAnswers rest complete)) (.listing (listAnswers (rest.map r) complete))
  | sweep (todo todo' : List CStr) : SamePc r (.sweep todo) (.sweep todo')
  | cleanup (todo todo' : List CStr) : SamePc r (.cleanup todo) (.cleanup todo')
  | stopped (why : Stop) : SamePc r (.stopped why) (.stopped why)

/-- The charts of the registered UPSes still matter. -/
def Running : Pc → Prop
  | .cleanup _ | .stopped _ => False
  | _ => True

/-- The run `m'` is at the same point as `m`, with the UPSes renamed. -/
structure Aligned (r : CStr → CStr) (m m' : Machine) : Prop where
  pc : SamePc r m.pc m'.pc
  cycle : m'.world.cycle = m.world.cycle
  gets : m'.world.gets = m.world.gets
  registered : registeredIn m'.world.trace = (registeredIn m.world.trace).map fun (n, u) => (n, r u)
  charts : Running m.pc → ∀ k ∈ m.world.ndUpsName.keys, m'.world.charts (r k) = m.world.charts k

section Alignment
variable {r : CStr → CStr} {pc pc' : Pc} {script script' : List Action}

theorem Aligned.play (h : Aligned r ⟨pc, w⟩ ⟨pc', w'⟩) {next next' : Pc} (hpc : SamePc r next next')
    (hgets : getsOf script' = getsOf script) (hregs : registrations script' = (registrations script).map r)
    (hcharts : Running next → ∀ k ∈ (w.play script).ndUpsName.keys,
      (w'.play script').charts (r k) = (w.play script).charts k) :
    Aligned r ⟨next, w.play script⟩ ⟨next', w'.play script'⟩ where
  pc := hpc
  cycle := by
    show (w'.play script').cycle = (w.play script).cycle
    rw [World.play_cycle, World.play_cycle]
    exact h.cycle
  gets := by
    show (w'.play script').gets = (w.play script).gets
    rw [World.play_gets, World.play_gets, hgets, show w'.gets = w.gets from h.gets]
  registered := by
    show registeredIn (w'.play script').trace = (registeredIn (w.play script).trace).map _
    rw [registeredIn_play, registeredIn_play, hregs, show registeredIn w'.trace = _ from h.registered,
      show w'.cycle = w.cycle from h.cycle, List.map_append, List.map_map, List.map_map]
    rfl
  charts := hcharts

/-- Dropping UPSes on the left. -/
theorem Aligned.thin_left {w1 : World} (h : Aligned r ⟨pc, w⟩ ⟨pc', w'⟩) (ht : Thinned w w1) {next : Pc}
    (hpc : SamePc r next pc') (hrun : Running next → Running pc) : Aligned r ⟨next, w1⟩ ⟨pc', w'⟩ where
  pc := hpc
  cycle := h.cycle.trans ht.cycle.symm
  gets := h.gets.trans ht.gets.symm
  registered := by
    show registeredIn w'.trace = (registeredIn w1.trace).map _
    rw [ht.registered]
    exact h.registered
  charts := by
    intro hnext k hk
    obtain ⟨hk', heq⟩ := ht.charts k hk
    exact (h.charts (hrun hnext) k hk').trans heq.symm

/-- Dropping UPSes on the right that are not there on the left. -/
theorem Aligned.thin_right {w1 : World} (h : Aligned r ⟨pc, w⟩ ⟨pc', w'⟩) (ht : Thinned w' w1) {next next' : Pc}
    (hpc : SamePc r next next') (hrun : Running next → Running pc)
    (hkeys : Running next → ∀ k ∈ w.ndUpsName.keys, r k ∈ w1.ndUpsName.keys) :
    Aligned r ⟨next, w⟩ ⟨next', w1⟩ where
  pc := hpc
  cycle := ht.cycle.trans h.cycle
  gets := ht.gets.trans h.gets
  registered := ht.registered.trans h.registered
  charts := by
    intro hnext k hk
    exact ((ht.charts (r k) (hkeys hnext k hk)).2).trans (h.charts (hrun hnext) k hk)

/-- A row of the startup listing. -/
theorem Aligned.register (h : Aligned r ⟨pc, w⟩ ⟨pc', w'⟩) {next next' : Pc} (hpc : SamePc r next next')
    (hrun : Running pc) (hreplies : ∀ k var, env'.get k (r u) var = env.get k u var) (hu : u ≠ [])
    (hu' : r u ≠ []) (hinj : ∀ k ∈ w.ndUpsName.keys, r k = r u → k = u) :
    Aligned r ⟨next, w.play (.listNext (upsRow u) :: (registerDeed env u w.dicts w.gets).actions)⟩
      ⟨next', w'.play (.listNext (upsRow (r u)) ::
        (registerDeed env' (r u) w'.dicts w'.gets).actions)⟩ := by
  have hgets : w'.gets = w.gets := h.gets
  have hsame := registerScript_same hreplies w.dicts w'.dicts w.gets
  have hleft := registered_row env w hu
  have hright := registered_row env' w' hu'
  refine h.play hpc ?_ ?_ fun _ k hk => ?_
  · show getsOf (registerDeed env' (r u) w'.dicts w'.gets).actions =
      getsOf (registerDeed env u w.dicts w.gets).actions
    rw [registerDeed, registerDeed, if_neg hu, if_neg hu', hgets]
    exact hsame.1
  · show registrations (registerDeed env' (r u) w'.dicts w'.gets).actions =
      (registrations (registerDeed env u w.dicts w.gets).actions).map r
    rw [registerDeed_registrations, registerDeed_registrations]
    rfl
  · rw [hleft.name, OrderedDict.mem_keys_set] at hk
    by_cases hku : k = u
    · subst hku
      rw [hleft.charts_self, hright.charts_self]
      show registeredCharts env' (r k) w'.gets = registeredCharts env k w.gets
      rw [hgets]
      exact hsame.2
    · have hk' : k ∈ w.ndUpsName.keys := hk.resolve_left hku
      have hne : r k ≠ r u := fun heq => hku (hinj k hk' heq)
      have hl := charts_of_vars (w := w) (u := k) (by rw [hleft.vars, OrderedDict.get_set_ne _ _ hku]; rfl)
      have hr := charts_of_vars (w := w') (u := r k) (by rw [hright.vars, OrderedDict.get_set_ne _ _ hne]; rfl)
      rw [hl, hr]
      exact h.charts hrun k hk'

theorem collectDeed_matches (hreplies : ∀ k var, env'.get k (r u) var = env.get k u var)
    (hgets : w'.gets = w.gets) (hmem : r u ∈ w'.ndUpsName.keys ↔ u ∈ w.ndUpsName.keys)
    (hcharts : u ∈ w.ndUpsName.keys → w'.charts (r u) = w.charts u) (hu : u ≠ []) (hu' : r u ≠ [])
    (dt dt' : Nat) : Matches (collectDeed env' w' dt' (r u)) (collectDeed env w dt u) := by
  unfold collectDeed
  by_cases hold : u ∈ w.ndUpsName.keys
  · rw [if_pos hold, if_pos (hmem.mpr hold), hgets, hcharts hold]
    exact metricsDeed_matches hreplies dt dt' _ _
  · have hsame := registerScript_same hreplies w.dicts w'.dicts w.gets
    rw [if_neg hold, if_neg (mt hmem.mp hold), registerDeed, registerDeed, if_neg hu, if_neg hu', hgets,
      hsame.1, hsame.2]
    exact Matches.andThen ⟨rfl, hsame.1⟩ (metricsDeed_matches hreplies dt dt' _ _)

theorem Collected.charts {w1 : World} (hc : Collected env u w w1) (hu : u ≠ []) (k : CStr) :
    w1.charts k = if k = u ∧ u ∉ w.ndUpsName.keys then registeredCharts env u w.gets else w.charts k := by
  cases hc with
  | nameless hnil hs => exact absurd hnil hu
  | known hmem hs =>
    rw [if_neg fun hnew => hnew.2 hmem]
    exact charts_of_vars (by rw [hs.vars]; rfl)
  | new hmem hnil w2 hr hs =>
    have hlater : w1.charts k = w2.charts k := charts_of_vars (by rw [hs.vars]; rfl)
    rw [hlater]
    by_cases hku : k = u
    · rw [if_pos ⟨hku, hmem⟩, hku]
      exact hr.charts_self
    · rw [if_neg fun hnew => hku hnew.1]
      exact charts_of_vars (by rw [hr.vars, OrderedDict.get_set_ne _ _ hku])

theorem SamePc.goOn {d d' : Deed} (hd : d'.stop = d.stop) (hpc : SamePc r pc pc') :
    SamePc r (goOn d pc) (goOn d' pc') := by
  unfold UpsdPlugin.goOn
  rw [hd]
  cases d.stop with
  | none => exact hpc
  | some why => exact .stopped why

/-- A row of the listing of a cycle. -/
theorem Aligned.collect (h : Aligned r ⟨pc, w⟩ ⟨pc', w'⟩) {next next' : Pc} (hpc : SamePc r next next')
    (hrun : Running pc) (hreplies : ∀ k var, env'.get k (r u) var = env.get k u var) (hu : u ≠ [])
    (hu' : r u ≠ []) (hmem : r u ∈ w'.ndUpsName.keys ↔ u ∈ w.ndUpsName.keys)
    (hinj : ∀ k ∈ w.ndUpsName.keys, r k = r u → k = u) (dt dt' : Nat) :
    Aligned r ⟨goOn (collectDeed env w dt u) next,
        w.play (.listNext (upsRow u) :: (collectDeed env w dt u).actions)⟩
      ⟨goOn (collectDeed env' w' dt' (r u)) next',
        w'.play (.listNext (upsRow (r u)) :: (collectDeed env' w' dt' (r u)).actions)⟩ := by
  have hgets : w'.gets = w.gets := h.gets
  have hmatches := collectDeed_matches hreplies hgets hmem (h.charts hrun u) hu hu' dt dt'
  have hleft := play_collectDeed env (w.act (.listNext (upsRow u))) dt u
  have hright := play_collectDeed env' (w'.act (.listNext (upsRow (r u)))) dt' (r u)
  refine h.play (hpc.goOn hmatches.1) hmatches.2 ?_ fun _ k hk => ?_
  · show registrations (collectDeed env' w' dt' (r u)).actions =
      (registrations (collectDeed env w dt u).actions).map r
    rw [collectDeed_registrations, collectDeed_registrations]
    by_cases hold : u ∈ w.ndUpsName.keys
    · rw [if_pos hold, if_pos (hmem.mpr hold)]
      rfl
    · rw [if_neg hold, if_neg (mt hmem.mp hold)]
      rfl
  · have hk' : k = u ∨ k ∈ w.ndUpsName.keys := (hleft.mem_keys hu k).mp hk
    have hl : World.charts _ k = _ := hleft.charts hu k
    have hr : World.charts _ (r k) = _ := hright.charts hu' (r k)
    refine hr.trans (Eq.trans ?_ hl.symm)
    show (if r k = r u ∧ r u ∉ w'.ndUpsName.keys then registeredCharts env' (r u) w'.gets else w'.charts (r k)) =
      if k = u ∧ u ∉ w.ndUpsName.keys then registeredCharts env u w.gets else w.charts k
    have hsame : r k = r u ↔ k = u := ⟨fun heq => hk'.elim id fun hmem => hinj k hmem heq, congrArg r⟩
    have hiff : (r k = r u ∧ r u ∉ w'.ndUpsName.keys) ↔ (k = u ∧ u ∉ w.ndUpsName.keys) :=
      and_congr hsame (not_congr hmem)
    rw [hgets, (registerScript_same hreplies 0 0 w.gets).2]
    by_cases hnew : k = u ∧ u ∉ w.ndUpsName.keys
    · rw [if_pos hnew, if_pos (hiff.mpr hnew)]
    · rw [if_neg hnew, if_neg (mt hiff.mp hnew)]
      refine h.charts hrun k (hk'.elim (fun heq => ?_) id)
      subst heq
      exact not_not.mp fun hold => hnew ⟨rfl, hold⟩

end Alignment

end UpsdPlugin
