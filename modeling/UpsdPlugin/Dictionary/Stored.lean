import UpsdPlugin.Dictionary.Backs
import UpsdPlugin.OneFrame
import UpsdPlugin.Lifecycle

/-! The plugin on the dictionaries of libnetdata.

The dictionaries in memory and those of `World` stay in step over the whole run, traversals of
`nd_ups_name` included (`storeRun_stored`). So no dictionary call of `main` fails, the code reads from
memory what `World` has, and an exit through the cleanup frees everything. -/
namespace UpsdPlugin

variable {s s' : Store} {w w' : World} {u : CStr} {todos : List (Option (List CStr))}

/-! ### Traversing `nd_ups_name` -/

/-- The traversal of `nd_ups_name` is where the world has `todo` left: at the item that comes next,
with the names ahead of it that are still there. -/
structure Traverses (s : Store) (w : World) (todo : List CStr) : Prop where
  backs : ∃ ended, (∀ todo ∈ ended, todo = none) ∧
    Backs s w (ended ++ [(w.ndUpsName.next todo).map fun p => w.ndUpsName.remaining p.2])
  item : s.upsNameDfe = (w.ndUpsName.next todo).map Prod.fst

theorem startNames_spec (h : Backs s w todos) (hended : ∀ todo ∈ todos, todo = none) :
    Succeeds (Store.startNames s) fun r => Traverses r.2 w w.ndUpsName.keys := by
  apply Succeeds.stateBind (on_spec h.name (.start false))
  intro answer s' hs'
  obtain ⟨rfl, session, hsession, rfl⟩ := hs'
  have htail : w.ndUpsName.remaining w.ndUpsName.keys.tail = w.ndUpsName.keys.tail :=
    OrderedDict.remaining_of_subset fun k hk => List.mem_of_mem_tail hk
  refine Succeeds.ret ⟨⟨todos, hended, ?_, h.vars, h.seen, h.charts, h.next, h.alive⟩, ?_⟩
  · rw [OrderedDict.next_keys, Option.map_map]
    show Refines session ⟨_, todos ++ [w.ndUpsName.items.head?.map fun _ =>
      w.ndUpsName.remaining w.ndUpsName.keys.tail]⟩
    rw [htail]
    exact hsession
  · rw [OrderedDict.next_keys, Option.map_map]
    exact (Option.map_id' ..).symm

/-- The number of the traversal that was started last. -/
theorem Backs.last {ended : List (Option (List CStr))} {todo : Option (List CStr)} (h : Backs s w (ended ++ [todo])) :
    Store.lastNames s = .ok (ended.length, s) := by
  have hlength := h.name.length
  rw [List.length_append, List.length_singleton] at hlength
  unfold Store.lastNames
  rw [← hlength, Nat.add_sub_cancel]
  rfl

/-- The traversal goes on: `rest` is what the world has left after the item. -/
theorem nextName_spec {ended : List (Option (List CStr))} {rest : List CStr} (hended : ∀ todo ∈ ended, todo = none)
    (h : Backs s w (ended ++ [some (w.ndUpsName.remaining rest)])) :
    Succeeds (Store.nextName s) fun r => Traverses r.2 w rest := by
  apply Succeeds.stateBind (P := fun r => r = (ended.length, s)) ⟨_, h.last, rfl⟩
  intro n s₀ heq
  obtain ⟨rfl, rfl⟩ := Prod.mk.inj heq
  apply Succeeds.stateBind (on_spec h.name (.next ended.length))
  intro answer s' hs'
  have hview : View.call ⟨w.ndUpsName, ended ++ [some (w.ndUpsName.remaining rest)]⟩ (.next ended.length) =
      (.item ((w.ndUpsName.next rest).map Prod.fst),
        ⟨w.ndUpsName, ended ++ [(w.ndUpsName.next rest).map fun p => w.ndUpsName.remaining p.2]⟩) := by
    rcases w.ndUpsName.next_remaining rest with ⟨hnext, hrest⟩ | ⟨k, v, rest', hnext, hget, hrest⟩
    · rw [hnext, hrest]
      simp [View.call]
    · rw [hnext, hrest]
      simp [View.call, hget]
  rw [hview] at hs'
  obtain ⟨rfl, session, hsession, rfl⟩ := hs'
  exact Succeeds.ret ⟨⟨ended, hended, hsession, h.vars, h.seen, h.charts, h.next, h.alive⟩, rfl⟩

theorem doneNames_spec {ended : List (Option (List CStr))} (h : Backs s w (ended ++ [none])) :
    Succeeds (Store.doneNames s) fun r => Backs r.2 w (ended ++ [none]) := by
  apply Succeeds.stateBind (P := fun r => r = (ended.length, s)) ⟨_, h.last, rfl⟩
  intro n s₀ heq
  obtain ⟨rfl, rfl⟩ := Prod.mk.inj heq
  apply Succeeds.stateBind (on_spec h.name (.done ended.length))
  intro answer s' hs'
  obtain ⟨-, session, hsession, rfl⟩ := hs'
  have hview : (View.call ⟨w.ndUpsName, ended ++ [none]⟩ (.done ended.length)).2 = ⟨w.ndUpsName, ended ++ [none]⟩ := by
    show View.mk w.ndUpsName ((ended ++ [none]).set ended.length none) = _
    simp
  rw [hview] at hsession
  exact Succeeds.ret ⟨hsession, h.vars, h.seen, h.charts, h.next, h.alive⟩

/-- The three dictionaries have been freed. -/
structure Freed (s : Store) : Prop where
  name : ∀ j, s.ndUpsName.dict.memory.cell j = none
  vars : ∀ j, s.ndUpsVars.dict.memory.cell j = none
  seen : ∀ j, s.ndUpsSeen.dict.memory.cell j = none

theorem destroyAll_spec (h : Backs s w todos) (hended : ∀ todo ∈ todos, todo = none) :
    Succeeds (Store.destroyAll s) fun r => Freed r.2 ∧ r.2.upsVars = s.upsVars := by
  apply Succeeds.bind (h.vars.destroy (by simp))
  intro vars hvars
  apply Succeeds.bind (h.seen.destroy (by simp))
  intro seen hseen
  apply Succeeds.bind (h.name.destroy hended)
  intro name hname
  exact Succeeds.ret ⟨⟨hname.2, hvars.2, hseen.2⟩, rfl⟩

/-! ### Step by step -/

/-- The store when `main` is at some point. -/
def StoredAt (s : Store) (m : Machine) : Prop :=
  match m.pc with
  | .sweep todo | .cleanup todo => Traverses s m.world todo
  | .stopped .restart =>
    Freed s ∧ ∀ id, s.upsVars.cell id ≠ none ↔ id < m.world.dicts ∧ id ∉ m.world.destroyed
  | .stopped _ => True
  | _ => ∃ ended, (∀ todo ∈ ended, todo = none) ∧ Backs s m.world ended

variable {env : Env} {m m' : Machine}

theorem rowName_upsRow (u : CStr) : rowName ["UPS".toList, u] = some u :=
  if_neg (show ¬ "UPS".toList = "END".toList by decide)

theorem rowName_endRow : rowName ["END".toList, "LIST".toList, "UPS".toList] = none := if_pos rfl

/-- A row of the startup listing. -/
theorem startupCalls_spec (h : Backs s w todos) (hl : Lockstep w) (hended : ∀ todo ∈ todos, todo = none) (u : CStr)
    (rest : List CStr) (complete : Bool) :
    Succeeds (startupCalls env w ["UPS".toList, u] s) fun r =>
      StoredAt r.2 ⟨goOn (registerDeed env u w.dicts w.gets) (.startup (listAnswers rest complete)),
        w.play (.listNext (upsRow u) :: (registerDeed env u w.dicts w.gets).actions)⟩ := by
  unfold startupCalls
  rw [rowName_upsRow]
  have hlist : Backs s (w.act (.listNext (upsRow u))) todos := h.of_eq rfl rfl rfl rfl rfl
  have hl' : Lockstep (w.act (.listNext (upsRow u))) := hl.of_eq rfl rfl rfl rfl rfl
  by_cases hu : u = []
  · subst hu
    apply (registerUps_nameless hlist _).imp
    intro r _
    exact trivial
  · have hdeed : registerDeed env u w.dicts w.gets = ⟨registerScript env u w.dicts w.gets, none⟩ := if_neg hu
    have hr := play_registerScript env u (w.act (.listNext (upsRow u)))
    rw [hdeed]
    apply (registerUps_spec hlist hl' hended hu hr).imp
    intro r hbacks
    exact ⟨todos, hended, hbacks⟩

/-- The END row of a listing: the traversal starts unless the run is over. -/
theorem listingCalls_end (h : Backs s w todos) (hended : ∀ todo ∈ todos, todo = none) :
    Succeeds (listingCalls env w ["END".toList, "LIST".toList, "UPS".toList] s) fun r =>
      StoredAt r.2 ⟨afterListing env w, w.play [.listNext endRow, .flush]⟩ := by
  unfold listingCalls
  rw [rowName_endRow]
  have hlist : Backs s (w.play [.listNext endRow, .flush]) todos := h.of_eq rfl rfl rfl rfl rfl
  have hstart := startNames_spec hlist hended
  rcases afterListing_cases env w with hpc | hpc | hpc
  · rw [hpc]
    exact Succeeds.ret trivial
  · rw [hpc]
    exact hstart
  · rw [hpc]
    exact hstart

/-- A row of the listing of a cycle. -/
theorem listingCalls_row (h : Backs s w todos) (hl : Lockstep w) (hended : ∀ todo ∈ todos, todo = none) (u : CStr)
    (rest : List CStr) (complete : Bool) :
    Succeeds (listingCalls env w ["UPS".toList, u] s) fun r =>
      StoredAt r.2 ⟨goOn (collectDeed env w (env.dt w.cycle) u) (.listing (listAnswers rest complete)),
        w.play (.listNext (upsRow u) :: (collectDeed env w (env.dt w.cycle) u).actions)⟩ := by
  unfold listingCalls
  rw [rowName_upsRow]
  have hlist : Backs s (w.act (.listNext (upsRow u))) todos := h.of_eq rfl rfl rfl rfl rfl
  have hl' : Lockstep (w.act (.listNext (upsRow u))) := hl.of_eq rfl rfl rfl rfl rfl
  have hc := play_collectDeed env (w.act (.listNext (upsRow u))) (env.dt w.cycle) u
  rcases goOn_cases (collectDeed env w (env.dt w.cycle) u) (.listing (listAnswers rest complete)) with
    ⟨hstop, hpc⟩ | ⟨why, hstop, hpc⟩
  · rw [hpc]
    have hu : u ≠ [] := by
      rintro rfl
      rcases collectDeed_cases env w (env.dt w.cycle) [] with ⟨hmem, -⟩ | ⟨-, -, heq⟩ | ⟨-, hnil, -⟩
      · exact hl.named [] hmem rfl
      · rw [heq] at hstop
        cases hstop
      · exact hnil rfl
    apply Succeeds.stateBind (collectUps_spec hlist hl' hended hu hc)
    intro read s' hs'
    exact Succeeds.ret ⟨todos, hended, hs'.2⟩
  · rw [hpc]
    have hstored : ∀ s' w', StoredAt s' ⟨.stopped why, w'⟩ := by
      intro s' w'
      rcases collectDeed_stop hstop with ⟨fault, rfl⟩ | rfl | rfl
      · exact trivial
      · exact trivial
      · exact trivial
    by_cases hu : u = []
    · subst hu
      apply Succeeds.stateBind (collectUps_nameless hlist hl' _)
      intro read s' _
      exact Succeeds.ret (hstored _ _)
    · apply Succeeds.stateBind (collectUps_spec hlist hl' hended hu hc)
      intro read s' _
      exact Succeeds.ret (hstored _ _)

/-- The names ahead of a traversal, when one is dropped under it. -/
theorem Dropped.ahead {ended : List (Option (List CStr))} {rest : List CStr} (hd : Dropped u w w')
    (hended : ∀ todo ∈ ended, todo = none) :
    without u (ended ++ [some (w.ndUpsName.remaining rest)]) = ended ++ [some (w'.ndUpsName.remaining rest)] := by
  rw [without, List.map_append, map_ended hended, hd.name, OrderedDict.remaining_del]
  rfl

/-- A round of the final cleanup drops the UPS it is at, and the traversal goes on. -/
theorem dropRound_spec {ended : List (Option (List CStr))} {rest : List CStr} (hended : ∀ todo ∈ ended, todo = none)
    (h : Backs s w (ended ++ [some (w.ndUpsName.remaining rest)])) (hl : Lockstep w) (u : CStr) :
    Succeeds ((do Store.dropUps u; Store.nextName : OnStore Unit) s) fun r =>
      Traverses r.2 (w.play (dropScript w u)) rest := by
  have hd := play_dropScript w u
  apply Succeeds.stateBind (dropUps_spec h hl hd)
  intro _ s₁ h₁
  rw [hd.ahead hended] at h₁
  exact nextName_spec hended h₁

/-- A round of the sweep. -/
theorem sweepRound_spec {ended : List (Option (List CStr))} {rest : List CStr} (hended : ∀ todo ∈ ended, todo = none)
    (h : Backs s w (ended ++ [some (w.ndUpsName.remaining rest)])) (hl : Lockstep w) (u : CStr) :
    Succeeds ((do Store.sweepUps u; Store.nextName : OnStore Unit) s) fun r =>
      Traverses r.2 (w.play (sweepScript w u)) rest := by
  apply Succeeds.stateBind (sweepUps_spec h hl u)
  intro _ s₁ h₁
  apply nextName_spec hended
  cases hseen : wasSeen w u with
  | true =>
    have hscript : sweepScript w u = [.setSeen u false] := if_pos hseen
    rw [hseen, hscript] at h₁
    rw [hscript]
    exact h₁
  | false =>
    have hscript : sweepScript w u = dropScript w u := by
      rw [sweepScript, hseen]
      rfl
    rw [hseen, hscript] at h₁
    rw [hscript, ← (play_dropScript w u).ahead hended]
    exact h₁

/-- The traversal at an item. -/
theorem Traverses.at_item {todo rest : List CStr} {item : CStr × CStr} (h : Traverses s w todo)
    (hnext : w.ndUpsName.next todo = some (item, rest)) :
    s.upsNameDfe = some item ∧ ∃ ended, (∀ todo ∈ ended, todo = none) ∧
      Backs s w (ended ++ [some (w.ndUpsName.remaining rest)]) := by
  have hitem := h.item
  have hbacks := h.backs
  rw [hnext] at hitem hbacks
  exact ⟨hitem, hbacks⟩

/-- The traversal at its end. -/
theorem Traverses.at_end {todo : List CStr} (h : Traverses s w todo) (hnext : w.ndUpsName.next todo = none) :
    s.upsNameDfe = none ∧ ∃ ended, (∀ todo ∈ ended, todo = none) ∧ Backs s w (ended ++ [none]) := by
  have hitem := h.item
  have hbacks := h.backs
  rw [hnext] at hitem hbacks
  exact ⟨hitem, hbacks⟩

theorem ended_append {ended : List (Option (List CStr))} (h : ∀ todo ∈ ended, todo = none) :
    ∀ todo ∈ ended ++ [none], todo = none := by
  intro todo htodo
  rcases List.mem_append.mp htodo with hmem | hmem
  · exact h todo hmem
  · exact List.mem_singleton.mp hmem

theorem sweepCalls_end {todo : List CStr} (h : Traverses s w todo) (hnext : w.ndUpsName.next todo = none) :
    Succeeds (sweepCalls s) fun r => StoredAt r.2 ⟨.head, w⟩ := by
  obtain ⟨hitem, ended, hended, hbacks⟩ := h.at_end hnext
  rw [sweepCalls, traversalCalls_none hitem]
  apply (doneNames_spec hbacks).imp
  intro r hr
  exact ⟨_, ended_append hended, hr⟩

theorem cleanupCalls_end {todo : List CStr} (h : Traverses s w todo) (hnext : w.ndUpsName.next todo = none) :
    Succeeds (cleanupCalls s) fun r => StoredAt r.2 ⟨.stopped .restart, w⟩ := by
  obtain ⟨hitem, ended, hended, hbacks⟩ := h.at_end hnext
  rw [cleanupCalls, traversalCalls_none hitem]
  apply Succeeds.stateBind (doneNames_spec hbacks)
  intro _ s₁ h₁
  apply (destroyAll_spec h₁ (ended_append hended)).imp
  intro r hr
  refine ⟨hr.1, ?_⟩
  rw [hr.2]
  exact h₁.alive

/-- The store stays in step with the world. -/
theorem storeStep_spec (hs : Step env m m') (hl : Lockstep m.world) (h : StoredAt s m) :
    Succeeds (storeStep env m s) fun r => StoredAt r.2 m' := by
  cases hs with
  | refuse w _ => exact Succeeds.ret trivial
  | start w _ => exact Succeeds.ret h
  | register w u rest complete =>
    obtain ⟨todos, hended, hbacks⟩ := h
    exact startupCalls_spec hbacks hl hended u rest complete
  | registered w =>
    obtain ⟨todos, hended, hbacks⟩ := h
    exact Succeeds.ret ⟨todos, hended, hbacks.of_eq rfl rfl rfl rfl rfl⟩
  | startupFails w => exact Succeeds.ret trivial
  | exit w hexit =>
    obtain ⟨todos, hended, hbacks⟩ := h
    have hcalls : storeStep env ⟨.head, w⟩ = Store.startNames := if_pos hexit
    have htick : Backs s w.tick todos := hbacks.of_eq rfl rfl rfl rfl rfl
    rw [hcalls]
    exact startNames_spec htick hended
  | refuseCycle w hexit _ =>
    have hcalls : storeStep env ⟨.head, w⟩ = return := if_neg (Bool.eq_false_iff.mp hexit)
    rw [hcalls]
    exact Succeeds.ret trivial
  | cycle w hexit _ =>
    obtain ⟨todos, hended, hbacks⟩ := h
    have hcalls : storeStep env ⟨.head, w⟩ = return := if_neg (Bool.eq_false_iff.mp hexit)
    rw [hcalls]
    exact Succeeds.ret ⟨todos, hended, hbacks.of_eq rfl rfl rfl rfl rfl⟩
  | collect w u rest complete =>
    obtain ⟨todos, hended, hbacks⟩ := h
    exact listingCalls_row hbacks hl hended u rest complete
  | listed w =>
    obtain ⟨todos, hended, hbacks⟩ := h
    exact listingCalls_end hbacks hended
  | listingFails w => exact Succeeds.ret trivial
  | sweep w todo rest key hnext =>
    obtain ⟨hitem, ended, hended, hbacks⟩ := Traverses.at_item h hnext
    have hcalls : storeStep env ⟨.sweep todo, w⟩ s = _ := traversalCalls_item hitem
    rw [hcalls]
    exact sweepRound_spec hended hbacks hl (cleanName key)
  | swept w todo hnext => exact sweepCalls_end h hnext
  | clean w todo rest key hnext =>
    obtain ⟨hitem, ended, hended, hbacks⟩ := Traverses.at_item h hnext
    have hcalls : storeStep env ⟨.cleanup todo, w⟩ s = _ := traversalCalls_item hitem
    rw [hcalls]
    exact dropRound_spec hended hbacks hl (cleanName key)
  | cleaned w todo hnext => exact cleanupCalls_end h hnext
  | stay why w => exact Succeeds.ret h

/-- The dictionaries are in step with the world at every point of a run. -/
theorem storeRun_stored (env : Env) (t : Nat) :
    Succeeds (storeRun env t) fun s => StoredAt s (run env t) := by
  induction t with
  | zero => exact Succeeds.ret ⟨[], by simp, Backs.empty⟩
  | succ t ih =>
    apply Succeeds.bind ih
    intro s hs
    apply Succeeds.bind (storeStep_spec (run_step env t) (sound_run env t).lockstep hs)
    intro r hr
    exact Succeeds.ret hr

/-! ### What `main` reads and what it leaves behind -/

theorem StoredAt.backs (h : StoredAt s m) (hruns : ∀ why, m.pc ≠ .stopped why) :
    ∃ todos, Backs s m.world todos := by
  obtain ⟨pc, w⟩ := m
  cases pc with
  | stopped why => exact absurd rfl (hruns why)
  | sweep todo | cleanup todo =>
    obtain ⟨ended, -, hbacks⟩ := Traverses.backs h
    exact ⟨_, hbacks⟩
  | start | startup answers | head | listing answers =>
    obtain ⟨ended, -, hbacks⟩ := h
    exact ⟨ended, hbacks⟩

/-- **No dictionary call of `main` fails, and the dictionaries hold what `World` has** at every point
of every run until it stops: the three maps, the traversal of `nd_ups_name` at the item where the sweep or
the cleanup is and with the names ahead that it has left, and behind every pointer in `nd_ups_vars` a
per-UPS dictionary that is there. -/
theorem dictionaries_back_world (env : Env) (t : Nat) :
    Succeeds (storeRun env t) fun s =>
      StoredAt s (run env t) ∧
        ((∀ why, (run env t).pc ≠ .stopped why) → ∃ todos, Backs s (run env t).world todos) := by
  apply (storeRun_stored env t).imp
  intro s hs
  exact ⟨hs, hs.backs⟩

/-- **What a row of the listing reads from the dictionaries**: the cleaned name of the UPS, and the
charts that `World` has for it when the row is done. These are the calls of the whole body; a row
that a reply stops has made them up to that reply. -/
theorem collect_reads_charts (env : Env) (t : Nat) (u : CStr) (rest : List CStr) (complete : Bool)
    (hpc : (run env t).pc = .listing (listAnswers (u :: rest) complete)) (hu : u ≠ []) :
    Succeeds (storeRun env t >>= Store.collectUps u (registeredCharts env u (run env t).world.gets))
      fun r => r.1 = (some (cleanName u), (run env (t + 1)).world.charts u) := by
  apply Succeeds.bind (storeRun_stored env t)
  intro s hs
  have hl : Lockstep ((run env t).world.act (.listNext (upsRow u))) :=
    (sound_run env t).lockstep.of_eq rfl rfl rfl rfl rfl
  rw [StoredAt, hpc] at hs
  obtain ⟨ended, hended, hbacks⟩ := hs
  have hrow : Backs s ((run env t).world.act (.listNext (upsRow u))) ended := hbacks.of_eq rfl rfl rfl rfl rfl
  have hc := play_collectDeed env ((run env t).world.act (.listNext (upsRow u))) (env.dt (run env t).world.cycle) u
  rw [(run_step env t).listing_row hpc]
  apply (collectUps_spec hrow hl hended hu hc).imp
  intro r hr
  exact hr.1

/-- The first cycle of a UPS that answers `ups.realpower`. -/
theorem collect_reads_load_usage :
    Succeeds (storeRun realpowerUps 4 >>=
        Store.collectUps "a".toList (registeredCharts realpowerUps "a".toList (run realpowerUps 4).world.gets))
      fun r => r.1 = (some "a".toList, [loadUsage]) := by
  have hpc : (run realpowerUps 4).pc = .listing (listAnswers ["a".toList] true) := by decide +kernel
  have hcharts : (run realpowerUps 5).world.charts "a".toList = [loadUsage] := by decide +kernel
  have hreads := collect_reads_charts realpowerUps 4 "a".toList [] true hpc (by decide)
  rw [hcharts] at hreads
  exact hreads

/-- **Nothing is left of the dictionaries when the plugin exits through its cleanup**, with listings
of distinct names that cleaning leaves alone: every item of the three dictionaries and every per-UPS
dictionary has been freed. -/
theorem exit_frees_dictionaries (env : Env) (t : Nat) (hnodup : ∀ n, (env.names n).Nodup)
    (hnamed : ∀ n, ∀ u ∈ env.names n, u ≠ []) (hclean : ∀ n, ∀ u ∈ env.names n, cleanName u = u)
    (hpc : (run env t).pc = .stopped .restart) :
    Succeeds (storeRun env t) fun s => Freed s ∧ ∀ id, s.upsVars.cell id = none := by
  apply (storeRun_stored env t).imp
  intro s hs
  rw [StoredAt, hpc] at hs
  refine ⟨hs.1, ?_⟩
  have hd := disposal_run ⟨hnodup, hnamed, hclean⟩ t
  have hempty : (run env t).world.ndUpsName.keys = [] := by
    have hleft := hd.leftover
    unfold Leftover at hleft
    rwa [hpc] at hleft
  intro id
  by_contra hlive
  obtain ⟨hid, hstands⟩ := (hs.2 id).mp hlive
  -- A dictionary that has not been destroyed is in `nd_ups_vars`, and that has no key any more.
  obtain ⟨u, vars, hvars, -⟩ := (hd.owned id hid).resolve_left hstands
  have hmem := OrderedDict.mem_keys_of_get hvars
  rw [← (sound_run env t).lockstep.keys, hempty] at hmem
  cases hmem

theorem swapped_exit_frees :
    (run swappedUps 12).world.dicts = 2 ∧
      Succeeds (storeRun swappedUps 12) fun s => Freed s ∧ ∀ id, s.upsVars.cell id = none := by
  have hnames : ∀ n, swappedUps.names n = ["a".toList] ∨ swappedUps.names n = ["b".toList] := by
    intro n
    show (if n = 0 then _ else _) = _ ∨ (if n = 0 then _ else _) = _
    split <;> simp
  refine ⟨by decide +kernel, exit_frees_dictionaries swappedUps 12 ?_ ?_ ?_ (by decide +kernel)⟩
  · intro n
    rcases hnames n with h | h <;> rw [h] <;> decide
  · intro n
    rcases hnames n with h | h <;> rw [h] <;> decide
  · intro n
    rcases hnames n with h | h <;> rw [h] <;> decide

end UpsdPlugin
