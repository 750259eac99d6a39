import UpsdPlugin.Cycles
import UpsdPlugin.Lib.MarkSweep
import UpsdPlugin.Registration

/-! Who is registered.

The three dictionaries are a registry that each cycle marks and sweeps
(`World.registry`): the listing marks the UPSes it names, and the sweep drops those that
were not marked. The sweep goes by the cleaned name, so the registry follows the
listings as long as the listings are tidy: the names that leave are clean, and no name
that stays is what another one cleans to. `Roster` says who is registered at each point of such
a run, and `Enrolled` what the current cycle has registered. -/
namespace UpsdPlugin
open MarkSweep (Registry Tidy Sweeping)

variable {env : Env} {w w' : World} {u : CStr}

/-! ### The dictionaries as a registry -/

/-- The registered UPSes, and those marked as seen. -/
def World.registry (w : World) (h : Lockstep w) : Registry CStr where
  present := {k | k ∈ w.ndUpsName.keys}
  marked := {k | wasSeen w k = true}
  sub := fun _ hk => wasSeen_mem h hk

theorem wasSeen_set (hseen : w'.ndUpsSeen = w.ndUpsSeen.set u true) (k : CStr) :
    wasSeen w' k = true ↔ k = u ∨ wasSeen w k = true := by
  unfold wasSeen
  rw [hseen, OrderedDict.get_set]
  by_cases h : k = u <;> simp [h]

theorem wasSeen_unset (hseen : w'.ndUpsSeen = w.ndUpsSeen.set u false) (k : CStr) :
    wasSeen w' k = true ↔ wasSeen w k = true ∧ k ≠ u := by
  unfold wasSeen
  rw [hseen, OrderedDict.get_set]
  by_cases h : k = u <;> simp [h]

theorem wasSeen_del (hseen : w'.ndUpsSeen = w.ndUpsSeen.del u) (k : CStr) :
    wasSeen w' k = true ↔ wasSeen w k = true ∧ k ≠ u := by
  unfold wasSeen
  rw [hseen, OrderedDict.get_del]
  by_cases h : k = u <;> simp [h]

theorem Collected.seen (hc : Collected env u w w') (hu : u ≠ []) :
    w'.ndUpsSeen = w.ndUpsSeen.set u true := by
  cases hc with
  | nameless hnil => exact absurd hnil hu
  | known hmem hs => exact hs.seen
  | new hmem hnil w1 hr hs =>
    rw [hs.seen, ← hr.seen]
    rfl

theorem Collected.mem_keys (hc : Collected env u w w') (hu : u ≠ []) (k : CStr) :
    k ∈ w'.ndUpsName.keys ↔ k = u ∨ k ∈ w.ndUpsName.keys := by
  cases hc with
  | nameless hnil => exact absurd hnil hu
  | known hmem hs =>
    rw [hs.name]
    constructor
    · exact Or.inr
    · rintro (rfl | hk)
      · exact hmem
      · exact hk
  | new hmem hnil w1 hr hs =>
    rw [hs.name]
    show k ∈ w1.ndUpsName.keys ↔ _
    rw [hr.name, OrderedDict.mem_keys_set]

theorem Dropped.registry (hd : Dropped u w w') (h : Lockstep w) (h' : Lockstep w') :
    w'.registry h' = (w.registry h).drop u := by
  ext k
  · show k ∈ w'.ndUpsName.keys ↔ _
    rw [hd.name, OrderedDict.mem_keys_del]
    rfl
  · exact wasSeen_del hd.seen k

/-- A round of the sweep is a visit. -/
theorem sweepScript_registry (h : Lockstep w) (h' : Lockstep (w.play (sweepScript w u))) :
    (w.play (sweepScript w u)).registry h' = (w.registry h).visit u := by
  by_cases hu : wasSeen w u = true
  · rw [Registry.visit_of_mem (s := w.registry h) hu]
    have hscript : sweepScript w u = [.setSeen u false] := if_pos hu
    ext k
    · show k ∈ (w.play (sweepScript w u)).ndUpsName.keys ↔ _
      rw [hscript]
      rfl
    · refine wasSeen_unset (w := w) (u := u) ?_ k
      rw [hscript]
      rfl
  · rw [Registry.visit_of_not_mem (s := w.registry h) hu]
    refine Dropped.registry ?_ h h'
    rw [sweepScript, if_neg hu]
    exact play_dropScript w u

/-! ### Registrations -/

/-- The UPS that `register_ups` is called for. -/
def Action.registered? : Action → Option CStr
  | .register u => some u
  | _ => none

def registrations (script : List Action) : List CStr := script.filterMap Action.registered?

theorem registrations_append (a b : List Action) :
    registrations (a ++ b) = registrations a ++ registrations b := List.filterMap_append

theorem registrations_nothing {script : List Action} (h : ∀ a ∈ script, a.registered? = none) :
    registrations script = [] := List.filterMap_eq_nil_iff.mpr h

theorem registered_eq_none {a : Action} (h : a.registers = false) : a.registered? = none := by
  cases a <;> first | rfl | cases h

theorem metricsDeed_registrations (dt : Nat) (charts : List NdChart) (k : Nat) :
    registrations (metricsDeed env u dt charts k).actions = [] := by
  refine registrations_nothing fun a ha => ?_
  rcases metricsDeed_mem env u ha with rfl | h
  · rfl
  · cases h <;> rfl

theorem registerDeed_registrations (id k : Nat) : registrations (registerDeed env u id k).actions = [u] := by
  unfold registerDeed
  split
  · rfl
  · show registrations (registerScript env u id k) = [u]
    have hrest : registrations (registerRest env u id k) = [] :=
      registrations_nothing fun a ha => registered_eq_none (registerRest_not_registers id k a ha)
    rw [registerScript_eq]
    exact congrArg (u :: ·) hrest

theorem collectDeed_registrations (w : World) (dt : Nat) :
    registrations (collectDeed env w dt u).actions = if u ∈ w.ndUpsName.keys then [] else [u] := by
  unfold collectDeed
  split
  · exact metricsDeed_registrations _ _ _
  · rcases (registerDeed env u w.dicts w.gets).andThen_cases
        (metricsDeed env u dt (registeredCharts env u w.gets) _) with ⟨-, heq⟩ | ⟨-, heq⟩
    · rw [heq]
      exact registerDeed_registrations _ _
    · rw [heq]
      show registrations (_ ++ _) = _
      rw [registrations_append, registerDeed_registrations, metricsDeed_registrations, List.append_nil]

theorem Action.Housekeeping.registered {a : Action} (h : a.Housekeeping) : a.registered? = none := by
  cases a <;> first | rfl | exact absurd h not_false

/-! ### The roster -/

/-- The names of a listing. -/
abbrev Env.names (env : Env) (n : Nat) : List CStr := (env.listing n).names

/-- The UPSes that a cycle has to register, in the order of its listing: at startup all of
them, and then those that were not in the listing before. -/
def arrivals (env : Env) : Nat → List CStr
  | 0 => env.names 0
  | n + 1 => (env.names (n + 1)).filter fun u => u ∉ env.names n

/-- Two listings in a row are tidy. -/
def TidyListings (env : Env) (n : Nat) : Prop :=
  Tidy cleanName {u | u ∈ env.names n} {u | u ∈ env.names (n + 1)}

/-- Listings of distinct UPSes with names, and tidy ones wherever the run sweeps. -/
structure Orderly (env : Env) : Prop where
  nodup : ∀ n, (env.names n).Nodup
  named : ∀ n, ∀ u ∈ env.names n, u ≠ []
  tidy : ∀ t n todo, (run env t).pc = .sweep todo → (run env t).world.cycle = n + 1 → TidyListings env n

/-- The registrations of the current cycle: some of those it has to make, and all of them
once the END row has come. -/
structure Enrolled (env : Env) (w : World) : Prop where
  some_of : registrations w.now <+: arrivals env w.cycle
  all_of : .listNext endRow ∈ w.now → registrations w.now = arrivals env w.cycle

/-- Inside the startup listing, after the rows `done`. -/
structure Opening (w : World) (done : List CStr) : Prop where
  cycle : w.cycle = 0
  present : ∀ k, k ∈ w.ndUpsName.keys ↔ k ∈ done
  unseen : ∀ k, wasSeen w k = false
  joined : registrations w.now = done
  unfinished : .listNext endRow ∉ w.now

/-- At the head of the collection loop: the registered UPSes are those of the last listing. -/
structure Settled (env : Env) (w : World) : Prop where
  present : ∀ k, k ∈ w.ndUpsName.keys ↔ k ∈ env.names w.cycle
  unseen : ∀ k, cleanName k = k → wasSeen w k = false
  noted : w.cycle ≠ 0 → ∀ k ∈ env.names w.cycle, k ∈ w.ndUpsSeen.keys

/-- Inside the listing of cycle `n + 1`, after the rows `done`. -/
structure Marking (env : Env) (w : World) (n : Nat) (done : List CStr) : Prop where
  cycle : w.cycle = n + 1
  present : ∀ k, k ∈ w.ndUpsName.keys ↔ k ∈ env.names n ∨ k ∈ done
  seen : ∀ k, cleanName k = k → (wasSeen w k = true ↔ k ∈ done)
  noted : ∀ k ∈ done, k ∈ w.ndUpsSeen.keys
  joined : registrations w.now = done.filter fun u => u ∉ env.names n
  unfinished : .listNext endRow ∉ w.now

/-- In the sweep of cycle `n + 1`. -/
structure Clearing (env : Env) (w : World) (n : Nat) (todo : List CStr) : Prop where
  cycle : w.cycle = n + 1
  nodup : todo.Nodup
  sweeping : ∀ h : Lockstep w,
    Sweeping cleanName {u | u ∈ env.names n} {u | u ∈ env.names (n + 1)} {u | u ∈ todo} (w.registry h)
  noted : ∀ k ∈ env.names (n + 1), k ∈ w.ndUpsSeen.keys

/-- Which UPSes are registered and seen, at each point of `main`. -/
def Roster (env : Env) (m : Machine) : Prop :=
  match m.pc with
  | .start => m.world = {}
  | .startup answers => ∃ done, (env.listing 0).At done answers ∧ Opening m.world done
  | .head => Settled env m.world
  | .listing answers => ∃ n done, (env.listing (n + 1)).At done answers ∧ Marking env m.world n done
  | .sweep todo => ∃ n, Clearing env m.world n todo
  | .cleanup _ | .stopped _ => True

/-! ### The steps -/

theorem now_list (w : World) (answer : Option (List CStr)) (script : List Action) :
    (w.play (.listNext answer :: script)).now = w.now ++ .listNext answer :: script := World.now_play w _

theorem registrations_row (now : List Action) (answer : Option (List CStr)) (script : List Action) :
    registrations (now ++ .listNext answer :: script) = registrations now ++ registrations script := by
  rw [registrations_append]
  rfl

theorem registerDeed_not_list {id k : Nat} {a : Action} (h : a ∈ (registerDeed env u id k).actions)
    (answer : Option (List CStr)) : a ≠ .listNext answer := by
  rintro rfl
  rcases registerDeed_cases h with h | h | h | h | h <;> cases h

theorem collectDeed_not_list {dt : Nat} {a : Action} (h : a ∈ (collectDeed env w dt u).actions)
    (answer : Option (List CStr)) : a ≠ .listNext answer := by
  rcases collectDeed_mem h with h | h | h
  · exact registerDeed_not_list h.2 answer
  · rintro rfl
    cases h
  · rintro rfl
    cases h

theorem upsRow_ne_endRow (u : CStr) : upsRow u ≠ endRow := by simp [upsRow, endRow]

/-- A row and what is done for it is not the END row. -/
theorem unfinished_row {now script : List Action} (h : .listNext endRow ∉ now)
    (hscript : ∀ a ∈ script, a ≠ .listNext endRow) : .listNext endRow ∉ now ++ .listNext (upsRow u) :: script := by
  intro hmem
  rcases List.mem_append.mp hmem with hmem | hmem
  · exact h hmem
  · rcases List.mem_cons.mp hmem with heq | hmem
    · exact upsRow_ne_endRow u (Action.listNext.inj heq).symm
    · exact hscript _ hmem rfl

theorem registered_row (env : Env) (w : World) (hu : u ≠ []) :
    Registered env u (w.act (.listNext (upsRow u)))
      (w.play (.listNext (upsRow u) :: (registerDeed env u w.dicts w.gets).actions)) := by
  have hdeed : registerDeed env u w.dicts w.gets = ⟨registerScript env u w.dicts w.gets, none⟩ := if_neg hu
  rw [hdeed]
  exact play_registerScript env u (w.act (.listNext (upsRow u)))

theorem Opening.register {done : List CStr} (h : Opening w done) (env : Env) (hu : u ≠ []) :
    Opening (w.play (.listNext (upsRow u) :: (registerDeed env u w.dicts w.gets).actions)) (done ++ [u]) := by
  have hreg := registered_row env w hu
  have hnow := now_list w (upsRow u) (registerDeed env u w.dicts w.gets).actions
  constructor
  · rw [World.play_cycle, h.cycle]
  · intro k
    rw [hreg.name, OrderedDict.mem_keys_set]
    show k = u ∨ k ∈ w.ndUpsName.keys ↔ _
    rw [h.present k, List.mem_append, List.mem_singleton, or_comm]
  · intro k
    unfold wasSeen
    rw [hreg.seen]
    exact h.unseen k
  · rw [hnow, registrations_row, registerDeed_registrations, h.joined]
  · rw [hnow]
    exact unfinished_row h.unfinished fun a ha => registerDeed_not_list ha _

/-- After the END row of the startup listing. -/
theorem Opening.settled (h : Opening w (env.names 0)) : Settled env (w.play [.listNext endRow]) where
  present := by
    intro k
    rw [World.play_cycle, h.cycle]
    exact h.present k
  unseen := fun k _ => h.unseen k
  noted := fun hne => absurd ((World.play_cycle w _).trans h.cycle) hne

/-- A new cycle begins. -/
theorem Settled.marking (h : Settled env w) (hd : Dated w) : Marking env w.tick w.cycle [] where
  cycle := rfl
  present := by
    intro k
    rw [or_iff_left List.not_mem_nil]
    exact h.present k
  seen := by
    intro k hk
    have hunseen : wasSeen w.tick k = false := h.unseen k hk
    simp [hunseen]
  noted := List.forall_mem_nil _
  joined := by
    rw [hd.now_tick]
    rfl
  unfinished := by
    rw [hd.now_tick]
    exact List.not_mem_nil

/-- The body for one more row. -/
theorem Marking.collect {n : Nat} {done : List CStr} (h : Marking env w n done) (hu : u ≠ [])
    (hnew : u ∉ done) (dt : Nat) :
    Marking env (w.play (.listNext (upsRow u) :: (collectDeed env w dt u).actions)) n (done ++ [u]) := by
  have hc : Collected env u (w.act (.listNext (upsRow u)))
      (w.play (.listNext (upsRow u) :: (collectDeed env w dt u).actions)) :=
    play_collectDeed env (w.act (.listNext (upsRow u))) dt u
  have hnow := now_list w (upsRow u) (collectDeed env w dt u).actions
  have hrow : registrations (collectDeed env w dt u).actions =
      [u].filter fun u => u ∉ env.names n := by
    rw [collectDeed_registrations]
    by_cases hold : u ∈ env.names n
    · simp [hold, h.present u]
    · simp [hold, h.present u, hnew]
  constructor
  · rw [World.play_cycle, h.cycle]
  · intro k
    rw [hc.mem_keys hu k]
    show k = u ∨ k ∈ w.ndUpsName.keys ↔ _
    rw [h.present k, List.mem_append, List.mem_singleton]
    tauto
  · intro k hk
    rw [wasSeen_set (hc.seen hu) k]
    show k = u ∨ wasSeen w k = true ↔ _
    rw [h.seen k hk, List.mem_append, List.mem_singleton, or_comm]
  · intro k hk
    rw [hc.seen hu, OrderedDict.mem_keys_set]
    rcases List.mem_append.mp hk with hk | hk
    · exact Or.inr (h.noted k hk)
    · exact Or.inl (List.mem_singleton.mp hk)
  · rw [hnow, registrations_row, h.joined, hrow, List.filter_append]
  · rw [hnow]
    exact unfinished_row h.unfinished fun a ha => collectDeed_not_list ha _

/-- After the END row, the sweep begins. -/
theorem Marking.clearing {n : Nat} (h : Marking env w n (env.names (n + 1))) :
    Clearing env (w.play [.listNext endRow, .flush]) n w.ndUpsName.keys where
  cycle := (World.play_cycle w _).trans h.cycle
  nodup := w.ndUpsName.keys_nodup
  sweeping := fun hl => Sweeping.start (s := World.registry _ hl) h.present h.seen
  noted := h.noted

/-- A round of the sweep. -/
theorem Clearing.visit {n : Nat} {todo rest : List CStr} {key : CStr} (h : Clearing env w n todo)
    (hl : Lockstep w) (htidy : TidyListings env n)
    (hnext : w.ndUpsName.next todo = some ((key, cleanName key), rest)) :
    Clearing env (w.play (sweepScript w (cleanName key))) n rest := by
  obtain ⟨hget, skipped, rfl, hskipped⟩ := OrderedDict.next_eq_some hnext
  have hkey : key ∈ w.ndUpsName.keys := OrderedDict.mem_keys_of_get hget
  have hl' := hl.sweep (cleanName key)
  have hvisit := (h.sweeping hl).visit htidy cleanName_idem hkey (by simp)
  have hsub : ∀ k ∈ ((w.registry hl).visit (cleanName key)).present, k ∈ w.ndUpsName.keys :=
    fun k hk => Registry.mem_of_mem_visit hk
  rw [← sweepScript_registry hl hl'] at hvisit hsub
  obtain ⟨-, hrest, -⟩ := List.nodup_append.mp h.nodup
  obtain ⟨hfresh, hnodup⟩ := List.nodup_cons.mp hrest
  constructor
  · rw [World.play_cycle, h.cycle]
  · exact hnodup
  · intro _
    refine hvisit.todo_congr fun k hk => ?_
    have hskip : k ∉ skipped := fun hmem => hskipped k hmem (hsub k hk)
    have hne : k ∈ rest → k ≠ key := fun hmem heq => hfresh (heq ▸ hmem)
    show k ∈ rest ↔ k ∈ skipped ++ key :: rest ∧ k ≠ key
    simp only [List.mem_append, List.mem_cons, hskip, false_or]
    tauto
  · intro k hk
    have hkept : k ∈ (w.play (sweepScript w (cleanName key))).ndUpsName.keys := hvisit.keeps k hk
    by_cases hseen : wasSeen w (cleanName key) = true
    · rw [sweepScript, if_pos hseen]
      exact OrderedDict.mem_keys_set.mpr (Or.inr (h.noted k hk))
    · have hdrop := play_dropScript w (cleanName key)
      rw [sweepScript, if_neg hseen] at hkept ⊢
      rw [hdrop.name, OrderedDict.mem_keys_del] at hkept
      rw [hdrop.seen, OrderedDict.mem_keys_del]
      exact ⟨h.noted k hk, hkept.2⟩

/-- At the end of the sweep. -/
theorem Clearing.settled {n : Nat} {todo : List CStr} (h : Clearing env w n todo) (hl : Lockstep w)
    (htidy : TidyListings env n) (hnext : w.ndUpsName.next todo = none) : Settled env w := by
  obtain ⟨hpresent, hunseen⟩ := (h.sweeping hl).done htidy fun k hk ht => OrderedDict.next_eq_none hnext k ht hk
  constructor
  · rw [h.cycle]
    exact hpresent
  · intro k hk
    exact Bool.eq_false_iff.mpr (hunseen k hk)
  · rw [h.cycle]
    exact fun _ => h.noted

/-! ### The registrations of the current cycle -/

theorem Enrolled.of_empty (h : w.now = []) : Enrolled env w where
  some_of := by
    rw [h]
    exact List.nil_prefix
  all_of := by
    rw [h]
    exact fun hmem => absurd hmem List.not_mem_nil

theorem Opening.enrolled {done : List CStr} (h : Opening w done) (hdone : done <+: env.names 0) :
    Enrolled env w where
  some_of := by
    rw [h.joined, h.cycle]
    exact hdone
  all_of := fun hmem => absurd hmem h.unfinished

theorem Marking.enrolled {n : Nat} {done : List CStr} (h : Marking env w n done)
    (hdone : done <+: env.names (n + 1)) : Enrolled env w where
  some_of := by
    rw [h.joined, h.cycle]
    exact hdone.filter _
  all_of := fun hmem => absurd hmem h.unfinished

/-- Actions that register nobody and are not the END row. -/
theorem Enrolled.play {script : List Action} (h : Enrolled env w)
    (hscript : ∀ a ∈ script, a.registered? = none ∧ a ≠ .listNext endRow) : Enrolled env (w.play script) := by
  have hsame : registrations (w.play script).now = registrations w.now := by
    rw [World.now_play, registrations_append, registrations_nothing fun a ha => (hscript a ha).1,
      List.append_nil]
  constructor
  · rw [hsame, World.play_cycle]
    exact h.some_of
  · intro hmem
    rw [hsame, World.play_cycle]
    rw [World.now_play] at hmem
    rcases List.mem_append.mp hmem with hmem | hmem
    · exact h.all_of hmem
    · exact absurd rfl (hscript _ hmem).2

theorem Enrolled.housekeeping {script : List Action} (h : Enrolled env w)
    (hscript : ∀ a ∈ script, a.Housekeeping) : Enrolled env (w.play script) := by
  refine h.play fun a ha => ⟨(hscript a ha).registered, ?_⟩
  rintro rfl
  exact hscript _ ha

/-- All that had to be registered has been. -/
theorem Enrolled.complete {script : List Action} (hjoined : registrations w.now = arrivals env w.cycle)
    (hscript : registrations script = []) : Enrolled env (w.play script) := by
  have hall : registrations (w.play script).now = arrivals env (w.play script).cycle := by
    rw [World.now_play, registrations_append, hscript, List.append_nil, World.play_cycle, hjoined]
  exact ⟨by rw [hall], fun _ => hall⟩

end UpsdPlugin
