import UpsdPlugin.Moves
import UpsdPlugin.Lib.Past

/-! Collection cycles.

Every event carries the cycle it happened in, so a trace falls into cycles
(`cycleOf`). A step only adds to the cycle it ends in (`Step.acts`). A cycle is
complete when its output has been flushed: it was then at the END row of its
listing (`flush_step`), and nothing is queried, printed or registered in it any more
(`cycle_closed`). -/
namespace UpsdPlugin
open Scripted

variable {env : Env} {w : World} {u : CStr}

/-- The actions of a cycle. -/
def cycleOf (n : Nat) (trace : List Event) : List Action :=
  (trace.filter fun e => e.cycle = n).map Event.action

theorem cycleOf_append (n : Nat) (a b : List Event) : cycleOf n (a ++ b) = cycleOf n a ++ cycleOf n b := by
  rw [cycleOf, List.filter_append, List.map_append]
  rfl

theorem cycleOf_script (n : Nat) (script : List Action) : cycleOf n (script.map (Event.mk n)) = script := by
  have hall : (script.map (Event.mk n)).filter (fun e => e.cycle = n) = script.map (Event.mk n) := by
    rw [List.filter_eq_self]
    intro e he
    obtain ⟨a, -, rfl⟩ := List.mem_map.mp he
    exact decide_eq_true rfl
  rw [cycleOf, hall, List.map_map]
  exact List.map_id script

theorem cycleOf_script_ne {n k : Nat} (h : k ≠ n) (script : List Action) :
    cycleOf n (script.map (Event.mk k)) = [] := by
  have hnone : (script.map (Event.mk k)).filter (fun e => e.cycle = n) = [] := by
    rw [List.filter_eq_nil_iff]
    intro e he
    obtain ⟨a, -, rfl⟩ := List.mem_map.mp he
    simpa using h
  rw [cycleOf, hnone]
  rfl

theorem mem_cycleOf {n : Nat} {trace : List Event} {a : Action} : a ∈ cycleOf n trace ↔ ⟨n, a⟩ ∈ trace := by
  simp only [cycleOf, List.mem_map, List.mem_filter, decide_eq_true_eq]
  constructor
  · intro h
    obtain ⟨⟨m, b⟩, ⟨he, rfl⟩, rfl⟩ := h
    exact he
  · intro h
    exact ⟨⟨n, a⟩, ⟨h, rfl⟩, rfl⟩

/-! ### The current cycle -/

namespace World

/-- The actions of the current cycle, so far. -/
def now (w : World) : List Action := cycleOf w.cycle w.trace

theorem now_play (w : World) (script : List Action) : (w.play script).now = w.now ++ script := by
  rw [now, play_cycle, play_trace, cycleOf_append, cycleOf_script]
  rfl

end World

/-- Nothing is recorded for a cycle to come. -/
def Dated (w : World) : Prop := ∀ e ∈ w.trace, e.cycle ≤ w.cycle

theorem Dated.play (h : Dated w) (script : List Action) : Dated (w.play script) := by
  intro e he
  rw [World.play_cycle]
  rw [World.play_trace] at he
  rcases List.mem_append.mp he with he | he
  · exact h e he
  · obtain ⟨a, -, rfl⟩ := List.mem_map.mp he
    exact le_rfl

theorem Dated.tick (h : Dated w) : Dated w.tick := fun e he => (h e he).trans (Nat.le_succ _)

theorem Dated.cycleOf_later (h : Dated w) {n : Nat} (hn : w.cycle < n) : cycleOf n w.trace = [] := by
  rw [List.eq_nil_iff_forall_not_mem]
  intro a ha
  have hle := h _ (mem_cycleOf.mp ha)
  exact absurd hle (Nat.not_le.mpr hn)

/-- A new cycle begins empty. -/
theorem Dated.now_tick (h : Dated w) : w.tick.now = [] := h.cycleOf_later (Nat.lt_succ_self _)

theorem dated_run (env : Env) (t : Nat) : Dated (run env t).world := by
  refine run_moves (fun _ he => nomatch he) (fun w w' _ hw hm => ?_) t
  cases hm with
  | tick => exact hw.tick
  | list answer => exact hw.play [.listNext answer]
  | flush => exact hw.play [.flush]
  | nameless => exact hw.play [.register []]
  | register u hu => exact hw.play _
  | metrics u hu => exact hw.play _
  | unmark u hu => exact hw.play [.setSeen u false]
  | drop u => exact hw.play _

/-! ### What a step adds -/

theorem registerDeed_cases {id k : Nat} {a : Action} (h : a ∈ (registerDeed env u id k).actions) :
    a = .register u ∨ a = .setName u (cleanName u) ∨ a = .create id ∨
      a = .setVars u ⟨id, varsOf (registeredCharts env u k)⟩ ∨ Announces env u a := by
  unfold registerDeed at h
  split at h
  · exact Or.inl (List.mem_singleton.mp h)
  · exact registerScript_cases env u h

theorem collectDeed_mem {dt : Nat} {a : Action} (h : a ∈ (collectDeed env w dt u).actions) :
    (u ∉ w.ndUpsName.keys ∧ a ∈ (registerDeed env u w.dicts w.gets).actions) ∨
      a = .setSeen u true ∨ Collects env u dt a := by
  unfold collectDeed at h
  split at h
  · exact Or.inr (metricsDeed_mem env u h)
  · next hu =>
    rcases (registerDeed env u w.dicts w.gets).andThen_cases
        (metricsDeed env u dt (registeredCharts env u w.gets) _) with ⟨-, heq⟩ | ⟨-, heq⟩
    · rw [heq] at h
      exact Or.inl ⟨hu, h⟩
    · rw [heq] at h
      rcases List.mem_append.mp h with h | h
      · exact Or.inl ⟨hu, h⟩
      · exact Or.inr (metricsDeed_mem env u h)

theorem registerDeed_not_flush {id k : Nat} {a : Action} (h : a ∈ (registerDeed env u id k).actions) :
    a ≠ .flush := by
  rintro rfl
  rcases registerDeed_cases h with h | h | h | h | h <;> cases h

theorem collectDeed_not_flush {dt : Nat} {a : Action} (h : a ∈ (collectDeed env w dt u).actions) :
    a ≠ .flush := by
  rcases collectDeed_mem h with h | h | h
  · exact registerDeed_not_flush h.2
  · rintro rfl
    cases h
  · rintro rfl
    cases h

/-- The actions of the sweep and of the final cleanup. -/
def Action.Housekeeping : Action → Prop
  | .setSeen .. | .delName _ | .delVars _ | .delSeen _ | .destroy _ => True
  | _ => False

theorem dropScript_housekeeping {a : Action} (h : a ∈ dropScript w u) : a.Housekeeping := by
  rcases dropScript_cases h with ⟨vars, -, rfl⟩ | rfl | rfl | rfl <;> trivial

theorem sweepScript_housekeeping {a : Action} (h : a ∈ sweepScript w u) : a.Housekeeping := by
  unfold sweepScript at h
  split at h
  · rw [List.mem_singleton.mp h]
    trivial
  · exact dropScript_housekeeping h

theorem Action.Housekeeping.not_flush {a : Action} (h : a.Housekeeping) : a ≠ .flush := by
  rintro rfl
  exact h

/-- A step adds to the cycle it ends in, and flushes only at the END row of a listing. -/
theorem Step.acts {m m' : Machine} (hs : Step env m m') :
    ∃ script, m'.world.trace = m.world.trace ++ script.map (Event.mk m'.world.cycle) ∧
      m.world.cycle ≤ m'.world.cycle ∧
      ((m.pc = .listing (listAnswers [] true) ∧ m'.world.cycle = m.world.cycle ∧
          script = [.listNext endRow, .flush]) ∨
        ∀ a ∈ script, a ≠ .flush) := by
  have hplay : ∀ w script, (World.play w script).trace =
      w.trace ++ script.map (Event.mk (World.play w script).cycle) ∧ w.cycle ≤ (World.play w script).cycle := by
    intro w script
    rw [World.play_cycle, World.play_trace]
    exact ⟨rfl, le_rfl⟩
  cases hs with
  | register w u rest complete =>
    refine ⟨_, (hplay w _).1, (hplay w _).2, Or.inr (List.forall_mem_cons.mpr ⟨nofun, ?_⟩)⟩
    exact fun a ha => registerDeed_not_flush ha
  | registered w => exact ⟨_, (hplay w _).1, (hplay w _).2, Or.inr (List.forall_mem_singleton.mpr nofun)⟩
  | startupFails w => exact ⟨_, (hplay w _).1, (hplay w _).2, Or.inr (List.forall_mem_singleton.mpr nofun)⟩
  | collect w u rest complete =>
    refine ⟨_, (hplay w _).1, (hplay w _).2, Or.inr (List.forall_mem_cons.mpr ⟨nofun, ?_⟩)⟩
    exact fun a ha => collectDeed_not_flush ha
  | listed w => exact ⟨_, (hplay w _).1, (hplay w _).2, Or.inl ⟨rfl, World.play_cycle w _, rfl⟩⟩
  | listingFails w => exact ⟨_, (hplay w _).1, (hplay w _).2, Or.inr (List.forall_mem_singleton.mpr nofun)⟩
  | sweep w todo rest key h =>
    exact ⟨_, (hplay w _).1, (hplay w _).2, Or.inr fun a ha => (sweepScript_housekeeping ha).not_flush⟩
  | clean w todo rest key h =>
    exact ⟨_, (hplay w _).1, (hplay w _).2, Or.inr fun a ha => (dropScript_housekeeping ha).not_flush⟩
  | exit w h => exact ⟨[], by simp [World.tick], Nat.le_succ _, Or.inr (List.forall_mem_nil _)⟩
  | refuseCycle w h hs => exact ⟨[], by simp [World.tick], Nat.le_succ _, Or.inr (List.forall_mem_nil _)⟩
  | cycle w h hs => exact ⟨[], by simp [World.tick], Nat.le_succ _, Or.inr (List.forall_mem_nil _)⟩
  | _ => exact ⟨[], by simp, le_rfl, Or.inr (List.forall_mem_nil _)⟩

/-- The cycle only changes at the head of the collection loop. -/
theorem Step.cycle_cases {m m' : Machine} (hs : Step env m m') :
    m'.world.cycle = m.world.cycle ∨ m.pc = .head ∧ m'.world = m.world.tick := by
  cases hs with
  | exit w h => exact Or.inr ⟨rfl, rfl⟩
  | refuseCycle w h hs => exact Or.inr ⟨rfl, rfl⟩
  | cycle w h hs => exact Or.inr ⟨rfl, rfl⟩
  | _ => first | exact Or.inl rfl | exact Or.inl (World.play_cycle _ _)

/-! ### Complete cycles -/

/-- A cycle that is over ended at the head of the collection loop. -/
theorem cycle_ended {t n : Nat} (h : n < (run env t).world.cycle) :
    ∃ s < t, (run env s).pc = .head ∧ (run env s).world.cycle = n ∧
      cycleOf n (run env t).world.trace = (run env s).world.now := by
  induction t with
  | zero => exact absurd h (Nat.not_lt_zero n)
  | succ t ih =>
    obtain ⟨script, htrace, hle, -⟩ := (run_step env t).acts
    rcases Nat.lt_or_ge n (run env t).world.cycle with hlt | hge
    · obtain ⟨s, hs, hpc, hcycle, heq⟩ := ih hlt
      refine ⟨s, Nat.lt_succ_of_lt hs, hpc, hcycle, ?_⟩
      rw [htrace, cycleOf_append, cycleOf_script_ne (by omega), List.append_nil, heq]
    · rcases (run_step env t).cycle_cases with hcycle | ⟨hpc, hworld⟩
      · omega
      · have hn : (run env t).world.cycle = n := by
          rw [hworld] at h
          simp only [World.tick] at h
          omega
        refine ⟨t, Nat.lt_succ_self t, hpc, hn, ?_⟩
        rw [hworld, World.now, hn]
        rfl

/-- Where a flush is recorded, the run was at the END row of a listing. -/
theorem flush_step {t n : Nat} {pre post : List Event}
    (h : (run env t).world.trace = pre ++ ⟨n, .flush⟩ :: post) :
    ∃ s < t, (run env s).pc = .listing (listAnswers [] true) ∧ (run env s).world.cycle = n ∧
      pre = (run env s).world.trace ++ [⟨n, .listNext endRow⟩] := by
  induction t generalizing post with
  | zero =>
    have hnil : ([] : List Event) = pre ++ ⟨n, .flush⟩ :: post := h
    simp at hnil
  | succ t ih =>
    obtain ⟨script, htrace, -, hscript⟩ := (run_step env t).acts
    rw [htrace] at h
    rcases Trace.split_append h with ⟨mid, hbefore, -⟩ | ⟨front, hpre, hevents⟩
    · obtain ⟨s, hs, hrest⟩ := ih hbefore
      exact ⟨s, Nat.lt_succ_of_lt hs, hrest⟩
    · rcases hscript with ⟨hpc, hcycle, rfl⟩ | hnone
      · rw [hcycle] at hevents
        rcases front with _ | ⟨e, _ | ⟨e', front⟩⟩
        · simp at hevents
        · obtain ⟨rfl, hflush⟩ := List.cons.inj hevents
          obtain ⟨hn, -⟩ := Event.mk.inj (List.cons.inj hflush).1
          exact ⟨t, Nat.lt_succ_self t, hpc, hn, by rw [hpre, hn]⟩
        · simp at hevents
      · have hmem : (⟨n, .flush⟩ : Event) ∈ script.map (Event.mk (run env (t + 1)).world.cycle) := by
          rw [hevents]
          simp
        obtain ⟨a, ha, heq⟩ := List.mem_map.mp hmem
        obtain ⟨-, rfl⟩ := Event.mk.inj heq
        exact absurd rfl (hnone _ ha)

/-- The listing of the current cycle is over. -/
def Listed : Pc → Prop
  | .head | .sweep _ | .cleanup _ | .stopped _ => True
  | _ => False

/-- After the listing of a cycle, only the sweep and the final cleanup add to the cycle. -/
theorem Step.closed {m m' : Machine} (hs : Step env m m') {n : Nat}
    (h : n < m.world.cycle ∨ m.world.cycle = n ∧ Listed m.pc) :
    (n < m'.world.cycle ∨ m'.world.cycle = n ∧ Listed m'.pc) ∧
      ∃ rest, cycleOf n m'.world.trace = cycleOf n m.world.trace ++ rest ∧ ∀ a ∈ rest, a.Housekeeping := by
  rcases h with h | ⟨hcycle, hpc⟩
  · obtain ⟨script, htrace, hle, -⟩ := hs.acts
    refine ⟨Or.inl (h.trans_le hle), [], ?_, List.forall_mem_nil _⟩
    rw [htrace, cycleOf_append, cycleOf_script_ne (h.trans_le hle).ne']
  · subst hcycle
    have hplay : ∀ w script, (∀ a ∈ script, Action.Housekeeping a) →
        ∃ rest, cycleOf w.cycle (World.play w script).trace = cycleOf w.cycle w.trace ++ rest ∧
          ∀ a ∈ rest, a.Housekeeping := by
      intro w script hscript
      refine ⟨script, ?_, hscript⟩
      have hnow := World.now_play w script
      rwa [World.now, World.play_cycle] at hnow
    have hsame : ∀ w : World, ∃ rest, cycleOf w.cycle w.trace = cycleOf w.cycle w.trace ++ rest ∧
        ∀ a ∈ rest, a.Housekeeping := fun w => ⟨[], (List.append_nil _).symm, List.forall_mem_nil _⟩
    cases hs with
    | exit w h => exact ⟨Or.inl (Nat.lt_succ_self _), hsame w⟩
    | refuseCycle w h hs => exact ⟨Or.inl (Nat.lt_succ_self _), hsame w⟩
    | cycle w h hs => exact ⟨Or.inl (Nat.lt_succ_self _), hsame w⟩
    | sweep w todo rest key h =>
      exact ⟨Or.inr ⟨World.play_cycle w _, trivial⟩, hplay w _ fun a ha => sweepScript_housekeeping ha⟩
    | clean w todo rest key h =>
      exact ⟨Or.inr ⟨World.play_cycle w _, trivial⟩, hplay w _ fun a ha => dropScript_housekeeping ha⟩
    | swept w todo h => exact ⟨Or.inr ⟨rfl, trivial⟩, hsame w⟩
    | cleaned w todo h => exact ⟨Or.inr ⟨rfl, trivial⟩, hsame w⟩
    | stay why w => exact ⟨Or.inr ⟨rfl, trivial⟩, hsame w⟩
    | _ => exact absurd hpc not_false

theorem afterListing_listed (env : Env) (w : World) : Listed (afterListing env w) := by
  rcases afterListing_cases env w with h | h | h <;> rw [h] <;> trivial

/-- What is added to a cycle once its listing is over. -/
theorem cycle_closed {s t : Nat} (hpc : (run env s).pc = .listing (listAnswers [] true)) (hst : s < t) :
    ∃ rest, cycleOf (run env s).world.cycle (run env t).world.trace =
        (run env s).world.now ++ [.listNext endRow, .flush] ++ rest ∧ ∀ a ∈ rest, a.Housekeeping := by
  have hclosed : ∀ k, ((run env s).world.cycle < (run env (s + 1 + k)).world.cycle ∨
      (run env (s + 1 + k)).world.cycle = (run env s).world.cycle ∧ Listed (run env (s + 1 + k)).pc) ∧
      ∃ rest, cycleOf (run env s).world.cycle (run env (s + 1 + k)).world.trace =
        (run env s).world.now ++ [.listNext endRow, .flush] ++ rest ∧ ∀ a ∈ rest, a.Housekeeping := by
    intro k
    induction k with
    | zero =>
      have hnext := (run_step env s).listing_end hpc
      rw [Nat.add_zero, hnext]
      refine ⟨Or.inr ⟨World.play_cycle _ _, afterListing_listed env _⟩, [], ?_, List.forall_mem_nil _⟩
      have hnow := World.now_play (run env s).world [.listNext endRow, .flush]
      rwa [World.now, World.play_cycle, ← List.append_nil (_ ++ _)] at hnow
    | succ k ih =>
      obtain ⟨hphase, rest, heq, hrest⟩ := ih
      obtain ⟨hphase', more, heq', hmore⟩ := (run_step env (s + 1 + k)).closed hphase
      refine ⟨hphase', rest ++ more, ?_, List.forall_mem_append.mpr ⟨hrest, hmore⟩⟩
      rw [← List.append_assoc, ← heq]
      exact heq'
  obtain ⟨k, rfl⟩ := Nat.exists_eq_add_of_le (Nat.succ_le_of_lt hst)
  exact (hclosed k).2

end UpsdPlugin
