import UpsdPlugin.Steps
import Mathlib.Logic.Relation

/-! The steps of a run.

Every step of a run is a `Step` (`run_step`), so a property of all runs needs one case for
each (`run_invariant`). What a step does to the state is a sequence of moves, and a property of the
state alone needs one case for each of these (`run_moves`). -/
namespace UpsdPlugin
open Scripted
open Relation (ReflTransGen)

variable {env : Env}

/-! ### Moves -/

/-- What a step does to the state is a sequence of moves. Properties of the state and the
trace are shown move by move. -/
inductive Move (env : Env) : World → World → Prop where
  | tick (w : World) : Move env w w.tick
  | list (w : World) (answer : Option (List CStr)) : Move env w (w.act (.listNext answer))
  | flush (w : World) : Move env w (w.act .flush)
  | nameless (w : World) : Move env w (w.act (.register []))
  | register (w : World) (u : CStr) (hu : u ≠ []) :
      Move env w (w.play (registerScript env u w.dicts w.gets))
  | metrics (w : World) (u : CStr) (hu : u ∈ w.ndUpsName.keys) :
      Move env w (w.play (metricsDeed env u (env.dt w.cycle) (w.charts u) w.gets).actions)
  | unmark (w : World) (u : CStr) (hu : wasSeen w u = true) : Move env w (w.act (.setSeen u false))
  | drop (w : World) (u : CStr) : Move env w (w.play (dropScript w u))

theorem moves_register (w : World) (u : CStr) :
    ReflTransGen (Move env) w (w.play (registerDeed env u w.dicts w.gets).actions) := by
  unfold registerDeed
  split
  · next hnil =>
    subst hnil
    exact ReflTransGen.single (.nameless w)
  · next hu => exact ReflTransGen.single (.register w u hu)

theorem Registered.charts_self {w w' : World} {u : CStr} (hr : Registered env u w w') :
    w'.charts u = registeredCharts env u w.gets := by
  rw [World.charts, hr.get_vars, if_pos rfl]
  exact varsOf_values (registeredCharts_sublist env u w.gets)

theorem moves_collect (w : World) (u : CStr) :
    ReflTransGen (Move env) w (w.play (collectDeed env w (env.dt w.cycle) u).actions) := by
  rcases collectDeed_cases env w (env.dt w.cycle) u with ⟨hu, heq⟩ | ⟨-, hnil, heq⟩ | ⟨-, hnil, heq⟩
  · rw [heq]
    exact ReflTransGen.single (.metrics w u hu)
  · subst hnil
    rw [heq]
    exact ReflTransGen.single (.nameless w)
  · have hreg := play_registerScript env u w
    have hgets := World.play_gets w (registerScript env u w.dicts w.gets)
    have hcycle := World.play_cycle w (registerScript env u w.dicts w.gets)
    have hu : u ∈ (w.play (registerScript env u w.dicts w.gets)).ndUpsName.keys := by
      rw [hreg.name]
      exact OrderedDict.mem_keys_set.mpr (Or.inl rfl)
    have hmetrics : Move env _ _ := .metrics _ u hu
    rw [hreg.charts_self, hgets, hcycle] at hmetrics
    rw [heq]
    show ReflTransGen _ w (play World.act w (registerScript env u w.dicts w.gets ++ _))
    rw [play_append]
    exact (ReflTransGen.single (.register w u hnil)).tail hmetrics

theorem Step.moves {m m' : Machine} (hs : Step env m m') : ReflTransGen (Move env) m.world m'.world := by
  cases hs with
  | register w u rest complete =>
    exact (ReflTransGen.single (.list w (upsRow u))).trans (moves_register (w.act (.listNext (upsRow u))) u)
  | registered w => exact ReflTransGen.single (.list w endRow)
  | startupFails w => exact ReflTransGen.single (.list w none)
  | exit w h => exact ReflTransGen.single (.tick w)
  | refuseCycle w h hs => exact ReflTransGen.single (.tick w)
  | cycle w h hs => exact ReflTransGen.single (.tick w)
  | collect w u rest complete =>
    exact (ReflTransGen.single (.list w (upsRow u))).trans (moves_collect (w.act (.listNext (upsRow u))) u)
  | listed w => exact (ReflTransGen.single (.list w endRow)).tail (.flush _)
  | listingFails w => exact ReflTransGen.single (.list w none)
  | sweep w todo rest key h =>
    show ReflTransGen (Move env) w (w.play (sweepScript w (cleanName key)))
    unfold sweepScript
    split
    · next hseen => exact ReflTransGen.single (.unmark w _ hseen)
    · exact ReflTransGen.single (.drop w _)
  | clean w todo rest key h => exact ReflTransGen.single (.drop w _)
  | _ => exact ReflTransGen.refl

theorem Lockstep.move {w w' : World} (h : Lockstep w) (hm : Move env w w') : Lockstep w' := by
  cases hm with
  | register u hu => exact h.register hu (play_registerScript env u _)
  | metrics u hu => exact (h.setSeen hu true).same (play_metricsDeed env u _ _ _ _)
  | unmark u hu => exact h.setSeen (wasSeen_mem h hu) false
  | drop u => exact h.drop (play_dropScript _ u)
  | _ => exact h.of_eq rfl rfl rfl rfl rfl

/-- A property kept by moves is kept by a sequence of them. -/
theorem moves_keep {P : World → Prop} {w w' : World}
    (hs : ∀ w w', Lockstep w → P w → Move env w w' → P w') (hl : Lockstep w) (hw : P w)
    (h : ReflTransGen (Move env) w w') : Lockstep w' ∧ P w' := by
  induction h with
  | refl => exact ⟨hl, hw⟩
  | tail _ hm ih => exact ⟨ih.1.move hm, hs _ _ ih.1 ih.2 hm⟩

theorem Lockstep.step {m m' : Machine} (h : Lockstep m.world) (hs : Step env m m') :
    Lockstep m'.world :=
  (moves_keep (P := fun _ => True) (fun _ _ _ _ _ => trivial) h trivial hs.moves).1

theorem Listing.At.start (l : Listing) : l.At [] l.answers := ⟨l.names, rfl, rfl⟩

theorem upsRow_injective : Function.Injective upsRow := by
  intro u v h
  simpa [upsRow] using h

theorem listAnswers_inj {a b : List CStr} {c d : Bool} (h : listAnswers a c = listAnswers b d) :
    a = b ∧ c = d := by
  obtain ⟨hnames, hlast⟩ := List.append_inj' h rfl
  refine ⟨List.map_injective_iff.mpr upsRow_injective hnames, ?_⟩
  cases c <;> cases d <;> simp [endRow] at hlast ⊢

theorem Listing.At.next {l : Listing} {done rest : List CStr} {u : CStr} {complete : Bool}
    (h : l.At done (listAnswers (u :: rest) complete)) :
    l.At (done ++ [u]) (listAnswers rest complete) := by
  obtain ⟨rest', hnames, hanswers⟩ := h
  obtain ⟨rfl, rfl⟩ := listAnswers_inj hanswers
  exact ⟨rest, by rw [hnames, List.append_assoc]; rfl, rfl⟩

theorem goOn_cases (d : Deed) (pc : Pc) :
    (d.stop = none ∧ goOn d pc = pc) ∨ ∃ why, d.stop = some why ∧ goOn d pc = .stopped why := by
  unfold goOn
  cases d.stop with
  | none => exact Or.inl ⟨rfl, rfl⟩
  | some why => exact Or.inr ⟨why, rfl, rfl⟩

theorem afterListing_cases (env : Env) (w : World) :
    afterListing env w = .stopped .disable ∨ afterListing env w = .cleanup w.ndUpsName.keys ∨
      afterListing env w = .sweep w.ndUpsName.keys := by
  unfold afterListing
  split
  · exact Or.inl rfl
  · split
    · exact Or.inr (Or.inl rfl)
    · split
      · exact Or.inr (Or.inl rfl)
      · exact Or.inr (Or.inr rfl)

theorem Placed.step {m m' : Machine} (h : Placed env m) (hs : Step env m m') : Placed env m' := by
  cases hs with
  | start w hstart => exact ⟨[], Listing.At.start _⟩
  | register w u rest complete =>
    obtain ⟨done, hat⟩ := h
    rcases goOn_cases (registerDeed env u w.dicts w.gets) (.startup (listAnswers rest complete))
      with ⟨-, hpc⟩ | ⟨why, -, hpc⟩
    · rw [hpc]
      exact ⟨done ++ [u], hat.next⟩
    · rw [hpc]
      trivial
  | cycle w hexit hstart => exact ⟨[], Listing.At.start _⟩
  | collect w u rest complete =>
    obtain ⟨done, hat⟩ := h
    rcases goOn_cases (collectDeed env w (env.dt w.cycle) u) (.listing (listAnswers rest complete))
      with ⟨-, hpc⟩ | ⟨why, -, hpc⟩
    · rw [hpc]
      refine ⟨done ++ [u], ?_⟩
      rw [World.play_cycle]
      exact hat.next
    · rw [hpc]
      trivial
  | listed w =>
    rcases afterListing_cases env w with hpc | hpc | hpc <;> rw [hpc] <;> trivial
  | _ => trivial

/-- The dictionaries are in lockstep, and `main` is where it can be. -/
structure Sound (env : Env) (m : Machine) : Prop where
  lockstep : Lockstep m.world
  placed : Placed env m

theorem sound_run (env : Env) (t : Nat) : Sound env (run env t) := by
  refine run_induction env ⟨Lockstep.empty, trivial⟩ (fun m hm => ?_) t
  have hstep := step_refines m hm.lockstep hm.placed
  exact ⟨hm.lockstep.step hstep, hm.placed.step hstep⟩

/-- **Every step of a run is a `Step`.** -/
theorem run_step (env : Env) (t : Nat) : Step env (run env t) (run env (t + 1)) :=
  step_refines _ (sound_run env t).lockstep (sound_run env t).placed

/-- What holds at the start and is kept by every `Step` from a sound state holds throughout. -/
theorem run_invariant {P : Machine → Prop} (h0 : P {})
    (hs : ∀ m m', Sound env m → P m → Step env m m' → P m') (t : Nat) : P (run env t) := by
  induction t with
  | zero => exact h0
  | succ t ih => exact hs _ _ (sound_run env t) ih (run_step env t)

/-- What holds of the empty state and is kept by every move holds throughout. -/
theorem run_moves {P : World → Prop} (h0 : P {})
    (hs : ∀ w w', Lockstep w → P w → Move env w w' → P w') (t : Nat) : P (run env t).world :=
  run_invariant (P := fun m => P m.world) h0
    (fun _ _ hsound hm hstep => (moves_keep hs hsound.lockstep hm hstep.moves).2) t

/-! ### The step from each point of `main` -/

namespace Step
variable {m m' : Machine} {u : CStr} {rest todo : List CStr} {complete : Bool}

theorem at_start (hs : Step env m m') (hpc : m.pc = .start) :
    m' = bif env.init && env.connect1 && env.connect2 && (env.listing 0).started then
        ⟨.startup (env.listing 0).answers, m.world⟩
      else ⟨.stopped .disable, m.world⟩ := by
  cases hs with
  | refuse w h => rw [h]; rfl
  | start w h => rw [h]; rfl
  | _ => cases hpc

theorem startup_row (hs : Step env m m') (hpc : m.pc = .startup (listAnswers (u :: rest) complete)) :
    m' = ⟨goOn (registerDeed env u m.world.dicts m.world.gets) (.startup (listAnswers rest complete)),
      m.world.play (.listNext (upsRow u) :: (registerDeed env u m.world.dicts m.world.gets).actions)⟩ := by
  cases hs with
  | register w v rest' complete' =>
    obtain ⟨hnames, rfl⟩ := listAnswers_inj (Pc.startup.inj hpc)
    obtain ⟨rfl, rfl⟩ := List.cons.inj hnames
    rfl
  | registered w => exact nomatch (listAnswers_inj (Pc.startup.inj hpc)).1
  | startupFails w => exact nomatch (listAnswers_inj (Pc.startup.inj hpc)).1
  | _ => cases hpc

theorem startup_end (hs : Step env m m') (hpc : m.pc = .startup (listAnswers [] true)) :
    m' = ⟨.head, m.world.play [.listNext endRow]⟩ := by
  cases hs with
  | register w v rest' complete' => exact nomatch (listAnswers_inj (Pc.startup.inj hpc)).1
  | registered w => rfl
  | startupFails w => exact nomatch (listAnswers_inj (Pc.startup.inj hpc)).2
  | _ => cases hpc

theorem startup_fails (hs : Step env m m') (hpc : m.pc = .startup (listAnswers [] false)) :
    m' = ⟨.stopped .disable, m.world.play [.listNext none]⟩ := by
  cases hs with
  | register w v rest' complete' => exact nomatch (listAnswers_inj (Pc.startup.inj hpc)).1
  | registered w => exact nomatch (listAnswers_inj (Pc.startup.inj hpc)).2
  | startupFails w => rfl
  | _ => cases hpc

theorem at_head (hs : Step env m m') (hpc : m.pc = .head) :
    m' = bif env.exitBefore (m.world.cycle + 1) then ⟨.cleanup m.world.ndUpsName.keys, m.world.tick⟩
      else bif (env.listing (m.world.cycle + 1)).started then
        ⟨.listing (env.listing (m.world.cycle + 1)).answers, m.world.tick⟩
      else ⟨.stopped .disable, m.world.tick⟩ := by
  cases hs with
  | exit w h => simp only [h]; rfl
  | refuseCycle w h hs => simp only [h, hs]; rfl
  | cycle w h hs => simp only [h, hs]; rfl
  | _ => cases hpc

theorem listing_row (hs : Step env m m') (hpc : m.pc = .listing (listAnswers (u :: rest) complete)) :
    m' = ⟨goOn (collectDeed env m.world (env.dt m.world.cycle) u) (.listing (listAnswers rest complete)),
      m.world.play
        (.listNext (upsRow u) :: (collectDeed env m.world (env.dt m.world.cycle) u).actions)⟩ := by
  cases hs with
  | collect w v rest' complete' =>
    obtain ⟨hnames, rfl⟩ := listAnswers_inj (Pc.listing.inj hpc)
    obtain ⟨rfl, rfl⟩ := List.cons.inj hnames
    rfl
  | listed w => exact nomatch (listAnswers_inj (Pc.listing.inj hpc)).1
  | listingFails w => exact nomatch (listAnswers_inj (Pc.listing.inj hpc)).1
  | _ => cases hpc

theorem listing_end (hs : Step env m m') (hpc : m.pc = .listing (listAnswers [] true)) :
    m' = ⟨afterListing env m.world, m.world.play [.listNext endRow, .flush]⟩ := by
  cases hs with
  | collect w v rest' complete' => exact nomatch (listAnswers_inj (Pc.listing.inj hpc)).1
  | listed w => rfl
  | listingFails w => exact nomatch (listAnswers_inj (Pc.listing.inj hpc)).2
  | _ => cases hpc

theorem listing_fails (hs : Step env m m') (hpc : m.pc = .listing (listAnswers [] false)) :
    m' = ⟨.stopped .disable, m.world.play [.listNext none]⟩ := by
  cases hs with
  | collect w v rest' complete' => exact nomatch (listAnswers_inj (Pc.listing.inj hpc)).1
  | listed w => exact nomatch (listAnswers_inj (Pc.listing.inj hpc)).2
  | listingFails w => rfl
  | _ => cases hpc

theorem at_sweep (hs : Step env m m') (hpc : m.pc = .sweep todo) :
    (m.world.ndUpsName.next todo = none ∧ m' = ⟨.head, m.world⟩) ∨
      ∃ key rest, m.world.ndUpsName.next todo = some ((key, cleanName key), rest) ∧
        m' = ⟨.sweep rest, m.world.play (sweepScript m.world (cleanName key))⟩ := by
  cases hs with
  | sweep w todo' rest key h =>
    cases hpc
    exact Or.inr ⟨key, rest, h, rfl⟩
  | swept w todo' h =>
    cases hpc
    exact Or.inl ⟨h, rfl⟩
  | _ => cases hpc

theorem at_cleanup (hs : Step env m m') (hpc : m.pc = .cleanup todo) :
    (m.world.ndUpsName.next todo = none ∧ m' = ⟨.stopped .restart, m.world⟩) ∨
      ∃ key rest, m.world.ndUpsName.next todo = some ((key, cleanName key), rest) ∧
        m' = ⟨.cleanup rest, m.world.play (dropScript m.world (cleanName key))⟩ := by
  cases hs with
  | clean w todo' rest key h =>
    cases hpc
    exact Or.inr ⟨key, rest, h, rfl⟩
  | cleaned w todo' h =>
    cases hpc
    exact Or.inl ⟨h, rfl⟩
  | _ => cases hpc

theorem at_stopped {why : Stop} (hs : Step env m m') (hpc : m.pc = .stopped why) : m' = m := by
  cases hs with
  | stay why' w => rfl
  | _ => cases hpc

end Step

end UpsdPlugin
