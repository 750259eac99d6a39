import UpsdPlugin.Main
import UpsdPlugin.Bodies

/-! What a step of `main` can do.

`Step` lists the steps over values: the row of the listing that is taken, the script
that is performed, and where `main` goes on. A step from a state where `main` can be is one of
them (`step_refines`). -/
namespace UpsdPlugin
open Scripted

variable {env : Env}

/-- Where `main` goes on after a deed. -/
def goOn (d : Deed) (pc : Pc) : Pc :=
  match d.stop with
  | none => pc
  | some why => .stopped why

inductive Step (env : Env) : Machine → Machine → Prop where
  /-- Initialisation, the connections or the first LIST fail. -/
  | refuse (w : World)
      (h : (env.init && env.connect1 && env.connect2 && (env.listing 0).started) = false) :
      Step env ⟨.start, w⟩ ⟨.stopped .disable, w⟩
  | start (w : World)
      (h : (env.init && env.connect1 && env.connect2 && (env.listing 0).started) = true) :
      Step env ⟨.start, w⟩ ⟨.startup (env.listing 0).answers, w⟩
  /-- A row of the startup listing. -/
  | register (w : World) (u : CStr) (rest : List CStr) (complete : Bool) :
      Step env ⟨.startup (listAnswers (u :: rest) complete), w⟩
        ⟨goOn (registerDeed env u w.dicts w.gets) (.startup (listAnswers rest complete)),
          w.play (.listNext (upsRow u) :: (registerDeed env u w.dicts w.gets).actions)⟩
  | registered (w : World) :
      Step env ⟨.startup (listAnswers [] true), w⟩ ⟨.head, w.play [.listNext endRow]⟩
  | startupFails (w : World) :
      Step env ⟨.startup (listAnswers [] false), w⟩ ⟨.stopped .disable, w.play [.listNext none]⟩
  /-- The head of the collection loop: exit, fail to list, or begin a cycle. -/
  | exit (w : World) (h : env.exitBefore (w.cycle + 1) = true) :
      Step env ⟨.head, w⟩ ⟨.cleanup w.ndUpsName.keys, w.tick⟩
  | refuseCycle (w : World) (h : env.exitBefore (w.cycle + 1) = false)
      (hs : (env.listing (w.cycle + 1)).started = false) :
      Step env ⟨.head, w⟩ ⟨.stopped .disable, w.tick⟩
  | cycle (w : World) (h : env.exitBefore (w.cycle + 1) = false)
      (hs : (env.listing (w.cycle + 1)).started = true) :
      Step env ⟨.head, w⟩ ⟨.listing (env.listing (w.cycle + 1)).answers, w.tick⟩
  /-- A row of the listing of a cycle. -/
  | collect (w : World) (u : CStr) (rest : List CStr) (complete : Bool) :
      Step env ⟨.listing (listAnswers (u :: rest) complete), w⟩
        ⟨goOn (collectDeed env w (env.dt w.cycle) u) (.listing (listAnswers rest complete)),
          w.play (.listNext (upsRow u) :: (collectDeed env w (env.dt w.cycle) u).actions)⟩
  | listed (w : World) :
      Step env ⟨.listing (listAnswers [] true), w⟩
        ⟨afterListing env w, w.play [.listNext endRow, .flush]⟩
  | listingFails (w : World) :
      Step env ⟨.listing (listAnswers [] false), w⟩ ⟨.stopped .disable, w.play [.listNext none]⟩
  /-- An item of the sweep: the UPS that is looked at is the cleaned name. -/
  | sweep (w : World) (todo rest : List CStr) (key : CStr)
      (h : w.ndUpsName.next todo = some ((key, cleanName key), rest)) :
      Step env ⟨.sweep todo, w⟩ ⟨.sweep rest, w.play (sweepScript w (cleanName key))⟩
  | swept (w : World) (todo : List CStr) (h : w.ndUpsName.next todo = none) :
      Step env ⟨.sweep todo, w⟩ ⟨.head, w⟩
  /-- An item of the final cleanup. -/
  | clean (w : World) (todo rest : List CStr) (key : CStr)
      (h : w.ndUpsName.next todo = some ((key, cleanName key), rest)) :
      Step env ⟨.cleanup todo, w⟩ ⟨.cleanup rest, w.play (dropScript w (cleanName key))⟩
  | cleaned (w : World) (todo : List CStr) (h : w.ndUpsName.next todo = none) :
      Step env ⟨.cleanup todo, w⟩ ⟨.stopped .restart, w⟩
  | stay (why : Stop) (w : World) : Step env ⟨.stopped why, w⟩ ⟨.stopped why, w⟩

/-! ### The rows of a listing -/

/-- `answers` is what is left of the listing after the names `done`. -/
def Listing.At (l : Listing) (done : List CStr) (answers : List (Option (List CStr))) : Prop :=
  ∃ rest, l.names = done ++ rest ∧ answers = listAnswers rest l.complete

/-- Inside a listing, `main` is at some row of it. -/
def Placed (env : Env) (m : Machine) : Prop :=
  match m.pc with
  | .startup answers => ∃ done, (env.listing 0).At done answers
  | .listing answers => ∃ done, (env.listing m.world.cycle).At done answers
  | _ => True

/-- The word `answer[0][word]` of the answer just given. -/
theorem listNext_reads (w : World) (words : List CStr) (word : Nat) :
    Reads (w.act (.listNext (some words)))
      ⟨.ups1, word, ((w.act (.listNext (some words))).buf .ups1).stamp⟩ (words.getD word []) :=
  ⟨rfl, by simp [World.act, World.effect, World.answered]⟩

/-- `upscli_list_next` on a UPS row: the name is current from then on. -/
theorem listNext_upsRow (w : World) (u : CStr) :
    ∃ p, Lists (w.act (.listNext (upsRow u))) p u ∧
      Performs World.act (listNext (upsRow u)) w ⟨[.listNext (upsRow u)], none⟩ (some p) := by
  refine ⟨_, ⟨rfl, listNext_reads w ["UPS".toList, u] 1⟩, (perform_performs w _).cons ?_⟩
  refine get_performs ((deref_performs (listNext_reads w ["UPS".toList, u] 0)).read ?_)
  have hrow : ¬ ["UPS".toList, u].getD 0 [] = "END".toList := show ¬ "UPS".toList = "END".toList by decide
  rw [if_neg hrow]
  exact .pure _ _

theorem listNext_endRow (w : World) :
    Performs World.act (listNext endRow) w ⟨[.listNext endRow], none⟩ none := by
  refine (perform_performs w _).cons ?_
  refine get_performs ((deref_performs (listNext_reads w ["END".toList, "LIST".toList, "UPS".toList] 0)).read ?_)
  rw [if_pos (by decide)]
  exact .pure _ _

theorem listNext_none (w : World) :
    Performs World.act (listNext none) w ⟨[.listNext none], some .disable⟩ none :=
  (perform_performs w _).cons ((Performs.throw _ _ ()).bind (e := ⟨[], none⟩) (by rintro ⟨⟩))

/-! ### The steps of a run -/

theorem exec_performs {α : Type} {w : World} {body : Plugin α} {next : α → World → Pc} {d : Deed} {a : α}
    (h : Performs World.act body w d a) :
    Machine.exec w body next = ⟨goOn d (next a (w.play d.actions)), w.play d.actions⟩ := by
  unfold Performs at h
  unfold Machine.exec goOn
  rw [h]
  cases d.stop <;> rfl

theorem startupRow_upsRow (w : World) (u : CStr) :
    Performs World.act (startupRow env (upsRow u)) w
      ⟨.listNext (upsRow u) :: (registerDeed env u w.dicts w.gets).actions,
        (registerDeed env u w.dicts w.gets).stop⟩ true := by
  obtain ⟨p, hlists, hnext⟩ := listNext_upsRow w u
  exact hnext.cons ((registerUps_performs hlists).returning true)

theorem startupRow_endRow (w : World) :
    Performs World.act (startupRow env endRow) w ⟨[.listNext endRow], none⟩ false :=
  (listNext_endRow w).cons (.pure _ _)

theorem startupRow_none (w : World) :
    Performs World.act (startupRow env none) w ⟨[.listNext none], some .disable⟩ false :=
  (listNext_none w).bind (e := ⟨[], none⟩) (by rintro ⟨⟩)

theorem listingRow_upsRow {w : World} (hl : Lockstep w) (dt : Nat) (u : CStr) :
    Performs World.act (listingRow env dt (upsRow u)) w
      ⟨.listNext (upsRow u) :: (collectDeed env w dt u).actions, (collectDeed env w dt u).stop⟩ true := by
  obtain ⟨p, hlists, hnext⟩ := listNext_upsRow w u
  have hl' : Lockstep (w.act (.listNext (upsRow u))) := hl.of_eq rfl rfl rfl rfl rfl
  exact hnext.cons ((collectUps_performs hl' hlists dt).returning true)

theorem listingRow_endRow (w : World) (dt : Nat) :
    Performs World.act (listingRow env dt endRow) w ⟨[.listNext endRow, .flush], none⟩ false :=
  (listNext_endRow w).cons ((perform_performs _ _).cons (.pure _ _))

theorem listingRow_none (w : World) (dt : Nat) :
    Performs World.act (listingRow env dt none) w ⟨[.listNext none], some .disable⟩ false :=
  (listNext_none w).bind (e := ⟨[], none⟩) (by rintro ⟨⟩)

theorem step_startup_cons (w : World) (answer : Option (List CStr)) (rest : List (Option (List CStr))) :
    step env ⟨.startup (answer :: rest), w⟩ =
      .exec w (startupRow env answer) fun more _ => if more then .startup rest else .head :=
  rfl

theorem step_listing_cons (w : World) (answer : Option (List CStr)) (rest : List (Option (List CStr))) :
    step env ⟨.listing (answer :: rest), w⟩ =
      .exec w (listingRow env (env.dt w.cycle) answer) fun more w =>
        if more then .listing rest else afterListing env w :=
  rfl

theorem step_startup (w : World) (names : List CStr) (complete : Bool) :
    Step env ⟨.startup (listAnswers names complete), w⟩
      (step env ⟨.startup (listAnswers names complete), w⟩) := by
  cases names with
  | cons u rest =>
    have hrows : listAnswers (u :: rest) complete = upsRow u :: listAnswers rest complete := rfl
    have hstep : Step env _ _ := Step.register w u rest complete
    rw [hrows] at hstep ⊢
    rw [step_startup_cons, exec_performs (startupRow_upsRow w u)]
    exact hstep
  | nil =>
    cases complete with
    | true =>
      have hrows : listAnswers [] true = [endRow] := rfl
      have hstep : Step env _ _ := Step.registered w
      rw [hrows] at hstep ⊢
      rw [step_startup_cons, exec_performs (startupRow_endRow w)]
      exact hstep
    | false =>
      have hrows : listAnswers [] false = [none] := rfl
      have hstep : Step env _ _ := Step.startupFails w
      rw [hrows] at hstep ⊢
      rw [step_startup_cons, exec_performs (startupRow_none w)]
      exact hstep

theorem step_listing {w : World} (hl : Lockstep w) (names : List CStr) (complete : Bool) :
    Step env ⟨.listing (listAnswers names complete), w⟩
      (step env ⟨.listing (listAnswers names complete), w⟩) := by
  cases names with
  | cons u rest =>
    have hrows : listAnswers (u :: rest) complete = upsRow u :: listAnswers rest complete := rfl
    have hstep : Step env _ _ := Step.collect w u rest complete
    rw [hrows] at hstep ⊢
    rw [step_listing_cons, exec_performs (listingRow_upsRow hl _ u)]
    exact hstep
  | nil =>
    cases complete with
    | true =>
      have hrows : listAnswers [] true = [endRow] := rfl
      have hstep : Step env _ _ := Step.listed w
      rw [hrows] at hstep ⊢
      rw [step_listing_cons, exec_performs (listingRow_endRow w _)]
      exact hstep
    | false =>
      have hrows : listAnswers [] false = [none] := rfl
      have hstep : Step env _ _ := Step.listingFails w
      rw [hrows] at hstep ⊢
      rw [step_listing_cons, exec_performs (listingRow_none w _)]
      exact hstep

theorem step_sweep {w : World} (hl : Lockstep w) (todo : List CStr) :
    Step env ⟨.sweep todo, w⟩ (step env ⟨.sweep todo, w⟩) := by
  unfold step
  cases hnext : w.ndUpsName.next todo with
  | none =>
    simp only [hnext]
    exact Step.swept w todo hnext
  | some item =>
    obtain ⟨⟨key, v⟩, rest⟩ := item
    obtain rfl := hl.clean key v (OrderedDict.next_eq_some hnext).1
    simp only [hnext, exec_performs (sweepUps_performs hl (cleanName key))]
    exact Step.sweep w todo rest key hnext

theorem step_cleanup {w : World} (hl : Lockstep w) (todo : List CStr) :
    Step env ⟨.cleanup todo, w⟩ (step env ⟨.cleanup todo, w⟩) := by
  unfold step
  cases hnext : w.ndUpsName.next todo with
  | none =>
    simp only [hnext]
    exact Step.cleaned w todo hnext
  | some item =>
    obtain ⟨⟨key, v⟩, rest⟩ := item
    obtain rfl := hl.clean key v (OrderedDict.next_eq_some hnext).1
    simp only [hnext, exec_performs (dropUps_performs hl (cleanName key))]
    exact Step.clean w todo rest key hnext

/-- `Step` says what every step does. -/
theorem step_refines (m : Machine) (hl : Lockstep m.world) (hp : Placed env m) :
    Step env m (step env m) := by
  obtain ⟨pc, w⟩ := m
  cases pc with
  | start =>
    cases h : env.init && env.connect1 && env.connect2 && (env.listing 0).started with
    | false =>
      have hstep : step env ⟨.start, w⟩ = ⟨.stopped .disable, w⟩ := if_pos (by revert h; grind)
      exact hstep ▸ Step.refuse w h
    | true =>
      have hstep : step env ⟨.start, w⟩ = ⟨.startup (env.listing 0).answers, w⟩ :=
        if_neg (by revert h; grind)
      exact hstep ▸ Step.start w h
  | startup answers =>
    obtain ⟨done, rest, -, rfl⟩ := hp
    exact step_startup w rest _
  | head =>
    cases h : env.exitBefore (w.cycle + 1) with
    | true =>
      have hstep : step env ⟨.head, w⟩ = ⟨.cleanup w.ndUpsName.keys, w.tick⟩ := if_pos h
      exact hstep ▸ Step.exit w h
    | false =>
      cases hs : (env.listing (w.cycle + 1)).started with
      | false =>
        have hstep : step env ⟨.head, w⟩ = ⟨.stopped .disable, w.tick⟩ := by
          simp [step, World.tick, h, hs]
        exact hstep ▸ Step.refuseCycle w h hs
      | true =>
        have hstep : step env ⟨.head, w⟩ = ⟨.listing (env.listing (w.cycle + 1)).answers, w.tick⟩ := by
          simp [step, World.tick, h, hs]
        exact hstep ▸ Step.cycle w h hs
  | listing answers =>
    obtain ⟨done, rest, -, hanswers⟩ := hp
    rw [hanswers]
    exact step_listing hl rest _
  | sweep todo => exact step_sweep hl todo
  | cleanup todo => exact step_cleanup hl todo
  | stopped why => exact Step.stay why w

end UpsdPlugin
