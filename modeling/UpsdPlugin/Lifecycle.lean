import UpsdPlugin.Roster

/-! The life of a UPS: registered when it appears in the listing, dropped when it leaves.

Every step of an orderly run keeps the roster (`life_run`). When the names of the listings are
clean, no dictionary is lost on the way either: each one that has been created and not destroyed
belongs to a registered UPS, and the final cleanup leaves none (`disposal_run`). -/
namespace UpsdPlugin

variable {env : Env} {w w' : World} {u : CStr}

/-! ### Every step of an orderly run -/

/-- The roster is kept, and the cycle registers what it has to. -/
structure Life (env : Env) (m : Machine) : Prop where
  roster : Roster env m
  enrolled : Enrolled env m.world

theorem Life.stopped {why : Stop} (h : Enrolled env w) : Life env ⟨.stopped why, w⟩ := ⟨trivial, h⟩

/-- What the rows so far are a prefix of. -/
theorem Listing.At.isPrefix {l : Listing} {done : List CStr} {answers : List (Option (List CStr))}
    (h : l.At done answers) : done <+: l.names := by
  obtain ⟨rest, hnames, -⟩ := h
  exact ⟨rest, hnames.symm⟩

/-- At the END row, all the rows have come. -/
theorem Listing.At.all {l : Listing} {done : List CStr} {complete : Bool}
    (h : l.At done (listAnswers [] complete)) : done = l.names := by
  obtain ⟨rest, hnames, hrest⟩ := h
  obtain ⟨rfl, -⟩ := listAnswers_inj hrest
  simpa using hnames.symm

theorem Listing.At.fresh {l : Listing} {done rest : List CStr} {complete : Bool}
    (h : l.At done (listAnswers (u :: rest) complete)) (hnodup : l.names.Nodup) :
    u ∈ l.names ∧ u ∉ done := by
  obtain ⟨rest', hnames, hrest⟩ := h
  obtain ⟨rfl, -⟩ := listAnswers_inj hrest
  rw [hnames] at hnodup ⊢
  refine ⟨by simp, fun hmem => ?_⟩
  exact (List.nodup_append.mp hnodup).2.2 u hmem u (by simp) rfl

section Steps
variable {rest : List CStr} {complete : Bool}

/-- A row of the startup listing. -/
theorem Life.register (h : Life env ⟨.startup (listAnswers (u :: rest) complete), w⟩)
    (hnodup : (env.names 0).Nodup) (hnamed : ∀ v ∈ env.names 0, v ≠ []) :
    Life env ⟨goOn (registerDeed env u w.dicts w.gets) (.startup (listAnswers rest complete)),
      w.play (.listNext (upsRow u) :: (registerDeed env u w.dicts w.gets).actions)⟩ := by
  obtain ⟨done, hat, hopen⟩ := h.roster
  have hu : u ≠ [] := hnamed u (hat.fresh hnodup).1
  have hgo : goOn (registerDeed env u w.dicts w.gets) (.startup (listAnswers rest complete)) =
      .startup (listAnswers rest complete) := by
    rw [registerDeed, if_neg hu]
    rfl
  have hopen' := hopen.register env hu
  rw [hgo]
  exact ⟨⟨done ++ [u], hat.next, hopen'⟩, hopen'.enrolled hat.next.isPrefix⟩

/-- A row of the listing of a cycle. -/
theorem Life.collect (h : Life env ⟨.listing (listAnswers (u :: rest) complete), w⟩)
    (hnodup : ∀ n, (env.names n).Nodup) (hnamed : ∀ n, ∀ v ∈ env.names n, v ≠ []) :
    Life env ⟨goOn (collectDeed env w (env.dt w.cycle) u) (.listing (listAnswers rest complete)),
      w.play (.listNext (upsRow u) :: (collectDeed env w (env.dt w.cycle) u).actions)⟩ := by
  obtain ⟨n, done, hat, hmark⟩ := h.roster
  obtain ⟨hmem, hfresh⟩ := hat.fresh (hnodup (n + 1))
  have hmark' := hmark.collect (hnamed (n + 1) u hmem) hfresh (env.dt w.cycle)
  have henrolled := hmark'.enrolled hat.next.isPrefix
  rcases goOn_cases (collectDeed env w (env.dt w.cycle) u) (.listing (listAnswers rest complete))
    with ⟨-, hpc⟩ | ⟨why, -, hpc⟩
  · rw [hpc]
    exact ⟨⟨n, done ++ [u], hat.next, hmark'⟩, henrolled⟩
  · rw [hpc]
    exact Life.stopped henrolled

/-- The END row of the listing of a cycle. -/
theorem Life.listed (h : Life env ⟨.listing (listAnswers [] true), w⟩) :
    Life env ⟨afterListing env w, w.play [.listNext endRow, .flush]⟩ := by
  obtain ⟨n, done, hat, hmark⟩ := h.roster
  obtain rfl := hat.all
  have hjoined : registrations w.now = arrivals env w.cycle := by
    rw [hmark.joined, hmark.cycle]
    rfl
  refine ⟨?_, Enrolled.complete hjoined rfl⟩
  rcases afterListing_cases env w with hpc | hpc | hpc
  · rw [hpc]
    trivial
  · rw [hpc]
    trivial
  · rw [hpc]
    exact ⟨n, hmark.clearing⟩

end Steps

theorem Life.step {m m' : Machine} (h : Life env m) (hl : Lockstep m.world) (hd : Dated m.world)
    (hnodup : ∀ n, (env.names n).Nodup) (hnamed : ∀ n, ∀ v ∈ env.names n, v ≠ [])
    (htidy : ∀ n todo, m.pc = .sweep todo → m.world.cycle = n + 1 → TidyListings env n)
    (hs : Step env m m') : Life env m' := by
  cases hs with
  | refuse w hstart => exact Life.stopped h.enrolled
  | start w hstart =>
    obtain rfl : w = {} := h.roster
    exact ⟨⟨[], Listing.At.start _, rfl, fun _ => Iff.rfl, fun _ => rfl, rfl, List.not_mem_nil⟩, h.enrolled⟩
  | register w u rest complete => exact h.register (hnodup 0) (hnamed 0)
  | registered w =>
    obtain ⟨done, hat, hopen⟩ := h.roster
    obtain rfl := hat.all
    refine ⟨hopen.settled, Enrolled.complete ?_ rfl⟩
    rw [hopen.joined, hopen.cycle]
    rfl
  | startupFails w =>
    exact Life.stopped (h.enrolled.play (List.forall_mem_singleton.mpr ⟨rfl, by simp [endRow]⟩))
  | exit w hexit => exact ⟨trivial, Enrolled.of_empty hd.now_tick⟩
  | refuseCycle w hexit hstart => exact Life.stopped (Enrolled.of_empty hd.now_tick)
  | cycle w hexit hstart =>
    have hsettled : Settled env w := h.roster
    exact ⟨⟨w.cycle, [], Listing.At.start _, hsettled.marking hd⟩, Enrolled.of_empty hd.now_tick⟩
  | collect w u rest complete => exact h.collect hnodup hnamed
  | listed w => exact h.listed
  | listingFails w =>
    exact Life.stopped (h.enrolled.play (List.forall_mem_singleton.mpr ⟨rfl, by simp [endRow]⟩))
  | sweep w todo rest key hnext =>
    obtain ⟨n, hclear⟩ := h.roster
    refine ⟨⟨n, hclear.visit hl (htidy n todo rfl hclear.cycle) hnext⟩, ?_⟩
    exact h.enrolled.housekeeping fun a ha => sweepScript_housekeeping ha
  | swept w todo hnext =>
    obtain ⟨n, hclear⟩ := h.roster
    exact ⟨hclear.settled hl (htidy n todo rfl hclear.cycle) hnext, h.enrolled⟩
  | clean w todo rest key hnext =>
    exact ⟨trivial, h.enrolled.housekeeping fun a ha => dropScript_housekeeping ha⟩
  | cleaned w todo hnext => exact Life.stopped h.enrolled
  | stay why w => exact h

/-- **The roster of an orderly run follows the listings.** -/
theorem life_run (h : Orderly env) (t : Nat) : Life env (run env t) := by
  induction t with
  | zero => exact ⟨rfl, Enrolled.of_empty rfl⟩
  | succ t ih =>
    exact ih.step (sound_run env t).lockstep (dated_run env t) h.nodup h.named (h.tidy t) (run_step env t)

/-- In an orderly run, every cycle registers the UPSes it has to, in order, and all of them if
its listing is complete. -/
theorem registrations_run (h : Orderly env) (t n : Nat) :
    registrations (cycleOf n (run env t).world.trace) <+: arrivals env n ∧
      (⟨n, .listNext endRow⟩ ∈ (run env t).world.trace →
        registrations (cycleOf n (run env t).world.trace) = arrivals env n) := by
  rcases Nat.lt_trichotomy n (run env t).world.cycle with hlt | heq | hgt
  · obtain ⟨s, -, -, rfl, hcycle⟩ := cycle_ended hlt
    have henrolled := (life_run h s).enrolled
    rw [← mem_cycleOf, hcycle]
    exact ⟨henrolled.some_of, henrolled.all_of⟩
  · subst heq
    have henrolled := (life_run h t).enrolled
    rw [← mem_cycleOf]
    exact ⟨henrolled.some_of, henrolled.all_of⟩
  · rw [← mem_cycleOf, (dated_run env t).cycleOf_later hgt]
    exact ⟨List.nil_prefix, fun hmem => absurd hmem List.not_mem_nil⟩

/-! ### Listings of clean names -/

/-- Every listing names distinct UPSes, and cleaning leaves the names as they are. -/
structure CleanListings (env : Env) : Prop where
  nodup : ∀ n, (env.names n).Nodup
  named : ∀ n, ∀ u ∈ env.names n, u ≠ []
  clean : ∀ n, ∀ u ∈ env.names n, cleanName u = u

theorem CleanListings.orderly (h : CleanListings env) : Orderly env where
  nodup := h.nodup
  named := h.named
  tidy := by
    intro _ n _ _ _
    constructor
    · intro u hu _
      exact h.clean n u hu
    · intro u _ x hx heq
      rcases hx with hx | hx
      · exact (h.clean n x hx).symm.trans heq
      · exact (h.clean (n + 1) x hx).symm.trans heq

/-- Every per-UPS dictionary has been destroyed or is in use. -/
def Owned (w : World) : Prop :=
  ∀ id < w.dicts, id ∈ w.destroyed ∨ ∃ u vars, w.ndUpsVars.get u = some vars ∧ vars.id = id

theorem Owned.of_eq (h : Owned w) (hvars : w'.ndUpsVars = w.ndUpsVars) (hdicts : w'.dicts = w.dicts)
    (hdestroyed : w'.destroyed = w.destroyed) : Owned w' := by
  unfold Owned
  rw [hvars, hdicts, hdestroyed]
  exact h

/-- Registering a UPS that is not registered loses no dictionary. -/
theorem Owned.register (h : Owned w) (hl : Lockstep w) (hu : u ∉ w.ndUpsName.keys)
    (hr : Registered env u w w') : Owned w' := by
  intro id hid
  rw [hr.dicts] at hid
  rw [hr.vars, hr.destroyed]
  rcases Nat.lt_succ_iff_lt_or_eq.mp hid with hid | rfl
  · rcases h id hid with hgone | ⟨v, vars, hv, heq⟩
    · exact Or.inl hgone
    · have hne : v ≠ u := by
        rintro rfl
        rw [hl.keys] at hu
        exact hu (OrderedDict.mem_keys_of_get hv)
      exact Or.inr ⟨v, vars, by rw [OrderedDict.get_set_ne _ _ hne, hv], heq⟩
  · exact Or.inr ⟨u, _, OrderedDict.get_set_self _ _ _, rfl⟩

/-- Dropping a UPS destroys its dictionary. -/
theorem Owned.drop (h : Owned w) (hd : Dropped u w w') : Owned w' := by
  intro id hid
  rw [hd.dicts] at hid
  rw [hd.vars, hd.destroyed]
  rcases h id hid with hgone | ⟨v, vars, hv, rfl⟩
  · exact Or.inl (List.mem_append_left _ hgone)
  · by_cases hvu : v = u
    · subst hvu
      refine Or.inl (List.mem_append_right _ ?_)
      simp [hv]
    · exact Or.inr ⟨v, vars, by rw [OrderedDict.get_del, if_neg hvu, hv], rfl⟩

theorem Owned.collect (h : Owned w) (hl : Lockstep w) (hc : Collected env u w w') : Owned w' := by
  cases hc with
  | known hu hs => exact h.of_eq hs.vars hs.dicts hs.destroyed
  | nameless hu hs => exact h.of_eq hs.vars hs.dicts hs.destroyed
  | new hu hnil w1 hr hs => exact (h.register hl hu hr).of_eq hs.vars hs.dicts hs.destroyed

/-- What the final cleanup has still to drop. -/
def Leftover (m : Machine) : Prop :=
  match m.pc with
  | .cleanup todo => ∀ k ∈ m.world.ndUpsName.keys, k ∈ todo
  | .stopped .restart => m.world.ndUpsName.keys = []
  | _ => True

/-- With clean names, no dictionary is lost. -/
structure Disposal (m : Machine) : Prop where
  clean : ∀ k ∈ m.world.ndUpsName.keys, cleanName k = k
  owned : Owned m.world
  leftover : Leftover m

theorem leftover_goOn {d : Deed} {pc : Pc} (hpc : Leftover ⟨pc, w⟩) (hd : d.stop ≠ some .restart) :
    Leftover ⟨goOn d pc, w⟩ := by
  rcases goOn_cases d pc with ⟨-, heq⟩ | ⟨why, hstop, heq⟩
  · rw [heq]
    exact hpc
  · rw [heq]
    cases why with
    | restart => exact absurd hstop hd
    | _ => trivial

theorem Disposal.drop {m : Machine} (h : Disposal m) (v : CStr) {pc : Pc}
    (hleft : Leftover ⟨pc, m.world.play (dropScript m.world v)⟩) :
    Disposal ⟨pc, m.world.play (dropScript m.world v)⟩ := by
  have hdrop := play_dropScript m.world v
  refine ⟨fun k hk => h.clean k ?_, h.owned.drop hdrop, hleft⟩
  rw [hdrop.name] at hk
  exact (OrderedDict.mem_keys_del.mp hk).1

theorem Disposal.register {rest : List CStr} {complete : Bool}
    (h : Disposal ⟨.startup (listAnswers (u :: rest) complete), w⟩) (hl : Lockstep w)
    (hlife : Life env ⟨.startup (listAnswers (u :: rest) complete), w⟩) (hclean : CleanListings env) :
    Disposal ⟨goOn (registerDeed env u w.dicts w.gets) (.startup (listAnswers rest complete)),
      w.play (.listNext (upsRow u) :: (registerDeed env u w.dicts w.gets).actions)⟩ := by
  obtain ⟨done, hat, hopen⟩ := hlife.roster
  obtain ⟨hmem, hfresh⟩ := hat.fresh (hclean.nodup 0)
  have hreg := registered_row env w (hclean.named 0 u hmem)
  have hl1 : Lockstep (w.act (.listNext (upsRow u))) := hl.of_eq rfl rfl rfl rfl rfl
  have hnew : u ∉ w.ndUpsName.keys := fun hk => hfresh ((hopen.present u).mp hk)
  refine ⟨fun k hk => ?_, ?_, leftover_goOn trivial ?_⟩
  · rw [hreg.name, OrderedDict.mem_keys_set] at hk
    rcases hk with rfl | hk
    · exact hclean.clean 0 k hmem
    · exact h.clean k hk
  · exact Owned.register (w := w.act (.listNext (upsRow u))) (h.owned.of_eq rfl rfl rfl) hl1 hnew hreg
  · rw [registerDeed, if_neg (hclean.named 0 u hmem)]
    rintro ⟨⟩

theorem Disposal.collect {rest : List CStr} {complete : Bool}
    (h : Disposal ⟨.listing (listAnswers (u :: rest) complete), w⟩) (hl : Lockstep w)
    (hlife : Life env ⟨.listing (listAnswers (u :: rest) complete), w⟩) (hclean : CleanListings env) :
    Disposal ⟨goOn (collectDeed env w (env.dt w.cycle) u) (.listing (listAnswers rest complete)),
      w.play (.listNext (upsRow u) :: (collectDeed env w (env.dt w.cycle) u).actions)⟩ := by
  obtain ⟨n, done, hat, -⟩ := hlife.roster
  obtain ⟨hmem, -⟩ := hat.fresh (hclean.nodup (n + 1))
  have hc := play_collectDeed env (w.act (.listNext (upsRow u))) (env.dt w.cycle) u
  have hl1 : Lockstep (w.act (.listNext (upsRow u))) := hl.of_eq rfl rfl rfl rfl rfl
  refine ⟨fun k hk => ?_, ?_, leftover_goOn trivial ?_⟩
  · rcases (hc.mem_keys (hclean.named _ u hmem) k).mp hk with rfl | hk
    · exact hclean.clean _ k hmem
    · exact h.clean k hk
  · exact Owned.collect (w := w.act (.listNext (upsRow u))) (h.owned.of_eq rfl rfl rfl) hl1 hc
  · intro hstop
    rcases collectDeed_stop hstop with ⟨fault, hwhy⟩ | hwhy | hwhy <;> cases hwhy

theorem Disposal.step {m m' : Machine} (h : Disposal m) (hl : Lockstep m.world) (hlife : Life env m)
    (hclean : CleanListings env) (hs : Step env m m') : Disposal m' := by
  cases hs with
  | register w u rest complete => exact h.register hl hlife hclean
  | collect w u rest complete => exact h.collect hl hlife hclean
  | listed w =>
    refine ⟨h.clean, h.owned.of_eq rfl rfl rfl, ?_⟩
    rcases afterListing_cases env w with hpc | hpc | hpc
    · rw [hpc]
      trivial
    · rw [hpc]
      exact fun k hk => hk
    · rw [hpc]
      trivial
  | exit w hexit => exact ⟨h.clean, h.owned.of_eq rfl rfl rfl, fun k hk => hk⟩
  | sweep w todo rest key hnext =>
    by_cases hseen : wasSeen w (cleanName key) = true
    · rw [sweepScript, if_pos hseen]
      exact ⟨h.clean, h.owned.of_eq rfl rfl rfl, trivial⟩
    · rw [sweepScript, if_neg hseen]
      exact h.drop (cleanName key) trivial
  | clean w todo rest key hnext =>
    obtain ⟨hget, skipped, rfl, hskipped⟩ := OrderedDict.next_eq_some hnext
    refine h.drop (cleanName key) fun k hk => ?_
    rw [(play_dropScript w (cleanName key)).name, OrderedDict.mem_keys_del,
      h.clean key (OrderedDict.mem_keys_of_get hget)] at hk
    have hskip : k ∉ skipped := fun hmem => hskipped k hmem hk.1
    simpa [hskip, hk.2] using h.leftover k hk.1
  | cleaned w todo hnext =>
    refine ⟨h.clean, h.owned, List.eq_nil_iff_forall_not_mem.mpr fun k hk => ?_⟩
    exact OrderedDict.next_eq_none hnext k (h.leftover k hk) hk
  | stay why w => exact h
  | _ => exact ⟨h.clean, h.owned.of_eq rfl rfl rfl, trivial⟩

theorem disposal_run (h : CleanListings env) (t : Nat) : Disposal (run env t) := by
  induction t with
  | zero => exact ⟨nofun, fun _ hid => absurd hid (Nat.not_lt_zero _), trivial⟩
  | succ t ih => exact ih.step (sound_run env t).lockstep (life_run h.orderly t) h (run_step env t)

/-- **The life cycle of a UPS.** With listings of distinct names that cleaning leaves alone:
every cycle registers, in the order of its listing, UPSes that the listing before did not have,
and all of them if its listing is complete; after the sweep the three dictionaries hold exactly
the UPSes of the listing, with every seen flag false; and when the final cleanup is over every
per-UPS dictionary has been destroyed exactly once. -/
theorem ups_life_cycle (env : Env) (t : Nat) (hnodup : ∀ n, (env.names n).Nodup)
    (hnamed : ∀ n, ∀ u ∈ env.names n, u ≠ []) (hclean : ∀ n, ∀ u ∈ env.names n, cleanName u = u) :
    (∀ n, registrations (cycleOf n (run env t).world.trace) <+: arrivals env n ∧
      (⟨n, .listNext endRow⟩ ∈ (run env t).world.trace →
        registrations (cycleOf n (run env t).world.trace) = arrivals env n)) ∧
    (∀ n, (run env t).pc = .head → (run env t).world.cycle = n + 1 →
      (∀ k, k ∈ (run env t).world.ndUpsName.keys ↔ k ∈ env.names (n + 1)) ∧
      (∀ k, k ∈ (run env t).world.ndUpsVars.keys ↔ k ∈ env.names (n + 1)) ∧
      (∀ k, k ∈ (run env t).world.ndUpsSeen.keys ↔ k ∈ env.names (n + 1)) ∧
      ∀ k seen, (run env t).world.ndUpsSeen.get k = some seen → seen = false) ∧
    ((run env t).pc = .stopped .restart →
      ∀ id < (run env t).world.dicts, (run env t).world.destroyed.count id = 1) := by
  have hall : CleanListings env := ⟨hnodup, hnamed, hclean⟩
  have hl := (sound_run env t).lockstep
  refine ⟨registrations_run hall.orderly t, fun n hpc hcycle => ?_, fun hpc id hid => ?_⟩
  · have hsettled : Settled env (run env t).world := by
      have hroster := (life_run hall.orderly t).roster
      unfold Roster at hroster
      rwa [hpc] at hroster
    rw [← hcycle]
    have hnoted := hsettled.noted (by omega)
    refine ⟨hsettled.present, fun k => ?_, fun k => ⟨fun hk => ?_, hnoted k⟩, fun k seen hk => ?_⟩
    · rw [← hl.keys]
      exact hsettled.present k
    · exact (hsettled.present k).mp (hl.seen k hk)
    · have hlisted := (hsettled.present k).mp (hl.seen k (OrderedDict.mem_keys_of_get hk))
      have hunseen := hsettled.unseen k (hclean _ k hlisted)
      unfold wasSeen at hunseen
      rwa [hk] at hunseen
  · have hd := disposal_run hall t
    have hempty : (run env t).world.ndUpsName.keys = [] := by
      have hleft := hd.leftover
      unfold Leftover at hleft
      rwa [hpc] at hleft
    refine List.count_eq_one_of_mem hl.once ((hd.owned id hid).resolve_right ?_)
    rintro ⟨u, vars, hu, -⟩
    have hmem := OrderedDict.mem_keys_of_get hu
    rw [← hl.keys, hempty] at hmem
    cases hmem

/-- One UPS takes the place of another between startup and the first cycle, and the plugin is
asked to exit in the second. -/
def swappedUps : Env :=
  {Env.healthy (fun n => if n = 0 then ["a".toList] else ["b".toList]) fun _ _ _ => none with
    exitBefore := fun n => n = 2}

/-- Two dictionaries are made, and both are destroyed once. -/
theorem swapped_life_cycle :
    (run swappedUps 12).pc = .stopped .restart ∧ (run swappedUps 12).world.dicts = 2 ∧
      ∀ id < (run swappedUps 12).world.dicts, (run swappedUps 12).world.destroyed.count id = 1 := by
  have hnames : ∀ n, swappedUps.names n = ["a".toList] ∨ swappedUps.names n = ["b".toList] := by
    intro n
    show (if n = 0 then _ else _) = _ ∨ (if n = 0 then _ else _) = _
    split <;> simp
  have hpc : (run swappedUps 12).pc = .stopped .restart := by decide +kernel
  refine ⟨hpc, by decide +kernel, (ups_life_cycle swappedUps 12 ?_ ?_ ?_).2.2 hpc⟩
  · intro n
    rcases hnames n with h | h <;> rw [h] <;> decide
  · intro n
    rcases hnames n with h | h <;> rw [h] <;> decide
  · intro n
    rcases hnames n with h | h <;> rw [h] <;> decide

end UpsdPlugin
