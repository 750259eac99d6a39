import UpsdPlugin.Alignment

/-! The life cycle under a renaming of the UPSes.

A run on renamed listings with the replies moved along asks the same queries and
registers the same UPSes in the same cycles, as long as both runs are orderly. The two
runs need not take the same number of steps: where a name cleans to one that has just
left, the sweep drops the latter before it comes to it. They meet at the head of
every cycle (`aligned_run`). -/
namespace UpsdPlugin

variable {env env' : Env} {w w' : World} {u : CStr}

/-! ### Two orderly runs -/

section Runs
variable {r : CStr → CStr}

theorem Renamed.mem_names (hr : Renamed r env env') {m n : Nat} (hu : u ∈ env.names m) :
    r u ∈ env'.names n ↔ u ∈ env.names n := by
  rw [hr.names n, List.mem_map]
  constructor
  · intro h
    obtain ⟨v, hv, heq⟩ := h
    exact hr.injective n m v hv u hu heq ▸ hv
  · intro h
    exact ⟨u, h, rfl⟩

theorem Renamed.answers (hr : Renamed r env env') (n : Nat) :
    (env'.listing n).answers = listAnswers ((env.names n).map r) (env.listing n).complete := by
  rw [Listing.answers, hr.complete n, ← hr.names n]

/-- The rows so far, renamed. -/
theorem Renamed.done (hr : Renamed r env env') {n : Nat} {done done' rest : List CStr} {complete : Bool}
    (h : (env.listing n).At done (listAnswers rest complete))
    (h' : (env'.listing n).At done' (listAnswers (rest.map r) complete)) : done' = done.map r := by
  obtain ⟨rest1, hnames, hrest⟩ := h
  obtain ⟨rest2, hnames', hrest'⟩ := h'
  obtain ⟨rfl, -⟩ := listAnswers_inj hrest
  obtain ⟨rfl, -⟩ := listAnswers_inj hrest'
  have hall := hr.names n
  rw [Env.names, hnames', Env.names, hnames, List.map_append] at hall
  exact List.append_cancel_right hall

theorem Aligned.at_start {m m' n n' : Machine} (h : Aligned r m m') (hr : Renamed r env env')
    (hpc : m.pc = .start) (hpc' : m'.pc = .start) (hs : Step env m n) (hs' : Step env' m' n') :
    Aligned r n n' := by
  rw [hs.at_start hpc, hs'.at_start hpc', hr.init, hr.connect1, hr.connect2, hr.started 0]
  cases env.init && env.connect1 && env.connect2 && (env.listing 0).started with
  | false => exact ⟨.stopped _, h.cycle, h.gets, h.registered, fun hrun => absurd hrun not_false⟩
  | true =>
    rw [hr.answers 0]
    refine ⟨.startup _ _, h.cycle, h.gets, h.registered, fun _ => h.charts ?_⟩
    rw [hpc]
    trivial

theorem Aligned.at_head {m m' n n' : Machine} (h : Aligned r m m') (hr : Renamed r env env')
    (hpc : m.pc = .head) (hpc' : m'.pc = .head) (hs : Step env m n) (hs' : Step env' m' n') :
    Aligned r n n' := by
  have hcycle : m'.world.cycle + 1 = m.world.cycle + 1 := by rw [h.cycle]
  have hticked : m'.world.tick.cycle = m.world.tick.cycle := hcycle
  rw [hs.at_head hpc, hs'.at_head hpc', h.cycle, hr.exitBefore, hr.started]
  cases env.exitBefore (m.world.cycle + 1) with
  | true => exact ⟨.cleanup _ _, hticked, h.gets, h.registered, fun hrun => absurd hrun not_false⟩
  | false =>
    cases (env.listing (m.world.cycle + 1)).started with
    | false => exact ⟨.stopped _, hticked, h.gets, h.registered, fun hrun => absurd hrun not_false⟩
    | true =>
      rw [hr.answers]
      refine ⟨.listing _ _, hticked, h.gets, h.registered, fun _ => h.charts ?_⟩
      rw [hpc]
      trivial

theorem Aligned.startup_row {m m' n n' : Machine} {rest : List CStr} {complete : Bool} (h : Aligned r m m')
    (hr : Renamed r env env') (ho : Orderly env) (ho' : Orderly env') (hroster : Roster env m)
    (hpc : m.pc = .startup (listAnswers (u :: rest) complete))
    (hpc' : m'.pc = .startup (listAnswers (r u :: rest.map r) complete)) (hs : Step env m n)
    (hs' : Step env' m' n') : Aligned r n n' := by
  unfold Roster at hroster
  rw [hpc] at hroster
  obtain ⟨done, hat, hopen⟩ := hroster
  obtain ⟨hmem, -⟩ := hat.fresh (ho.nodup 0)
  have hu : u ≠ [] := ho.named 0 u hmem
  have hu' : r u ≠ [] := ho'.named 0 (r u) ((hr.mem_names hmem).mpr hmem)
  have hinj : ∀ k ∈ m.world.ndUpsName.keys, r k = r u → k = u := by
    intro k hk heq
    have hdone : k ∈ done := (hopen.present k).mp hk
    exact hr.injective 0 0 k (hat.isPrefix.subset hdone) u hmem heq
  have hrun : Running m.pc := by
    rw [hpc]
    trivial
  have hgo : ∀ (e : Env) (v : CStr) (w : World) (pc : Pc), v ≠ [] →
      goOn (registerDeed e v w.dicts w.gets) pc = pc := by
    intro e v w pc hv
    rw [registerDeed, if_neg hv]
    rfl
  rw [hs.startup_row hpc, hs'.startup_row hpc', hgo env u _ _ hu, hgo env' (r u) _ _ hu']
  exact Aligned.register h (.startup _ _) hrun (fun k var => hr.get k 0 u hmem var) hu hu' hinj

theorem Aligned.listing_row {m m' n n' : Machine} {rest : List CStr} {complete : Bool} (h : Aligned r m m')
    (hr : Renamed r env env') (ho : Orderly env) (ho' : Orderly env') (hroster : Roster env m)
    (hroster' : Roster env' m') (hpc : m.pc = .listing (listAnswers (u :: rest) complete))
    (hpc' : m'.pc = .listing (listAnswers (r u :: rest.map r) complete)) (hs : Step env m n)
    (hs' : Step env' m' n') : Aligned r n n' := by
  unfold Roster at hroster hroster'
  rw [hpc] at hroster
  rw [hpc'] at hroster'
  obtain ⟨i, done, hat, hmark⟩ := hroster
  obtain ⟨j, done', hat', hmark'⟩ := hroster'
  obtain rfl : j = i := by
    have hcycle := h.cycle
    rw [hmark.cycle, hmark'.cycle] at hcycle
    omega
  obtain rfl : done' = done.map r := hr.done hat hat'
  obtain ⟨hmem, hfresh⟩ := hat.fresh (ho.nodup (j + 1))
  have hlisted : ∀ k ∈ m.world.ndUpsName.keys, r k = r u → k = u := by
    intro k hk heq
    rcases (hmark.present k).mp hk with hold | hdone
    · exact hr.injective _ _ k hold u hmem heq
    · exact hr.injective _ _ k (hat.isPrefix.subset hdone) u hmem heq
  have hkeys : r u ∈ m'.world.ndUpsName.keys ↔ u ∈ m.world.ndUpsName.keys := by
    rw [hmark.present u, hmark'.present (r u), hr.mem_names hmem]
    refine or_congr_right ⟨fun hdone => ?_, fun hdone => absurd hdone hfresh⟩
    obtain ⟨v, hv, heq⟩ := List.mem_map.mp hdone
    exact hr.injective _ _ v (hat.isPrefix.subset hv) u hmem heq ▸ hv
  have hrun : Running m.pc := by
    rw [hpc]
    trivial
  rw [hs.listing_row hpc, hs'.listing_row hpc']
  exact Aligned.collect h (.listing _ _) hrun (fun k var => hr.get k _ u hmem var)
    (ho.named _ u hmem) (ho'.named _ (r u) ((hr.mem_names hmem).mpr hmem)) hkeys hlisted _ _

/-- The last row of a listing. -/
theorem Aligned.listing_end {m m' n n' : Machine} (h : Aligned r m m') (hr : Renamed r env env')
    (hpc : m.pc = .listing (listAnswers [] true)) (hpc' : m'.pc = .listing (listAnswers [] true))
    (hs : Step env m n) (hs' : Step env' m' n') : Aligned r n n' := by
  have hafter : SamePc r (afterListing env m.world) (afterListing env' m'.world) := by
    unfold afterListing
    rw [h.cycle, hr.epipe, hr.exitAfter, hr.elapsed]
    split
    · exact .stopped _
    · split
      · exact .cleanup _ _
      · split
        · exact .cleanup _ _
        · exact .sweep _ _
  rw [hs.listing_end hpc, hs'.listing_end hpc']
  refine h.play hafter rfl rfl fun _ => h.charts ?_
  rw [hpc]
  trivial

/-- A sweep on the left that is over: the one on the right goes on to its end. -/
theorem Aligned.swept {t t' : Nat} {todo todo' : List CStr} (h : Aligned r (run env t) (run env' t'))
    (hr : Renamed r env env') (ho : Orderly env) (ho' : Orderly env') (hpc : (run env t).pc = .sweep todo)
    (hpc' : (run env' t').pc = .sweep todo') (hnext : run env (t + 1) = ⟨.head, (run env t).world⟩) :
    ∃ s, Aligned r (run env (t + 1)) (run env' s) := by
  obtain ⟨s, hs, hthin⟩ := sweep_ends env' hpc'
  have hrun : Running (run env t).pc := by
    rw [hpc]
    trivial
  have hleft : Settled env (run env t).world := by
    have hroster := (life_run ho (t + 1)).roster
    rw [hnext] at hroster
    exact hroster
  have hright : Settled env' (run env' s).world := by
    have hroster := (life_run ho' s).roster
    unfold Roster at hroster
    rwa [hs] at hroster
  have hcycle : (run env' s).world.cycle = (run env t).world.cycle := hthin.cycle.trans h.cycle
  have hpcs : SamePc r .head (run env' s).pc := by
    rw [hs]
    exact .head
  refine ⟨s, ?_⟩
  rw [hnext]
  refine h.thin_right hthin hpcs (fun _ => hrun) fun _ k hk => ?_
  have hlisted := (hleft.present k).mp hk
  rw [hright.present (r k), hcycle]
  exact (hr.mem_names hlisted).mpr hlisted

/-- A final cleanup on the left that is over. -/
theorem Aligned.cleaned {t t' : Nat} {todo' : List CStr} (h : Aligned r (run env t) (run env' t'))
    (hpc' : (run env' t').pc = .cleanup todo')
    (hnext : run env (t + 1) = ⟨.stopped .restart, (run env t).world⟩) :
    ∃ s, Aligned r (run env (t + 1)) (run env' s) := by
  obtain ⟨s, hs, hthin⟩ := cleanup_ends env' hpc'
  have hpcs : SamePc r (.stopped .restart) (run env' s).pc := by
    rw [hs]
    exact .stopped _
  refine ⟨s, ?_⟩
  rw [hnext]
  exact h.thin_right hthin hpcs (fun hrun => absurd hrun not_false) fun hrun => absurd hrun not_false

/-- A step of one run is followed by the other. -/
theorem Aligned.step {t t' : Nat} (h : Aligned r (run env t) (run env' t')) (hr : Renamed r env env')
    (ho : Orderly env) (ho' : Orderly env') : ∃ s, Aligned r (run env (t + 1)) (run env' s) := by
  have hs := run_step env t
  have hs' := run_step env' t'
  have hroster := (life_run ho t).roster
  have hroster' := (life_run ho' t').roster
  have hpcs := h.pc
  generalize hpc : (run env t).pc = pc at hpcs
  generalize hpc' : (run env' t').pc = pc' at hpcs
  have hcharts : Running pc → ∀ k ∈ (run env t).world.ndUpsName.keys,
      (run env' t').world.charts (r k) = (run env t).world.charts k := hpc ▸ h.charts
  cases hpcs with
  | start => exact ⟨t' + 1, h.at_start hr hpc hpc' hs hs'⟩
  | startup rest complete =>
    refine ⟨t' + 1, ?_⟩
    cases rest with
    | cons u rest => exact h.startup_row hr ho ho' hroster hpc hpc' hs hs'
    | nil =>
      cases complete with
      | true =>
        rw [hs.startup_end hpc, hs'.startup_end hpc']
        exact h.play .head rfl rfl fun _ => hcharts trivial
      | false =>
        rw [hs.startup_fails hpc, hs'.startup_fails hpc']
        exact h.play (.stopped _) rfl rfl fun _ => hcharts trivial
  | head => exact ⟨t' + 1, h.at_head hr hpc hpc' hs hs'⟩
  | listing rest complete =>
    refine ⟨t' + 1, ?_⟩
    cases rest with
    | cons u rest => exact h.listing_row hr ho ho' hroster hroster' hpc hpc' hs hs'
    | nil =>
      cases complete with
      | true => exact h.listing_end hr hpc hpc' hs hs'
      | false =>
        rw [hs.listing_fails hpc, hs'.listing_fails hpc']
        exact h.play (.stopped _) rfl rfl fun _ => hcharts trivial
  | sweep todo todo' =>
    rcases hs.at_sweep hpc with ⟨-, hnext⟩ | ⟨key, rest, -, hnext⟩
    · exact h.swept hr ho ho' hpc hpc' hnext
    · rw [hnext]
      refine ⟨t', h.thin_left (thinned_sweep _ _) ?_ fun _ => hpc ▸ trivial⟩
      rw [hpc']
      exact .sweep _ _
  | cleanup todo todo' =>
    rcases hs.at_cleanup hpc with ⟨-, hnext⟩ | ⟨key, rest, -, hnext⟩
    · exact h.cleaned hpc' hnext
    · rw [hnext]
      refine ⟨t', h.thin_left (thinned_drop _ _) ?_ fun hrun => absurd hrun not_false⟩
      rw [hpc']
      exact .cleanup _ _
  | stopped why =>
    rw [hs.at_stopped hpc]
    exact ⟨t', h⟩

/-- **Every point of an orderly run is met by the renamed run.** -/
theorem aligned_run (hr : Renamed r env env') (ho : Orderly env) (ho' : Orderly env') (t : Nat) :
    ∃ s, Aligned r (run env t) (run env' s) := by
  induction t with
  | zero => exact ⟨0, .start, rfl, rfl, rfl, fun _ _ hk => nomatch hk⟩
  | succ t ih =>
    obtain ⟨s, hs⟩ := ih
    exact hs.step hr ho ho'

/-- The renaming back. -/
theorem Renamed.back (hr : Renamed r env env') :
    ∃ b : CStr → CStr, Renamed b env' env ∧ ∀ n, ∀ u ∈ env.names n, b (r u) = u := by
  have hinj : Set.InjOn r {u | ∃ n, u ∈ env.names n} := by
    rintro u ⟨m, hu⟩ v ⟨n, hv⟩ heq
    exact hr.injective m n u hu v hv heq
  obtain ⟨b, hleft⟩ : ∃ b, Set.LeftInvOn b r {u | ∃ n, u ∈ env.names n} :=
    ⟨_, hinj.leftInvOn_invFunOn⟩
  have hb : ∀ n, ∀ u ∈ env.names n, b (r u) = u := fun n u hu => hleft ⟨n, hu⟩
  have hlisted : ∀ n, ∀ v ∈ env'.names n, b v ∈ env.names n ∧ r (b v) = v := by
    intro n v hv
    rw [hr.names n] at hv
    obtain ⟨u, hu, rfl⟩ := List.mem_map.mp hv
    rw [hb n u hu]
    exact ⟨hu, rfl⟩
  refine ⟨b, ?_, hb⟩
  constructor
  · intro m n u hu v hv heq
    rw [← (hlisted m u hu).2, ← (hlisted n v hv).2, heq]
  · intro n
    rw [hr.names n, List.map_map]
    exact ((List.map_congr_left (hb n)).trans (List.map_id _)).symm
  · intro k n v hv var
    have hv' := hlisted n v hv
    rw [← hr.get k n (b v) hv'.1 var, hv'.2]
  · exact fun n => (hr.started n).symm
  · exact fun n => (hr.complete n).symm
  · exact hr.init.symm
  · exact hr.connect1.symm
  · exact hr.connect2.symm
  · exact hr.exitBefore.symm
  · exact hr.epipe.symm
  · exact hr.exitAfter.symm
  · exact hr.elapsed.symm

theorem SamePc.eq_head {pc : Pc} (h : SamePc r .head pc) : pc = .head := by
  cases h
  rfl

theorem settled_run (ho : Orderly env) {t : Nat} (hpc : (run env t).pc = .head) :
    Settled env (run env t).world := by
  have hroster := (life_run ho t).roster
  unfold Roster at hroster
  rwa [hpc] at hroster

/-- At the heads of one cycle, the same UPSes are registered. -/
theorem heads_agree (hr : Renamed r env env') (ho : Orderly env) (ho' : Orderly env') {t t' : Nat}
    (hpc : (run env t).pc = .head) (hpc' : (run env' t').pc = .head)
    (hcycle : (run env' t').world.cycle = (run env t).world.cycle) (k' : CStr) :
    k' ∈ (run env' t').world.ndUpsName.keys ↔ ∃ k ∈ (run env t).world.ndUpsName.keys, r k = k' := by
  simp only [(settled_run ho' hpc').present, (settled_run ho hpc).present, hcycle, hr.names, List.mem_map]

end Runs

/-- **The life cycle does not depend on the names, if the listings are tidy.** Let the UPSes be
renamed, and let every sweep of the two runs be tidy: the UPSes that leave the listing have names
that cleaning leaves alone, and no UPS that stays has a name that another one cleans to. Then
the runs come to the head of the collection loop in the same cycles, with the same UPSes
registered, which are those of the last listing; and they register the same UPSes in the same
cycles. -/
theorem life_cycle_renaming (r : CStr → CStr) (env env' : Env) (hr : Renamed r env env')
    (hnodup : ∀ n, (env.names n).Nodup) (hnamed : ∀ n, ∀ u ∈ env.names n, u ≠ [])
    (hnamed' : ∀ n, ∀ u ∈ env'.names n, u ≠ [])
    (htidy : ∀ t n todo, (run env t).pc = .sweep todo → (run env t).world.cycle = n + 1 →
      TidyListings env n)
    (htidy' : ∀ t n todo, (run env' t).pc = .sweep todo → (run env' t).world.cycle = n + 1 →
      TidyListings env' n) :
    (∀ t, (run env t).pc = .head →
      (∀ k, k ∈ (run env t).world.ndUpsName.keys ↔ k ∈ env.names (run env t).world.cycle) ∧
      ∃ t', (run env' t').pc = .head ∧ (run env' t').world.cycle = (run env t).world.cycle ∧
        ∀ k', k' ∈ (run env' t').world.ndUpsName.keys ↔ ∃ k ∈ (run env t).world.ndUpsName.keys, r k = k') ∧
    (∀ t', (run env' t').pc = .head →
      ∃ t, (run env t).pc = .head ∧ (run env' t').world.cycle = (run env t).world.cycle ∧
        ∀ k', k' ∈ (run env' t').world.ndUpsName.keys ↔ ∃ k ∈ (run env t).world.ndUpsName.keys, r k = k') ∧
    ∀ m n, ∀ u ∈ env.names m, ((∃ t', ⟨n, .register (r u)⟩ ∈ (run env' t').world.trace) ↔
      ∃ t, ⟨n, .register u⟩ ∈ (run env t).world.trace) := by
  have ho : Orderly env := ⟨hnodup, hnamed, htidy⟩
  have ho' : Orderly env' := by
    refine ⟨fun n => ?_, hnamed', htidy'⟩
    rw [hr.names n]
    exact (hnodup n).map_on fun u hu v hv heq => hr.injective n n u hu v hv heq
  obtain ⟨b, hback, hb⟩ := hr.back
  refine ⟨fun t hpc => ⟨(settled_run ho hpc).present, ?_⟩, fun t' hpc' => ?_, fun m n u hu => ⟨?_, ?_⟩⟩
  · obtain ⟨s, hs⟩ := aligned_run hr ho ho' t
    have hpc' : (run env' s).pc = .head := (hpc ▸ hs.pc).eq_head
    exact ⟨s, hpc', hs.cycle, heads_agree hr ho ho' hpc hpc' hs.cycle⟩
  · obtain ⟨s, hs⟩ := aligned_run hback ho' ho t'
    have hpc : (run env s).pc = .head := (hpc' ▸ hs.pc).eq_head
    exact ⟨s, hpc, hs.cycle.symm, heads_agree hr ho ho' hpc hpc' hs.cycle.symm⟩
  · rintro ⟨t', hmem⟩
    obtain ⟨s, hs⟩ := aligned_run hback ho' ho t'
    refine ⟨s, mem_registeredIn.mp ?_⟩
    rw [hs.registered]
    exact List.mem_map.mpr ⟨(n, r u), mem_registeredIn.mpr hmem, congrArg (Prod.mk n) (hb m u hu)⟩
  · rintro ⟨t, hmem⟩
    obtain ⟨s, hs⟩ := aligned_run hr ho ho' t
    refine ⟨s, mem_registeredIn.mp ?_⟩
    rw [hs.registered]
    exact List.mem_map.mpr ⟨(n, u), mem_registeredIn.mpr hmem, rfl⟩

/-- One UPS that answers nothing, listed in some cycles under this name. -/
def oneUps (there : Nat → Bool) (name : CStr) : Env :=
  .healthy (fun n => bif there n then [name] else []) fun _ _ _ => none

theorem oneUps_names {there : Nat → Bool} {name u : CStr} {n : Nat} (h : u ∈ (oneUps there name).names n) :
    u = name := by
  change u ∈ bif there n then [name] else [] at h
  cases hn : there n with
  | false =>
    rw [hn] at h
    cases h
  | true =>
    rw [hn] at h
    exact List.mem_singleton.mp h

theorem oneUps_nodup (there : Nat → Bool) (name : CStr) (n : Nat) : ((oneUps there name).names n).Nodup := by
  show (bif there n then [name] else []).Nodup
  cases there n <;> simp

theorem oneUps_renamed (there : Nat → Bool) (a b : CStr) :
    Renamed (fun _ => b) (oneUps there a) (oneUps there b) where
  injective := fun _ _ _ hu _ hv _ => (oneUps_names hu).trans (oneUps_names hv).symm
  names := by
    intro n
    show (bif there n then [b] else []) = (bif there n then [a] else []).map _
    cases there n <;> rfl
  get := fun _ _ _ _ _ => rfl
  started := fun _ => rfl
  complete := fun _ => rfl
  init := rfl
  connect1 := rfl
  connect2 := rfl
  exitBefore := rfl
  epipe := rfl
  exitAfter := rfl
  elapsed := rfl

/-- A UPS that stays keeps the listings tidy under any name. -/
theorem oneUps_tidy (name : CStr) (n : Nat) : TidyListings (oneUps (fun _ => true) name) n where
  gone := fun _ hk hgone => absurd hk hgone
  stays := fun _ hk _ hx _ => (hx.elim oneUps_names oneUps_names).trans (oneUps_names hk).symm

/-- A name with a blank in it does no harm to a UPS that stays. -/
theorem steady_life_cycle :
    (run (oneUps (fun _ => true) "a".toList) 8).pc = .head ∧
      ∃ t, (run (oneUps (fun _ => true) "a b".toList) t).pc = .head ∧
        (run (oneUps (fun _ => true) "a b".toList) t).world.cycle = 1 ∧
        ∀ k, k ∈ (run (oneUps (fun _ => true) "a b".toList) t).world.ndUpsName.keys ↔ "a b".toList = k := by
  have hpc : (run (oneUps (fun _ => true) "a".toList) 8).pc = .head := by decide +kernel
  have hcycle : (run (oneUps (fun _ => true) "a".toList) 8).world.cycle = 1 := by decide +kernel
  have hkeys : (run (oneUps (fun _ => true) "a".toList) 8).world.ndUpsName.keys = ["a".toList] := by
    decide +kernel
  have hnamed : ∀ name : CStr, name ≠ [] → ∀ n, ∀ u ∈ (oneUps (fun _ => true) name).names n, u ≠ [] :=
    fun name hname n u hu => (oneUps_names hu).symm ▸ hname
  have hall := life_cycle_renaming (fun _ => "a b".toList) (oneUps (fun _ => true) "a".toList)
    (oneUps (fun _ => true) "a b".toList) (oneUps_renamed _ _ _) (oneUps_nodup _ _)
    (hnamed _ (by decide)) (hnamed _ (by decide)) (fun _ n _ _ _ => oneUps_tidy _ n)
    (fun _ n _ _ _ => oneUps_tidy _ n)
  obtain ⟨t, hpc', hcycle', hagree⟩ := (hall.1 8 hpc).2
  refine ⟨hpc, t, hpc', hcycle'.trans hcycle, fun k => ?_⟩
  rw [hagree k, hkeys]
  simp

/-- A UPS `a` that leaves after startup is dropped; renamed to `a b` it leaves and is kept. -/
theorem renamed_ups_stays :
    Renamed (fun _ => "a b".toList) (oneUps (· = 0) "a".toList) (oneUps (· = 0) "a b".toList) ∧
    (run (oneUps (· = 0) "a".toList) 7).pc = .head ∧
    (run (oneUps (· = 0) "a".toList) 7).world.cycle = 1 ∧
    (run (oneUps (· = 0) "a b".toList) 7).pc = .head ∧
    (run (oneUps (· = 0) "a b".toList) 7).world.cycle = 1 ∧
    ¬ ∀ k', k' ∈ (run (oneUps (· = 0) "a b".toList) 7).world.ndUpsName.keys ↔
      ∃ k ∈ (run (oneUps (· = 0) "a".toList) 7).world.ndUpsName.keys, "a b".toList = k' := by
  refine ⟨oneUps_renamed _ _ _, by decide +kernel, by decide +kernel, by decide +kernel,
    by decide +kernel, fun h => ?_⟩
  have hgone : (run (oneUps (· = 0) "a".toList) 7).world.ndUpsName.keys = [] := by decide +kernel
  have hkept : "a b".toList ∈ (run (oneUps (· = 0) "a b".toList) 7).world.ndUpsName.keys := by
    decide +kernel
  obtain ⟨k, hk, -⟩ := (h _).mp hkept
  rw [hgone] at hk
  cases hk

end UpsdPlugin
