import UpsdPlugin.Script

/-! The functions of the plugin perform their scripts.

A pointer is current while its connection has given no later answer; reading it
then gives the word the answer had. The listed name stays current through all the
queries, because they go over the other connection, and each reply is read before
the next query. So no read is ever stale and every function is determined by the
name and the replies (`registerUps_performs`, `sendMetricUpsStatus_performs`,
`sendMetricUpsRealpower_performs`, `sendUpsVars_performs`). -/
namespace UpsdPlugin
open Scripted
open World (getsOf)

variable {env : Env} {w : World} {p : Ptr} {u : CStr}

/-! ### Current pointers -/

/-- The pointer is current, and reads `s`. -/
structure Reads (w : World) (p : Ptr) (s : CStr) : Prop where
  current : p.stamp = (w.buf p.conn).stamp
  text : (w.buf p.conn).words.getD p.word [] = s

theorem Reads.of_buf {w' : World} {s : CStr} (h : Reads w p s) (hb : w'.buf p.conn = w.buf p.conn) :
    Reads w' p s :=
  ⟨by rw [hb]; exact h.current, by rw [hb]; exact h.text⟩

/-- The pointer is the listed UPS name `u`. -/
structure Lists (w : World) (p : Ptr) (u : CStr) : Prop where
  conn : p.conn = .ups1
  reads : Reads w p u

/-- Actions that leave the LIST connection alone. -/
def Action.KeepsList : Action → Prop
  | .get conn .. => conn = .ups2
  | .listNext _ => False
  | _ => True

theorem Action.Quiet.keepsList {a : Action} (h : a.Quiet) : a.KeepsList := by
  cases a with
  | get conn origin call ups var reply => exact h
  | listNext answer => exact h
  | _ => trivial

theorem act_list (w : World) {a : Action} (h : a.KeepsList) : (w.act a).buf .ups1 = w.buf .ups1 := by
  cases a with
  | get conn origin call ups var reply =>
    have hconn : conn = .ups2 := h
    subst hconn
    simp [World.act, World.effect, World.answered]
  | listNext answer => exact absurd h id
  | _ => rfl

theorem Lists.act {a : Action} (h : Lists w p u) (ha : a.KeepsList) : Lists (w.act a) p u :=
  ⟨h.conn, h.reads.of_buf (by rw [h.conn]; exact act_list w ha)⟩

theorem Lists.ask {origin : Origin} {v var : CStr} {k : Nat} (h : Lists w p u) :
    Lists (w.act (ask env v origin var k)) p u :=
  h.act (a := UpsdPlugin.ask env v origin var k) rfl

theorem Lists.print {origin : Origin} {line : Line} (h : Lists w p u) :
    Lists (w.act (.print origin line)) p u :=
  h.act (a := .print origin line) trivial

theorem Lists.play {script : List Action} (h : Lists w p u) (hs : ∀ a ∈ script, a.KeepsList) :
    Lists (w.play script) p u := by
  induction script generalizing w with
  | nil => exact h
  | cons a script ih =>
    have ha := hs a (List.mem_cons_self ..)
    exact ih (h.act ha) fun b hb => hs b (List.mem_cons_of_mem a hb)

/-! ### Single operations -/

theorem deref_performs {s : CStr} (h : Reads w p s) :
    Performs World.act (deref p) w ⟨[], none⟩ s := by
  unfold Performs deref
  rw [if_pos h.current, h.text]
  rfl

theorem perform_performs (w : World) (a : Action) :
    Performs World.act (perform a) w ⟨[a], none⟩ () :=
  .action w a

theorem send_performs (w : World) (origin : Origin) (line : Line) :
    Performs World.act (send origin line) w ⟨[.print origin line], none⟩ () :=
  rfl

theorem sendSets_performs (w : World) (origin : Origin) (values : List (CStr × Int)) :
    Performs World.act (sendSets origin values) w
      ⟨values.map (fun (name, value) => .print origin (.set name value)), none⟩ () := by
  induction values generalizing w with
  | nil => exact .pure w ()
  | cons v rest ih => exact (send_performs w origin _).cons (ih _)

/-- A converted value: the reply is there and is read at once. -/
theorem convert_performs {s : CStr} (h : Reads w p s) :
    Performs World.act (convert env (some p)) w ⟨[.str2ndd (some s)], none⟩ (str2ndd env.libm s) :=
  (deref_performs h).read ((perform_performs w _).cons (.pure _ _))

section Query
variable {origin : Origin} {var : CStr} {α : Type} {q : Option Ptr → Plugin α} {rest : List Action}
  {stop : Option Stop} {a : α}

/-- A query and what is done with its reply: the continuation gets the null pointer,
or a pointer that reads the reply. -/
theorem nutGetVar_performs (h : Lists w p u)
    (hnone : env.get w.gets u var = none →
      Performs World.act (q none) (w.act (ask env u origin var w.gets)) ⟨rest, stop⟩ a)
    (hsome : ∀ value, env.get w.gets u var = some value →
      ∀ r, Reads (w.act (ask env u origin var w.gets)) r value →
        Performs World.act (q (some r)) (w.act (ask env u origin var w.gets)) ⟨rest, stop⟩ a) :
    Performs World.act (nutGetVar env origin .ups2 p var >>= q) w
      ⟨ask env u origin var w.gets :: rest, stop⟩ a := by
  have hquery : Performs World.act (nutGetVar env origin .ups2 p var) w
      ⟨[ask env u origin var w.gets], none⟩
      ((env.get w.gets u var).map fun _ => ⟨.ups2, 3, (w.buf .ups2).stamp + 1⟩) :=
    (deref_performs h.reads).read rfl
  refine hquery.cons ?_
  cases hr : env.get w.gets u var with
  | none => exact hnone hr
  | some value =>
    refine hsome value hr _ ⟨?_, ?_⟩
    · simp [ask, World.act, World.effect, World.answered]
    · simp [ask, World.act, World.effect, World.answered, getAnswer, hr]

end Query

/-! ### Sending metrics -/

theorem readStatus_ok {value : CStr} {status : UpsStatus} (h : Reads w p value)
    (hs : scanStatus value = .ok status) :
    Performs World.act (readStatus (some p)) w ⟨[], none⟩ status := by
  refine (deref_performs h).read ?_
  simp only [hs]
  exact .pure _ _

theorem readStatus_error {value : CStr} {fault : ScanFault} (h : Reads w p value)
    (hs : scanStatus value = .error fault) :
    Performs World.act (readStatus (some p)) w ⟨[], some (.scan fault)⟩ {} := by
  refine (deref_performs h).read ?_
  simp only [hs]
  exact .throw _ _ _

theorem sendMetricUpsStatus_performs (h : Lists w p u) (dt : Nat) :
    Performs World.act (sendMetricUpsStatus env p (cleanName u) dt) w (statusDeed env u dt w.gets) () := by
  have hframe : ∀ (w : World) (status : UpsStatus), Performs World.act
      (do
        send .upsStatus (.begin (cleanName u) statusId dt)
        sendSets .upsStatus (statusValues status)
        send .upsStatus .close) w
      ⟨frame u .upsStatus statusId dt (statusValues status), none⟩ () := fun w status =>
    (send_performs w _ _).cons ((sendSets_performs _ _ _).seq (send_performs _ _ _))
  unfold statusDeed
  cases hs : statusOf (env.get w.gets u upsStatusVar) with
  | ok status =>
    refine nutGetVar_performs h (fun hr => ?_) (fun value hr r hread => ?_)
    · rw [hr] at hs
      cases hs
      exact (Performs.pure _ _).read (hframe _ _)
    · rw [hr] at hs
      exact (readStatus_ok hread hs).read (hframe _ _)
  | error fault =>
    refine nutGetVar_performs h (fun hr => ?_) (fun value hr r hread => ?_)
    · rw [hr] at hs
      cases hs
    · rw [hr] at hs
      exact (readStatus_error hread hs).bind (e := ⟨[], none⟩) (by rintro ⟨⟩)

theorem sendRealpower_performs (w : World) (u : CStr) (dt : Nat) (realpower : Ndd) :
    Performs World.act (sendRealpower (cleanName u) dt realpower) w ⟨powerFrame u dt realpower, none⟩ () :=
  (send_performs w _ _).cons ((send_performs _ _ _).cons (send_performs _ _ _))

theorem sendMetricUpsRealpower_performs (h : Lists w p u) (dt : Nat) :
    Performs World.act (sendMetricUpsRealpower env p (cleanName u) dt) w
      ⟨powerScript env u dt w.gets, none⟩ () := by
  refine nutGetVar_performs h (fun hr => ?_) (fun value hr r hread => ?_)
  · simp only [hr]
    refine nutGetVar_performs h.ask (fun hload => ?_) (fun load hload r hread => ?_)
    · have hload' : env.get (w.gets + 1) u loadVar = none := hload
      simp only [hload']
      exact .pure _ _
    · have hload' : env.get (w.gets + 1) u loadVar = some load := hload
      simp only [hload']
      refine (convert_performs hread).cons ?_
      refine nutGetVar_performs (h.ask.ask.act trivial) (fun hnom => ?_)
        (fun nominal hnom r hread => ?_)
      · have hnom' : env.get (w.gets + 2) u realpowerNominalVar = none := hnom
        simp only [hnom']
        exact .pure _ _
      · have hnom' : env.get (w.gets + 2) u realpowerNominalVar = some nominal := hnom
        simp only [hnom']
        exact (convert_performs hread).cons (sendRealpower_performs _ _ _ _)
  · simp only [hr]
    exact (convert_performs hread).cons (sendRealpower_performs _ _ _ _)

theorem sendUpsVars_performs (h : Lists w p u) (dt : Nat) (charts : List NdChart) :
    Performs World.act (sendUpsVars env p (cleanName u) dt charts) w (varsDeed env u dt charts w.gets) () := by
  induction charts generalizing w with
  | nil => exact .pure _ _
  | cons chart rest ih =>
    unfold varsDeed
    cases hr : env.get w.gets u chart.nutVariable with
    | none =>
      refine nutGetVar_performs h (fun _ => ?_) (fun value hr' => ?_)
      · have hconvert : Performs World.act (convert env none) (w.act (ask env u .upsVars chart.nutVariable w.gets))
            ⟨[.str2ndd none], some .nullValue⟩ Binary64.nan :=
          (perform_performs _ _).cons (.throw _ _ _)
        exact hconvert.bind (e := ⟨[], none⟩) (by rintro ⟨⟩)
      · rw [hr] at hr'
        cases hr'
    | some value =>
      refine nutGetVar_performs h (fun hr' => ?_) (fun value' hr' r hread => ?_)
      · rw [hr] at hr'
        cases hr'
      · rw [hr] at hr'
        cases hr'
        refine (convert_performs hread).cons ?_
        refine (send_performs _ _ _).cons ((send_performs _ _ _).cons ((send_performs _ _ _).cons ?_))
        exact ih (h.ask.act (a := .str2ndd (some value)) trivial).print.print.print

/-! ### Registration -/

theorem Lists.announces {script : List Action} (h : Lists w p u)
    (hs : ∀ a ∈ script, Announces env u a) : Lists (w.play script) p u :=
  h.play fun a ha => (hs a ha).quiet.keepsList

theorem World.play_announces (w : World) {script : List Action} (hs : ∀ a ∈ script, Announces env u a) :
    w.Same (w.play script) :=
  w.play_quiet script fun a ha => (hs a ha).quiet

theorem World.play_collects (w : World) {dt : Nat} {script : List Action}
    (hs : ∀ a ∈ script, Collects env u dt a) : w.Same (w.play script) :=
  w.play_quiet script fun a ha => (hs a ha).quiet

theorem getsOf_labelScript (style : LabelStyle) (label var : CStr) (k : Nat) :
    getsOf (labelScript env u style label var k) = 1 := by
  unfold labelScript
  cases env.get k u var <;> rfl

section Labels
variable {style nameStyle : LabelStyle} {label var : CStr} {q : Unit → Plugin Unit}
  {rest : List Action} {stop : Option Stop}

/-- A label and what follows it. -/
theorem sendLabel_performs (h : Lists w p u)
    (hq : ∀ w', Lists w' p u → w'.gets = w.gets + 1 → Performs World.act (q ()) w' ⟨rest, stop⟩ ()) :
    Performs World.act (sendLabel env style p label var >>= q) w
      ⟨labelScript env u style label var w.gets ++ rest, stop⟩ () := by
  have hlabel : Performs World.act (sendLabel env style p label var) w
      ⟨labelScript env u style label var w.gets, none⟩ () := by
    refine nutGetVar_performs h (fun hr => ?_) (fun value hr r hread => ?_)
    · simp only [hr]
      exact .pure _ _
    · simp only [hr]
      exact (deref_performs hread).read (send_performs _ _ _)
  refine hlabel.seq (hq _ (h.announces (labelScript_announces env u _ _ _ _)) ?_)
  exact (World.play_gets _ _).trans (by rw [getsOf_labelScript])

theorem sendLabels_performs (h : Lists w p u) :
    Performs World.act (sendLabels env style nameStyle p) w
      ⟨labelsScript env u style nameStyle w.gets, none⟩ () := by
  simp only [labelsScript, labelVars, varLabelsScript, List.append_assoc, List.nil_append]
  refine sendLabel_performs h fun w1 h1 hg1 => ?_
  rw [← hg1]
  refine sendLabel_performs h1 fun w2 h2 hg2 => ?_
  rw [← hg2]
  refine sendLabel_performs h2 fun w3 h3 hg3 => ?_
  rw [← hg3]
  refine sendLabel_performs h3 fun w4 h4 hg4 => ?_
  rw [← hg4]
  refine sendLabel_performs h4 fun w5 h5 _ => ?_
  exact (deref_performs h5.reads).read ((send_performs _ _ _).cons (send_performs _ _ _))

end Labels

theorem sendDimensions_performs (w : World) (quoted : Bool) (names : List CStr) :
    Performs World.act (sendDimensions quoted names) w ⟨dimensionsScript quoted names, none⟩ () := by
  induction names generalizing w with
  | nil => exact .pure w ()
  | cons name rest ih => exact (send_performs w _ _).cons (ih _)

theorem chartAvailable_performs (h : Lists w p u) (chart : NdChart) :
    Performs World.act (chartAvailable env p chart) w ⟨availableScript env u chart w.gets, none⟩
      (available env u chart w.gets) := by
  by_cases hvar : chart.nutVariable = realpowerVar
  · rw [available, if_pos hvar, availableScript, if_pos hvar]
    unfold chartAvailable
    rw [hvar]
    refine nutGetVar_performs h (fun hr => ?_) (fun value hr r hread => ?_)
    · simp only [powerAnswered, hr, ne_eq, not_true_eq_false, if_false]
      refine nutGetVar_performs h.ask (fun hload => ?_) (fun load hload r hread => ?_)
      · have hload' : env.get (w.gets + 1) u loadVar = none := hload
        simp only [hload']
        exact .pure _ _
      · have hload' : env.get (w.gets + 1) u loadVar = some load := hload
        simp only [hload']
        refine nutGetVar_performs h.ask.ask (fun hnom => ?_) (fun nominal hnom r hread => ?_)
        · have hnom' : env.get (w.gets + 2) u realpowerNominalVar = none := hnom
          simp only [hnom']
          exact .pure _ _
        · have hnom' : env.get (w.gets + 2) u realpowerNominalVar = some nominal := hnom
          simp only [hnom']
          exact .pure _ _
    · simp only [powerAnswered, hr]
      exact .pure _ _
  · rw [available, if_neg hvar, availableScript, if_neg hvar]
    refine nutGetVar_performs h (fun hr => ?_) (fun value hr r hread => ?_)
    · simp only [hr, ne_eq, hvar, not_false_eq_true, if_true]
      exact .pure _ _
    · simp only [hr]
      exact .pure _ _

/-- A chart block and what follows it. -/
theorem chartBlock_performs {α : Type} {q : Plugin α} {rest : List Action} {stop : Option Stop} {a : α}
    (h : Lists w p u) (chart : NdChart)
    (hq : Performs World.act q (w.play (chartBlock env u chart w.gets)) ⟨rest, stop⟩ a) :
    Performs World.act
      (do
        let _ ← deref p
        send .registerUps (.chart (cleanName u) chart env.updateEvery)
        sendLabels env .quoted .quotedName p
        sendDimensions true [chart.chartDimension]
        q) w
      ⟨chartBlock env u chart w.gets ++ rest, stop⟩ a := by
  rw [chartBlock, List.append_assoc]
  refine (deref_performs h.reads).read ((send_performs _ _ _).cons ?_)
  refine (sendLabels_performs h.print).seq ((sendDimensions_performs _ _ _).seq ?_)
  rw [chartBlock, World.play, play_append] at hq
  exact hq

theorem registerCharts_performs (h : Lists w p u) (d : OrderedDict CStr NdChart)
    (charts : List NdChart) :
    Performs World.act (registerCharts env p (cleanName u) d charts) w
      ⟨chartsScript env u charts w.gets, none⟩
      ((keptCharts env u charts w.gets).foldl (fun d chart => d.set chart.nutVariable chart) d) := by
  induction charts generalizing w d with
  | nil => exact .pure _ _
  | cons chart rest ih =>
    have hopen : Lists (play World.act w (availableScript env u chart w.gets)) p u :=
      h.announces (availableScript_announces env u chart w.gets)
    have hgets : (play World.act w (availableScript env u chart w.gets)).gets = _ :=
      World.play_gets w (availableScript env u chart w.gets)
    unfold chartsScript keptCharts chartScript registerCharts
    rw [List.append_assoc]
    refine (chartAvailable_performs h chart).seq ?_
    cases havail : available env u chart w.gets with
    | false =>
      have hrest := ih hopen d
      rw [hgets] at hrest
      simpa [World.getsOf_append] using hrest
    | true =>
      simp only [if_true, World.getsOf_append, ← Nat.add_assoc, ← hgets]
      generalize play World.act w (availableScript env u chart w.gets) = w' at hopen
      refine chartBlock_performs hopen chart ?_
      have hrest := ih (hopen.announces (chartBlock_announces env u chart w'.gets))
        (d.set chart.nutVariable chart)
      rw [World.play_gets] at hrest
      exact hrest

/-- The status block and what follows it. -/
theorem statusBlock_performs {α : Type} {q : Plugin α} {rest : List Action} {stop : Option Stop} {a : α}
    (h : Lists w p u)
    (hq : ∀ w', Lists w' p u → w.Same w' → w'.gets = w.gets + getsOf (statusBlock env u w.gets) →
      Performs World.act q w' ⟨rest, stop⟩ a) :
    Performs World.act
      (do
        let _ ← deref p
        send .registerUps (.chartStatus (cleanName u) env.updateEvery)
        sendLabels env .bare .bare p
        sendDimensions false statusDimensions
        q) w
      ⟨statusBlock env u w.gets ++ rest, stop⟩ a := by
  rw [statusBlock, List.append_assoc]
  refine (deref_performs h.reads).read ((send_performs _ _ _).cons ?_)
  refine (sendLabels_performs h.print).seq ((sendDimensions_performs _ _ _).seq ?_)
  have hend := hq _ (h.announces (statusBlock_announces env u w.gets))
    (World.play_announces w (statusBlock_announces env u w.gets)) (World.play_gets w _)
  rw [statusBlock, World.play, play_append] at hend
  exact hend

/-- Reading the state. -/
theorem get_performs {α : Type} {q : World → Plugin α} {d : Deed} {a : α}
    (hq : Performs World.act (q w) w d a) : Performs World.act (get >>= q) w d a :=
  hq

/-- **Registration depends on the name and the replies only.** -/
theorem registerUps_performs (h : Lists w p u) :
    Performs World.act (registerUps env p) w (registerDeed env u w.dicts w.gets) () := by
  unfold registerDeed
  by_cases hu : u = []
  · rw [if_pos hu]
    refine (deref_performs h.reads).read ((perform_performs _ _).cons ?_)
    rw [if_pos hu]
    exact (Performs.throw _ _ ()).bind (e := ⟨[], none⟩) (by rintro ⟨⟩)
  · rw [if_neg hu]
    simp only [registerScript, List.append_assoc, List.cons_append, List.nil_append]
    refine (deref_performs h.reads).read ((perform_performs _ _).cons ?_)
    rw [if_neg hu]
    have hname := (h.act (a := .register u) trivial).act (a := .setName u (cleanName u)) trivial
    refine Performs.cons (perform_performs _ (.setName u (cleanName u))) ?_
    refine statusBlock_performs hname fun w' hlists hsame hgets => get_performs ?_
    have hid : w'.dicts = w.dicts := hsame.dicts
    have hgets' : w'.gets = w.gets + getsOf (statusBlock env u w.gets) := hgets
    have hcreate := hlists.act (a := .create w.dicts) trivial
    simp only [hid, registeredCharts, ← hgets']
    refine (perform_performs _ _).cons ((registerCharts_performs hcreate .empty ndCharts).seq ?_)
    have hcharts := hcreate.announces (chartsScript_announces env u ndCharts w'.gets)
    exact (deref_performs hcharts.reads).read (perform_performs _ _)

end UpsdPlugin
