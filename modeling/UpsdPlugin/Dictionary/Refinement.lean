import UpsdPlugin.Dictionary.Session

/-! Sequences of calls.

The steps of a traversal answer as the view does too. So whatever is called, in whatever order,
the code answers as the view does (`call_refines`, `calls_refine`). -/
namespace UpsdPlugin
open LinkedList
open Dictionary

variable {ν : Type} {d d' : Dictionary ν} {l l' : ItemList ν} {c : List Dictfe} {i : Nat} {x : Item ν} {k : CStr}
  {v : View ν} {s : Session ν}

/-! ### Traversing -/

theorem Dictionary.current_ok (h : Holds d l) (hi : (i, x) ∈ l) :
    d.current (some i) = .ok (some (x.name, x.value)) := by
  obtain ⟨a, b, rfl⟩ := List.append_of_mem hi
  obtain ⟨n, hread, rfl, -⟩ := read_ok h.linked.chain
  show (do let n ← d.read i; _) = _
  rw [hread]
  rfl

/-- The first visible item of a list, if there is one. -/
theorem Dictionary.first_visible (l : ItemList ν) :
    ((visible l).map Prod.snd).head? = none ∧ present l = [] ∨
      ∃ a i x b, ((visible l).map Prod.snd).head? = some i ∧ l = a ++ (i, x) :: b ∧ x.deleted = false ∧
        present l = (x.name, x.value) :: present b := by
  induction l with
  | nil => exact Or.inl ⟨rfl, rfl⟩
  | cons p l ih =>
    obtain ⟨i, x⟩ := p
    cases hx : x.deleted with
    | false =>
      refine Or.inr ⟨[], i, x, l, ?_, rfl, hx, present_cons_present hx⟩
      rw [visible_cons_present hx]
      rfl
    | true =>
      rw [visible_cons_deleted hx, present_cons_deleted hx]
      refine ih.imp_right ?_
      rintro ⟨a, j, y, b, hfirst, rfl, hy, hpresent⟩
      exact ⟨(i, x) :: a, j, y, b, hfirst, rfl, hy, hpresent⟩

/-- A traversal that has come to the first visible item of `rest`, or to the end. -/
structure Arrived (l rest : ItemList ν) (dfe : Dictfe) : Prop where
  item : ∀ i, dfe.item = some i → ∃ x, (i, x) ∈ l ∧ x.deleted = false ∧ (present rest).head? = some (x.name, x.value)
  ended : dfe.item = none → present rest = []
  ahead : ahead l dfe = (present rest).head?.map fun _ => (present rest).tail.map Prod.fst

theorem Arrived.current {rest : ItemList ν} {dfe : Dictfe} (ha : Arrived l rest dfe) (h : Holds d l) :
    d.current dfe.item = .ok (present rest).head? := by
  cases hitem : dfe.item with
  | none =>
    rw [ha.ended hitem]
    rfl
  | some i =>
    obtain ⟨x, hx, -, hfirst⟩ := ha.item i hitem
    rw [hfirst]
    exact current_ok h hx

/-- Another item is released, or the same one. -/
theorem Arrived.released {rest : ItemList ν} {dfe : Dictfe} {n : Int} (ha : Arrived l rest dfe)
    (hc : Counted (adjust i (Item.refer n) l) c) (hdfe : dfe ∈ c) (ht : Tidied (adjust i (Item.refer n) l) l') :
    Arrived l' rest dfe where
  item := by
    intro j hj
    obtain ⟨y, hy, hdeleted, hfirst⟩ := ha.item j hj
    let y' := if j = i then y.refer n else y
    have hsame : y'.name = y.name ∧ y'.value = y.value ∧ y'.deleted = y.deleted := by
      by_cases hji : j = i <;> simp [y', hji, Item.refer]
    have hmem : (j, y') ∈ adjust i (Item.refer n) l := by
      refine List.mem_map.mpr ⟨(j, y), hy, ?_⟩
      by_cases hji : j = i <;> simp [y', hji]
    refine ⟨y', ?_, hsame.2.2.trans hdeleted, ?_⟩
    · rcases ht with rfl | rfl
      · exact hmem
      · refine List.mem_filter.mpr ⟨hmem, ?_⟩
        simpa using hc.not_pending hdfe hj hmem
    · rw [hfirst, hsame.1, hsame.2.1]
  ended := ha.ended
  ahead := by
    rw [ahead_tidied hc ht hdfe, ahead_refer]
    exact ha.ahead

theorem acquire_arrives {a rest : ItemList ν} {u w : List Dictfe} (h : Holds d (a ++ rest))
    (hc : Counted (a ++ rest) (u ++ w)) (write : Bool) :
    Succeeds (acquireFrom d.bound (addrs rest).head? d) fun r =>
      Holds r.2 (acquired r.1 (a ++ rest)) ∧
        Counted (acquired r.1 (a ++ rest)) (u ++ ⟨r.1, write⟩ :: w) ∧
        Arrived (acquired r.1 (a ++ rest)) rest ⟨r.1, write⟩ := by
  have hfuel : rest.length ≤ d.bound := by
    have hlength := length_le_bound h.linked.chain
    simp at hlength
    omega
  refine (acquireFrom_spec h hfuel).imp ?_
  rintro ⟨item, d'⟩ ⟨hitem, hd'⟩
  dsimp only at hitem hd' ⊢
  obtain ⟨hfirst, hpresent⟩ | ⟨s, j, y, b, hfirst, rfl, hy, hpresent⟩ := first_visible rest
  · obtain rfl : item = none := hitem.trans hfirst
    refine ⟨hd', hc.enter ⟨none, write⟩ (by simp), ?_, fun _ => hpresent, ?_⟩
    · intro i hi
      cases hi
    · rw [hpresent]
      rfl
  · obtain rfl : item = some j := hitem.trans hfirst
    have hsplit : a ++ (s ++ (j, y) :: b) = (a ++ s) ++ (j, y) :: b := (List.append_assoc ..).symm
    rw [hsplit] at h hc hd' ⊢
    have hroster : acquired (some j) ((a ++ s) ++ (j, y) :: b) = (a ++ s) ++ (j, y.refer 1) :: b :=
      adjust_middle h.linked.chain.distinct
    refine ⟨hd', hc.enter ⟨some j, write⟩ (by simp), ?_, ?_, ?_⟩
    · intro i hi
      obtain rfl : j = i := Option.some.inj hi
      refine ⟨y.refer 1, ?_, hy, congrArg List.head? hpresent⟩
      rw [hroster]
      simp
    · intro hnone
      cases hnone
    · show some ((present (after j (acquired (some j) ((a ++ s) ++ (j, y) :: b)))).map Prod.fst) = _
      rw [hroster] at hd' ⊢
      rw [after_middle hd'.linked.chain.distinct, hpresent]
      rfl

theorem start_refines (h : Refines s v) (write : Bool) :
    Succeeds (s.call (.start write)) fun r =>
      r.1 = (v.call (.start write)).1 ∧ Refines r.2 (v.call (.start write)).2 := by
  obtain ⟨l, hholds, hcounted, hshows⟩ := h
  have hc : Counted ([] ++ l) (s.traversals ++ []) := by simpa using hcounted
  have hstart : Succeeds (s.dict.dictionaryForeachStartRw write) fun r =>
      r.1 = (present l).head? ∧ ∃ l', Holds r.2.2 l' ∧ Counted l' (s.traversals ++ [r.2.1]) ∧
        Shows l' (s.traversals ++ [r.2.1]) (v.call (.start write)).2 := by
    unfold dictionaryForeachStartRw
    rw [if_neg (by simp [hholds.usable]), hholds.linked.chain.head]
    refine Succeeds.bind (acquire_arrives (a := []) hholds hc write) ?_
    rintro ⟨item, d⟩ ⟨hd, hcounted', harrived⟩
    refine Succeeds.step (harrived.current hd) (Succeeds.ret ⟨rfl, _, hd, hcounted', ?_, ?_⟩)
    · show v.dict.items = _
      rw [hshows.items, present_acquired]
      rfl
    · have hmap : (s.traversals ++ [Dictfe.mk item write]).map (ahead (acquired item ([] ++ l))) =
          s.traversals.map (ahead l) ++ [(present l).head?.map fun _ => (present l).tail.map Prod.fst] := by
        rw [List.map_append, List.map_singleton, harrived.ahead]
        congr 1
        exact List.map_congr_left fun f _ => ahead_acquired item l f
      show v.todos ++ [v.dict.items.head?.map fun _ => (v.dict.items.map Prod.fst).tail] = _
      rw [hmap, hshows.todos, hshows.items, List.map_tail]
  refine Succeeds.bind hstart ?_
  rintro ⟨item, dfe, d⟩ ⟨hitem, l', hd, hcounted', hshows'⟩
  refine Succeeds.ret ⟨?_, l', hd, hcounted', hshows'⟩
  show Answer.item item = .item v.dict.items.head?
  rw [hshows.items]
  exact congrArg _ hitem

theorem exists_split {α : Type} {l : List α} {n : Nat} {a : α} (h : l[n]? = some a) :
    ∃ u w, l = u ++ a :: w ∧ u.length = n := by
  obtain ⟨hn, rfl⟩ := List.getElem?_eq_some_iff.mp h
  refine ⟨l.take n, l.drop (n + 1), ?_, ?_⟩
  · rw [← List.drop_eq_getElem_cons hn, List.take_append_drop]
  · rw [List.length_take]
    omega

/-- A traversal leaves the item it is at. -/
theorem leave_spec {u w : List Dictfe} {dfe : Dictfe} (h : Holds d l) (hc : Counted l (u ++ dfe :: w))
    (hi : dfe.item = some i) (write : Bool) :
    Succeeds (d.dictItemReleaseAndCheck i write) fun d' =>
      ∃ l', Tidied (adjust i (Item.refer (-1)) l) l' ∧ Holds d' l' ∧
        Counted (adjust i (Item.refer (-1)) l) (u ++ w) := by
  obtain ⟨x, hx, hpositive⟩ := hc.item (by simp) hi
  refine (releaseAndCheck_spec h hx hpositive write).imp ?_
  rintro d' ⟨l', ht, hd'⟩
  exact ⟨l', ht, hd', hc.leave hi⟩

/-- What the other traversals have ahead of them does not change. -/
theorem ahead_left {n : Int} (hc : Counted (adjust i (Item.refer n) l) c)
    (ht : Tidied (adjust i (Item.refer n) l) l') {u : List Dictfe} (hu : ∀ f ∈ u, f ∈ c) :
    u.map (ahead l') = u.map (ahead l) := by
  apply List.map_congr_left
  intro f hf
  rw [ahead_tidied hc ht (hu f hf), ahead_refer]

section Move
variable {u w : List Dictfe} {dfe : Dictfe}

theorem Shows.set_todos (hv : Shows l (u ++ dfe :: w) v) (todo : Option (List CStr)) :
    v.todos.set u.length todo = u.map (ahead l) ++ todo :: w.map (ahead l) := by
  rw [hv.todos]
  simp

theorem foreachDone_spec (h : Holds d l) (hc : Counted l (u ++ dfe :: w)) (hv : Shows l (u ++ dfe :: w) v) :
    Succeeds (d.dictionaryForeachDone dfe) fun r => ∃ l',
      Holds r.2 l' ∧ Counted l' (u ++ r.1 :: w) ∧ Shows l' (u ++ r.1 :: w) (v.call (.done u.length)).2 := by
  unfold dictionaryForeachDone
  cases hitem : dfe.item with
  | none =>
    have hdfe : dfe = ⟨none, dfe.write⟩ := by rw [← hitem]
    rw [← hdfe]
    refine Succeeds.ret ⟨l, h, hc, hv.items, ?_⟩
    show v.todos.set u.length none = _
    rw [hv.set_todos, List.map_append, List.map_cons, ahead, hitem]
    rfl
  | some i =>
    refine Succeeds.bind (leave_spec h hc hitem dfe.write) ?_
    rintro d' ⟨l', ht, hd', hleft⟩
    refine Succeeds.ret ⟨l', hd', (hleft.tidied ht).enter ⟨none, dfe.write⟩ (by simp), ?_, ?_⟩
    · show v.dict.items = _
      rw [hv.items, present_tidied ht, present_refer]
    · show v.todos.set u.length none = _
      rw [hv.set_todos, List.map_append, List.map_cons, ahead_left hleft ht (u := u) (by simp +contextual),
        ahead_left hleft ht (u := w) (by simp +contextual)]
      rfl

theorem View.next_eq (items : List (CStr × ν)) {n : Nat} (hn : v.todos[n]? = some (some (items.map Prod.fst)))
    (hsub : ∀ p ∈ items, p ∈ v.dict.items) :
    v.call (.next n) = (.item items.head?,
      {v with todos := v.todos.set n (items.head?.map fun _ => items.tail.map Prod.fst)}) := by
  cases items with
  | nil =>
    simp only [View.call, hn, List.map_nil]
    rfl
  | cons p items =>
    have hget : v.dict.get p.1 = some p.2 := OrderedDict.get_eq_some.mpr (hsub p (by simp))
    simp only [View.call, hn, List.map_cons, hget]
    rfl

theorem foreachNext_spec (h : Holds d l) (hc : Counted l (u ++ dfe :: w)) (hv : Shows l (u ++ dfe :: w) v) :
    Succeeds (d.dictionaryForeachNext dfe) fun r => .item r.1 = (v.call (.next u.length)).1 ∧ ∃ l',
      Holds r.2.2 l' ∧ Counted l' (u ++ r.2.1 :: w) ∧ Shows l' (u ++ r.2.1 :: w) (v.call (.next u.length)).2 := by
  have htodo : v.todos[u.length]? = some (ahead l dfe) := by
    rw [hv.todos]
    simp
  unfold dictionaryForeachNext
  rw [if_neg (by simp [h.usable])]
  cases hitem : dfe.item with
  | none =>
    have hdfe : dfe = ⟨none, dfe.write⟩ := by rw [← hitem]
    have hview : v.call (.next u.length) = (.item none, v) := by
      rw [ahead, hitem] at htodo
      simp only [View.call, htodo, Option.map_none]
    rw [hview, ← hdfe]
    exact Succeeds.ret ⟨rfl, l, h, hc, hv⟩
  | some i =>
    obtain ⟨x, hx, -⟩ := hc.item (by simp) hitem
    obtain ⟨a, b, rfl⟩ := List.append_of_mem hx
    have hview : v.call (.next u.length) = (.item (present b).head?,
        {v with todos := v.todos.set u.length ((present b).head?.map fun _ => (present b).tail.map Prod.fst)}) := by
      refine View.next_eq (present b) ?_ ?_
      · rw [htodo, ahead, hitem, Option.map_some, after_middle h.linked.chain.distinct]
      · intro p hp
        rw [hv.items, present_append]
        refine List.mem_append_right _ ?_
        rw [present_cons]
        split
        · exact hp
        · exact List.mem_cons_of_mem _ hp
    rw [hview]
    obtain ⟨n, hread, -, hnext⟩ := read_ok h.linked.chain
    have hsplit : a ++ (i, x) :: b = (a ++ [(i, x)]) ++ b := by simp
    rw [hsplit] at h hc hv
    refine Succeeds.step hread ?_
    rw [hnext]
    refine Succeeds.bind (acquire_arrives h hc dfe.write) ?_
    rintro ⟨item, d₁⟩ ⟨h₁, hc₁, harrived⟩
    let dfe' : Dictfe := ⟨item, dfe.write⟩
    have hc₁' : Counted (acquired item ((a ++ [(i, x)]) ++ b)) ((u ++ [dfe']) ++ dfe :: w) :=
      (List.append_assoc u [dfe'] (dfe :: w)).symm ▸ hc₁
    refine Succeeds.bind (leave_spec h₁ hc₁' hitem dfe.write) ?_
    rintro d₂ ⟨l', ht, h₂, hleft⟩
    have hself : dfe' ∈ (u ++ [dfe']) ++ w := by simp
    have harrived' : Arrived l' b dfe' := harrived.released hleft hself ht
    refine Succeeds.step (harrived'.current h₂) (Succeeds.ret ⟨rfl, l', h₂, ?_, ?_, ?_⟩)
    · exact List.append_assoc u [dfe'] w ▸ hleft.tidied ht
    · show v.dict.items = _
      rw [hv.items, present_tidied ht, present_refer, present_acquired]
    · show v.todos.set u.length _ = (u ++ dfe' :: w).map (ahead l')
      have hothers : ∀ c : List Dictfe, (∀ f ∈ c, f ∈ (u ++ [dfe']) ++ w) → c.map (ahead l') = c.map (ahead ((a ++ [(i, x)]) ++ b)) := by
        intro c hsub
        rw [ahead_left hleft ht hsub]
        exact List.map_congr_left fun f _ => ahead_acquired item _ f
      rw [hv.set_todos, List.map_append, List.map_cons, harrived'.ahead, hothers u (by simp +contextual),
        hothers w (by simp +contextual)]

end Move

/-- A call on a traversal leaves the others in their places. -/
theorem Refines.moved {u w : List Dictfe} {dfe dfe' : Dictfe} (hc : c = u ++ dfe :: w) (h : Holds d l)
    (hcounted : Counted l (u ++ dfe' :: w)) (hshows : Shows l (u ++ dfe' :: w) v) :
    Refines ⟨d, c.set u.length dfe'⟩ v := by
  have hset : c.set u.length dfe' = u ++ dfe' :: w := by simp [hc]
  rw [hset]
  exact ⟨l, h, hcounted, hshows⟩

/-- On a traversal that was never started nothing happens. -/
theorem Shows.no_todo {dfes : List Dictfe} (hv : Shows l dfes v) {n : Nat} (hn : dfes[n]? = none) : v.todos[n]? = none := by
  rw [hv.todos, List.getElem?_map, hn]
  rfl

theorem done_refines (h : Refines s v) (n : Nat) :
    Succeeds (s.call (.done n)) fun r => r.1 = (v.call (.done n)).1 ∧ Refines r.2 (v.call (.done n)).2 := by
  obtain ⟨l, hholds, hcounted, hshows⟩ := h
  cases hn : s.traversals[n]? with
  | none =>
    have htodos : v.todos.set n none = v.todos :=
      List.set_eq_of_length_le (List.getElem?_eq_none_iff.mp (hshows.no_todo hn))
    exact ⟨_, Session.call_done_none hn, rfl, l, hholds, hcounted, hshows.items, htodos.trans hshows.todos⟩
  | some dfe =>
    obtain ⟨u, w, htraversals, rfl⟩ := exists_split hn
    rw [Session.call_done hn]
    refine Succeeds.bind (foreachDone_spec hholds (htraversals ▸ hcounted) (htraversals ▸ hshows)) ?_
    rintro ⟨dfe', d⟩ ⟨l', hd, hcounted', hshows'⟩
    exact Succeeds.ret ⟨rfl, Refines.moved htraversals hd hcounted' hshows'⟩

theorem next_refines (h : Refines s v) (n : Nat) :
    Succeeds (s.call (.next n)) fun r => r.1 = (v.call (.next n)).1 ∧ Refines r.2 (v.call (.next n)).2 := by
  obtain ⟨l, hholds, hcounted, hshows⟩ := h
  cases hn : s.traversals[n]? with
  | none =>
    have hview : v.call (.next n) = (.item none, v) := by simp only [View.call, hshows.no_todo hn]
    rw [hview]
    exact ⟨_, Session.call_next_none hn, rfl, l, hholds, hcounted, hshows⟩
  | some dfe =>
    obtain ⟨u, w, htraversals, rfl⟩ := exists_split hn
    rw [Session.call_next hn]
    refine Succeeds.bind (foreachNext_spec hholds (htraversals ▸ hcounted) (htraversals ▸ hshows)) ?_
    rintro ⟨item, dfe', d⟩ ⟨hitem, l', hd, hcounted', hshows'⟩
    exact Succeeds.ret ⟨hitem, Refines.moved htraversals hd hcounted' hshows'⟩

/-! ### Any sequence of calls -/

theorem call_refines (h : Refines s v) (op : Op ν) :
    Succeeds (s.call op) fun r => r.1 = (v.call op).1 ∧ Refines r.2 (v.call op).2 := by
  cases op with
  | set k value edit => exact set_refines h k value edit
  | get k => exact get_refines h k
  | del k => exact del_refines h k
  | start write => exact start_refines h write
  | next n => exact next_refines h n
  | done n => exact done_refines h n

theorem refines_empty : Refines ({} : Session ν) {} := by
  refine ⟨[], ⟨⟨Chain.nil, by simp, by simp, rfl, rfl⟩, ⟨?_, rfl⟩, ?_, by simp, rfl, rfl, rfl⟩, ⟨by simp, by simp⟩,
    rfl, rfl⟩
  · intro k i
    simp [visible]
  · intro j hj
    exact absurd rfl hj

theorem calls_refine (h : Refines s v) (ops : List (Op ν)) :
    Succeeds (s.calls ops) fun r => r.1 = (v.calls ops).1 ∧ Refines r.2 (v.calls ops).2 := by
  induction ops generalizing s v with
  | nil => exact Succeeds.ret ⟨rfl, h⟩
  | cons op ops ih =>
    refine Succeeds.bind (call_refines h op) ?_
    rintro ⟨answer, s₁⟩ ⟨hanswer, h₁⟩
    refine Succeeds.bind (ih h₁) ?_
    rintro ⟨answers, s₂⟩ ⟨hanswers, h₂⟩
    refine Succeeds.ret ⟨?_, h₂⟩
    show answer :: answers = (v.call op).1 :: ((v.call op).2.calls ops).1
    rw [← hanswer, ← hanswers]

/-- **No call on a dictionary fails, and every answer is the one of the view**: whatever is set, read,
deleted and traversed, in whatever order and with any number of traversals under way. -/
theorem calls_answer (ops : List (Op ν)) :
    Succeeds (({} : Session ν).calls ops) fun r => r.1 = (({} : View ν).calls ops).1 := by
  apply (calls_refine refines_empty ops).imp
  intro r hr
  exact hr.1

end UpsdPlugin
