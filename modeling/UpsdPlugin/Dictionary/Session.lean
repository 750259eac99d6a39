import UpsdPlugin.Dictionary.Traversal

/-! A dictionary in use.

`Session` makes the calls of the code, and any number of traversals may be under way between
them. `View` is what the dictionary is for: an `OrderedDict`, and for each traversal the names it
still has to come to. A name that is set anew comes last, and a name that is deleted comes no
more. Getting, deleting and setting answer as the view does. -/
namespace UpsdPlugin
open LinkedList
open Dictionary (Dictfe)

inductive Op (ν : Type) where
  /-- `dictionary_set`; `edit` is what the caller then makes of the value through the pointer
  it has got. -/
  | set (name : CStr) (value : ν) (edit : ν → ν)
  | get (name : CStr)
  | del (name : CStr)
  /-- `dictionary_foreach_start_rw`, and the two calls on the traversal number `n`. -/
  | start (write : Bool)
  | next (n : Nat)
  | done (n : Nat)

inductive Answer (ν : Type) where
  /-- Whether there is a value to point to. -/
  | stored (ok : Bool)
  | value (v : Option ν)
  | deleted (found : Bool)
  /-- The item a traversal has come to. -/
  | item (p : Option (CStr × ν))
  | done

structure Session (ν : Type) where
  dict : Dictionary ν := {}
  traversals : List Dictfe := []

namespace Session
variable {ν : Type}

def call (s : Session ν) : Op ν → Except Fault (Answer ν × Session ν)
  | .set name value edit => do
    match ← s.dict.dictionarySetAdvanced name value with
    | (none, dict) => return (.stored false, {s with dict})
    | (some item, dict) =>
      let dict ← dict.write item fun x => {x with value := edit x.value}
      return (.stored true, {s with dict})
  | .get name => do
    let (value, dict) ← s.dict.dictionaryGetAdvanced name
    return (.value value, {s with dict})
  | .del name => do
    let (found, dict) ← s.dict.dictionaryDelAdvanced name
    return (.deleted found, {s with dict})
  | .start write => do
    let (item, dfe, dict) ← s.dict.dictionaryForeachStartRw write
    return (.item item, ⟨dict, s.traversals ++ [dfe]⟩)
  | .next n => do
    match s.traversals[n]? with
    | none => return (.item none, s)
    | some dfe =>
      let (item, dfe, dict) ← s.dict.dictionaryForeachNext dfe
      return (.item item, ⟨dict, s.traversals.set n dfe⟩)
  | .done n => do
    match s.traversals[n]? with
    | none => return (.done, s)
    | some dfe =>
      let (dfe, dict) ← s.dict.dictionaryForeachDone dfe
      return (.done, ⟨dict, s.traversals.set n dfe⟩)

section Traversals
variable {s : Session ν} {n : Nat} {dfe : Dictfe}

theorem call_next (h : s.traversals[n]? = some dfe) :
    s.call (.next n) = do
      let (item, dfe, dict) ← s.dict.dictionaryForeachNext dfe
      return (.item item, ⟨dict, s.traversals.set n dfe⟩) := by
  simp only [call, h]

theorem call_next_none (h : s.traversals[n]? = none) : s.call (.next n) = .ok (.item none, s) := by
  simp only [call, h]
  rfl

theorem call_done (h : s.traversals[n]? = some dfe) :
    s.call (.done n) = do
      let (dfe, dict) ← s.dict.dictionaryForeachDone dfe
      return (.done, ⟨dict, s.traversals.set n dfe⟩) := by
  simp only [call, h]

theorem call_done_none (h : s.traversals[n]? = none) : s.call (.done n) = .ok (.done, s) := by
  simp only [call, h]
  rfl

end Traversals

/-- The answers to a list of calls. -/
def calls (s : Session ν) : List (Op ν) → Except Fault (List (Answer ν) × Session ν)
  | [] => return ([], s)
  | op :: ops => do
    let (answer, s) ← s.call op
    let (answers, s) ← s.calls ops
    return (answer :: answers, s)

end Session

/-- What a dictionary is for. -/
structure View (ν : Type) where
  dict : OrderedDict CStr ν := .empty
  /-- For each traversal the names ahead of it; none if it has ended. -/
  todos : List (Option (List CStr)) := []

namespace View
variable {ν : Type}

def call (v : View ν) : Op ν → Answer ν × View ν
  | .set name value edit =>
    if name = [] then (.stored false, v)
    else
      (.stored true,
        { dict := v.dict.set name (edit value)
          todos := if name ∈ v.dict.keys then v.todos else v.todos.map (·.map (· ++ [name])) })
  | .get name => (.value (v.dict.get name), v)
  | .del name =>
    (.deleted (name ∈ v.dict.keys),
      { dict := v.dict.del name
        todos := v.todos.map (·.map (·.filter (· ≠ name))) })
  | .start _ =>
    (.item v.dict.items.head?,
      {v with todos := v.todos ++ [v.dict.items.head?.map fun _ => v.dict.keys.tail]})
  | .next n =>
    match v.todos[n]? with
    | some (some (name :: rest)) =>
      (.item ((v.dict.get name).map (name, ·)), {v with todos := v.todos.set n (some rest)})
    | some (some []) => (.item none, {v with todos := v.todos.set n none})
    | _ => (.item none, v)
  | .done n => (.done, {v with todos := v.todos.set n none})

def calls (v : View ν) : List (Op ν) → List (Answer ν) × View ν
  | [] => ([], v)
  | op :: ops =>
    let (answer, v) := v.call op
    let (answers, v) := v.calls ops
    (answer :: answers, v)

end View

/-! ### The relation between the two -/

section Refinement
open Dictionary
variable {ν : Type} {d d' : Dictionary ν} {l l' : ItemList ν} {c : List Dictfe} {i : Nat} {x : Item ν} {k : CStr}
  {v : View ν} {s : Session ν}

/-- What the items and the traversals look like from outside. -/
structure Shows (l : ItemList ν) (c : List Dictfe) (v : View ν) : Prop where
  items : v.dict.items = present l
  todos : v.todos = c.map (ahead l)

def Refines (s : Session ν) (v : View ν) : Prop :=
  ∃ l, Holds s.dict l ∧ Counted l s.traversals ∧ Shows l s.traversals v

theorem Shows.dict (hv : Shows l c v) (h : Holds d l) : v.dict = h.dict := OrderedDict.ext hv.items

theorem Shows.tidied (hv : Shows l c v) (hc : Counted l c) (ht : Tidied l l') : Shows l' c v where
  items := hv.items.trans (present_tidied ht).symm
  todos := by
    rw [hv.todos]
    apply List.map_congr_left
    intro f hf
    exact (ahead_tidied hc ht hf).symm

theorem Shows.mem_keys (hv : Shows l c v) (h : Holds d l) : k ∈ v.dict.keys ↔ ∃ i, d.index k = some i := by
  rw [← not_iff_not, ← OrderedDict.get_eq_none, hv.dict h]
  constructor
  · rintro hnone ⟨i, hi⟩
    obtain ⟨a, x, b, rfl, rfl, hx⟩ := h.place hi
    rw [h.get_of_index hx] at hnone
    cases hnone
  · intro hnone
    refine h.get_of_absent (Option.eq_none_iff_forall_ne_some.mpr ?_)
    intro i hi
    exact hnone ⟨i, hi⟩

/-- The index finds a name at one item only. -/
theorem Dictionary.Holds.unique (h : Holds d l) (hk : d.index k = some i) :
    ∀ p ∈ l, p.2.deleted = false → (p.2.name = k ↔ p.1 = i) := by
  intro p hp hdeleted
  have hindex : d.index p.2.name = some p.1 := (h.indexed.index _ _).mpr (mem_visible.mpr ⟨p.2, hp, rfl, hdeleted⟩)
  constructor
  · rintro rfl
    exact Option.some.inj (hindex.symm.trans hk)
  · intro hpi
    obtain ⟨a, x, b, rfl, hname, -⟩ := h.place hk
    have hitem : p = (i, x) := List.inj_on_of_nodup_map h.linked.chain.distinct hp (by simp) hpi
    rw [hitem, hname]

/-! ### Getting and deleting -/

theorem get_refines (h : Refines s v) (k : CStr) :
    Succeeds (s.call (.get k)) fun r => r.1 = (v.call (.get k)).1 ∧ Refines r.2 (v.call (.get k)).2 := by
  obtain ⟨l, hholds, hcounted, hshows⟩ := h
  refine Succeeds.bind (get_spec hholds k) ?_
  rintro ⟨value, d⟩ ⟨hvalue, hd⟩
  refine Succeeds.ret ⟨?_, l, hd, hcounted, hshows⟩
  show Answer.value value = .value (v.dict.get k)
  rw [hshows.dict hholds]
  exact congrArg _ hvalue

/-- A name that is not there comes up nowhere. -/
theorem Shows.filter_absent (hv : Shows l c v) (hk : k ∉ v.dict.keys) :
    v.dict.del k = v.dict ∧ v.todos.map (·.map (·.filter (· ≠ k))) = v.todos := by
  have hnames : k ∉ (present l).map Prod.fst := by
    rw [← hv.items]
    exact hk
  constructor
  · apply OrderedDict.ext
    apply List.filter_eq_self.mpr
    intro p hp
    have hne : p.1 ≠ k := fun heq => hk (heq ▸ List.mem_map_of_mem hp)
    simpa using hne
  · rw [hv.todos, List.map_map]
    apply List.map_congr_left
    intro f _
    show (ahead l f).map (·.filter (· ≠ k)) = ahead l f
    unfold ahead
    rw [Option.map_map]
    congr 1
    funext j
    apply List.filter_eq_self.mpr
    intro name hname
    have hne : name ≠ k := by
      rintro rfl
      have hsub := (((after_sublist j l).filter (!·.2.deleted)).map fun p => (p.2.name, p.2.value)).map Prod.fst
      exact hnames (hsub.mem hname)
    simpa using hne

/-- Deleting a name that is there marks its item or frees it. -/
theorem Dictionary.del_found (h : Holds d l) (hk : d.index k = some i) :
    Succeeds (d.dictionaryDelAdvanced k) fun r =>
      r.1 = true ∧ ∃ l', Tidied (adjust i Item.mark l) l' ∧ Holds r.2 l' := by
  obtain ⟨a, x, b, rfl, rfl, hx⟩ := h.place hk
  rw [adjust_middle h.linked.chain.distinct]
  by_cases hcount : x.refcount = 0
  · refine (del_unreferenced h hk hx hcount).imp ?_
    rintro r ⟨hfound, hr⟩
    refine ⟨hfound, _, Or.inr (kept_drop ?_).symm, hr⟩
    simp [Item.pending, Item.mark, hcount]
  · have hpositive : 0 < x.refcount := by
      have hrefcount := h.linked.refcount
      omega
    refine (del_referenced h hk hx hpositive).imp ?_
    rintro r ⟨hfound, hr⟩
    exact ⟨hfound, _, Or.inl rfl, hr⟩

theorem Shows.mark (hv : Shows l c v) (h : Holds d l) (hk : d.index k = some i) :
    Shows (adjust i Item.mark l) c (v.call (.del k)).2 where
  items := by
    show v.dict.items.filter _ = _
    rw [hv.items, present_mark (h.unique hk)]
  todos := by
    show v.todos.map _ = _
    rw [hv.todos, List.map_map]
    apply List.map_congr_left
    intro f _
    show (ahead l f).map (·.filter (· ≠ k)) = ahead (adjust i Item.mark l) f
    unfold ahead
    rw [Option.map_map]
    congr 1
    funext j
    have hunique : ∀ p ∈ after j l, p.2.deleted = false → (p.2.name = k ↔ p.1 = i) :=
      fun p hp => h.unique hk p ((after_sublist j l).mem hp)
    rw [after_adjust, present_mark hunique]
    exact List.filter_map ..

theorem del_refines (h : Refines s v) (k : CStr) :
    Succeeds (s.call (.del k)) fun r => r.1 = (v.call (.del k)).1 ∧ Refines r.2 (v.call (.del k)).2 := by
  obtain ⟨l, hholds, hcounted, hshows⟩ := h
  have hmem := hshows.mem_keys hholds (k := k)
  by_cases hk : k ∈ v.dict.keys
  · obtain ⟨i, hi⟩ := hmem.mp hk
    refine Succeeds.bind (del_found hholds hi) ?_
    rintro ⟨found, d⟩ ⟨rfl, l', ht, hd⟩
    have hcounted' : Counted (adjust i Item.mark l) s.traversals := hcounted.adjust fun _ => rfl
    refine Succeeds.ret ⟨?_, l', hd, hcounted'.tidied ht, (hshows.mark hholds hi).tidied hcounted' ht⟩
    show Answer.deleted true = .deleted (decide (k ∈ v.dict.keys))
    rw [decide_eq_true hk]
  · have hnone : s.dict.index k = none := by
      refine Option.eq_none_iff_forall_ne_some.mpr ?_
      intro i hi
      exact hk (hmem.mpr ⟨i, hi⟩)
    refine Succeeds.step (del_absent hholds (Or.inr hnone)) (Succeeds.ret ⟨?_, ?_⟩)
    · show Answer.deleted false = .deleted (decide (k ∈ v.dict.keys))
      rw [decide_eq_false hk]
    · obtain ⟨hdel, htodos⟩ := hshows.filter_absent hk
      refine ⟨l, hholds, hcounted, ?_, ?_⟩
      · show (v.dict.del k).items = _
        rw [hdel]
        exact hshows.items
      · exact htodos.trans hshows.todos

/-! ### Setting -/

theorem Dictionary.write_value (h : Holds d l) (hi : (i, x) ∈ l) (edit : ν → ν) :
    Succeeds (d.write i fun x => {x with value := edit x.value}) fun d' =>
      Holds d' (adjust i (fun x => x.put (edit x.value)) l) := by
  obtain ⟨a, b, rfl⟩ := List.append_of_mem hi
  refine ⟨_, write_ok h.linked.chain _, ?_⟩
  rw [adjust_middle h.linked.chain.distinct]
  have hwritten := h.linked.write (f := fun x => {x with value := edit x.value}) (p := d.pendingDeletionItems)
    (r := d.referencedItems) h.linked.refcount (h.linked.created (i, x) (by simp)) rfl rfl
  exact h.item hwritten (same_write d i _ _ _ mem_addrs_middle) rfl rfl

/-- Setting a name that is there changes the value of its item. -/
theorem set_found (h : Holds s.dict l) (hc : Counted l s.traversals) (hv : Shows l s.traversals v)
    (hk : s.dict.index k = some i) (value : ν) (edit : ν → ν) :
    Succeeds (s.call (.set k value edit)) fun r =>
      r.1 = (v.call (.set k value edit)).1 ∧ Refines r.2 (v.call (.set k value edit)).2 := by
  have hmem : k ∈ v.dict.keys := (hv.mem_keys h).mpr ⟨i, hk⟩
  obtain ⟨a, x, b, rfl, rfl, hx⟩ := h.place hk
  have hdistinct := h.linked.chain.distinct
  have hname : x.name ≠ [] := h.named (i, x) (by simp)
  refine Succeeds.bind (set_present h hk hx value) ?_
  rintro ⟨item, d₁⟩ ⟨rfl, h₁⟩
  refine Succeeds.bind (write_value h₁ (x := {x with value := value}) (by simp) edit) ?_
  intro d₂ h₂
  have hroster : adjust i (fun x => x.put (edit x.value)) (a ++ (i, {x with value := value}) :: b) =
      adjust i (Item.put (edit value)) (a ++ (i, x) :: b) := by
    rw [adjust_middle h₁.linked.chain.distinct, adjust_middle hdistinct]
    rfl
  rw [hroster] at h₂
  have hview : v.call (.set x.name value edit) =
      (.stored true, {dict := v.dict.set x.name (edit value), todos := v.todos}) := by
    show (if x.name = [] then _ else _) = _
    rw [if_neg hname, if_pos hmem]
  rw [hview]
  refine Succeeds.ret ⟨rfl, _, h₂, hc.adjust fun _ => rfl, ?_, ?_⟩
  · show OrderedDict.put x.name (edit value) v.dict.items = _
    rw [hv.items, adjust_middle hdistinct, present_append, present_append, present_cons_present hx,
      present_cons_present (x := x.put (edit value)) hx]
    refine OrderedDict.put_middle ?_
    have hnames := h.present_distinct
    rw [present_append, present_cons_present hx, List.map_append, List.map_cons] at hnames
    have hnot := (List.nodup_cons.mp (List.nodup_middle.mp hnames)).1
    exact fun hmem => hnot (List.mem_append_left _ hmem)
  · show v.todos = _
    rw [hv.todos]
    apply List.map_congr_left
    intro f _
    unfold ahead
    congr 1
    funext j
    rw [after_adjust]
    exact (names_adjust (f := Item.put (edit value)) (fun _ => ⟨rfl, rfl⟩) i _).symm

/-- A new name comes last, in the dictionary and in every traversal. -/
theorem set_new (h : Holds s.dict l) (hc : Counted l s.traversals) (hv : Shows l s.traversals v)
    (hname : k ≠ []) (hk : s.dict.index k = none) (value : ν) (edit : ν → ν) :
    Succeeds (s.call (.set k value edit)) fun r =>
      r.1 = (v.call (.set k value edit)).1 ∧ Refines r.2 (v.call (.set k value edit)).2 := by
  have hmem : k ∉ v.dict.keys := by
    rw [hv.mem_keys h, hk]
    rintro ⟨i, hi⟩
    cases hi
  refine Succeeds.bind (set_absent h hname hk value) ?_
  rintro ⟨item, d₁⟩ ⟨rfl, h₁⟩
  refine Succeeds.bind (write_value h₁ (List.mem_append_right _ (List.mem_singleton_self _)) edit) ?_
  intro d₂ h₂
  rw [adjust_middle h₁.linked.chain.distinct] at h₂
  have hview : v.call (.set k value edit) = (.stored true,
      {dict := v.dict.set k (edit value), todos := v.todos.map (·.map (· ++ [k]))}) := by
    show (if k = [] then _ else _) = _
    rw [if_neg hname, if_neg hmem]
  rw [hview]
  have hout : s.dict.memory.next ∉ addrs (kept l) := (not_mem_of_nodup h₁.linked.chain.distinct).1
  refine Succeeds.ret ⟨rfl, _, h₂, hc.kept.append hout rfl, ?_, ?_⟩
  · show OrderedDict.put k (edit value) v.dict.items = _
    rw [OrderedDict.put_of_not_mem hmem, hv.items, present_append, present_kept]
    rfl
  · show v.todos.map _ = _
    rw [hv.todos, List.map_map]
    apply List.map_congr_left
    intro f hf
    show (ahead l f).map (· ++ [k]) = ahead (kept l ++ [(s.dict.memory.next, _)]) f
    rw [← ahead_tidied hc (Or.inr rfl) hf]
    unfold ahead
    cases hitem : f.item with
    | none => rfl
    | some j =>
      have hj := hc.kept.placed f hf j hitem
      simp only [Option.map_some, after_append hj, present_append, List.map_append]
      rfl

theorem set_refines (h : Refines s v) (k : CStr) (value : ν) (edit : ν → ν) :
    Succeeds (s.call (.set k value edit)) fun r =>
      r.1 = (v.call (.set k value edit)).1 ∧ Refines r.2 (v.call (.set k value edit)).2 := by
  by_cases hname : k = []
  · have hset : s.dict.dictionarySetAdvanced k value = .ok (none, s.dict) := if_pos hname
    have hview : v.call (.set k value edit) = (.stored false, v) := if_pos hname
    rw [hview]
    exact Succeeds.step hset (Succeeds.ret ⟨rfl, h⟩)
  obtain ⟨l, hholds, hcounted, hshows⟩ := h
  cases hk : s.dict.index k with
  | some i => exact set_found hholds hcounted hshows hk value edit
  | none => exact set_new hholds hcounted hshows hname hk value edit

end Refinement

end UpsdPlugin
