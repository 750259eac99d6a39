import UpsdPlugin.Dictionary.Refinement

/-! The lifetime of items.

What is allocated is what the list holds, so the cells can be counted: those of the items a
caller sees, those of the deleted items that wait for the collector, and those of the deleted
items at which a traversal still is. Destroying a dictionary that no traversal is in frees
them all.

Flushing walks the list while it deletes. It is safe when nothing in the list is deleted yet
(`flushFrom_spec`), and not in general: the deletion of an item runs the collector, which may
free the item the walk goes to next. -/
namespace UpsdPlugin
open LinkedList
open Dictionary

variable {ν : Type} {d d' : Dictionary ν} {l a b : ItemList ν} {c : List Dictfe} {i j : Nat} {x y : Item ν} {k : CStr}

/-! ### Counting -/

/-- How many cells are allocated. -/
def Dictionary.live (d : Dictionary ν) : Nat := (List.range d.memory.next).countP fun j => (d.memory.cell j).isSome

/-- How many traversals are at an item. -/
def Session.underWay (s : Session ν) : Nat := (s.traversals.filterMap (·.item)).length

theorem Dictionary.Holds.live_eq (h : Holds d l) : d.live = l.length := by
  have hperm : ((List.range d.memory.next).filter fun j => (d.memory.cell j).isSome).Perm (addrs l) := by
    refine (List.perm_ext_iff_of_nodup (List.nodup_range.filter _) h.linked.chain.distinct).mpr ?_
    intro j
    rw [List.mem_filter, List.mem_range]
    constructor
    · intro hj
      exact h.reachable j (Option.isSome_iff_ne_none.mp hj.2)
    · intro hj
      obtain ⟨a, x, b, rfl⟩ := exists_place hj
      have hcell := h.linked.chain.cell a j x b rfl
      exact ⟨Heap.lt_next hcell, Heap.live_of_cell hcell⟩
  rw [live, List.countP_eq_length_filter, hperm.length_eq]
  exact List.length_map _

/-- The deleted items that are still referenced. -/
def detached (l : ItemList ν) : ItemList ν := l.filter fun p => p.2.deleted && p.2.refcount ≠ 0

/-- An item is visible, or pending, or detached. -/
theorem length_eq (l : ItemList ν) :
    l.length = (visible l).length + l.countP (·.2.pending) + (detached l).length := by
  induction l with
  | nil => rfl
  | cons p l ih =>
    obtain ⟨i, x⟩ := p
    rw [List.length_cons, List.countP_cons]
    cases hx : x.deleted with
    | false =>
      have hpending : x.pending = false := by simp [Item.pending, hx]
      have hdetached : detached ((i, x) :: l) = detached l := by simp [detached, hx]
      rw [visible_cons_present hx, hdetached, hpending, List.length_cons, if_neg Bool.false_ne_true]
      omega
    | true =>
      rw [visible_cons_deleted hx]
      by_cases hcount : x.refcount = 0
      · have hpending : x.pending = true := by simp [Item.pending, hx, hcount]
        have hdetached : detached ((i, x) :: l) = detached l := by simp [detached, hcount]
        rw [hdetached, hpending, if_pos rfl]
        omega
      · have hpending : x.pending = false := by simp [Item.pending, hcount]
        have hdetached : detached ((i, x) :: l) = (i, x) :: detached l := by simp [detached, hx, hcount]
        rw [hdetached, hpending, if_neg Bool.false_ne_true, List.length_cons]
        omega

/-- At every detached item there is a traversal. -/
theorem Dictionary.Counted.detached_le (hc : Counted l c) (hdistinct : (addrs l).Nodup) :
    (detached l).length ≤ (c.filterMap (·.item)).length := by
  have hnodup : (addrs (detached l)).Nodup := hdistinct.sublist (List.filter_sublist.map _)
  have hsub : addrs (detached l) ⊆ c.filterMap (·.item) := by
    intro j hj
    obtain ⟨p, hp, rfl⟩ := List.mem_map.mp hj
    rw [detached, List.mem_filter] at hp
    have hcount := hc.count p hp.1
    have hne : p.2.refcount ≠ 0 := by simpa using (Bool.and_eq_true_iff.mp hp.2).2
    have hpositive : 0 < visitors c p.1 := by omega
    obtain ⟨f, hf, hitem⟩ := List.countP_pos_iff.mp hpositive
    exact List.mem_filterMap.mpr ⟨f, hf, by simpa using hitem⟩
  simpa [addrs] using (List.subperm_of_subset hnodup hsub).length_le

/-- **No cell is lost.** What is allocated beyond the items a caller sees is counted as
pending, or there is a traversal for it. -/
theorem cells_accounted (ops : List (Op ν)) :
    Succeeds (({} : Session ν).calls ops) fun r =>
      r.2.dict.entries = (({} : View ν).calls ops).2.dict.items.length ∧
        r.2.dict.entries + r.2.dict.pendingDeletionItems ≤ r.2.dict.live ∧
        r.2.dict.live ≤ r.2.dict.entries + r.2.dict.pendingDeletionItems + r.2.underWay := by
  refine (calls_refine refines_empty ops).imp ?_
  rintro ⟨answers, s⟩ ⟨-, l, hholds, hcounted, hshows⟩
  have hentries := hholds.indexed.entries
  have hpending := hholds.linked.pending
  have hlength := length_eq l
  have hdetached : (detached l).length ≤ s.underWay := hcounted.detached_le hholds.linked.chain.distinct
  dsimp only at hholds hentries hpending ⊢
  rw [hholds.live_eq]
  refine ⟨?_, by omega, by omega⟩
  rw [hentries, hshows.items]
  simp [visible, present]

/-! ### Collecting -/

/-- A deletion under a traversal, which leaves an item to the collector. -/
def parted : List (Op Nat) :=
  [.set ['a'] 1 id, .set ['b'] 2 id, .start false, .next 0, .del ['b'], .done 0]

theorem kept_none_pending (l : ItemList ν) : (kept l).countP (·.2.pending) = 0 := by
  refine List.countP_eq_zero.mpr ?_
  intro p hp
  simpa using (List.mem_filter.mp hp).2

/-- **Deleted items do not pile up**: when a new name is set, all that are left are those a
traversal is at. -/
theorem insertion_collects (ops : List (Op ν)) (v : ν) (edit : ν → ν) (hk : k ≠ [])
    (hnew : k ∉ (({} : View ν).calls ops).2.dict.keys) :
    Succeeds (({} : Session ν).calls ops) fun r =>
      Succeeds (r.2.call (.set k v edit)) fun q => q.2.dict.pendingDeletionItems = 0 := by
  refine (calls_refine refines_empty ops).imp ?_
  rintro ⟨answers, s⟩ ⟨-, l, hholds, hcounted, hshows⟩
  have hindex : s.dict.index k = none := by
    refine Option.eq_none_iff_forall_ne_some.mpr ?_
    intro i hi
    exact hnew ((hshows.mem_keys hholds).mpr ⟨i, hi⟩)
  refine Succeeds.bind (set_absent hholds hk hindex v) ?_
  rintro ⟨item, d₁⟩ ⟨rfl, h₁⟩
  refine Succeeds.bind (write_value h₁ (List.mem_append_right _ (List.mem_singleton_self _)) edit) ?_
  intro d₂ h₂
  rw [adjust_middle h₁.linked.chain.distinct] at h₂
  refine Succeeds.ret ?_
  show d₂.pendingDeletionItems = 0
  rw [h₂.linked.pending, List.countP_append, kept_none_pending]
  rfl

theorem parted_collected :
    Succeeds (({} : Session Nat).calls parted) fun r =>
      Succeeds (r.2.call (.set ['c'] 3 id)) fun q => q.2.dict.pendingDeletionItems = 0 :=
  insertion_collects parted 3 id (by decide) (by decide)

/-! ### Destroying -/

/-- The walk over the list frees every item of it once, and nothing else. -/
theorem freeFrom_spec {fuel : Nat} (hdistinct : (addrs l).Nodup)
    (hcell : ∀ a i x b, l = a ++ (i, x) :: b → ∃ n, d.memory.cell i = some n ∧ n.next = (addrs b).head?)
    (hfuel : l.length ≤ fuel) :
    Succeeds (freeFrom fuel (addrs l).head? d) fun d' =>
      (∀ j ∈ addrs l, d'.memory.cell j = none) ∧ ∀ j, j ∉ addrs l → d'.memory.cell j = d.memory.cell j := by
  induction l generalizing d fuel with
  | nil =>
    refine ⟨d, by cases fuel <;> rfl, by simp, fun j _ => rfl⟩
  | cons p l ih =>
    obtain ⟨i, x⟩ := p
    obtain ⟨fuel, rfl⟩ : ∃ k, fuel = k + 1 := ⟨fuel - 1, by simp at hfuel; omega⟩
    rw [addrs_cons, List.nodup_cons] at hdistinct
    obtain ⟨n, hi, hnext⟩ := hcell [] i x l rfl
    have hfree : Succeeds (d.dictItemFreeWithHooks i) fun d' => d'.memory = d.memory.erase i := by
      cases hn : n.data.deleted with
      | true => exact ⟨_, free_deleted hi hn, rfl⟩
      | false => exact ⟨_, free_present hi hn, rfl⟩
    refine Succeeds.step (Heap.read_ok hi) (Succeeds.bind hfree ?_)
    intro d₁ hmemory
    rw [hnext]
    have hother : ∀ j, j ≠ i → d₁.memory.cell j = d.memory.cell j := by
      intro j hj
      rw [hmemory]
      exact if_neg hj
    have hcell₁ : ∀ a j y b, l = a ++ (j, y) :: b → ∃ n, d₁.memory.cell j = some n ∧ n.next = (addrs b).head? := by
      rintro a j y b rfl
      have hne : j ≠ i := by
        rintro rfl
        exact hdistinct.1 (by simp)
      rw [hother j hne]
      exact hcell ((i, x) :: a) j y b rfl
    refine (ih hdistinct.2 hcell₁ (by simpa using hfuel)).imp ?_
    rintro d' ⟨hfreed, hsame⟩
    constructor
    · intro j hj
      rcases List.mem_cons.mp hj with rfl | hj
      · rw [hsame j hdistinct.1, hmemory]
        exact if_pos rfl
      · exact hfreed j hj
    · intro j hj
      rw [addrs_cons, List.mem_cons, not_or] at hj
      rw [hsame j hj.2, hother j hj.1]

theorem Dictionary.Counted.unreferenced (hc : Counted l c) (hended : ∀ f ∈ c, f.item = none) :
    l.countP (·.2.referenced) = 0 := by
  refine List.countP_eq_zero.mpr ?_
  intro p hp hreferenced
  have hzero : visitors c p.1 = 0 := by
    refine List.countP_eq_zero.mpr ?_
    intro f hf
    simp [hended f hf]
  have hcount := hc.count p hp
  simp only [Item.referenced, decide_eq_true_eq] at hreferenced
  omega

/-- A dictionary without references is freed, with everything in it. -/
theorem destroy_spec (h : Holds d l) (hcount : l.countP (·.2.referenced) = 0) :
    Succeeds d.dictionaryDestroy fun r => r.1 = true ∧ ∀ j, r.2.memory.cell j = none := by
  have hreferenced : d.referencedItems = 0 := by
    rw [h.linked.referenced, hcount]
    rfl
  have hitems : d.dictionaryReferencedItems = .ok 0 := by
    unfold dictionaryReferencedItems
    rw [hreferenced]
    rfl
  refine Succeeds.step hitems ?_
  rw [if_pos rfl]
  have hcell : ∀ a i x b, l = a ++ (i, x) :: b → ∃ n, d.memory.cell i = some n ∧ n.next = (addrs b).head? :=
    fun a i x b hl => ⟨_, h.linked.chain.cell a i x b hl, rfl⟩
  have hfree : Succeeds d.dictionaryFreeAllResources fun d' => ∀ j, d'.memory.cell j = none := by
    have hwalk := freeFrom_spec (d := {d with index := fun _ => none}) h.linked.chain.distinct hcell
      (length_le_bound h.linked.chain)
    rw [← h.linked.chain.head] at hwalk
    refine Succeeds.bind hwalk ?_
    rintro d' ⟨hfreed, hsame⟩
    refine Succeeds.ret ?_
    intro j
    by_cases hj : j ∈ addrs l
    · exact hfreed j hj
    · by_contra hlive
      exact hj (h.reachable j (hsame j hj ▸ hlive))
  refine Succeeds.bind hfree ?_
  intro d' hd'
  exact Succeeds.ret ⟨rfl, hd'⟩

/-- A dictionary that no traversal is in is freed. -/
theorem Refines.destroy {s : Session ν} {v : View ν} (h : Refines s v) (hended : ∀ todo ∈ v.todos, todo = none) :
    Succeeds s.dict.dictionaryDestroy fun r => r.1 = true ∧ ∀ j, r.2.memory.cell j = none := by
  obtain ⟨l, hholds, hcounted, hshows⟩ := h
  refine destroy_spec hholds (hcounted.unreferenced ?_)
  intro f hf
  have htodo : ahead l f = none := by
    apply hended
    rw [hshows.todos]
    exact List.mem_map_of_mem hf
  exact Option.map_eq_none_iff.mp htodo

/-- **After the last traversal has ended, destroying the dictionary frees every cell**, those of
deleted items included. -/
theorem destroy_frees_all (ops : List (Op ν)) (hended : ∀ todo ∈ (({} : View ν).calls ops).2.todos, todo = none) :
    Succeeds (({} : Session ν).calls ops) fun r =>
      Succeeds r.2.dict.dictionaryDestroy fun q => q.1 = true ∧ ∀ j, q.2.memory.cell j = none := by
  apply (calls_refine refines_empty ops).imp
  intro r hr
  exact hr.2.destroy hended

theorem parted_destroyed :
    Succeeds (({} : Session Nat).calls parted) fun r =>
      Succeeds r.2.dict.dictionaryDestroy fun q => q.1 = true ∧ ∀ j, q.2.memory.cell j = none :=
  destroy_frees_all parted (by decide)

/-! ### Flushing -/

/-- What is left of items that are all deleted: those that are referenced, marked. -/
def held (l : ItemList ν) : ItemList ν := (l.filter (·.2.referenced)).map fun p => (p.1, p.2.mark)

theorem held_pending (l : ItemList ν) : ∀ p ∈ held l, p.2.pending = false := by
  intro p hp
  obtain ⟨q, hq, rfl⟩ := List.mem_map.mp hp
  have hreferenced := (List.mem_filter.mp hq).2
  simp only [Item.referenced, decide_eq_true_eq] at hreferenced
  have hne : q.2.refcount ≠ 0 := by omega
  simp [Item.pending, Item.mark, hne]

theorem present_held {m : ItemList ν} (hsub : m.Sublist (held l)) : present m = [] := by
  unfold present
  rw [List.map_eq_nil_iff, List.filter_eq_nil_iff]
  intro p hp
  obtain ⟨q, -, rfl⟩ := List.mem_map.mp (hsub.mem hp)
  simp [Item.mark]

theorem Dictionary.Counted.held (hc : Counted l c) : Counted (held l) c where
  placed := by
    intro f hf i hi
    obtain ⟨x, hx, hpositive⟩ := hc.item hf hi
    refine List.mem_map.mpr ⟨(i, x.mark), List.mem_map.mpr ⟨(i, x), ?_, rfl⟩, rfl⟩
    exact List.mem_filter.mpr ⟨hx, by simpa [Item.referenced] using hpositive⟩
  count := by
    intro p hp
    obtain ⟨q, hq, rfl⟩ := List.mem_map.mp hp
    exact hc.count q (List.mem_of_mem_filter hq)

/-- When nothing ahead of the walk is deleted, each deletion is of the item the walk is at. -/
theorem flushFrom_spec {done rest : ItemList ν} {fuel : Nat} (h : Holds d (done ++ rest))
    (hdone : ∀ p ∈ done, p.2.pending = false) (hrest : ∀ p ∈ rest, p.2.deleted = false) (hfuel : rest.length ≤ fuel) :
    Succeeds (flushFrom fuel (addrs rest).head? d) fun d' => Holds d' (done ++ held rest) := by
  induction rest generalizing d done fuel with
  | nil => exact ⟨d, by cases fuel <;> rfl, h⟩
  | cons p rest ih =>
    obtain ⟨i, x⟩ := p
    obtain ⟨fuel, rfl⟩ : ∃ k, fuel = k + 1 := ⟨fuel - 1, by simp at hfuel; omega⟩
    have hfuel' : rest.length ≤ fuel := by simpa using hfuel
    rw [List.forall_mem_cons] at hrest
    have hx : x.deleted = false := hrest.1
    obtain ⟨n, hread, rfl, hnext⟩ := read_ok h.linked.chain
    have hindex : d.index n.data.name = some i := (h.indexed.index _ _).mpr (mem_visible.mpr ⟨n.data, by simp, rfl, hx⟩)
    have hdel : d.dictionaryDelAdvanced n.data.name = d.dictItemDel n.data.name := by
      unfold dictionaryDelAdvanced
      rw [if_neg (h.named (i, n.data) (by simp)), if_neg (by simp [h.usable])]
    refine Succeeds.step hread ?_
    rw [← hdel, hnext]
    by_cases hcount : n.data.refcount = 0
    · refine Succeeds.bind (del_unreferenced h hindex hx hcount) ?_
      rintro ⟨found, d₁⟩ ⟨-, h₁⟩
      have hkept : kept (done ++ rest) = done ++ rest := by
        refine kept_eq_self (List.forall_mem_append.mpr ⟨hdone, ?_⟩)
        intro p hp
        simp [Item.pending, hrest.2 p hp]
      have hheld : held ((i, n.data) :: rest) = held rest := by simp [held, Item.referenced, hcount]
      rw [hkept] at h₁
      rw [hheld]
      exact ih h₁ hdone hrest.2 hfuel'
    · have hpositive : 0 < n.data.refcount := by
        have hrefcount := h.linked.refcount
        omega
      refine Succeeds.bind (del_referenced h hindex hx hpositive) ?_
      rintro ⟨found, d₁⟩ ⟨-, h₁⟩
      have hheld : held ((i, n.data) :: rest) = (i, n.data.mark) :: held rest := by
        simp [held, Item.referenced, hpositive]
      have hsplit : ∀ r, done ++ (i, n.data.mark) :: r = (done ++ [(i, n.data.mark)]) ++ r := by simp
      rw [hheld, hsplit]
      refine ih ?_ ?_ hrest.2 hfuel'
      · rw [← hsplit]
        exact h₁
      · refine List.forall_mem_append.mpr ⟨hdone, List.forall_mem_singleton.mpr ?_⟩
        simp [Item.pending, Item.mark, hcount]

/-- A dictionary with as many cells as entries has no deleted items. -/
theorem Dictionary.Holds.none_deleted (h : Holds d l) (hclean : d.entries = d.live) : ∀ p ∈ l, p.2.deleted = false := by
  have hlength := length_eq l
  have hentries := h.indexed.entries
  rw [hclean, h.live_eq] at hentries
  have hvisible : (l.filter (!·.2.deleted)).length = l.length := by
    have hmap : (visible l).length = (l.filter (!·.2.deleted)).length := List.length_map _
    omega
  intro p hp
  have hall := List.length_filter_eq_length_iff.mp hvisible p hp
  simpa using hall

/-- **Flushing a dictionary in which nothing is deleted yet empties it**, and the traversals under
way come to nothing more. -/
theorem flush_empties {answers : List (Answer ν)} {s : Session ν} (ops : List (Op ν))
    (hs : ({} : Session ν).calls ops = .ok (answers, s)) (hclean : s.dict.entries = s.dict.live) :
    Succeeds s.dict.dictionaryFlush fun d =>
      Refines ⟨d, s.traversals⟩ ⟨.empty, (({} : View ν).calls ops).2.todos.map (·.map fun _ => [])⟩ := by
  obtain ⟨r, hr, -, hrefines⟩ := calls_refine refines_empty ops
  obtain rfl : (answers, s) = r := Except.ok.inj (hs.symm.trans hr)
  obtain ⟨l, hholds, hcounted, hshows⟩ := hrefines
  have hpresent := hholds.none_deleted hclean
  have hstart : Holds s.dict ([] ++ l) := hholds
  have hwalk := flushFrom_spec hstart (by simp) hpresent (length_le_bound hholds.linked.chain)
  rw [← hholds.linked.chain.head] at hwalk
  refine Succeeds.bind hwalk ?_
  intro d₁ h₁
  refine (garbageCollect_spec h₁.linked).imp ?_
  intro d₂ h₂
  have hkept : kept (held l) = held l := kept_eq_self (held_pending l)
  refine ⟨held l, hkept ▸ h₁.collected h₂, hcounted.held, (present_held (List.Sublist.refl _)).symm, ?_⟩
  show (({} : View ν).calls ops).2.todos.map _ = _
  rw [hshows.todos, List.map_map]
  apply List.map_congr_left
  intro f _
  show (ahead l f).map (fun _ => []) = ahead (held l) f
  unfold ahead
  rw [Option.map_map]
  congr 1
  funext i
  rw [present_held (after_sublist i (held l))]
  rfl

theorem started_emptied :
    ∃ answers s, ({} : Session Nat).calls [.set ['a'] 1 id, .set ['b'] 2 id, .start false] = .ok (answers, s) ∧
      Succeeds s.dict.dictionaryFlush fun d => Refines ⟨d, s.traversals⟩ ⟨.empty, [some []]⟩ :=
  ⟨_, _, rfl, flush_empties [.set ['a'] 1 id, .set ['b'] 2 id, .start false] rfl rfl⟩

/-- The node at a place of a chain. -/
theorem chain_at {m : Memory (Item ν)} {head : Option Nat} {rest : ItemList ν} {n : Node (Item ν)}
    (h : Chain m head (a ++ rest)) (hrest : (addrs rest).head? = some i) (hi : m.cell i = some n) :
    ∃ b, rest = (i, n.data) :: b ∧ n.next = (addrs b).head? := by
  cases rest with
  | nil => cases hrest
  | cons p b =>
    obtain ⟨i', x⟩ := p
    obtain rfl : i' = i := Option.some.inj hrest
    have hcell := h.cell a i' x b rfl
    rw [hi] at hcell
    obtain rfl := Option.some.inj hcell
    exact ⟨b, rfl, rfl⟩

/-- **Flushing may use an item after it has been freed.** When the first item is in nobody's use
and the one behind it is deleted and waits for the collector, the deletion of the first
collects the second, and the walk goes on from there. -/
theorem flush_dangling {answers : List (Answer ν)} {s : Session ν} {n m : Node (Item ν)} (ops : List (Op ν))
    (hs : ({} : Session ν).calls ops = .ok (answers, s)) (hfirst : s.dict.list = some i)
    (hi : s.dict.memory.cell i = some n) (hpresent : n.data.deleted = false) (hfree : n.data.refcount = 0)
    (hsecond : n.next = some j) (hj : s.dict.memory.cell j = some m) (hpending : m.data.pending = true) :
    s.dict.dictionaryFlush = .error .dangling := by
  obtain ⟨r, hr, -, hrefines⟩ := calls_refine refines_empty ops
  obtain rfl : (answers, s) = r := Except.ok.inj (hs.symm.trans hr)
  obtain ⟨l, hholds, -, -⟩ := hrefines
  dsimp only at hholds
  have hchain : Chain s.dict.memory s.dict.list ([] ++ l) := hholds.linked.chain
  obtain ⟨l', rfl, hnext⟩ := chain_at hchain (hchain.head.symm.trans hfirst) hi
  obtain ⟨b, rfl, -⟩ := chain_at (a := [(i, n.data)]) hchain (hnext.symm.trans hsecond) hj
  have hindex : s.dict.index n.data.name = some i :=
    (hholds.indexed.index _ _).mpr (mem_visible.mpr ⟨n.data, by simp, rfl, hpresent⟩)
  obtain ⟨⟨found, d⟩, hdel, -, hd⟩ := del_unreferenced (a := []) hholds hindex hpresent hfree
  unfold dictionaryDelAdvanced at hdel
  rw [if_neg (hholds.named (i, n.data) (by simp)), if_neg (by simp [hholds.usable])] at hdel
  -- The second item is collected with the first.
  have hgone : d.memory.cell j = none := by
    by_contra hlive
    have hmem : j ∈ addrs (kept b) := by
      have hreachable := hd.reachable j hlive
      rwa [kept_drop (a := []) hpending] at hreachable
    have hdistinct := hholds.linked.chain.distinct
    rw [addrs_cons, addrs_cons, List.nodup_cons, List.nodup_cons] at hdistinct
    exact hdistinct.2.1 (((kept_sublist b).map Prod.fst).mem hmem)
  obtain ⟨fuel, hfuel⟩ : ∃ k, s.dict.bound = k + 2 := by
    have hlength := length_le_bound hholds.linked.chain
    simp only [List.length_cons] at hlength
    exact ⟨s.dict.bound - 2, by omega⟩
  have hfail : flushFrom (fuel + 1) (some j) d = .error .dangling := by
    have hread : d.read j = .error .dangling := Heap.read_dangling hgone
    show (do let n ← d.read j; _ : Except Fault (Dictionary ν)) = _
    rw [hread]
    rfl
  have hwalk : flushFrom (fuel + 2) (some i) s.dict = .error .dangling := by
    have hread : s.dict.read i = .ok n := Heap.read_ok hi
    show (do let n ← s.dict.read i; let r ← s.dict.dictItemDel n.data.name; flushFrom (fuel + 1) n.next r.2) = _
    rw [hread]
    show (do let r ← s.dict.dictItemDel n.data.name; flushFrom (fuel + 1) n.next r.2) = _
    rw [hdel, hsecond]
    exact hfail
  unfold dictionaryFlush
  rw [hfuel, hfirst, hwalk]
  rfl

theorem parted_dangling :
    ∃ answers s, ({} : Session Nat).calls parted = .ok (answers, s) ∧
      s.dict.dictionaryFlush = .error .dangling :=
  ⟨_, _, rfl, flush_dangling (i := 0) (j := 1) parted rfl rfl rfl rfl rfl rfl rfl rfl⟩

end UpsdPlugin
