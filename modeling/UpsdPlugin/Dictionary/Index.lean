import UpsdPlugin.Dictionary.Items
import UpsdPlugin.Lib.OrderedDict

/-! The index of a dictionary.

`Holds d l` is the invariant of a dictionary between two calls: its items are `l`, the index
finds exactly those that are not deleted, and every cell that is allocated is in the list.
What a caller sees of `l` is `present l`, the names and values of the items that are not
deleted, in the order of the list. -/
namespace UpsdPlugin
open LinkedList

namespace Dictionary
variable {ν : Type} {d d' : Dictionary ν} {l l' a b : ItemList ν} {i : Nat} {x y : Item ν} {k : CStr} {v : ν}

def present (l : ItemList ν) : List (CStr × ν) :=
  (l.filter (!·.2.deleted)).map fun p => (p.2.name, p.2.value)

/-- What the index has to hold. -/
def visible (l : ItemList ν) : List (CStr × Nat) :=
  (l.filter (!·.2.deleted)).map fun p => (p.2.name, p.1)

structure Indexed (d : Dictionary ν) (l : ItemList ν) : Prop where
  index : ∀ k i, d.index k = some i ↔ (k, i) ∈ visible l
  entries : d.entries = (visible l).length

structure Holds (d : Dictionary ν) (l : ItemList ν) : Prop where
  linked : Linked d l
  indexed : Indexed d l
  /-- No cell is lost. -/
  reachable : ∀ j, d.memory.cell j ≠ none → j ∈ addrs l
  named : ∀ p ∈ l, p.2.name ≠ []
  usable : d.destroyed = false
  appends : d.addInFront = false
  overwrites : d.dontOverwriteValue = false

/-! ### What is visible -/

theorem visible_append (l l' : ItemList ν) : visible (l ++ l') = visible l ++ visible l' := by
  simp [visible]

theorem present_append (l l' : ItemList ν) : present (l ++ l') = present l ++ present l' := by
  simp [present]

theorem visible_cons_present (hx : x.deleted = false) : visible ((i, x) :: l) = (x.name, i) :: visible l := by
  simp [visible, hx]

theorem visible_cons_deleted (hx : x.deleted = true) : visible ((i, x) :: l) = visible l := by
  simp [visible, hx]

theorem present_cons_present (hx : x.deleted = false) :
    present ((i, x) :: l) = (x.name, x.value) :: present l := by
  simp [present, hx]

theorem present_cons_deleted (hx : x.deleted = true) : present ((i, x) :: l) = present l := by
  simp [present, hx]

/-- The collector takes nothing away that is visible. -/
theorem filter_kept (l : ItemList ν) : (kept l).filter (!·.2.deleted) = l.filter (!·.2.deleted) := by
  unfold kept
  rw [List.filter_filter]
  apply List.filter_congr
  intro p _
  cases hp : p.2.deleted with
  | false => simp [Item.pending, hp]
  | true => rfl

theorem visible_kept (l : ItemList ν) : visible (kept l) = visible l := by
  rw [visible, filter_kept, visible]

theorem present_kept (l : ItemList ν) : present (kept l) = present l := by
  rw [present, filter_kept, present]

theorem mem_visible : (k, i) ∈ visible l ↔ ∃ x, (i, x) ∈ l ∧ x.name = k ∧ x.deleted = false := by
  simp only [visible, List.mem_map, List.mem_filter, Prod.exists, Prod.mk.injEq, Bool.not_eq_true']
  constructor
  · rintro ⟨j, x, ⟨hmem, hx⟩, hname, rfl⟩
    exact ⟨x, hmem, hname, hx⟩
  · rintro ⟨x, hmem, hname, hx⟩
    exact ⟨i, x, ⟨hmem, hx⟩, hname, rfl⟩

/-- The addresses of what is visible are among those of the list. -/
theorem visible_addrs (l : ItemList ν) : ((visible l).map Prod.snd).Sublist (addrs l) := by
  have hmap : (visible l).map Prod.snd = addrs (l.filter (!·.2.deleted)) := by
    simp [visible, addrs]
  rw [hmap]
  exact List.filter_sublist.map _

namespace Indexed

theorem congr (h : Indexed d l) (hvisible : visible l' = visible l) (hindex : d'.index = d.index)
    (hentries : d'.entries = d.entries) : Indexed d' l' where
  index := by
    rw [hindex, hvisible]
    exact h.index
  entries := by
    rw [hentries, hvisible]
    exact h.entries

/-- The index is a function, so a name is visible once. -/
theorem names_distinct (h : Indexed d l) (hdistinct : (addrs l).Nodup) : ((visible l).map Prod.fst).Nodup := by
  have hpairs : (visible l).Nodup := (hdistinct.sublist (visible_addrs l)).of_map
  apply hpairs.map_on
  rintro ⟨k, i⟩ hi ⟨k', j⟩ hj hname
  obtain rfl : k = k' := hname
  have heq := ((h.index k i).mpr hi).symm.trans ((h.index k j).mpr hj)
  rw [Option.some.inj heq]

theorem add (h : Indexed d l) (hnew : d.index k = none)
    (hvisible : visible l' = visible l ++ [(k, i)]) (hindex : d'.index = Function.update d.index k (some i))
    (hentries : d'.entries = d.entries + 1) : Indexed d' l' where
  index := by
    intro k' j
    rw [hindex, hvisible, List.mem_append, List.mem_singleton, Prod.mk.injEq]
    by_cases hk : k' = k
    · subst hk
      have hnot : (k', j) ∉ visible l := by
        intro hmem
        rw [← h.index, hnew] at hmem
        cases hmem
      simp [hnot, eq_comm]
    · simp [hk, h.index]
  entries := by
    rw [hentries, hvisible, h.entries]
    simp

theorem remove (h : Indexed d (a ++ (i, x) :: b)) (hdistinct : (addrs (a ++ (i, x) :: b)).Nodup)
    (hx : x.deleted = false) (hvisible : visible l' = visible (a ++ b))
    (hindex : d'.index = Function.update d.index x.name none) (hentries : d'.entries = d.entries - 1) :
    Indexed d' l' where
  index := by
    have hnames := h.names_distinct hdistinct
    rw [visible_append, visible_cons_present hx, List.map_append, List.map_cons] at hnames
    have hnot := (List.nodup_cons.mp (List.nodup_middle.mp hnames)).1
    rw [← List.map_append, ← visible_append] at hnot
    intro k j
    rw [hindex, hvisible]
    by_cases hk : k = x.name
    · subst hk
      have hout : (x.name, j) ∉ visible (a ++ b) := fun hmem => hnot (List.mem_map.mpr ⟨_, hmem, rfl⟩)
      rw [Function.update_self]
      refine iff_of_false ?_ hout
      intro hnone
      cases hnone
    · rw [Function.update_of_ne hk, h.index, visible_append, visible_cons_present hx, visible_append]
      simp [hk]
  entries := by
    rw [hentries, h.entries, hvisible, visible_append, visible_append, visible_cons_present hx]
    simp
    omega

end Indexed

/-! ### Looking up -/

theorem Holds.place (h : Holds d l) (hk : d.index k = some i) :
    ∃ a x b, l = a ++ (i, x) :: b ∧ x.name = k ∧ x.deleted = false := by
  obtain ⟨x, hmem, hname, hx⟩ := mem_visible.mp ((h.indexed.index k i).mp hk)
  obtain ⟨a, b, hl⟩ := List.append_of_mem hmem
  exact ⟨a, x, b, hl, hname, hx⟩

theorem Holds.present_distinct (h : Holds d l) : ((present l).map Prod.fst).Nodup := by
  have hnames := h.indexed.names_distinct h.linked.chain.distinct
  have hmap : (present l).map Prod.fst = (visible l).map Prod.fst := by simp [present, visible]
  rw [hmap]
  exact hnames

/-- The dictionary as its caller sees it. -/
def Holds.dict (h : Holds d l) : OrderedDict CStr ν := ⟨present l, h.present_distinct⟩

theorem Holds.get_of_index (h : Holds d (a ++ (i, x) :: b)) (hx : x.deleted = false) :
    h.dict.get x.name = some x.value := by
  rw [OrderedDict.get_eq_some]
  show (x.name, x.value) ∈ present (a ++ (i, x) :: b)
  rw [present_append, present_cons_present hx]
  simp

theorem Holds.get_of_absent (h : Holds d l) (hk : d.index k = none) : h.dict.get k = none := by
  rw [OrderedDict.get_eq_none]
  intro hmem
  obtain ⟨p, hp, rfl⟩ := List.mem_map.mp hmem
  obtain ⟨q, hq, rfl⟩ := List.mem_map.mp hp
  rw [List.mem_filter, Bool.not_eq_true'] at hq
  have hindex := (h.indexed.index q.2.name q.1).mpr (mem_visible.mpr ⟨q.2, hq.1, rfl, hq.2⟩)
  rw [hk] at hindex
  cases hindex

theorem Holds.get_nil (h : Holds d l) : h.dict.get [] = none := by
  rw [OrderedDict.get_eq_none]
  intro hmem
  obtain ⟨p, hp, hname⟩ := List.mem_map.mp hmem
  obtain ⟨q, hq, rfl⟩ := List.mem_map.mp hp
  exact h.named q (List.mem_of_mem_filter hq) hname

/-- The invariant after an operation on the list that does not touch the index. -/
theorem Holds.step (h : Holds d l) (hlinked : Linked d' l') (hsame : Same (addrs l) d d')
    (hvisible : visible l' = visible l) (hnamed : ∀ p ∈ l', p.2.name ≠ [])
    (hfreed : ∀ j ∈ addrs l, j ∉ addrs l' → d'.memory.cell j = none) : Holds d' l' where
  linked := hlinked
  indexed := h.indexed.congr hvisible hsame.index hsame.entries
  reachable := by
    intro j hj
    by_cases hmem : j ∈ addrs l
    · by_contra hout
      exact hj (hfreed j hmem hout)
    · rw [hsame.cell j hmem] at hj
      exact absurd (h.reachable j hj) hmem
  named := hnamed
  usable := hsame.destroyed.trans h.usable
  appends := hsame.addInFront.trans h.appends
  overwrites := hsame.dontOverwriteValue.trans h.overwrites

/-- The invariant when one item changes and keeps its name. -/
theorem Holds.item (h : Holds d (a ++ (i, x) :: b)) (hlinked : Linked d' (a ++ (i, y) :: b))
    (hsame : Same (addrs (a ++ (i, x) :: b)) d d') (hname : y.name = x.name) (hdeleted : y.deleted = x.deleted) :
    Holds d' (a ++ (i, y) :: b) := by
  refine h.step hlinked hsame ?_ ?_ ?_
  · simp [visible, List.filter_cons, hname, hdeleted, apply_ite]
  · have hnamed := h.named
    simp only [List.forall_mem_append, List.forall_mem_cons] at hnamed ⊢
    exact ⟨hnamed.1, hname ▸ hnamed.2.1, hnamed.2.2⟩
  · intro j hj hout
    exact absurd (by simpa using hj) hout

theorem Holds.collected (h : Holds d l) (hc : Collected d l d') : Holds d' (kept l) :=
  h.step hc.linked hc.same (visible_kept l) (fun p hp => h.named p ((kept_sublist l).mem hp)) hc.freed

/-- An item the index finds is acquired. -/
theorem find_present (h : Holds d (a ++ (i, x) :: b)) (hindex : d.index x.name = some i)
    (hx : x.deleted = false) :
    Succeeds (d.dictItemFindAndAcquire x.name) fun r =>
      r.1 = some i ∧ Linked r.2 (a ++ (i, {x with refcount := x.refcount + 1}) :: b) ∧
        Same (addrs (a ++ (i, x) :: b)) d r.2 := by
  unfold dictItemFindAndAcquire
  rw [if_neg (h.named (i, x) (by simp)), if_neg (by simp [h.usable])]
  simp only [hindex]
  refine Succeeds.bind (acquire_present h.linked hx) ?_
  rintro ⟨rc, d'⟩ ⟨rfl, hacquired, hsame⟩
  exact Succeeds.ret ⟨rfl, hacquired, hsame⟩

/-- What has been acquired is released, and the dictionary is as before. -/
theorem release_acquired (h : Holds d (a ++ (i, x) :: b)) (hacquired : Linked d' (a ++ (i, y) :: b))
    (hsame : Same (addrs (a ++ (i, x) :: b)) d d') (hname : y.name = x.name)
    (hdeleted : y.deleted = x.deleted) (hcount : y.refcount = x.refcount + 1) :
    Succeeds (d'.itemRelease i) fun d'' => Holds d'' (a ++ (i, {y with refcount := x.refcount}) :: b) := by
  have hpositive : 0 < y.refcount := by
    have hrefcount := h.linked.refcount
    omega
  refine (release_spec hacquired hpositive).imp ?_
  rintro d'' ⟨hreleased, hsame'⟩
  rw [hcount, Int.add_sub_cancel] at hreleased
  exact h.item hreleased (hsame.trans hsame' (by simp)) hname hdeleted

theorem get_spec (h : Holds d l) (k : CStr) :
    Succeeds (d.dictionaryGetAdvanced k) fun r => r.1 = h.dict.get k ∧ Holds r.2 l := by
  unfold dictionaryGetAdvanced
  by_cases hk : k = []
  · rw [if_pos hk, hk]
    exact Succeeds.ret ⟨h.get_nil.symm, h⟩
  rw [if_neg hk]
  cases hindex : d.index k with
  | none =>
    have hfind : d.dictItemFindAndAcquire k = .ok (none, d) := by
      unfold dictItemFindAndAcquire
      rw [if_neg hk, if_neg (by simp [h.usable]), hindex]
      rfl
    exact Succeeds.step hfind (Succeeds.ret ⟨(h.get_of_absent hindex).symm, h⟩)
  | some i =>
    obtain ⟨a, x, b, rfl, rfl, hx⟩ := h.place hindex
    refine Succeeds.bind (find_present h hindex hx) ?_
    rintro ⟨item, d'⟩ ⟨rfl, hacquired, hsame⟩
    obtain ⟨n, hread, hdata, -⟩ := read_ok hacquired.chain
    refine Succeeds.step hread (Succeeds.bind (release_acquired h hacquired hsame rfl rfl rfl) ?_)
    intro d'' hholds
    refine Succeeds.ret ⟨?_, hholds⟩
    rw [h.get_of_index hx, hdata]

end Dictionary

end UpsdPlugin
