import UpsdPlugin.Dictionary.Code
import Mathlib.Data.List.Perm.Subperm
import Mathlib.Tactic.Linarith

/-! The items of a dictionary.

`Linked d l` says that the items of `d` are `l`, in the order of the list, and that the
counters of the dictionary count them: the deleted items without references, which the
garbage collector has to find, and the referenced ones. Nothing is said about the index,
because a deletion parts the two: the item leaves the index first, and the garbage
collector runs before it is freed.

Each function of the code has one lemma, which says that it succeeds and what it makes
of `l`. -/
namespace UpsdPlugin
open LinkedList

abbrev ItemList (ν : Type) := List (Nat × Item ν)

namespace Item
variable {ν : Type}

/-- Deleted and no longer referenced. -/
def pending (x : Item ν) : Bool := x.deleted && x.refcount = 0

def referenced (x : Item ν) : Bool := 0 < x.refcount

end Item

namespace Dictionary
variable {ν : Type} {d d' : Dictionary ν} {l a b : ItemList ν} {i : Nat} {x : Item ν}

structure Linked (d : Dictionary ν) (l : ItemList ν) : Prop where
  chain : Chain d.memory d.list l
  counts : ∀ p ∈ l, 0 ≤ p.2.refcount
  created : ∀ p ∈ l, p.2.beingCreated = false
  pending : d.pendingDeletionItems = l.countP (·.2.pending)
  referenced : d.referencedItems = l.countP (·.2.referenced)

/-- What the operations on items leave alone: the index, the options, and the cells outside
the list. -/
structure Same (touched : List Nat) (d d' : Dictionary ν) : Prop where
  index : d'.index = d.index
  entries : d'.entries = d.entries
  destroyed : d'.destroyed = d.destroyed
  addInFront : d'.addInFront = d.addInFront
  dontOverwriteValue : d'.dontOverwriteValue = d.dontOverwriteValue
  cell : ∀ j, j ∉ touched → d'.memory.cell j = d.memory.cell j
  next : d'.memory.next = d.memory.next

theorem Same.refl (touched : List Nat) (d : Dictionary ν) : Same touched d d :=
  ⟨rfl, rfl, rfl, rfl, rfl, fun _ _ => rfl, rfl⟩

theorem Same.trans {d'' : Dictionary ν} {t t' : List Nat} (h : Same t d d') (h' : Same t' d' d'')
    (hsub : t' ⊆ t) : Same t d d'' where
  index := h'.index.trans h.index
  entries := h'.entries.trans h.entries
  destroyed := h'.destroyed.trans h.destroyed
  addInFront := h'.addInFront.trans h.addInFront
  dontOverwriteValue := h'.dontOverwriteValue.trans h.dontOverwriteValue
  cell := fun j hj => (h'.cell j fun hmem => hj (hsub hmem)).trans (h.cell j hj)
  next := h'.next.trans h.next

theorem Same.pendingDeletesMinus1 {t : List Nat} (h : Same t d d') : Same t d d'.pendingDeletesMinus1 :=
  ⟨h.index, h.entries, h.destroyed, h.addInFront, h.dontOverwriteValue, h.cell, h.next⟩

/-! ### Reading and writing an item -/

theorem read_ok (h : Chain d.memory d.list (a ++ (i, x) :: b)) :
    ∃ n, d.read i = .ok n ∧ n.data = x ∧ n.next = (addrs b).head? :=
  ⟨_, Heap.read_ok (h.cell a i x b rfl), rfl, rfl⟩

theorem write_ok (h : Chain d.memory d.list (a ++ (i, x) :: b)) (f : Item ν → Item ν) :
    d.write i f = .ok {d with memory := d.memory.modify i (Node.mapData f)} := by
  unfold write
  rw [Heap.update_ok (Heap.live_of_cell (h.cell a i x b rfl))]
  rfl

/-- An item changes, and the counters with it. -/
theorem Linked.write {f : Item ν → Item ν} {p r : Int} (h : Linked d (a ++ (i, x) :: b))
    (hcount : 0 ≤ (f x).refcount) (hcreated : (f x).beingCreated = false)
    (hp : p + (if x.pending then 1 else 0) = d.pendingDeletionItems + (if (f x).pending then 1 else 0))
    (hr : r + (if x.referenced then 1 else 0) = d.referencedItems + (if (f x).referenced then 1 else 0)) :
    Linked {d with
      memory := d.memory.modify i (Node.mapData f)
      pendingDeletionItems := p
      referencedItems := r} (a ++ (i, f x) :: b) where
  chain := h.chain.mapData f
  counts := by
    have hcounts := h.counts
    simp only [List.forall_mem_append, List.forall_mem_cons] at hcounts ⊢
    exact ⟨hcounts.1, hcount, hcounts.2.2⟩
  created := by
    have hall := h.created
    simp only [List.forall_mem_append, List.forall_mem_cons] at hall ⊢
    exact ⟨hall.1, hcreated, hall.2.2⟩
  pending := by
    have hpending := h.pending
    simp only [List.countP_append, List.countP_cons] at hpending ⊢
    push_cast at hpending ⊢
    linarith
  referenced := by
    have hreferenced := h.referenced
    simp only [List.countP_append, List.countP_cons] at hreferenced ⊢
    push_cast at hreferenced ⊢
    linarith

theorem same_write (d : Dictionary ν) (i : Nat) (f : Item ν → Item ν) (p r : Int) {t : List Nat} (hi : i ∈ t) :
    Same t d {d with
      memory := d.memory.modify i (Node.mapData f)
      pendingDeletionItems := p
      referencedItems := r} where
  index := rfl
  entries := rfl
  destroyed := rfl
  addInFront := rfl
  dontOverwriteValue := rfl
  cell := by
    intro j hj
    have hne : j ≠ i := fun heq => hj (heq ▸ hi)
    rw [Heap.cell_modify, if_neg hne]
  next := rfl

theorem mem_addrs_middle : i ∈ addrs (a ++ (i, x) :: b) := by simp

/-! ### Reference counters -/

theorem Linked.refcount (h : Linked d (a ++ (i, x) :: b)) : 0 ≤ x.refcount :=
  h.counts (i, x) (by simp)

/-- An item that is not deleted can be acquired. -/
theorem acquire_present (h : Linked d (a ++ (i, x) :: b)) (hx : x.deleted = false) :
    Succeeds (d.itemCheckAndAcquireAdvanced i) fun r =>
      r.1 = .ok ∧ Linked r.2 (a ++ (i, {x with refcount := x.refcount + 1}) :: b) ∧
        Same (addrs (a ++ (i, x) :: b)) d r.2 := by
  obtain ⟨n, hread, rfl, -⟩ := read_ok h.chain
  have hcount := h.refcount
  refine Succeeds.step hread ?_
  rw [if_neg (by omega), if_neg (by simp [hx])]
  refine Succeeds.step (write_ok h.chain _) (Succeeds.ret ⟨rfl, ?_, ?_⟩)
  · refine h.write (f := ({· with refcount := n.data.refcount + 1})) (by simp; omega) ?_ ?_ ?_
    · exact h.created (i, n.data) (by simp)
    · simp [Item.pending, hx]
    · simp only [Item.referenced, decide_eq_true_eq]
      split_ifs <;> omega
  · exact same_write d i _ _ _ mem_addrs_middle

/-- A deleted item cannot be acquired. -/
theorem acquire_deleted (h : Linked d (a ++ (i, x) :: b)) (hx : x.deleted = true) :
    d.itemCheckAndAcquireAdvanced i = .ok (.markedForDeletion, d) := by
  obtain ⟨n, hread, rfl, -⟩ := read_ok h.chain
  have hcount := h.refcount
  unfold itemCheckAndAcquireAdvanced
  rw [hread]
  show (if n.data.refcount < 0 then _ else _) = _
  rw [if_neg (by omega), if_pos hx]
  rfl

theorem release_spec (h : Linked d (a ++ (i, x) :: b)) (hx : 0 < x.refcount) :
    Succeeds (d.itemRelease i) fun d' =>
      Linked d' (a ++ (i, {x with refcount := x.refcount - 1}) :: b) ∧
        Same (addrs (a ++ (i, x) :: b)) d d' := by
  obtain ⟨n, hread, rfl, -⟩ := read_ok h.chain
  have hcreated := h.created (i, n.data) (by simp)
  refine Succeeds.step hread (Succeeds.step (write_ok h.chain _) ?_)
  rw [if_neg (by omega)]
  by_cases hzero : n.data.refcount - 1 = 0
  · rw [if_pos hzero]
    refine Succeeds.ret ⟨?_, same_write d i _ _ _ mem_addrs_middle⟩
    refine h.write (f := ({· with refcount := n.data.refcount - 1})) (by simp; omega) hcreated ?_ ?_
    · simp [Item.pending, hzero, show n.data.refcount ≠ 0 by omega]
    · simp [Item.referenced, hzero, hx]
  · rw [if_neg hzero]
    refine Succeeds.ret ⟨?_, same_write d i _ _ _ mem_addrs_middle⟩
    refine h.write (f := ({· with refcount := n.data.refcount - 1})) (by simp; omega) hcreated ?_ ?_
    · simp [Item.pending, hzero, show n.data.refcount ≠ 0 by omega]
    · simp [Item.referenced, hx, show 1 < n.data.refcount by omega]

/-- A referenced item cannot be removed. -/
theorem removable_referenced (h : Linked d (a ++ (i, x) :: b)) (hx : 0 < x.refcount) :
    d.itemIsNotReferencedAndCanBeRemovedAdvanced i = .ok (.isReferenced, d) := by
  obtain ⟨n, hread, rfl, -⟩ := read_ok h.chain
  unfold itemIsNotReferencedAndCanBeRemovedAdvanced
  rw [hread]
  show (if n.data.refcount < 0 then _ else _) = _
  rw [if_neg (by omega), if_pos hx]
  rfl

/-- The counter of an item is set so that nobody else takes it. -/
def claim (d : Dictionary ν) (i : Nat) : Dictionary ν :=
  {d with memory := d.memory.modify i (Node.mapData ({· with refcount := refcountDeleted}))}

theorem removable_unreferenced (h : Linked d (a ++ (i, x) :: b)) (hx : x.refcount = 0) :
    d.itemIsNotReferencedAndCanBeRemovedAdvanced i = .ok (.ok, d.claim i) := by
  obtain ⟨n, hread, rfl, -⟩ := read_ok h.chain
  have hcreated : n.data.beingCreated = false := h.created (i, n.data) (by simp)
  unfold itemIsNotReferencedAndCanBeRemovedAdvanced
  rw [hread]
  show (if n.data.refcount < 0 then _ else _) = _
  rw [if_neg (by omega), if_neg (by omega), if_neg (by simp [hcreated]), write_ok h.chain]
  rfl

/-! ### Freeing an item -/

/-- A claimed item, taken out of the list. It is still there. Whether it is still counted as
pending, if it was, is up to the caller. -/
theorem unlink_claimed (h : Linked d (a ++ (i, x) :: b)) (hx : x.refcount = 0) (p : Int) :
    Succeeds ({d.claim i with pendingDeletionItems := p}.unlink i) fun d' =>
      Linked {d' with pendingDeletionItems := d.pendingDeletionItems - (if x.deleted then 1 else 0)} (a ++ b) ∧
        Same (addrs (a ++ (i, x) :: b)) d d' ∧
        d'.memory.cell i = some ⟨none, none, {x with refcount := refcountDeleted}⟩ ∧
        d'.pendingDeletionItems = p := by
  refine Succeeds.bind (remove_chain (h.chain.mapData ({· with refcount := refcountDeleted}))) ?_
  rintro ⟨memory, list⟩ ⟨hchain, hcell, hframe⟩
  have hsub : ∀ p ∈ a ++ b, p ∈ a ++ (i, x) :: b := by
    intro p hp
    rw [List.mem_append] at hp ⊢
    exact hp.imp_right (List.mem_cons_of_mem _)
  refine Succeeds.ret ⟨⟨hchain, fun p hp => h.counts p (hsub p hp), fun p hp => h.created p (hsub p hp),
    ?_, ?_⟩, ?_, hcell, rfl⟩
  · have hpending := h.pending
    have hitem : x.pending = x.deleted := by simp [Item.pending, hx]
    simp only [List.countP_append, List.countP_cons, hitem] at hpending ⊢
    push_cast at hpending ⊢
    show d.pendingDeletionItems - _ = _
    linarith
  · have hreferenced := h.referenced
    have hitem : x.referenced = false := by simp [Item.referenced, hx]
    show d.referencedItems = _
    simpa [hitem] using hreferenced
  · refine ⟨rfl, rfl, rfl, rfl, rfl, ?_, hframe.next⟩
    intro j hj
    have hj' : j ∉ addrs (a ++ (i, {x with refcount := refcountDeleted}) :: b) := by simpa using hj
    exact (hframe.cell j hj').trans ((same_write d i _ 0 0 mem_addrs_middle).cell j hj)

/-- A dictionary without a cell outside its list. -/
def erased (d : Dictionary ν) (i : Nat) : Dictionary ν := {d with memory := d.memory.erase i}

theorem free_deleted {n : Node (Item ν)} (hi : d.memory.cell i = some n) (hx : n.data.deleted = true) :
    d.dictItemFreeWithHooks i = .ok (d.erased i) := by
  unfold dictItemFreeWithHooks read
  rw [Heap.read_ok hi]
  show (do let memory ← (if n.data.deleted then d else d.entriesMinus1).memory.free i; _) = _
  rw [if_pos hx, Heap.free_ok (Heap.live_of_cell hi)]
  rfl

theorem free_present {n : Node (Item ν)} (hi : d.memory.cell i = some n) (hx : n.data.deleted = false) :
    d.dictItemFreeWithHooks i = .ok (d.entriesMinus1.erased i) := by
  unfold dictItemFreeWithHooks read
  rw [Heap.read_ok hi]
  show (do let memory ← (if n.data.deleted then d else d.entriesMinus1).memory.free i; _) = _
  rw [if_neg (by simp [hx])]
  show (do let memory ← d.memory.free i; _) = _
  rw [Heap.free_ok (Heap.live_of_cell hi)]
  rfl

theorem Linked.erased (h : Linked d l) (hi : i ∉ addrs l) : Linked (d.erased i) l where
  chain := by
    apply h.chain.congr
    intro j hj
    have hne : j ≠ i := fun heq => hi (heq ▸ hj)
    exact if_neg hne
  counts := h.counts
  created := h.created
  pending := h.pending
  referenced := h.referenced

theorem same_erased (d : Dictionary ν) {t : List Nat} (hi : i ∈ t) : Same t d (d.erased i) where
  index := rfl
  entries := rfl
  destroyed := rfl
  addInFront := rfl
  dontOverwriteValue := rfl
  cell := by
    intro j hj
    have hne : j ≠ i := fun heq => hj (heq ▸ hi)
    exact if_neg hne
  next := rfl

/-! ### The garbage collector -/

/-- The items that stay. -/
def kept (l : ItemList ν) : ItemList ν := l.filter (!·.2.pending)

theorem collectFrom_none (fuel : Nat) (d : Dictionary ν) : collectFrom fuel none d = .ok d := by
  cases fuel <;> rfl

theorem kept_eq_self (h : ∀ p ∈ l, p.2.pending = false) : kept l = l := by
  apply List.filter_eq_self.mpr
  intro p hp
  rw [h p hp]
  rfl

theorem kept_append (l l' : ItemList ν) : kept (l ++ l') = kept l ++ kept l' := List.filter_append ..

theorem kept_drop (hx : x.pending = true) : kept (a ++ (i, x) :: b) = kept (a ++ b) := by
  simp [kept, hx]

theorem kept_sublist (l : ItemList ν) : (kept l).Sublist l := List.filter_sublist

/-- When no item is counted as pending, none is. -/
theorem Linked.no_pending (h : Linked d l) (hzero : d.pendingDeletionItems = 0) :
    ∀ p ∈ l, p.2.pending = false := by
  have hcount : l.countP (·.2.pending) = 0 := by
    have hpending := h.pending
    omega
  intro p hp
  simpa using List.countP_eq_zero.mp hcount p hp

/-- What the collector leaves: the pending items are gone from the list and from memory. -/
structure Collected (d : Dictionary ν) (l : ItemList ν) (d' : Dictionary ν) : Prop where
  linked : Linked d' (kept l)
  same : Same (addrs l) d d'
  freed : ∀ j ∈ addrs l, j ∉ addrs (kept l) → d'.memory.cell j = none

theorem Collected.refl (h : Linked d l) (hnone : ∀ p ∈ l, p.2.pending = false) : Collected d l d where
  linked := (kept_eq_self hnone).symm ▸ h
  same := Same.refl _ d
  freed := by
    intro j hj hout
    rw [kept_eq_self hnone] at hout
    exact absurd hj hout

theorem Collected.of_same {d'' : Dictionary ν} (h : Collected d' l d'') (hsame : Same (addrs l) d d') :
    Collected d l d'' :=
  ⟨h.linked, hsame.trans h.same (List.Subset.refl _), h.freed⟩

/-- A pending item is freed, and then the rest. -/
theorem Collected.of_freed {d'' : Dictionary ν} (h : Collected d' (a ++ b) d'')
    (hsame : Same (addrs (a ++ (i, x) :: b)) d d') (hx : x.pending = true) (hout : i ∉ addrs (a ++ b))
    (hi : d'.memory.cell i = none) : Collected d (a ++ (i, x) :: b) d'' where
  linked := (kept_drop hx).symm ▸ h.linked
  same := hsame.trans h.same (by simp)
  freed := by
    intro j hj hnot
    rw [kept_drop hx] at hnot
    by_cases hji : j = i
    · subst hji
      rw [h.same.cell j hout]
      exact hi
    · refine h.freed j ?_ hnot
      simpa [hji] using hj

/-- **The collector frees the pending items from a place on, and no others.** -/
theorem collectFrom_spec {done rest : ItemList ν} {fuel : Nat} (h : Linked d (done ++ rest))
    (hdone : ∀ p ∈ done, p.2.pending = false) (hfuel : rest.length ≤ fuel) :
    Succeeds (collectFrom fuel (addrs rest).head? d) (Collected d (done ++ rest)) := by
  induction rest generalizing d done fuel with
  | nil => exact ⟨d, collectFrom_none fuel d, Collected.refl h (by simpa using hdone)⟩
  | cons p rest ih =>
    obtain ⟨i, x⟩ := p
    obtain ⟨fuel, rfl⟩ : ∃ k, fuel = k + 1 := ⟨fuel - 1, by simp at hfuel; omega⟩
    have hfuel' : rest.length ≤ fuel := by simpa using hfuel
    obtain ⟨n, hread, rfl, hnext⟩ := read_ok h.chain
    -- An item that stays is left behind, and the walk goes on along its `next`.
    have hstay {d' : Dictionary ν} (h' : Linked d' (done ++ (i, n.data) :: rest))
        (hsame : Same (addrs (done ++ (i, n.data) :: rest)) d d') (hstays : n.data.pending = false) :
        Succeeds (collectFrom fuel n.next d') (Collected d (done ++ (i, n.data) :: rest)) := by
      have hdone' : ∀ p ∈ done ++ [(i, n.data)], p.2.pending = false :=
        List.forall_mem_append.mpr ⟨hdone, List.forall_mem_singleton.mpr hstays⟩
      rw [hnext]
      refine (ih (by simpa using h') hdone' hfuel').imp ?_
      intro d'' hd''
      rw [List.append_assoc, List.singleton_append] at hd''
      exact hd''.of_same hsame
    refine Succeeds.step hread ?_
    cases hdeleted : n.data.deleted with
    | false =>
      refine Succeeds.bind (acquire_present h hdeleted) ?_
      rintro ⟨rc, d'⟩ ⟨rfl, hacquired, hsame⟩
      have hcount : 0 < n.data.refcount + 1 := by
        have hrefcount := h.refcount
        omega
      refine Succeeds.bind (release_spec hacquired hcount) ?_
      rintro d'' ⟨hreleased, hsame'⟩
      simp only [Int.add_sub_cancel] at hreleased
      refine hstay hreleased (hsame.trans hsame' (by simp)) ?_
      simp [Item.pending, hdeleted]
    | true =>
      refine Succeeds.step (acquire_deleted h hdeleted) ?_
      by_cases hcount : n.data.refcount = 0
      · refine Succeeds.step (removable_unreferenced h hcount) ?_
        dsimp only
        rw [if_pos rfl]
        refine Succeeds.bind (unlink_claimed h hcount d.pendingDeletionItems) ?_
        rintro d' ⟨hunlinked, hsame, hcell, hstill⟩
        refine Succeeds.step (free_deleted hcell hdeleted) ?_
        rw [if_pos hdeleted, ← hstill] at hunlinked
        have hout : i ∉ addrs (done ++ rest) := by
          have hnot := not_mem_of_nodup h.chain.distinct
          simp [hnot.1, hnot.2]
        have hfreed : Linked (d'.erased i).pendingDeletesMinus1 (done ++ rest) := hunlinked.erased hout
        have hsame' : Same (addrs (done ++ (i, n.data) :: rest)) d (d'.erased i).pendingDeletesMinus1 :=
          (hsame.trans (same_erased d' (List.mem_singleton_self i)) (by simp)).pendingDeletesMinus1
        have hpending : n.data.pending = true := by simp [Item.pending, hdeleted, hcount]
        have hgone : (d'.erased i).pendingDeletesMinus1.memory.cell i = none := if_pos rfl
        by_cases hzero : (d'.erased i).pendingDeletesMinus1.pendingDeletionItems = 0
        · rw [if_pos hzero]
          have hrest := Collected.refl hfreed (hfreed.no_pending hzero)
          exact Succeeds.ret (hrest.of_freed hsame' hpending hout hgone)
        · rw [if_neg hzero, hnext]
          exact (ih hfreed hdone hfuel').imp fun d'' hrest => hrest.of_freed hsame' hpending hout hgone
      · have hpositive : 0 < n.data.refcount := by
          have hrefcount := h.refcount
          omega
        refine Succeeds.step (removable_referenced h hpositive) ?_
        dsimp only
        rw [if_neg (by decide)]
        refine hstay h (Same.refl _ d) ?_
        simp [Item.pending, hcount]

/-- No list is longer than the number of cells. -/
theorem length_le_bound (h : Chain d.memory d.list l) : l.length ≤ d.bound := by
  have hsub : addrs l ⊆ List.range d.bound := by
    intro j hj
    obtain ⟨a, x, b, hplace⟩ := exists_place hj
    exact List.mem_range.mpr (Heap.lt_next (h.cell a j x b hplace))
  simpa [addrs] using (List.subperm_of_subset h.distinct hsub).length_le

theorem garbageCollect_spec (h : Linked d l) :
    Succeeds d.garbageCollectPendingDeletes (Collected d l) := by
  unfold garbageCollectPendingDeletes
  by_cases hpending : d.pendingDeletionItems > 0
  · rw [if_pos hpending, h.chain.head]
    have hstart : Linked d ([] ++ l) := h
    exact collectFrom_spec hstart (by simp) (length_le_bound h.chain)
  · have hzero : d.pendingDeletionItems = 0 := by
      have hcount := h.pending
      omega
    rw [if_neg hpending]
    exact Succeeds.ret (Collected.refl h (h.no_pending hzero))

end Dictionary
end UpsdPlugin
