import UpsdPlugin.Dictionary.Index

/-! Setting and deleting.

Both keep `Holds`. Setting a name that is there changes its value in place, and a new name comes
last; deleting takes the name out of the index at once, and the item goes when it is no longer
referenced. -/
namespace UpsdPlugin
open LinkedList

namespace Dictionary
variable {ν : Type} {d d' : Dictionary ν} {l l' a b : ItemList ν} {i : Nat} {x y : Item ν} {k : CStr} {v : ν}

/-! ### Setting -/

/-- The value of a present item is replaced where it stands. -/
theorem set_present (h : Holds d (a ++ (i, x) :: b)) (hindex : d.index x.name = some i)
    (hx : x.deleted = false) (v : ν) :
    Succeeds (d.dictionarySetAdvanced x.name v) fun r =>
      r.1 = some i ∧ Holds r.2 (a ++ (i, {x with value := v}) :: b) := by
  have hne := h.named (i, x) (by simp)
  unfold dictionarySetAdvanced
  rw [if_neg hne]
  have hadd : Succeeds (d.dictItemAddOrResetValueAndAcquire x.name v) fun r =>
      r.1 = some i ∧ Linked r.2 (a ++ (i, {x with refcount := x.refcount + 1, value := v}) :: b) ∧
        Same (addrs (a ++ (i, x) :: b)) d r.2 := by
    unfold dictItemAddOrResetValueAndAcquire
    rw [if_neg hne, if_neg (by simp [h.usable])]
    simp only [hindex]
    refine Succeeds.bind (acquire_present h.linked hx) ?_
    rintro ⟨rc, d'⟩ ⟨rfl, hacquired, hsame⟩
    dsimp only at hacquired hsame ⊢
    rw [if_pos rfl, if_neg (by simp [hsame.dontOverwriteValue, h.overwrites])]
    let e : Dictionary ν := {d' with version := d'.version + 1}
    have hversion : Linked e (a ++ (i, {x with refcount := x.refcount + 1}) :: b) :=
      ⟨hacquired.chain, hacquired.counts, hacquired.created, hacquired.pending, hacquired.referenced⟩
    refine Succeeds.step (write_ok hversion.chain ({· with value := v})) (Succeeds.ret ⟨rfl, ?_, ?_⟩)
    · exact hversion.write (f := ({· with value := v})) hversion.refcount
        (hversion.created (i, {x with refcount := x.refcount + 1}) (by simp)) rfl rfl
    · have hsame' : Same (addrs (a ++ (i, x) :: b)) d e :=
        ⟨hsame.index, hsame.entries, hsame.destroyed, hsame.addInFront, hsame.dontOverwriteValue,
          hsame.cell, hsame.next⟩
      exact hsame'.trans (same_write e i _ _ _ mem_addrs_middle) (List.Subset.refl _)
  refine Succeeds.bind hadd ?_
  rintro ⟨item, d'⟩ ⟨rfl, hacquired, hsame⟩
  obtain ⟨n, hread, -⟩ := read_ok hacquired.chain
  refine Succeeds.step hread (Succeeds.bind (release_acquired h hacquired hsame rfl rfl rfl) ?_)
  intro d'' hholds
  exact Succeeds.ret ⟨rfl, hholds⟩

theorem kept_concat (hx : x.deleted = false) : kept (l ++ [(i, x)]) = kept l ++ [(i, x)] := by
  rw [kept_append]
  simp [kept, Item.pending, hx]

/-- An item that has been created, and is counted as referenced, is linked behind the
others; what is pending is collected. -/
theorem linkedListAdd_spec {n : Node (Item ν)}
    (h : Linked {d with referencedItems := d.referencedItems - 1} l) (happends : d.addInFront = false)
    (hi : d.memory.cell i = some n) (hout : i ∉ addrs l) (hcount : n.data.refcount = 1)
    (hx : n.data.deleted = false) :
    Succeeds (d.itemLinkedListAdd i) fun d' =>
      Linked d' (kept l ++ [(i, {n.data with beingCreated := false})]) ∧ Same (i :: addrs l) d d' ∧
        ∀ j ∈ addrs l, j ∉ addrs (kept l) → d'.memory.cell j = none := by
  have hlink : Succeeds (d.link i) fun d' =>
      Chain d'.memory d'.list (l ++ [(i, n.data)]) ∧ Same (i :: addrs l) d d' ∧
        d'.pendingDeletionItems = d.pendingDeletionItems ∧ d'.referencedItems = d.referencedItems := by
    unfold link
    rw [if_neg (by simp [happends])]
    refine Succeeds.bind (append_chain h.chain hi hout) ?_
    rintro ⟨memory, list⟩ ⟨hchain, hframe⟩
    exact Succeeds.ret ⟨hchain, ⟨rfl, rfl, rfl, rfl, rfl, hframe.cell, hframe.next⟩, rfl, rfl⟩
  refine Succeeds.bind hlink ?_
  rintro d₁ ⟨hchain, hsame, hpending, hreferenced⟩
  refine Succeeds.step (write_ok hchain ({· with beingCreated := false})) ?_
  have hlinked : Linked {d₁ with memory := d₁.memory.modify i (Node.mapData ({· with beingCreated := false}))}
      (l ++ [(i, {n.data with beingCreated := false})]) := by
    refine ⟨hchain.mapData ({· with beingCreated := false}), ?_, ?_, ?_, ?_⟩
    · refine List.forall_mem_append.mpr ⟨h.counts, List.forall_mem_singleton.mpr ?_⟩
      show 0 ≤ n.data.refcount
      omega
    · exact List.forall_mem_append.mpr ⟨h.created, List.forall_mem_singleton.mpr rfl⟩
    · have hcounted := h.pending
      simpa [hpending, Item.pending, hx] using hcounted
    · have hcounted := h.referenced
      simp only [List.countP_append, List.countP_singleton, Item.referenced, hcount] at hcounted ⊢
      rw [hreferenced]
      push_cast
      simp only [decide_true, ↓reduceIte]
      omega
  refine (garbageCollect_spec hlinked).imp ?_
  intro d' hd'
  have hkept : kept (l ++ [(i, {n.data with beingCreated := false})]) =
      kept l ++ [(i, {n.data with beingCreated := false})] := kept_concat hx
  have haddrs : addrs (l ++ [(i, {n.data with beingCreated := false})]) = addrs l ++ [i] := by simp
  refine ⟨hkept ▸ hd'.linked, ?_, ?_⟩
  · have hwrite := same_write d₁ i ({· with beingCreated := false}) d₁.pendingDeletionItems
      d₁.referencedItems (t := i :: addrs l) (by simp)
    refine (hsame.trans hwrite (List.Subset.refl _)).trans hd'.same ?_
    rw [haddrs]
    simp
  · intro j hj hgone
    refine hd'.freed j (by simp [hj]) ?_
    have hne : j ≠ i := fun heq => hout (heq ▸ hj)
    rw [hkept]
    simpa [hne] using hgone

/-- A new item is linked behind the others and collects what is pending. -/
theorem add_spec (h : Holds d l) (hk : k ≠ []) (hindex : d.index k = none) (v : ν) :
    Succeeds (d.dictItemAddOrResetValueAndAcquire k v) fun r =>
      r.1 = some d.memory.next ∧
        Holds r.2 (kept l ++ [(d.memory.next, {name := k, value := v, refcount := 1})]) := by
  unfold dictItemAddOrResetValueAndAcquire
  rw [if_neg hk, if_neg (by simp [h.usable])]
  simp only [hindex, dictItemCreateWithHooks]
  have hfresh : d.memory.cell d.memory.next = none := d.memory.fresh _ (Nat.le_refl _)
  have hout : d.memory.next ∉ addrs l := by
    intro hmem
    obtain ⟨a, x, b, rfl⟩ := exists_place hmem
    rw [h.linked.chain.cell a _ x b rfl] at hfresh
    cases hfresh
  let e : Dictionary ν := {{d with
    memory := d.memory.alloc {data := {name := k, value := v, refcount := 1, beingCreated := true}}}.entriesPlus1 with
    index := Function.update d.index k (some d.memory.next)}
  have hcell : e.memory.cell d.memory.next =
      some {data := {name := k, value := v, refcount := 1, beingCreated := true}} := if_pos rfl
  have hother : ∀ j, j ≠ d.memory.next → e.memory.cell j = d.memory.cell j := fun j hj => if_neg hj
  have hlinked : Linked {e with referencedItems := e.referencedItems - 1} l := by
    refine ⟨h.linked.chain.congr ?_, h.linked.counts, h.linked.created, h.linked.pending, ?_⟩
    · intro j hj
      exact hother j fun heq => hout (heq ▸ hj)
    · rw [← h.linked.referenced]
      exact Int.add_sub_cancel d.referencedItems 1
  refine Succeeds.bind (linkedListAdd_spec hlinked h.appends hcell hout rfl rfl) ?_
  rintro d' ⟨hlinked', hsame, hfreed⟩
  refine Succeeds.ret ⟨rfl, hlinked', ?_, ?_, ?_, ?_, ?_, ?_⟩
  · refine h.indexed.add hindex (i := d.memory.next) ?_ hsame.index hsame.entries
    rw [visible_append, visible_kept]
    rfl
  · intro j hj
    by_cases hnew : j = d.memory.next
    · simp [hnew]
    by_cases hmem : j ∈ addrs l
    · by_contra hgone
      refine hj (hfreed j hmem ?_)
      simpa [hnew] using hgone
    · rw [hsame.cell j (by simp [hnew, hmem]), hother j hnew] at hj
      exact absurd (h.reachable j hj) hmem
  · refine List.forall_mem_append.mpr ⟨?_, List.forall_mem_singleton.mpr hk⟩
    intro p hp
    exact h.named p ((kept_sublist l).mem hp)
  · exact hsame.destroyed.trans h.usable
  · exact hsame.addInFront.trans h.appends
  · exact hsame.dontOverwriteValue.trans h.overwrites

/-- A new item stands behind those there are. -/
theorem set_absent (h : Holds d l) (hk : k ≠ []) (hindex : d.index k = none) (v : ν) :
    Succeeds (d.dictionarySetAdvanced k v) fun r =>
      r.1 = some d.memory.next ∧
        Holds r.2 (kept l ++ [(d.memory.next, {name := k, value := v, refcount := 0})]) := by
  unfold dictionarySetAdvanced
  rw [if_neg hk]
  refine Succeeds.bind (add_spec h hk hindex v) ?_
  rintro ⟨item, d'⟩ ⟨rfl, hholds⟩
  obtain ⟨n, hread, -⟩ := read_ok hholds.linked.chain
  refine Succeeds.step hread (Succeeds.bind (release_spec hholds.linked Int.one_pos) ?_)
  rintro d'' ⟨hreleased, hsame⟩
  exact Succeeds.ret ⟨rfl, hholds.item hreleased hsame rfl rfl⟩

/-! ### Deleting -/

/-- A claimed item that is counted as pending no longer is removed: what is pending besides is
collected, and then the item is freed. -/
theorem linkedListRemove_spec (h : Linked d (a ++ (i, x) :: b)) (hx : x.refcount = 0) :
    Succeeds ({d.claim i with
        pendingDeletionItems := d.pendingDeletionItems - (if x.deleted then 1 else 0)}.itemLinkedListRemove i)
      fun d' => Linked d' (kept (a ++ b)) ∧ Same (addrs (a ++ (i, x) :: b)) d d' ∧
        d'.memory.cell i = some ⟨none, none, {x with refcount := refcountDeleted}⟩ ∧
        ∀ j ∈ addrs (a ++ b), j ∉ addrs (kept (a ++ b)) → d'.memory.cell j = none := by
  refine Succeeds.bind (unlink_claimed h hx _) ?_
  rintro d₁ ⟨hunlinked, hsame, hcell, hcount⟩
  rw [← hcount] at hunlinked
  refine (garbageCollect_spec (d := d₁) hunlinked).imp ?_
  intro d' hd'
  have hout : i ∉ addrs (a ++ b) := by
    have hnot := not_mem_of_nodup h.chain.distinct
    simp [hnot.1, hnot.2]
  refine ⟨hd'.linked, hsame.trans hd'.same (by simp), ?_, hd'.freed⟩
  rw [hd'.same.cell i hout]
  exact hcell

/-- With the item freed as well, the cells are those of the list again. -/
theorem Holds.reachable_removed (h : Holds d (a ++ (i, x) :: b)) {m : Memory (Item ν)}
    (hcell : ∀ j, j ∉ addrs (a ++ (i, x) :: b) → m.cell j = d.memory.cell j)
    (hfreed : ∀ j ∈ addrs (a ++ b), j ∉ addrs (kept (a ++ b)) → m.cell j = none) :
    ∀ j, (m.erase i).cell j ≠ none → j ∈ addrs (kept (a ++ b)) := by
  intro j hj
  by_cases hji : j = i
  · exact absurd (if_pos hji) hj
  have hlive : m.cell j ≠ none := fun hnone => hj ((if_neg hji).trans hnone)
  by_cases hmem : j ∈ addrs (a ++ b)
  · by_contra hgone
    exact hlive (hfreed j hmem hgone)
  · have hmem' : j ∉ addrs (a ++ (i, x) :: b) := by simpa [hji] using hmem
    rw [hcell j hmem'] at hlive
    exact absurd (h.reachable j hlive) hmem'

theorem not_mem_removed (h : (addrs (a ++ (i, x) :: b)).Nodup) : i ∉ addrs (kept (a ++ b)) := by
  have hnot := not_mem_of_nodup h
  have hout : i ∉ addrs (a ++ b) := by simp [hnot.1, hnot.2]
  exact fun hmem => hout (((kept_sublist _).map Prod.fst).mem hmem)

theorem Holds.named_removed (h : Holds d (a ++ (i, x) :: b)) : ∀ p ∈ kept (a ++ b), p.2.name ≠ [] := by
  intro p hp
  refine h.named p ?_
  have hp' := (kept_sublist _).mem hp
  rw [List.mem_append] at hp' ⊢
  exact hp'.imp_right (List.mem_cons_of_mem _)

/-- Deleting an item nobody refers to frees it. -/
theorem del_unreferenced (h : Holds d (a ++ (i, x) :: b)) (hindex : d.index x.name = some i)
    (hx : x.deleted = false) (hcount : x.refcount = 0) :
    Succeeds (d.dictionaryDelAdvanced x.name) fun r => r.1 = true ∧ Holds r.2 (kept (a ++ b)) := by
  unfold dictionaryDelAdvanced
  rw [if_neg (h.named (i, x) (by simp)), if_neg (by simp [h.usable])]
  unfold dictItemDel
  simp only [hindex]
  let e : Dictionary ν := {d with index := Function.update d.index x.name none}
  have hlinked : Linked e (a ++ (i, x) :: b) :=
    ⟨h.linked.chain, h.linked.counts, h.linked.created, h.linked.pending, h.linked.referenced⟩
  have hfree : Succeeds (e.dictItemFreeOrMarkDeleted i) fun d' => Holds d' (kept (a ++ b)) := by
    unfold dictItemFreeOrMarkDeleted
    refine Succeeds.step (removable_unreferenced hlinked hcount) ?_
    have hremove := linkedListRemove_spec hlinked hcount
    rw [if_neg (by simp [hx]), Int.sub_zero] at hremove
    refine Succeeds.bind hremove ?_
    rintro d₁ ⟨hlinked₁, hsame, hcell, hfreed⟩
    refine ⟨_, free_present hcell hx, ?_⟩
    have hlinked₂ : Linked d₁.entriesMinus1 (kept (a ++ b)) :=
      ⟨hlinked₁.chain, hlinked₁.counts, hlinked₁.created, hlinked₁.pending, hlinked₁.referenced⟩
    refine ⟨hlinked₂.erased (not_mem_removed h.linked.chain.distinct), ?_, ?_, ?_, ?_, ?_, ?_⟩
    · exact h.indexed.remove h.linked.chain.distinct hx (visible_kept _) hsame.index
        (congrArg (· - 1) hsame.entries)
    · exact h.reachable_removed hsame.cell hfreed
    · exact h.named_removed
    · exact hsame.destroyed.trans h.usable
    · exact hsame.addInFront.trans h.appends
    · exact hsame.dontOverwriteValue.trans h.overwrites
  refine Succeeds.bind hfree ?_
  intro d' hd'
  exact Succeeds.ret ⟨rfl, hd'⟩

/-- Deleting an item somebody refers to marks it; it stays where it is. -/
theorem del_referenced (h : Holds d (a ++ (i, x) :: b)) (hindex : d.index x.name = some i)
    (hx : x.deleted = false) (hcount : 0 < x.refcount) :
    Succeeds (d.dictionaryDelAdvanced x.name) fun r =>
      r.1 = true ∧ Holds r.2 (a ++ (i, {x with deleted := true}) :: b) := by
  unfold dictionaryDelAdvanced
  rw [if_neg (h.named (i, x) (by simp)), if_neg (by simp [h.usable])]
  unfold dictItemDel
  simp only [hindex]
  let e : Dictionary ν := {d with index := Function.update d.index x.name none}
  have hlinked : Linked e (a ++ (i, x) :: b) :=
    ⟨h.linked.chain, h.linked.counts, h.linked.created, h.linked.pending, h.linked.referenced⟩
  have hmark : Succeeds (e.dictItemFreeOrMarkDeleted i) fun d' =>
      Holds d' (a ++ (i, {x with deleted := true}) :: b) := by
    unfold dictItemFreeOrMarkDeleted
    refine Succeeds.step (removable_referenced hlinked hcount) ?_
    dsimp only
    unfold dictItemSetDeleted
    obtain ⟨n, hread, hdata, -⟩ := read_ok hlinked.chain
    refine Succeeds.step hread ?_
    rw [if_neg (by simp [hdata, hx])]
    refine Succeeds.step (write_ok hlinked.chain ({· with deleted := true})) (Succeeds.ret ?_)
    have hwritten := hlinked.write (f := ({· with deleted := true})) (p := d.pendingDeletionItems)
      (r := d.referencedItems) hlinked.refcount (hlinked.created (i, x) (by simp))
      (by simp [Item.pending, hx, show x.refcount ≠ 0 by omega, e]) rfl
    have hsame := same_write e i ({· with deleted := true}) d.pendingDeletionItems d.referencedItems
      (t := addrs (a ++ (i, x) :: b)) mem_addrs_middle
    refine ⟨⟨hwritten.chain, hwritten.counts, hwritten.created, hwritten.pending, hwritten.referenced⟩,
      ?_, ?_, ?_, h.usable, h.appends, h.overwrites⟩
    · refine h.indexed.remove h.linked.chain.distinct hx ?_ rfl rfl
      rw [visible_append, visible_cons_deleted rfl, visible_append]
    · intro j hj
      by_cases hmem : j ∈ addrs (a ++ (i, x) :: b)
      · simpa using hmem
      · have hj' : d.memory.cell j ≠ none := fun hnone => hj ((hsame.cell j hmem).trans hnone)
        exact absurd (h.reachable j hj') hmem
    · have hnamed := h.named
      simp only [List.forall_mem_append, List.forall_mem_cons] at hnamed ⊢
      exact hnamed
  refine Succeeds.bind hmark ?_
  intro d' hd'
  exact Succeeds.ret ⟨rfl, hd'⟩

theorem del_absent (h : Holds d l) (hk : k = [] ∨ d.index k = none) :
    d.dictionaryDelAdvanced k = .ok (false, d) := by
  unfold dictionaryDelAdvanced
  by_cases hnil : k = []
  · rw [if_pos hnil]
    rfl
  · rw [if_neg hnil, if_neg (by simp [h.usable])]
    unfold dictItemDel
    rw [hk.resolve_left hnil]
    rfl

end Dictionary

end UpsdPlugin
