import UpsdPlugin.Dictionary.Store

/-! Traversals.

A traversal holds a reference to the item it is at, so the item stays linked even when it is
deleted, and its `next` can be followed whatever has happened to the dictionary meanwhile.
`Open d l c` is the invariant of a dictionary with the traversals `c` under way: an item is
referenced as often as a traversal is at it. -/
namespace UpsdPlugin
open LinkedList

/-- An item with `n` more references. -/
def Item.refer {ν : Type} (n : Int) (x : Item ν) : Item ν := {x with refcount := x.refcount + n}

/-- An item with `ITEM_FLAG_DELETED` set. -/
def Item.mark {ν : Type} (x : Item ν) : Item ν := {x with deleted := true}

/-- An item with another value. -/
def Item.put {ν : Type} (v : ν) (x : Item ν) : Item ν := {x with value := v}

namespace Dictionary
variable {ν : Type} {d d' : Dictionary ν} {l l' a b : ItemList ν} {i j : Nat} {x y : Item ν} {k : CStr}
  {f : Item ν → Item ν}

/-! ### Changing the item at an address -/

def adjust (i : Nat) (f : Item ν → Item ν) (l : ItemList ν) : ItemList ν :=
  l.map fun p => if p.1 = i then (p.1, f p.2) else p

theorem adjust_append (l l' : ItemList ν) : adjust i f (l ++ l') = adjust i f l ++ adjust i f l' :=
  List.map_append

@[simp] theorem addrs_adjust (i : Nat) (f : Item ν → Item ν) (l : ItemList ν) :
    addrs (adjust i f l) = addrs l := by
  unfold addrs adjust
  rw [List.map_map]
  apply List.map_congr_left
  intro p _
  show (if p.1 = i then (p.1, f p.2) else p).1 = p.1
  split <;> rfl

theorem adjust_of_not_mem (h : i ∉ addrs l) : adjust i f l = l := by
  have hid : ∀ p ∈ l, (if p.1 = i then (p.1, f p.2) else p) = p := by
    intro p hp
    rw [if_neg]
    intro heq
    exact h (heq ▸ List.mem_map_of_mem hp)
  exact (List.map_congr_left hid).trans (List.map_id l)

theorem adjust_middle (h : (addrs (a ++ (i, x) :: b)).Nodup) :
    adjust i f (a ++ (i, x) :: b) = a ++ (i, f x) :: b := by
  have hout := not_mem_of_nodup h
  rw [adjust_append, adjust_of_not_mem hout.1]
  show a ++ (if i = i then (i, f x) else (i, x)) :: adjust i f b = _
  rw [if_pos rfl, adjust_of_not_mem hout.2]

theorem mem_adjust {p : Nat × Item ν} (hp : p ∈ adjust i f l) :
    p ∈ l ∧ p.1 ≠ i ∨ ∃ x, (i, x) ∈ l ∧ p = (i, f x) := by
  obtain ⟨q, hq, rfl⟩ := List.mem_map.mp hp
  by_cases hqi : q.1 = i
  · subst hqi
    exact Or.inr ⟨q.2, hq, by rw [if_pos rfl]⟩
  · rw [if_neg hqi]
    exact Or.inl ⟨hq, hqi⟩

theorem adjust_cons (p : Nat × Item ν) (l : ItemList ν) :
    adjust i f (p :: l) = (p.1, if p.1 = i then f p.2 else p.2) :: adjust i f l := by
  show (if p.1 = i then (p.1, f p.2) else p) :: adjust i f l = _
  split <;> rfl

theorem present_cons (p : Nat × Item ν) (l : ItemList ν) :
    present (p :: l) = if p.2.deleted then present l else (p.2.name, p.2.value) :: present l := by
  cases hp : p.2.deleted <;> simp [present, hp]

/-- What a caller sees when a reference counter changes: nothing. -/
theorem present_refer (i : Nat) (n : Int) (l : ItemList ν) : present (adjust i (Item.refer n) l) = present l := by
  induction l with
  | nil => rfl
  | cons p l ih =>
    rw [adjust_cons, present_cons, present_cons, ih]
    by_cases hp : p.1 = i
    · rw [if_pos hp]
      rfl
    · rw [if_neg hp]

/-- The names a caller sees stay when neither a name nor a mark changes. -/
theorem names_adjust (hf : ∀ x, (f x).name = x.name ∧ (f x).deleted = x.deleted) (i : Nat) (l : ItemList ν) :
    (present (adjust i f l)).map Prod.fst = (present l).map Prod.fst := by
  induction l with
  | nil => rfl
  | cons p l ih =>
    rw [adjust_cons, present_cons, present_cons]
    by_cases hp : p.1 = i
    · rw [if_pos hp, (hf p.2).2, (hf p.2).1]
      split
      · exact ih
      · exact congrArg (p.2.name :: ·) ih
    · rw [if_neg hp]
      split
      · exact ih
      · exact congrArg (p.2.name :: ·) ih

/-- Marking the item a name is found at takes the name away. -/
theorem present_mark (hunique : ∀ p ∈ l, p.2.deleted = false → (p.2.name = k ↔ p.1 = i)) :
    present (adjust i Item.mark l) = (present l).filter (·.1 ≠ k) := by
  induction l with
  | nil => rfl
  | cons p l ih =>
    rw [List.forall_mem_cons] at hunique
    have hl := ih hunique.2
    rw [adjust_cons, present_cons, present_cons, hl]
    cases hp : p.2.deleted with
    | true =>
      have hitem : (if p.1 = i then p.2.mark else p.2).deleted = true := by
        split
        · rfl
        · exact hp
      rw [if_pos hitem, if_pos rfl]
    | false =>
      by_cases hpi : p.1 = i
      · have hname := (hunique.1 hp).mpr hpi
        simp [hpi, hname, Item.mark]
      · have hname : p.2.name ≠ k := fun heq => hpi ((hunique.1 hp).mp heq)
        simp [hpi, hname, hp]

/-! ### What a traversal has ahead of it -/

/-- The items behind the one at an address. -/
def after (i : Nat) (l : ItemList ν) : ItemList ν := (l.dropWhile (·.1 ≠ i)).tail

theorem after_cons_self : after i ((i, x) :: l) = l := by simp [after]

theorem after_cons_of_ne (h : j ≠ i) : after i ((j, x) :: l) = after i l := by simp [after, h]

theorem after_middle (h : (addrs (a ++ (i, x) :: b)).Nodup) : after i (a ++ (i, x) :: b) = b := by
  have hout := (not_mem_of_nodup h).1
  clear h
  induction a with
  | nil => exact after_cons_self
  | cons p a ih =>
    rw [addrs_cons, List.mem_cons, not_or] at hout
    rw [List.cons_append, after_cons_of_ne (Ne.symm hout.1), ih hout.2]

theorem after_sublist (i : Nat) (l : ItemList ν) : (after i l).Sublist l :=
  (List.tail_sublist _).trans (List.dropWhile_sublist _)

theorem after_adjust (j i : Nat) (f : Item ν → Item ν) (l : ItemList ν) :
    after j (adjust i f l) = adjust i f (after j l) := by
  induction l with
  | nil => rfl
  | cons p l ih =>
    obtain ⟨i', x⟩ := p
    rw [adjust_cons]
    by_cases hp : i' = j
    · subst hp
      rw [after_cons_self, after_cons_self]
    · rw [after_cons_of_ne hp, after_cons_of_ne hp, ih]

theorem after_append (h : j ∈ addrs l) : after j (l ++ l') = after j l ++ l' := by
  induction l with
  | nil => cases h
  | cons p l ih =>
    obtain ⟨i, x⟩ := p
    rw [List.cons_append]
    by_cases hp : i = j
    · subst hp
      rw [after_cons_self, after_cons_self]
    · have hmem : j ∈ addrs l := (List.mem_cons.mp h).resolve_left (Ne.symm hp)
      rw [after_cons_of_ne hp, after_cons_of_ne hp, ih hmem]

/-- The collector takes nothing out from behind an item that stays but what it collects. -/
theorem after_kept (h : ∀ x, (j, x) ∈ l → x.pending = false) : after j (kept l) = kept (after j l) := by
  induction l with
  | nil => rfl
  | cons p l ih =>
    obtain ⟨i, x⟩ := p
    have hl := ih fun x hx => h x (List.mem_cons_of_mem _ hx)
    cases hx : x.pending with
    | true =>
      have hne : i ≠ j := by
        intro heq
        subst heq
        rw [h x (List.mem_cons_self ..)] at hx
        cases hx
      have hkept : kept ((i, x) :: l) = kept l := by simp [kept, hx]
      rw [hkept, after_cons_of_ne hne, hl]
    | false =>
      have hkept : kept ((i, x) :: l) = (i, x) :: kept l := by simp [kept, hx]
      rw [hkept]
      by_cases hij : i = j
      · subst hij
        rw [after_cons_self, after_cons_self]
      · rw [after_cons_of_ne hij, after_cons_of_ne hij, hl]

/-! ### References -/

/-- An item that is not deleted can be acquired. -/
theorem acquire_at (h : Holds d l) (hi : (i, x) ∈ l) (hx : x.deleted = false) :
    Succeeds (d.itemCheckAndAcquireAdvanced i) fun r =>
      r.1 = .ok ∧ Holds r.2 (adjust i (Item.refer 1) l) := by
  obtain ⟨a, b, rfl⟩ := List.append_of_mem hi
  refine (acquire_present h.linked hx).imp ?_
  rintro ⟨rc, d'⟩ ⟨rfl, hacquired, hsame⟩
  rw [adjust_middle h.linked.chain.distinct]
  exact ⟨rfl, h.item hacquired hsame rfl rfl⟩

theorem release_at (h : Holds d l) (hi : (i, x) ∈ l) (hx : 0 < x.refcount) :
    Succeeds (d.itemRelease i) fun d' => Holds d' (adjust i (Item.refer (-1)) l) := by
  obtain ⟨a, b, rfl⟩ := List.append_of_mem hi
  refine (release_spec h.linked hx).imp ?_
  rintro d' ⟨hreleased, hsame⟩
  rw [adjust_middle h.linked.chain.distinct]
  exact h.item hreleased hsame rfl rfl

/-- The items when a traversal has come to one of them, or to the end. -/
def acquired : Option Nat → ItemList ν → ItemList ν
  | none, l => l
  | some i, l => adjust i (Item.refer 1) l

/-- A traversal comes to the first item that is not deleted. -/
theorem acquireFrom_spec {rest : ItemList ν} {fuel : Nat} (h : Holds d (a ++ rest)) (hfuel : rest.length ≤ fuel) :
    Succeeds (acquireFrom fuel (addrs rest).head? d) fun r =>
      r.1 = ((visible rest).map Prod.snd).head? ∧ Holds r.2 (acquired r.1 (a ++ rest)) := by
  induction rest generalizing a fuel with
  | nil => exact ⟨(none, d), by cases fuel <;> rfl, rfl, h⟩
  | cons p rest ih =>
    obtain ⟨i, x⟩ := p
    obtain ⟨fuel, rfl⟩ : ∃ k, fuel = k + 1 := ⟨fuel - 1, by simp at hfuel; omega⟩
    cases hx : x.deleted with
    | false =>
      refine Succeeds.bind (acquire_at h (by simp) hx) ?_
      rintro ⟨rc, d'⟩ ⟨rfl, hacquired⟩
      dsimp only
      rw [if_pos rfl, visible_cons_present hx]
      exact Succeeds.ret ⟨rfl, hacquired⟩
    | true =>
      refine Succeeds.step (acquire_deleted h.linked hx) ?_
      dsimp only
      rw [if_neg (by decide)]
      obtain ⟨n, hread, -, hnext⟩ := read_ok h.linked.chain
      refine Succeeds.step hread ?_
      rw [hnext, visible_cons_deleted hx]
      have hstep : a ++ (i, x) :: rest = (a ++ [(i, x)]) ++ rest := by simp
      rw [hstep] at h ⊢
      exact ih h (by simpa using hfuel)

/-- The collector has run or not. -/
def Tidied (l l' : ItemList ν) : Prop := l' = l ∨ l' = kept l

/-- An item that is pending is freed, and what is pending besides. -/
theorem free_pending (h : Holds d (a ++ (i, x) :: b)) (hcount : x.refcount = 0) (hx : x.deleted = true) :
    Succeeds (do
      let d ← (d.claim i).pendingDeletesMinus1.itemLinkedListRemove i
      d.dictItemFreeWithHooks i) fun d' => Holds d' (kept (a ++ b)) := by
  have hremove := linkedListRemove_spec h.linked hcount
  rw [if_pos hx] at hremove
  refine Succeeds.bind hremove ?_
  rintro d' ⟨hlinked, hsame, hcell, hfreed⟩
  refine ⟨_, free_deleted hcell hx, hlinked.erased (not_mem_removed h.linked.chain.distinct), ?_,
    h.reachable_removed hsame.cell hfreed, h.named_removed, hsame.destroyed.trans h.usable,
    hsame.addInFront.trans h.appends, hsame.dontOverwriteValue.trans h.overwrites⟩
  refine h.indexed.congr ?_ hsame.index hsame.entries
  rw [visible_kept, visible_append, visible_append, visible_cons_deleted hx]

/-- A reference is released. When the traversal was started for writing and the item has been
deleted, the last one to release it frees it. -/
theorem releaseAndCheck_spec (h : Holds d l) (hi : (i, x) ∈ l) (hx : 0 < x.refcount) (write : Bool) :
    Succeeds (d.dictItemReleaseAndCheck i write) fun d' =>
      ∃ l', Tidied (adjust i (Item.refer (-1)) l) l' ∧ Holds d' l' := by
  have hrelease := release_at h hi hx
  unfold dictItemReleaseAndCheck
  cases write with
  | false => exact hrelease.imp fun d' hd' => ⟨_, Or.inl rfl, hd'⟩
  | true =>
    obtain ⟨a, b, rfl⟩ := List.append_of_mem hi
    rw [adjust_middle h.linked.chain.distinct] at hrelease ⊢
    obtain ⟨n, hread, rfl, -⟩ := read_ok h.linked.chain
    refine Succeeds.step hread (Succeeds.bind hrelease ?_)
    intro d₁ h₁
    cases hdeleted : n.data.deleted with
    | false =>
      rw [if_neg Bool.false_ne_true]
      exact Succeeds.ret ⟨_, Or.inl rfl, h₁⟩
    | true =>
      rw [if_pos rfl]
      by_cases hcount : n.data.refcount = 1
      · have hzero : (n.data.refer (-1)).refcount = 0 := by simp [Item.refer, hcount]
        refine Succeeds.step (removable_unreferenced h₁.linked hzero) ?_
        dsimp only
        rw [if_pos rfl]
        refine (free_pending h₁ hzero hdeleted).imp ?_
        intro d' hd'
        refine ⟨_, Or.inr (kept_drop ?_).symm, hd'⟩
        simp [Item.pending, Item.refer, hdeleted, hcount]
      · have hpositive : 0 < (n.data.refer (-1)).refcount := by
          simp only [Item.refer]
          omega
        refine Succeeds.step (removable_referenced h₁.linked hpositive) ?_
        dsimp only
        rw [if_neg (by decide)]
        exact Succeeds.ret ⟨_, Or.inl rfl, h₁⟩

/-! ### Traversals under way -/

/-- How many traversals are at an item. -/
def visitors (c : List Dictfe) (i : Nat) : Nat := c.countP (·.item = some i)

theorem visitors_append (c c' : List Dictfe) (i : Nat) : visitors (c ++ c') i = visitors c i + visitors c' i :=
  List.countP_append

theorem visitors_cons (f : Dictfe) (c : List Dictfe) (i : Nat) :
    visitors (f :: c) i = visitors c i + if f.item = some i then 1 else 0 := by
  simp [visitors, List.countP_cons]

/-- The references are those of the traversals. -/
structure Counted (l : ItemList ν) (c : List Dictfe) : Prop where
  placed : ∀ f ∈ c, ∀ i, f.item = some i → i ∈ addrs l
  count : ∀ p ∈ l, p.2.refcount = visitors c p.1

namespace Counted
variable {c u w : List Dictfe} {dfe : Dictfe}

/-- The item a traversal is at. -/
theorem item (h : Counted l c) (hc : dfe ∈ c) (hi : dfe.item = some i) : ∃ x, (i, x) ∈ l ∧ 0 < x.refcount := by
  obtain ⟨p, hp, rfl⟩ := List.mem_map.mp (h.placed dfe hc i hi)
  refine ⟨p.2, hp, ?_⟩
  have hpositive : 0 < visitors c p.1 := List.countP_pos_iff.mpr ⟨dfe, hc, by simpa using hi⟩
  have hcount := h.count p hp
  omega

/-- No traversal is at an item that the collector takes. -/
theorem not_pending (h : Counted l c) (hc : dfe ∈ c) (hi : dfe.item = some i) {y : Item ν} (hy : (i, y) ∈ l) :
    y.pending = false := by
  have hpositive : 0 < visitors c i := List.countP_pos_iff.mpr ⟨dfe, hc, by simpa using hi⟩
  have hcount : y.refcount = visitors c i := h.count (i, y) hy
  have hne : y.refcount ≠ 0 := by omega
  simp [Item.pending, hne]

theorem kept (h : Counted l c) : Counted (kept l) c where
  placed := by
    intro f hf i hi
    obtain ⟨x, hx, -⟩ := h.item hf hi
    have hmem : (i, x) ∈ Dictionary.kept l := by
      refine List.mem_filter.mpr ⟨hx, ?_⟩
      simpa using h.not_pending hf hi hx
    exact List.mem_map_of_mem hmem
  count := fun p hp => h.count p ((kept_sublist l).mem hp)

theorem tidied (h : Counted l c) (ht : Tidied l l') : Counted l' c := by
  rcases ht with rfl | rfl
  · exact h
  · exact h.kept

theorem append (h : Counted l c) (hi : i ∉ addrs l) (hx : x.refcount = 0) : Counted (l ++ [(i, x)]) c where
  placed := by
    intro f hf j hj
    rw [addrs_append]
    exact List.mem_append_left _ (h.placed f hf j hj)
  count := by
    refine List.forall_mem_append.mpr ⟨h.count, List.forall_mem_singleton.mpr ?_⟩
    have hnone : visitors c i = 0 := by
      refine List.countP_eq_zero.mpr ?_
      intro f hf hitem
      exact hi (h.placed f hf i (by simpa using hitem))
    rw [hx, hnone]
    rfl

theorem adjust (h : Counted l c) (hf : ∀ x, (f x).refcount = x.refcount) : Counted (adjust i f l) c where
  placed := by
    rw [addrs_adjust]
    exact h.placed
  count := by
    intro p hp
    rcases mem_adjust hp with ⟨hmem, -⟩ | ⟨x, hmem, rfl⟩
    · exact h.count p hmem
    · exact (hf x).trans (h.count (i, x) hmem)

/-- Another traversal, at an item or at the end. -/
theorem enter (h : Counted l (u ++ w)) (dfe : Dictfe) (hplaced : ∀ i, dfe.item = some i → i ∈ addrs l) :
    Counted (acquired dfe.item l) (u ++ dfe :: w) where
  placed := by
    have haddrs : addrs (acquired dfe.item l) = addrs l := by
      cases dfe.item with
      | none => rfl
      | some i => exact addrs_adjust ..
    intro f hf
    rw [haddrs]
    rcases List.mem_append.mp hf with hf | hf
    · exact h.placed f (List.mem_append_left _ hf)
    · rcases List.mem_cons.mp hf with rfl | hf
      · exact hplaced
      · exact h.placed f (List.mem_append_right _ hf)
  count := by
    intro p hp
    have hsum : visitors (u ++ dfe :: w) p.1 = visitors (u ++ w) p.1 + if dfe.item = some p.1 then 1 else 0 := by
      rw [visitors_append, visitors_cons, visitors_append]
      omega
    rw [hsum]
    cases hitem : dfe.item with
    | none =>
      rw [hitem] at hp
      simpa using h.count p hp
    | some i =>
      rw [hitem] at hp
      rcases mem_adjust hp with ⟨hmem, hne⟩ | ⟨x, hmem, rfl⟩
      · simpa [Ne.symm hne] using h.count p hmem
      · simpa [Item.refer] using h.count (i, x) hmem

/-- A traversal leaves an item. -/
theorem leave (h : Counted l (u ++ dfe :: w)) (hi : dfe.item = some i) :
    Counted (Dictionary.adjust i (Item.refer (-1)) l) (u ++ w) where
  placed := by
    rw [addrs_adjust]
    intro f hf
    refine h.placed f ?_
    rw [List.mem_append] at hf ⊢
    exact hf.imp_right (List.mem_cons_of_mem _)
  count := by
    intro p hp
    have hsum : visitors (u ++ dfe :: w) p.1 = visitors (u ++ w) p.1 + if dfe.item = some p.1 then 1 else 0 := by
      rw [visitors_append, visitors_cons, visitors_append]
      omega
    rcases mem_adjust hp with ⟨hmem, hne⟩ | ⟨x, hmem, rfl⟩
    · rw [h.count p hmem, hsum, hi, if_neg (by simpa using Ne.symm hne)]
      rfl
    · have hcount : x.refcount = visitors (u ++ dfe :: w) i := h.count (i, x) hmem
      dsimp only at hsum
      rw [hsum, if_pos hi] at hcount
      simp only [Item.refer]
      omega

end Counted

/-- The names a traversal has ahead of it; none if it has ended. -/
def ahead (l : ItemList ν) (dfe : Dictfe) : Option (List CStr) :=
  dfe.item.map fun i => (present (after i l)).map Prod.fst

theorem ahead_refer (i : Nat) (n : Int) (l : ItemList ν) (dfe : Dictfe) :
    ahead (adjust i (Item.refer n) l) dfe = ahead l dfe := by
  unfold ahead
  congr 1
  funext j
  rw [after_adjust, present_refer]

theorem present_acquired (item : Option Nat) (l : ItemList ν) : present (acquired item l) = present l := by
  cases item with
  | none => rfl
  | some i => exact present_refer i 1 l

theorem ahead_acquired (item : Option Nat) (l : ItemList ν) (dfe : Dictfe) : ahead (acquired item l) dfe = ahead l dfe := by
  cases item with
  | none => rfl
  | some i => exact ahead_refer i 1 l dfe

theorem ahead_tidied {c : List Dictfe} {dfe : Dictfe} (h : Counted l c) (ht : Tidied l l') (hc : dfe ∈ c) :
    ahead l' dfe = ahead l dfe := by
  rcases ht with rfl | rfl
  · rfl
  · unfold ahead
    cases hitem : dfe.item with
    | none => rfl
    | some i =>
      simp only [Option.map_some]
      rw [after_kept fun y hy => h.not_pending hc hitem hy, present_kept]

theorem present_tidied (ht : Tidied l l') : present l' = present l := by
  rcases ht with rfl | rfl
  · rfl
  · exact present_kept l

end Dictionary
end UpsdPlugin
