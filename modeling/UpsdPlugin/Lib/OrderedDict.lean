import Mathlib.Data.List.Nodup
import Mathlib.Data.List.Perm.Basic

/-! Dictionaries in insertion order.

A dictionary is a list of items with pairwise distinct keys. Setting a present
key replaces its value where it stands, setting an absent key appends, deleting
removes; a lookup after any of these is what it should be (`get_set`, `get_del`).

A traversal holds the keys of the items it has not reached yet, in the order
they were linked when it started. `next` skips those that have been deleted
since, which is all a traversal has to know about deletions made under it. -/

structure OrderedDict (κ ν : Type) where
  items : List (κ × ν)
  distinct : (items.map Prod.fst).Nodup

namespace OrderedDict
variable {κ ν : Type}

def empty : OrderedDict κ ν := ⟨[], List.nodup_nil⟩

def keys (d : OrderedDict κ ν) : List κ := d.items.map Prod.fst

def values (d : OrderedDict κ ν) : List ν := d.items.map Prod.snd

theorem keys_nodup (d : OrderedDict κ ν) : d.keys.Nodup := d.distinct

@[simp] theorem keys_empty : (empty : OrderedDict κ ν).keys = [] := rfl

@[simp] theorem values_empty : (empty : OrderedDict κ ν).values = [] := rfl

@[ext] theorem ext {d e : OrderedDict κ ν} (h : d.items = e.items) : d = e := by
  cases d
  cases e
  cases h
  rfl

/-- The dictionary with every value mapped. -/
def map {μ : Type} (f : ν → μ) (d : OrderedDict κ ν) : OrderedDict κ μ where
  items := d.items.map fun p => (p.1, f p.2)
  distinct := by
    rw [List.map_map]
    exact d.distinct

variable [DecidableEq κ]

/-! ### Lookup -/

/-- The value at the first item with this key. -/
def find (k : κ) : List (κ × ν) → Option ν
  | [] => none
  | (k', v) :: rest => if k' = k then some v else find k rest

def get (d : OrderedDict κ ν) (k : κ) : Option ν := find k d.items

theorem find_eq_none {k : κ} {l : List (κ × ν)} : find k l = none ↔ k ∉ l.map Prod.fst := by
  induction l with
  | nil => simp [find]
  | cons p rest ih =>
    obtain ⟨k', v⟩ := p
    by_cases h : k' = k
    · simp [find, h]
    · simp [find, h, ih, Ne.symm h]

theorem find_eq_some {k : κ} {v : ν} {l : List (κ × ν)} (hd : (l.map Prod.fst).Nodup) :
    find k l = some v ↔ (k, v) ∈ l := by
  induction l with
  | nil => simp [find]
  | cons p rest ih =>
    obtain ⟨k', v'⟩ := p
    rw [List.map_cons, List.nodup_cons] at hd
    by_cases h : k' = k
    · subst h
      have hno : (k', v) ∉ rest := fun hm => hd.1 (List.mem_map.mpr ⟨_, hm, rfl⟩)
      simp [find, hno, eq_comm]
    · simp [find, h, ih hd.2, Ne.symm h]

theorem get_eq_none {d : OrderedDict κ ν} {k : κ} : d.get k = none ↔ k ∉ d.keys :=
  find_eq_none

theorem get_eq_some {d : OrderedDict κ ν} {k : κ} {v : ν} :
    d.get k = some v ↔ (k, v) ∈ d.items :=
  find_eq_some d.distinct

theorem mem_keys {d : OrderedDict κ ν} {k : κ} : k ∈ d.keys ↔ ∃ v, d.get k = some v := by
  rw [← not_iff_not, ← get_eq_none, Option.eq_none_iff_forall_ne_some, not_exists]

/-- A key is there if the lookup finds a value. -/
instance (d : OrderedDict κ ν) (k : κ) : Decidable (k ∈ d.keys) :=
  decidable_of_iff ((d.get k).isSome = true) (Option.isSome_iff_exists.trans mem_keys.symm)

theorem mem_keys_of_get {d : OrderedDict κ ν} {k : κ} {v : ν} (h : d.get k = some v) :
    k ∈ d.keys :=
  mem_keys.mpr ⟨v, h⟩

theorem get_map {μ : Type} (f : ν → μ) (d : OrderedDict κ ν) (k : κ) : (d.map f).get k = (d.get k).map f := by
  show find k (d.items.map _) = (find k d.items).map f
  induction d.items with
  | nil => rfl
  | cons p rest ih =>
    obtain ⟨k', v⟩ := p
    by_cases h : k' = k
    · simp [find, h]
    · simpa [find, h] using ih

/-! ### Update -/

def put (k : κ) (v : ν) : List (κ × ν) → List (κ × ν)
  | [] => [(k, v)]
  | (k', v') :: rest => if k' = k then (k, v) :: rest else (k', v') :: put k v rest

theorem put_of_not_mem {k : κ} {v : ν} {l : List (κ × ν)} (h : k ∉ l.map Prod.fst) :
    put k v l = l ++ [(k, v)] := by
  induction l with
  | nil => rfl
  | cons p rest ih =>
    obtain ⟨k', v'⟩ := p
    simp only [List.map_cons, List.mem_cons, not_or] at h
    simp [put, Ne.symm h.1, ih h.2]

theorem put_middle {k : κ} {v v' : ν} {l l' : List (κ × ν)} (h : k ∉ l.map Prod.fst) :
    put k v (l ++ (k, v') :: l') = l ++ (k, v) :: l' := by
  induction l with
  | nil => exact if_pos rfl
  | cons p l ih =>
    obtain ⟨k', w⟩ := p
    simp only [List.map_cons, List.mem_cons, not_or] at h
    simp [put, Ne.symm h.1, ih h.2]

theorem put_keys_of_mem {k : κ} {v : ν} {l : List (κ × ν)} (h : k ∈ l.map Prod.fst) :
    (put k v l).map Prod.fst = l.map Prod.fst := by
  induction l with
  | nil => simp at h
  | cons p rest ih =>
    obtain ⟨k', v'⟩ := p
    by_cases hk : k' = k
    · simp [put, hk]
    · have hrest : k ∈ rest.map Prod.fst := by
        rcases List.mem_cons.mp h with rfl | h
        · exact absurd rfl hk
        · exact h
      simp [put, hk, ih hrest]

theorem find_put {k k' : κ} {v : ν} {l : List (κ × ν)} :
    find k' (put k v l) = if k' = k then some v else find k' l := by
  induction l with
  | nil => by_cases h : k = k' <;> simp [put, find, h, eq_comm]
  | cons p rest ih =>
    obtain ⟨k₀, v₀⟩ := p
    by_cases hk : k₀ = k
    · subst hk
      by_cases h : k₀ = k'
      · simp [put, find, h]
      · simp [put, find, h, Ne.symm h]
    · by_cases h : k₀ = k'
      · subst h
        simp [put, find, hk]
      · simp [put, find, hk, h, ih]

theorem put_nodup (k : κ) (v : ν) {l : List (κ × ν)} (hd : (l.map Prod.fst).Nodup) :
    ((put k v l).map Prod.fst).Nodup := by
  by_cases h : k ∈ l.map Prod.fst
  · rw [put_keys_of_mem h]
    exact hd
  · rw [put_of_not_mem h, List.map_append, List.map_singleton]
    exact List.nodup_append.mpr ⟨hd, List.nodup_singleton k, by
      intro a ha b hb
      rw [List.mem_singleton.mp hb]
      rintro rfl
      exact h ha⟩

def set (d : OrderedDict κ ν) (k : κ) (v : ν) : OrderedDict κ ν :=
  ⟨put k v d.items, put_nodup k v d.distinct⟩

def del (d : OrderedDict κ ν) (k : κ) : OrderedDict κ ν :=
  ⟨d.items.filter (fun p => p.1 ≠ k), d.distinct.sublist (List.filter_sublist.map Prod.fst)⟩

theorem get_set (d : OrderedDict κ ν) (k k' : κ) (v : ν) :
    (d.set k v).get k' = if k' = k then some v else d.get k' :=
  find_put

@[simp] theorem get_set_self (d : OrderedDict κ ν) (k : κ) (v : ν) :
    (d.set k v).get k = some v := by
  rw [get_set, if_pos rfl]

theorem get_set_ne (d : OrderedDict κ ν) {k k' : κ} (v : ν) (h : k' ≠ k) :
    (d.set k v).get k' = d.get k' := by
  rw [get_set, if_neg h]

theorem map_set {μ : Type} (f : ν → μ) (d : OrderedDict κ ν) (k : κ) (v : ν) :
    (d.set k v).map f = (d.map f).set k (f v) := by
  apply ext
  show (put k v d.items).map _ = put k (f v) (d.items.map _)
  induction d.items with
  | nil => rfl
  | cons p rest ih =>
    obtain ⟨k', v'⟩ := p
    by_cases h : k' = k
    · simp [put, h]
    · simpa [put, h] using ih

theorem map_del {μ : Type} (f : ν → μ) (d : OrderedDict κ ν) (k : κ) : (d.del k).map f = (d.map f).del k := by
  apply ext
  show (d.items.filter _).map _ = (d.items.map _).filter _
  rw [List.filter_map]
  rfl

theorem keys_set_of_mem {d : OrderedDict κ ν} {k : κ} (v : ν) (h : k ∈ d.keys) :
    (d.set k v).keys = d.keys :=
  put_keys_of_mem h

theorem keys_set_of_not_mem {d : OrderedDict κ ν} {k : κ} (v : ν) (h : k ∉ d.keys) :
    (d.set k v).keys = d.keys ++ [k] := by
  show (put k v d.items).map Prod.fst = _
  rw [put_of_not_mem h, List.map_append]
  rfl

theorem mem_keys_set {d : OrderedDict κ ν} {k k' : κ} {v : ν} :
    k' ∈ (d.set k v).keys ↔ k' = k ∨ k' ∈ d.keys := by
  by_cases h : k ∈ d.keys
  · rw [keys_set_of_mem v h]
    constructor
    · exact Or.inr
    · rintro (rfl | h')
      · exact h
      · exact h'
  · rw [keys_set_of_not_mem v h, List.mem_append, List.mem_singleton, or_comm]

/-- Setting the same key in two dictionaries with the same keys keeps them the same. -/
theorem keys_set_congr {μ : Type} {d : OrderedDict κ ν} {e : OrderedDict κ μ} (h : d.keys = e.keys)
    (k : κ) (v : ν) (x : μ) : (d.set k v).keys = (e.set k x).keys := by
  by_cases hk : k ∈ d.keys
  · rw [keys_set_of_mem v hk, keys_set_of_mem x (h ▸ hk), h]
  · rw [keys_set_of_not_mem v hk, keys_set_of_not_mem x (h ▸ hk), h]

theorem values_set_of_not_mem {d : OrderedDict κ ν} {k : κ} (v : ν) (h : k ∉ d.keys) :
    (d.set k v).values = d.values ++ [v] := by
  show (put k v d.items).map Prod.snd = _
  rw [put_of_not_mem h, List.map_append]
  rfl

/-- Entries with new and distinct keys are appended in their order. -/
theorem values_foldl_set (key : ν → κ) (d : OrderedDict κ ν) (vs : List ν)
    (hfresh : ∀ v ∈ vs, key v ∉ d.keys) (hnodup : (vs.map key).Nodup) :
    (vs.foldl (fun d v => d.set (key v) v) d).values = d.values ++ vs := by
  induction vs generalizing d with
  | nil => simp
  | cons v rest ih =>
    rw [List.map_cons, List.nodup_cons] at hnodup
    have hvalues := values_set_of_not_mem v (hfresh v (List.mem_cons_self ..))
    have hrest : ∀ x ∈ rest, key x ∉ (d.set (key v) v).keys := by
      intro x hx hmem
      rcases mem_keys_set.mp hmem with heq | hmem
      · exact hnodup.1 (heq ▸ List.mem_map_of_mem hx)
      · exact hfresh x (List.mem_cons_of_mem v hx) hmem
    rw [List.foldl_cons, ih _ hrest hnodup.2, hvalues, List.append_assoc]
    rfl

theorem keys_del (d : OrderedDict κ ν) (k : κ) : (d.del k).keys = d.keys.filter (· ≠ k) := by
  show (d.items.filter _).map Prod.fst = (d.items.map Prod.fst).filter _
  rw [List.filter_map]
  rfl

theorem mem_keys_del {d : OrderedDict κ ν} {k k' : κ} :
    k' ∈ (d.del k).keys ↔ k' ∈ d.keys ∧ k' ≠ k := by
  rw [keys_del, List.mem_filter, decide_eq_true_iff]

theorem get_del (d : OrderedDict κ ν) (k k' : κ) :
    (d.del k).get k' = if k' = k then none else d.get k' := by
  by_cases h : k' = k
  · rw [if_pos h, get_eq_none, mem_keys_del]
    exact fun hm => hm.2 h
  · rw [if_neg h]
    apply Option.ext
    intro v
    rw [get_eq_some, get_eq_some]
    show (k', v) ∈ d.items.filter _ ↔ _
    rw [List.mem_filter, decide_eq_true_iff]
    exact ⟨fun hm => hm.1, fun hm => ⟨hm, h⟩⟩

/-! ### Traversal -/

/-- The first item of `todo` that is still there, and what is left after it. -/
def next (d : OrderedDict κ ν) : List κ → Option ((κ × ν) × List κ)
  | [] => none
  | k :: todo =>
    match d.get k with
    | some v => some ((k, v), todo)
    | none => d.next todo

theorem next_cons_of_get {d : OrderedDict κ ν} {k : κ} {v : ν} (todo : List κ)
    (h : d.get k = some v) : d.next (k :: todo) = some ((k, v), todo) := by
  simp only [next, h]

theorem next_cons_of_not_mem {d : OrderedDict κ ν} {k : κ} (todo : List κ) (h : k ∉ d.keys) :
    d.next (k :: todo) = d.next todo := by
  simp only [next, get_eq_none.mpr h]

/-- What `next` skips has been deleted. -/
theorem next_eq_some {d : OrderedDict κ ν} {todo rest : List κ} {k : κ} {v : ν}
    (h : d.next todo = some ((k, v), rest)) :
    d.get k = some v ∧ ∃ skipped, todo = skipped ++ k :: rest ∧ ∀ x ∈ skipped, x ∉ d.keys := by
  induction todo with
  | nil => cases h
  | cons k' todo ih =>
    cases hk : d.get k' with
    | none =>
      rw [next_cons_of_not_mem todo (get_eq_none.mp hk)] at h
      obtain ⟨hget, skipped, rfl, hs⟩ := ih h
      refine ⟨hget, k' :: skipped, rfl, ?_⟩
      intro x hx
      rcases List.mem_cons.mp hx with rfl | hx
      · exact get_eq_none.mp hk
      · exact hs x hx
    | some v' =>
      rw [next_cons_of_get todo hk] at h
      cases h
      exact ⟨hk, [], rfl, fun x hx => nomatch hx⟩

theorem next_eq_none {d : OrderedDict κ ν} {todo : List κ} (h : d.next todo = none) :
    ∀ k ∈ todo, k ∉ d.keys := by
  induction todo with
  | nil => exact fun k hk => nomatch hk
  | cons k' todo ih =>
    cases hk : d.get k' with
    | none =>
      rw [next_cons_of_not_mem todo (get_eq_none.mp hk)] at h
      intro k hk'
      rcases List.mem_cons.mp hk' with rfl | hk'
      · exact get_eq_none.mp hk
      · exact ih h k hk'
    | some v =>
      rw [next_cons_of_get todo hk] at h
      cases h

/-- Those of `todo` that are still there. -/
def remaining (d : OrderedDict κ ν) (todo : List κ) : List κ := todo.filter fun k => (d.get k).isSome

/-- `next` finds the first of those that remain. -/
theorem next_remaining (d : OrderedDict κ ν) (todo : List κ) :
    d.next todo = none ∧ d.remaining todo = [] ∨
      ∃ k v rest, d.next todo = some ((k, v), rest) ∧ d.get k = some v ∧
        d.remaining todo = k :: d.remaining rest := by
  induction todo with
  | nil => exact Or.inl ⟨rfl, rfl⟩
  | cons k todo ih =>
    cases hk : d.get k with
    | none =>
      rw [next_cons_of_not_mem todo (get_eq_none.mp hk), remaining, List.filter_cons_of_neg (by simp [hk])]
      exact ih
    | some v =>
      refine Or.inr ⟨k, v, todo, next_cons_of_get todo hk, hk, ?_⟩
      exact List.filter_cons_of_pos (by simp [hk])

theorem remaining_of_subset {d : OrderedDict κ ν} {todo : List κ} (h : ∀ k ∈ todo, k ∈ d.keys) :
    d.remaining todo = todo := by
  apply List.filter_eq_self.mpr
  intro k hk
  obtain ⟨v, hv⟩ := mem_keys.mp (h k hk)
  rw [hv]
  rfl

theorem remaining_del (d : OrderedDict κ ν) (k : κ) (todo : List κ) :
    (d.del k).remaining todo = (d.remaining todo).filter (· ≠ k) := by
  rw [remaining, remaining, List.filter_filter]
  apply List.filter_congr
  intro k' _
  rw [get_del]
  by_cases hk : k' = k
  · simp [hk]
  · simp [hk]

/-- A traversal that has just begun. -/
theorem next_keys (d : OrderedDict κ ν) : d.next d.keys = d.items.head?.map fun p => (p, d.keys.tail) := by
  cases hitems : d.items with
  | nil =>
    rw [keys, hitems]
    rfl
  | cons p rest =>
    have hget : d.get p.1 = some p.2 := by
      rw [get_eq_some, hitems]
      exact List.mem_cons_self ..
    have hkeys : d.keys = p.1 :: rest.map Prod.fst := by rw [keys, hitems, List.map_cons]
    rw [hkeys, next_cons_of_get _ hget]
    rfl

end OrderedDict
