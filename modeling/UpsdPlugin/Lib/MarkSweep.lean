import Mathlib.Data.Set.Insert

/-! Mark and sweep over a registry.

A registry holds entries, some of them marked. When those that are still wanted have been
marked, the sweep visits every entry: a visit unmarks what it finds marked and drops what it
does not.

The visit of an entry goes by the `key` of the entry, which need not be the entry
itself. A sweep that starts from the entries `old` and `new` with `new` marked leaves
exactly `new` if the two are `Tidy` (`Sweeping.visit`, `Sweeping.done`). -/
namespace MarkSweep
variable {κ : Type}

@[ext]
structure Registry (κ : Type) where
  present : Set κ
  marked : Set κ
  /-- Only entries are marked. -/
  sub : marked ⊆ present

namespace Registry

def unmark (s : Registry κ) (k : κ) : Registry κ :=
  ⟨s.present, s.marked \ {k}, fun _ h => s.sub h.1⟩

def drop (s : Registry κ) (k : κ) : Registry κ :=
  ⟨s.present \ {k}, s.marked \ {k}, fun _ h => ⟨s.sub h.1, h.2⟩⟩

open Classical in
/-- The visit of an entry with this key. -/
noncomputable def visit (s : Registry κ) (a : κ) : Registry κ :=
  if a ∈ s.marked then s.unmark a else s.drop a

theorem visit_of_mem {s : Registry κ} {a : κ} (h : a ∈ s.marked) : s.visit a = s.unmark a := if_pos h

theorem visit_of_not_mem {s : Registry κ} {a : κ} (h : a ∉ s.marked) : s.visit a = s.drop a := if_neg h

/-- A visit enters nothing. -/
theorem mem_of_mem_visit {s : Registry κ} {a k : κ} (h : k ∈ (s.visit a).present) : k ∈ s.present := by
  unfold visit at h
  split at h
  · exact h
  · exact h.1

end Registry

section Sweep
variable (key : κ → κ)

/-- The entries that go are their own key, and no entry that stays is the key of another. -/
structure Tidy (old new : Set κ) : Prop where
  gone : ∀ k ∈ old, k ∉ new → key k = k
  stays : ∀ k ∈ new, ∀ x, x ∈ old ∨ x ∈ new → key x = k → x = k

/-- In a sweep, with the entries `todo` still to be visited. -/
structure Sweeping (old new todo : Set κ) (s : Registry κ) : Prop where
  keeps : ∀ k ∈ new, k ∈ s.present
  within : ∀ k ∈ s.present, k ∈ old ∨ k ∈ new
  pending : ∀ k ∈ s.present, k ∈ todo → key k = k → (k ∈ s.marked ↔ k ∈ new)
  visited : ∀ k ∈ s.present, k ∉ todo → key k = k → k ∈ new ∧ k ∉ s.marked

end Sweep

variable {key : κ → κ} {old new todo : Set κ} {s : Registry κ} {k a : κ}

/-- Before the first visit. -/
theorem Sweeping.start (hpresent : ∀ k, k ∈ s.present ↔ k ∈ old ∨ k ∈ new)
    (hmarked : ∀ k, key k = k → (k ∈ s.marked ↔ k ∈ new)) : Sweeping key old new s.present s where
  keeps := fun k hk => (hpresent k).mpr (Or.inr hk)
  within := fun k hk => (hpresent k).mp hk
  pending := fun k _ _ hkey => hmarked k hkey
  visited := fun _ hk hnot => absurd hk hnot

/-- Of what is to be visited, only the entries that are still there matter. -/
theorem Sweeping.todo_congr {todo' : Set κ} (h : Sweeping key old new todo s)
    (htodo : ∀ k ∈ s.present, (k ∈ todo' ↔ k ∈ todo)) : Sweeping key old new todo' s where
  keeps := h.keeps
  within := h.within
  pending := fun k hk ht => h.pending k hk ((htodo k hk).mp ht)
  visited := fun k hk ht => h.visited k hk fun hmem => ht ((htodo k hk).mpr hmem)

theorem Sweeping.unmark (h : Sweeping key old new todo s) (ht : k ∈ todo) (hkey : key k = k)
    (hm : k ∈ s.marked) : Sweeping key old new (todo \ {k}) (s.unmark k) where
  keeps := h.keeps
  within := h.within
  pending := by
    intro x hx hxt hxa
    have hne : x ≠ k := hxt.2
    have hx' := h.pending x hx hxt.1 hxa
    simpa [Registry.unmark, hne] using hx'
  visited := by
    intro x hx hxt hxa
    by_cases hne : x = k
    · subst hne
      exact ⟨(h.pending x hx ht hkey).mp hm, fun hmem => hmem.2 rfl⟩
    · have hx' := h.visited x hx (fun hmem => hxt ⟨hmem, hne⟩) hxa
      exact ⟨hx'.1, fun hmem => hx'.2 hmem.1⟩

/-- Dropping what is not wanted, on the visit of an entry that is not its own key or is dropped. -/
theorem Sweeping.drop (h : Sweeping key old new todo s) (ha : a ∉ new) (hself : key k = k → k = a) :
    Sweeping key old new (todo \ {k}) (s.drop a) where
  keeps := by
    intro x hx
    exact ⟨h.keeps x hx, fun heq => ha (heq ▸ hx)⟩
  within := fun x hx => h.within x hx.1
  pending := by
    intro x hx hxt hxa
    have hne : x ≠ a := hx.2
    have hx' := h.pending x hx.1 hxt.1 hxa
    simpa [Registry.drop, hne] using hx'
  visited := by
    intro x hx hxt hxa
    have hne : x ≠ k := fun heq => hx.2 (heq.trans (hself (heq ▸ hxa)))
    have hx' := h.visited x hx.1 (fun hmem => hxt ⟨hmem, hne⟩) hxa
    exact ⟨hx'.1, fun hmem => hx'.2 hmem.1⟩

/-- **A visit.** -/
theorem Sweeping.visit (h : Sweeping key old new todo s) (htidy : Tidy key old new)
    (hidem : ∀ x, key (key x) = key x) (hk : k ∈ s.present) (ht : k ∈ todo) :
    Sweeping key old new (todo \ {k}) (s.visit (key k)) := by
  by_cases hkey : key k = k
  · rw [hkey]
    by_cases hm : k ∈ s.marked
    · rw [Registry.visit_of_mem hm]
      exact h.unmark ht hkey hm
    · rw [Registry.visit_of_not_mem hm]
      have hgone : k ∉ new := fun hnew => hm ((h.pending k hk ht hkey).mpr hnew)
      exact h.drop hgone fun _ => rfl
  · -- An entry that is not its own key stays, so its key is no entry that stays.
    have hnew : k ∈ new := by
      by_contra hgone
      exact hkey (htidy.gone k ((h.within k hk).resolve_right hgone) hgone)
    have hgone : key k ∉ new := fun hmem => hkey (htidy.stays (key k) hmem k (Or.inr hnew) rfl).symm
    have hm : key k ∉ s.marked := by
      intro hm
      have hpresent := s.sub hm
      by_cases htodo : key k ∈ todo
      · exact hgone ((h.pending _ hpresent htodo (hidem k)).mp hm)
      · exact (h.visited _ hpresent htodo (hidem k)).2 hm
    rw [Registry.visit_of_not_mem hm]
    exact h.drop hgone fun heq => absurd heq hkey

/-- **After the last visit**, the entries are those that were wanted, and none that is its
own key is marked. -/
theorem Sweeping.done (h : Sweeping key old new todo s) (htidy : Tidy key old new)
    (hdone : ∀ k ∈ s.present, k ∉ todo) :
    (∀ k, k ∈ s.present ↔ k ∈ new) ∧ ∀ k, key k = k → k ∉ s.marked := by
  constructor
  · intro k
    constructor
    · intro hk
      by_contra hgone
      have hkey := htidy.gone k ((h.within k hk).resolve_right hgone) hgone
      exact hgone (h.visited k hk (hdone k hk) hkey).1
    · exact h.keeps k
  · intro k hkey hm
    exact (h.visited k (s.sub hm) (hdone k (s.sub hm)) hkey).2 hm

end MarkSweep
