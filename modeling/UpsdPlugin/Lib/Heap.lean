import Mathlib.Data.Option.Basic

/-! Cells in memory, and computations that must not fail.

A heap holds a cell at every address that has been allocated and not freed. Reading,
updating or freeing any other address is a `Fault`, as are a failed assertion and a loop
that does not end, so a computation on a heap that succeeds has used live cells only.

`Succeeds` is total correctness: the computation has a result, and the result satisfies a
condition. -/

inductive Fault where
  /-- A pointer to no live cell has been used. -/
  | dangling
  | fatal (message : String)
  /-- A loop has gone on for longer than its bound. -/
  | endless
  deriving DecidableEq

section Succeeds
variable {ε α β : Type}

def Succeeds (x : Except ε α) (Q : α → Prop) : Prop := ∃ a, x = .ok a ∧ Q a

theorem Succeeds.ret {Q : α → Prop} {a : α} (h : Q a) : Succeeds (pure a : Except ε α) Q := ⟨a, rfl, h⟩

theorem Succeeds.bind {x : Except ε α} {f : α → Except ε β} {P : α → Prop} {Q : β → Prop}
    (hx : Succeeds x P) (hf : ∀ a, P a → Succeeds (f a) Q) : Succeeds (x >>= f) Q := by
  obtain ⟨a, rfl, ha⟩ := hx
  exact hf a ha

/-- A step whose result is known. -/
theorem Succeeds.step {x : Except ε α} {f : α → Except ε β} {a : α} {Q : β → Prop} (hx : x = .ok a)
    (hf : Succeeds (f a) Q) : Succeeds (x >>= f) Q := by
  rw [hx]
  exact hf

theorem Succeeds.imp {x : Except ε α} {P Q : α → Prop} (hx : Succeeds x P) (h : ∀ a, P a → Q a) :
    Succeeds x Q := by
  obtain ⟨a, rfl, ha⟩ := hx
  exact ⟨a, rfl, h a ha⟩

/-- A step of a computation with a state. -/
theorem Succeeds.stateBind {σ : Type} {x : StateT σ (Except ε) α} {f : α → StateT σ (Except ε) β} {s : σ}
    {P : α × σ → Prop} {Q : β × σ → Prop} (hx : Succeeds (x s) P)
    (hf : ∀ a s', P (a, s') → Succeeds (f a s') Q) : Succeeds ((x >>= f) s) Q := by
  obtain ⟨⟨a, s'⟩, hs, ha⟩ := hx
  have hbind : (x >>= f) s = (x s >>= fun r => f r.1 r.2) := rfl
  rw [hbind, hs]
  exact hf a s' ha

end Succeeds

structure Heap (α : Type) where
  cell : Nat → Option α := fun _ => none
  /-- The next address to be given out. -/
  next : Nat := 0
  fresh : ∀ i, next ≤ i → cell i = none := by intros; rfl

namespace Heap
variable {α : Type} (h : Heap α)

def alloc (a : α) : Heap α where
  cell := fun j => if j = h.next then some a else h.cell j
  next := h.next + 1
  fresh := by
    intro j hj
    rw [if_neg (by omega)]
    exact h.fresh j (by omega)

/-- The heap with the cell at `i` changed. -/
def modify (i : Nat) (f : α → α) : Heap α where
  cell := fun j => if j = i then (h.cell j).map f else h.cell j
  next := h.next
  fresh := by
    intro j hj
    rw [h.fresh j hj]
    exact ite_self none

def erase (i : Nat) : Heap α where
  cell := fun j => if j = i then none else h.cell j
  next := h.next
  fresh := by
    intro j hj
    rw [h.fresh j hj]
    exact ite_self none

def read (i : Nat) : Except Fault α :=
  match h.cell i with
  | some a => .ok a
  | none => .error .dangling

def update (i : Nat) (f : α → α) : Except Fault (Heap α) :=
  if (h.cell i).isSome then .ok (h.modify i f) else .error .dangling

def free (i : Nat) : Except Fault (Heap α) :=
  if (h.cell i).isSome then .ok (h.erase i) else .error .dangling

variable {h} {i j : Nat} {a : α}

@[simp] theorem cell_modify (f : α → α) (j : Nat) :
    (h.modify i f).cell j = if j = i then (h.cell j).map f else h.cell j := rfl

@[simp] theorem cell_erase (j : Nat) : (h.erase i).cell j = if j = i then none else h.cell j := rfl

theorem lt_next (hi : h.cell i = some a) : i < h.next := by
  apply Nat.lt_of_not_le
  intro hle
  rw [h.fresh i hle] at hi
  cases hi

theorem read_ok (hi : h.cell i = some a) : h.read i = .ok a := by
  unfold read
  rw [hi]

/-- The address is that of a live cell. -/
def Live (h : Heap α) (i : Nat) : Prop := (h.cell i).isSome

theorem live_of_cell (hi : h.cell i = some a) : h.Live i := by
  unfold Live
  rw [hi]
  rfl

theorem Live.modify (hi : h.Live i) (j : Nat) (f : α → α) : (h.modify j f).Live i := by
  unfold Live at hi ⊢
  rw [cell_modify]
  split
  · rw [Option.isSome_map]
    exact hi
  · exact hi

theorem update_ok (hi : h.Live i) (f : α → α) : h.update i f = .ok (h.modify i f) := if_pos hi

theorem free_ok (hi : h.Live i) : h.free i = .ok (h.erase i) := if_pos hi

theorem read_dangling (hi : h.cell i = none) : h.read i = .error .dangling := by
  unfold read
  rw [hi]

end Heap
