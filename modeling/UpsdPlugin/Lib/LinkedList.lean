import UpsdPlugin.Lib.Heap
import Mathlib.Data.List.Nodup

/-! Doubly linked lists in memory.

The nodes of a list point to the next and to the previous node. The first node's `prev` is
the last node, so that appending needs no search, and the last node's `next` is null.

`Chain m head l` says that the list that starts at `head` is `l`, the addresses of its nodes
with the data they hold. Linking and unlinking a node are operations on pointers; on `l` they
are concatenation and removal (`append_chain`, `remove_chain`). -/
namespace LinkedList
variable {β : Type}

structure Node (β : Type) where
  next : Option Nat := none
  prev : Option Nat := none
  data : β

def Node.withNext (n : Node β) (p : Option Nat) : Node β := {n with next := p}
def Node.withPrev (n : Node β) (p : Option Nat) : Node β := {n with prev := p}
def Node.mapData (f : β → β) (n : Node β) : Node β := {n with data := f n.data}

abbrev Memory (β : Type) := Heap (Node β)

/-- The node a link points to. -/
def deref : Option Nat → Except Fault Nat
  | some i => .ok i
  | none => .error .dangling

/-! ### Operations -/

def prepend (m : Memory β) (head : Option Nat) (item : Nat) : Except Fault (Memory β × Option Nat) := do
  let m ← m.update item (·.withNext head)
  match head with
  | some first =>
    let n ← m.read first
    let m ← m.update item (·.withPrev n.prev)
    let m ← m.update first (·.withPrev (some item))
    return (m, some item)
  | none =>
    let m ← m.update item (·.withPrev (some item))
    return (m, some item)

def append (m : Memory β) (head : Option Nat) (item : Nat) : Except Fault (Memory β × Option Nat) := do
  let m ← m.update item (·.withNext none)
  match head with
  | some first =>
    let n ← m.read first
    let m ← m.update item (·.withPrev n.prev)
    let last ← deref n.prev
    let m ← m.update last (·.withNext (some item))
    let m ← m.update first (·.withPrev (some item))
    return (m, head)
  | none =>
    let m ← m.update item (·.withPrev (some item))
    return (m, some item)

/-- Takes a node out of the links around it. -/
def bypass (m : Memory β) (head : Nat) (item : Nat) (n : Node β) : Except Fault (Memory β × Option Nat) := do
  if n.prev = some item then
    -- It is the only item.
    return (m, none)
  else if item = head then
    match n.next with
    | none => throw (.fatal "(item)->next != NULL")
    | some second =>
      let m ← m.update second (·.withPrev n.prev)
      return (m, some second)
  else
    let before ← deref n.prev
    let m ← m.update before (·.withNext n.next)
    match n.next with
    | some after =>
      let m ← m.update after (·.withPrev n.prev)
      return (m, some head)
    | none =>
      let m ← m.update head (·.withPrev n.prev)
      return (m, some head)

def remove (m : Memory β) (head : Option Nat) (item : Nat) : Except Fault (Memory β × Option Nat) := do
  match head with
  | none => throw (.fatal "(head) != NULL")
  | some first =>
    let n ← m.read item
    if n.prev = none then throw (.fatal "(item)->prev != NULL")
    let (m, head) ← bypass m first item n
    let m ← m.update item (fun n => (n.withNext none).withPrev none)
    return (m, head)

/-! ### The list in memory -/

def addrs (l : List (Nat × β)) : List Nat := l.map Prod.fst

@[simp] theorem addrs_nil : addrs ([] : List (Nat × β)) = [] := rfl

@[simp] theorem addrs_cons (p : Nat × β) (l : List (Nat × β)) : addrs (p :: l) = p.1 :: addrs l := rfl

@[simp] theorem addrs_append (l l' : List (Nat × β)) : addrs (l ++ l') = addrs l ++ addrs l' :=
  List.map_append

structure Chain (m : Memory β) (head : Option Nat) (l : List (Nat × β)) : Prop where
  distinct : (addrs l).Nodup
  head : head = (addrs l).head?
  cell : ∀ a i x b, l = a ++ (i, x) :: b →
    m.cell i = some ⟨(addrs b).head?, (addrs a).getLast?.or (addrs l).getLast?, x⟩

section Places
variable {l a b : List (Nat × β)} {i : Nat} {x : β}

/-- Only the node with nothing before it is the first. -/
theorem head?_eq_some (h : (addrs (a ++ (i, x) :: b)).Nodup) :
    (addrs (a ++ (i, x) :: b)).head? = some i ↔ a = [] := by
  cases a with
  | nil => simp
  | cons p a =>
    have hne : p.1 ≠ i := by
      intro heq
      rw [List.cons_append, addrs_cons, List.nodup_cons] at h
      exact h.1 (by simp [heq])
    simpa using hne

/-- Only the node with nothing behind it is the last. -/
theorem getLast?_eq_some (h : (addrs (a ++ (i, x) :: b)).Nodup) :
    (addrs (a ++ (i, x) :: b)).getLast? = some i ↔ b = [] := by
  rcases List.eq_nil_or_concat b with rfl | ⟨b, p, rfl⟩
  · simp
  · have hne : p.1 ≠ i := by
      intro heq
      simp only [List.concat_eq_append, addrs_append, addrs_cons, addrs_nil] at h
      have hmid := (List.nodup_append.mp h).2.1
      rw [List.nodup_cons] at hmid
      exact hmid.1 (by simp [heq])
    have hlast : (addrs (a ++ (i, x) :: b.concat p)).getLast? = some p.1 := by
      rw [List.concat_eq_append, ← List.cons_append, ← List.append_assoc, addrs_append]
      exact List.getLast?_concat
    rw [hlast]
    simpa using hne

theorem not_mem_of_nodup (h : (addrs (a ++ (i, x) :: b)).Nodup) : i ∉ addrs a ∧ i ∉ addrs b := by
  rw [addrs_append, addrs_cons] at h
  have hmid := List.nodup_middle.mp h
  rw [List.nodup_cons, List.mem_append, not_or] at hmid
  exact hmid.1

theorem exists_place (h : i ∈ addrs l) : ∃ a x b, l = a ++ (i, x) :: b := by
  obtain ⟨p, hp, rfl⟩ := List.mem_map.mp h
  obtain ⟨a, b, rfl⟩ := List.append_of_mem hp
  exact ⟨a, p.2, b, rfl⟩

/-- A node of two lists put together is a node of the first or of the second. -/
theorem place_append {l' : List (Nat × β)} (h : l ++ l' = a ++ (i, x) :: b) :
    (∃ b', l = a ++ (i, x) :: b' ∧ b = b' ++ l') ∨ (∃ a', l' = a' ++ (i, x) :: b ∧ a = l ++ a') := by
  rcases List.append_eq_append_iff.mp h with ⟨a', rfl, hl'⟩ | ⟨b', rfl, hb⟩
  · exact Or.inr ⟨a', hl', rfl⟩
  · cases b' with
    | nil => exact Or.inr ⟨[], by simpa using hb.symm, by simp⟩
    | cons p b' =>
      simp only [List.cons_append, List.cons.injEq] at hb
      obtain ⟨rfl, rfl⟩ := hb
      exact Or.inl ⟨b', rfl, rfl⟩

theorem place_singleton {j : Nat} {z : β} (h : [(j, z)] = a ++ (i, x) :: b) :
    a = [] ∧ j = i ∧ z = x ∧ b = [] := by
  cases a with
  | nil => simpa [and_assoc] using h
  | cons p a => simp at h

end Places

/-! ### Linking -/

section Chains
variable {m : Memory β} {head : Option Nat} {l : List (Nat × β)} {i : Nat} {n : Node β}

theorem Chain.nil : Chain m none ([] : List (Nat × β)) where
  distinct := List.nodup_nil
  head := rfl
  cell := by simp

/-- A chain depends on the cells of its nodes only. -/
theorem Chain.congr {m' : Memory β} (h : Chain m head l) (hcell : ∀ j ∈ addrs l, m'.cell j = m.cell j) :
    Chain m' head l where
  distinct := h.distinct
  head := h.head
  cell := by
    intro a j x b hl
    rw [hcell j (by simp [hl])]
    exact h.cell a j x b hl

/-- Changing the data of a node. -/
theorem Chain.mapData {a b : List (Nat × β)} {x : β} (h : Chain m head (a ++ (i, x) :: b)) (f : β → β) :
    Chain (m.modify i (Node.mapData f)) head (a ++ (i, f x) :: b) where
  distinct := by simpa using h.distinct
  head := by simpa using h.head
  cell := by
    have hout := not_mem_of_nodup h.distinct
    have haddrs : addrs (a ++ (i, f x) :: b) = addrs (a ++ (i, x) :: b) := by simp
    intro c j z d hl
    rw [haddrs]
    rcases place_append hl with ⟨d', rfl, rfl⟩ | ⟨c', hc', rfl⟩
    · have hne : j ≠ i := fun heq => hout.1 (by simp [heq])
      simpa [hne] using h.cell c j z (d' ++ (i, x) :: b) (by simp)
    · cases c' with
      | nil =>
        simp only [List.nil_append, List.cons.injEq, Prod.mk.injEq] at hc'
        obtain ⟨⟨rfl, rfl⟩, rfl⟩ := hc'
        simp [h.cell a i x b rfl, Node.mapData]
      | cons p c' =>
        simp only [List.cons_append, List.cons.injEq] at hc'
        obtain ⟨rfl, rfl⟩ := hc'
        have hne : j ≠ i := fun heq => hout.2 (by simp [heq])
        simpa [hne] using h.cell (a ++ (i, x) :: c') j z d (by simp)

/-- What linking and unlinking leave alone: the cells outside the list. -/
structure Frame (touched : List Nat) (m m' : Memory β) : Prop where
  cell : ∀ j, j ∉ touched → m'.cell j = m.cell j
  next : m'.next = m.next

theorem append_empty (hi : m.cell i = some n) :
    Succeeds (append m none i) fun r => Chain r.1 r.2 [(i, n.data)] ∧ Frame [i] m r.1 := by
  have hlive := Heap.live_of_cell hi
  refine Succeeds.step (Heap.update_ok hlive _) (Succeeds.step (Heap.update_ok (hlive.modify _ _) _) ?_)
  refine Succeeds.ret ⟨⟨by simp, rfl, ?_⟩, ⟨?_, rfl⟩⟩
  · intro a j x b hl
    obtain ⟨rfl, rfl, rfl, rfl⟩ := place_singleton hl
    simp [hi, Node.withNext, Node.withPrev]
  · intro j hj
    have hne : j ≠ i := by simpa using hj
    simp [hne]

/-- A node between its new neighbours. -/
def linkAt (j : Nat) (nextAt : Nat) (q : Option Nat) (prevAt : Nat) (p : Option Nat) (n : Node β) : Node β :=
  ⟨if j = nextAt then q else n.next, if j = prevAt then p else n.prev, n.data⟩

theorem linkAt_of_ne {j nextAt prevAt : Nat} {q p : Option Nat} (hnext : j ≠ nextAt) (hprev : j ≠ prevAt) :
    linkAt j nextAt q prevAt p = (id : Node β → Node β) := by
  funext n
  rw [linkAt, if_neg hnext, if_neg hprev]
  rfl

theorem cell_relink (nextAt prevAt : Nat) (q p : Option Nat) (j : Nat) :
    ((m.modify nextAt (·.withNext q)).modify prevAt (·.withPrev p)).cell j =
      (m.cell j).map (linkAt j nextAt q prevAt p) := by
  cases hj : m.cell j with
  | none => simp [hj]
  | some n =>
    rw [Heap.cell_modify, Heap.cell_modify, hj]
    simp only [Option.map_some, linkAt]
    split_ifs
    · rfl
    · rfl
    · rfl
    · rfl

theorem append_nonempty {f : Nat} {y : β} {t : List (Nat × β)} (h : Chain m head ((f, y) :: t))
    (hi : m.cell i = some n) (hout : i ∉ addrs ((f, y) :: t)) :
    Succeeds (append m (some f) i) fun r =>
      Chain r.1 r.2 ((f, y) :: t ++ [(i, n.data)]) ∧ Frame (i :: addrs ((f, y) :: t)) m r.1 := by
  obtain ⟨last, hlast⟩ : ∃ last, (addrs ((f, y) :: t)).getLast? = some last :=
    Option.isSome_iff_exists.mp (by simp)
  obtain ⟨a, z, b, hplace⟩ := exists_place (List.mem_of_getLast? hlast)
  have hf := h.cell [] f y t rfl
  have hz := h.cell a last z b hplace
  have hfi : f ≠ i := fun heq => hout (by simp [heq])
  have hli : last ≠ i := fun heq => hout (heq ▸ List.mem_of_getLast? hlast)
  rw [addrs_nil, List.getLast?_nil, Option.none_or, hlast] at hf
  have hlive := Heap.live_of_cell hi
  refine Succeeds.step (Heap.update_ok hlive _) ?_
  refine Succeeds.step (Heap.read_ok (by simpa [hfi] using hf)) ?_
  refine Succeeds.step (Heap.update_ok (hlive.modify _ _) _) (Succeeds.step rfl ?_)
  refine Succeeds.step (Heap.update_ok (((Heap.live_of_cell hz).modify _ _).modify _ _) _) ?_
  refine Succeeds.step
    (Heap.update_ok ((((Heap.live_of_cell hf).modify _ _).modify _ _).modify _ _) _) ?_
  refine Succeeds.ret ⟨⟨?_, rfl, ?_⟩, ⟨?_, rfl⟩⟩
  · rw [addrs_append]
    refine List.nodup_append.mpr ⟨h.distinct, by simp, ?_⟩
    intro j hj k hk heq
    have hk : k = i := by simpa using hk
    exact hout (hk ▸ heq ▸ hj)
  · intro c j x d hl
    rw [cell_relink, cell_relink]
    rcases place_append hl with ⟨d', hd', rfl⟩ | ⟨c', hc', rfl⟩
    · have hji : j ≠ i := fun heq => hout (by simp [hd', heq])
      have hfirst : j = f ↔ c = [] := by
        have hiff := head?_eq_some (hd' ▸ h.distinct)
        rw [← hd'] at hiff
        simpa [eq_comm] using hiff
      have hend : j = last ↔ d' = [] := by
        have hiff := getLast?_eq_some (hd' ▸ h.distinct)
        rw [← hd', hlast] at hiff
        simpa [eq_comm] using hiff
      rw [h.cell c j x d' hd']
      simp only [Option.map_some, linkAt, if_neg hji, hfirst, hend]
      have hnext : (if d' = [] then some i else (addrs d').head?) = (addrs (d' ++ [(i, n.data)])).head? := by
        cases d' with
        | nil => rfl
        | cons p d' => simp
      have hprev : (if c = [] then some i else (addrs c).getLast?.or (some last)) =
          (addrs c).getLast?.or (some i) := by
        rcases List.eq_nil_or_concat c with rfl | ⟨c, p, rfl⟩
        · rfl
        · simp
      rw [hnext, hlast, hprev, addrs_append, addrs_append, addrs_cons, addrs_nil, List.getLast?_concat]
    · obtain ⟨rfl, rfl, rfl, rfl⟩ := place_singleton hc'
      rw [hi, List.append_nil, hlast]
      simp [linkAt, hfi.symm, hli.symm]
  · intro j hj
    rw [List.mem_cons, not_or] at hj
    have hjf : j ≠ f := fun heq => hj.2 (by simp [heq])
    have hjl : j ≠ last := fun heq => hj.2 (heq ▸ List.mem_of_getLast? hlast)
    rw [cell_relink, cell_relink, linkAt_of_ne hjl hjf, linkAt_of_ne hj.1 hj.1]
    simp

/-- **Appending a node.** -/
theorem append_chain (h : Chain m head l) (hi : m.cell i = some n) (hout : i ∉ addrs l) :
    Succeeds (append m head i) fun r =>
      Chain r.1 r.2 (l ++ [(i, n.data)]) ∧ Frame (i :: addrs l) m r.1 := by
  have hhead := h.head
  cases l with
  | nil =>
    rw [hhead]
    exact append_empty hi
  | cons p l =>
    rw [hhead]
    exact append_nonempty h hi hout

/-! ### Unlinking -/

/-- What is left when the node `i` has been taken out from between `a` and `b`. -/
structure Bypassed (m : Memory β) (a b : List (Nat × β)) (i : Nat) (r : Memory β × Option Nat) : Prop where
  chain : Chain r.1 r.2 (a ++ b)
  frame : Frame (addrs a ++ addrs b) m r.1

theorem bypass_first {s : Nat} {x y : β} {b : List (Nat × β)} (h : Chain m head ((i, x) :: (s, y) :: b))
    (hn : m.cell i = some n) : Succeeds (bypass m i i n) (Bypassed m [] ((s, y) :: b) i) := by
  have hout : i ∉ addrs ((s, y) :: b) := (not_mem_of_nodup (a := []) h.distinct).2
  have hi := h.cell [] i x ((s, y) :: b) rfl
  rw [hn] at hi
  obtain ⟨last, hlast⟩ : ∃ last, (addrs ((s, y) :: b)).getLast? = some last :=
    Option.isSome_iff_exists.mp (by simp)
  have hlast' : (addrs ((i, x) :: (s, y) :: b)).getLast? = some last := by
    rw [addrs_cons, List.getLast?_cons, hlast]
    rfl
  have hli : last ≠ i := fun heq => hout (heq ▸ List.mem_of_getLast? hlast)
  rw [addrs_nil, List.getLast?_nil, Option.none_or, hlast'] at hi
  obtain rfl := Option.some.inj hi
  have hs := h.cell [(i, x)] s y b rfl
  have hdistinct : (addrs ((s, y) :: b)).Nodup := (List.nodup_cons.mp h.distinct).2
  simp only [bypass, Option.some.injEq, if_neg hli, if_pos, addrs_cons, List.head?_cons]
  refine Succeeds.step (Heap.update_ok (Heap.live_of_cell hs) _)
    (Succeeds.ret ⟨⟨hdistinct, rfl, ?_⟩, ⟨?_, rfl⟩⟩)
  · intro c j z d hl
    rw [List.nil_append] at hl
    have hfirst : j = s ↔ c = [] := by
      have hiff := head?_eq_some (hl ▸ hdistinct)
      rw [← hl] at hiff
      simpa [eq_comm] using hiff
    rw [Heap.cell_modify, h.cell ((i, x) :: c) j z d (by rw [List.cons_append, ← hl]), List.nil_append, hlast]
    rcases List.eq_nil_or_concat c with rfl | ⟨c, p, rfl⟩
    · simp [hfirst, Node.withPrev]
    · simp [hfirst, List.getLast?_cons]
  · intro j hj
    have hjs : j ≠ s := fun heq => hj (by simp [heq])
    rw [Heap.cell_modify, if_neg hjs]

section Kept
variable {f p t j : Nat} {x w z : β} {a b c d : List (Nat × β)}

/-- The first node stays the first. -/
theorem head?_kept : (addrs (a ++ [(p, w)] ++ (i, x) :: b)).head? = (addrs (a ++ [(p, w)] ++ b)).head? := by
  cases a with
  | nil => rfl
  | cons q a => rfl

theorem distinct_kept (h : (addrs (a ++ [(p, w)] ++ (i, x) :: b)).Nodup) :
    (addrs (a ++ [(p, w)] ++ b)).Nodup :=
  h.sublist (List.Sublist.map _ (List.Sublist.append_left (List.sublist_cons_self _ _) _))

/-- The links of a node before the one that goes: the one right before it gets a new next, and the
first one a new prev, if the last node goes. -/
theorem links_before (h : (addrs (a ++ [(p, w)] ++ b)).Nodup) (hf : some f = (addrs (a ++ [(p, w)] ++ b)).head?)
    (ht : t = (addrs b).head?.getD f) (hplace : a ++ [(p, w)] = c ++ (j, z) :: d) :
    (if j = p then (addrs b).head? else (addrs (d ++ (i, x) :: b)).head?) = (addrs (d ++ b)).head? ∧
      (if j = t then some p else (addrs c).getLast?.or (addrs (a ++ [(p, w)] ++ (i, x) :: b)).getLast?) =
        (addrs c).getLast?.or (addrs (a ++ [(p, w)] ++ b)).getLast? := by
  have hfront : (addrs (a ++ [(p, w)])).Nodup := (addrs_append .. ▸ h).of_append_left
  have hbefore : j = p ↔ d = [] := by
    have hiff := getLast?_eq_some (hplace ▸ hfront)
    rw [← hplace, addrs_append, addrs_cons, addrs_nil, List.getLast?_concat] at hiff
    simpa [eq_comm] using hiff
  constructor
  · simp only [hbefore]
    cases d with
    | nil => rfl
    | cons q d => simp
  · cases b with
    | nil =>
      obtain rfl : t = f := ht
      have hfirst : j = t ↔ c = [] := by
        have hiff := head?_eq_some (hplace ▸ hfront)
        rw [← hplace, ← List.append_nil (a ++ [(p, w)]), ← hf] at hiff
        simpa [eq_comm] using hiff
      simp only [hfirst]
      rcases List.eq_nil_or_concat c with rfl | ⟨c, q, rfl⟩
      · simp
      · simp
    | cons q b =>
      obtain rfl : t = q.1 := ht
      have hjt : j ≠ q.1 := by
        intro heq
        rw [addrs_append] at h
        exact (List.nodup_append.mp h).2.2 j (by rw [hplace]; simp) q.1 (by simp) heq
      rw [if_neg hjt]
      simp [List.getLast?_append, List.getLast?_cons]

/-- The links of a node behind the one that goes: the one right behind it gets a new prev. -/
theorem links_behind (h : (addrs (a ++ [(p, w)] ++ b)).Nodup) (ht : t = (addrs b).head?.getD f)
    (hplace : b = c ++ (j, z) :: d) :
    (if j = p then (addrs b).head? else (addrs d).head?) = (addrs d).head? ∧
      (if j = t then some p else
          (addrs (a ++ [(p, w)] ++ (i, x) :: c)).getLast?.or (addrs (a ++ [(p, w)] ++ (i, x) :: b)).getLast?) =
        (addrs (a ++ [(p, w)] ++ c)).getLast?.or (addrs (a ++ [(p, w)] ++ b)).getLast? := by
  subst hplace
  rw [addrs_append] at h
  obtain ⟨-, hback, hapart⟩ := List.nodup_append.mp h
  have hjp : j ≠ p := fun heq => hapart p (by simp) j (by simp) heq.symm
  refine ⟨if_neg hjp, ?_⟩
  cases c with
  | nil =>
    obtain rfl : t = j := ht
    simp
  | cons q c =>
    obtain rfl : t = q.1 := ht
    have hjt : j ≠ q.1 := by
      intro heq
      rw [List.cons_append, addrs_cons, List.nodup_cons] at hback
      exact hback.1 (by simp [heq])
    rw [if_neg hjt]
    simp [List.getLast?_append, List.getLast?_cons]

/-- The links of a node that is not the first, taken over by the nodes around it: the next
of the node before, and the prev of the node behind or, behind the last, of the first node. -/
theorem chain_relink (h : Chain m (some f) (a ++ [(p, w)] ++ (i, x) :: b)) (ht : t = (addrs b).head?.getD f) :
    Bypassed m (a ++ [(p, w)]) b i
      ((m.modify p (·.withNext (addrs b).head?)).modify t (·.withPrev (some p)), some f) := by
  have hkept := distinct_kept h.distinct
  have hhead : some f = (addrs (a ++ [(p, w)] ++ b)).head? := h.head.trans head?_kept
  refine ⟨⟨hkept, hhead, ?_⟩, ⟨?_, rfl⟩⟩
  · intro c j z d hl
    rw [cell_relink]
    rcases place_append hl with ⟨d', hd', rfl⟩ | ⟨c', hc', rfl⟩
    · obtain ⟨hnext, hprev⟩ := links_before (i := i) (x := x) hkept hhead ht hd'
      rw [h.cell c j z (d' ++ (i, x) :: b) (by rw [hd']; simp), Option.map_some, linkAt, hnext, hprev]
    · obtain ⟨hnext, hprev⟩ := links_behind (i := i) (x := x) hkept ht hc'
      rw [h.cell (a ++ [(p, w)] ++ (i, x) :: c') j z d (by rw [hc']; simp), Option.map_some, linkAt, hnext, hprev]
  · intro j hj
    rw [List.mem_append, not_or] at hj
    have hjp : j ≠ p := fun heq => hj.1 (by simp [heq])
    have hjt : j ≠ t := by
      intro heq
      cases b with
      | nil =>
        obtain rfl : t = f := ht
        rw [List.append_nil] at hhead
        exact hj.1 (heq ▸ List.mem_of_head? hhead.symm)
      | cons q b =>
        obtain rfl : t = q.1 := ht
        exact hj.2 (by simp [heq])
    rw [cell_relink, linkAt_of_ne hjp hjt, Option.map_id]
    rfl

end Kept

theorem bypass_later {f p : Nat} {x w : β} {a b : List (Nat × β)}
    (h : Chain m (some f) (a ++ [(p, w)] ++ (i, x) :: b)) (hn : m.cell i = some n) :
    Succeeds (bypass m f i n) (Bypassed m (a ++ [(p, w)]) b i) := by
  have hi := h.cell (a ++ [(p, w)]) i x b rfl
  rw [hn, addrs_append, addrs_cons, addrs_nil, List.getLast?_concat, Option.some_or] at hi
  obtain rfl := Option.some.inj hi
  have hpi : p ≠ i := by
    intro heq
    exact (not_mem_of_nodup h.distinct).1 (by simp [heq])
  have hif : i ≠ f := by
    intro heq
    have hfirst := (head?_eq_some h.distinct).mp (h.head.symm.trans (by rw [heq]))
    simp at hfirst
  have hp := h.cell a p w ((i, x) :: b) (by simp)
  simp only [bypass, Option.some.injEq, if_neg hpi, if_neg hif]
  refine Succeeds.step rfl (Succeeds.step (Heap.update_ok (Heap.live_of_cell hp) _) ?_)
  cases b with
  | nil =>
    obtain ⟨c, z, d, hf⟩ := exists_place (List.mem_of_head? h.head.symm)
    have hlive := Heap.live_of_cell (h.cell c f z d hf)
    exact Succeeds.step (Heap.update_ok (hlive.modify _ _) _) (Succeeds.ret (chain_relink h rfl))
  | cons q b =>
    have hlive := Heap.live_of_cell (h.cell (a ++ [(p, w)] ++ [(i, x)]) q.1 q.2 b (by simp))
    exact Succeeds.step (Heap.update_ok (hlive.modify _ _) _) (Succeeds.ret (chain_relink h rfl))

theorem bypass_chain {f : Nat} {a b : List (Nat × β)} {x : β} (h : Chain m (some f) (a ++ (i, x) :: b))
    (hn : m.cell i = some n) : Succeeds (bypass m f i n) (Bypassed m a b i) := by
  rcases List.eq_nil_or_concat a with rfl | ⟨a, p, rfl⟩
  · obtain rfl : f = i := Option.some.inj h.head
    cases b with
    | nil =>
      have hi := h.cell [] f x [] rfl
      rw [hn] at hi
      have hprev : n.prev = some f := by rw [Option.some.inj hi]; rfl
      unfold bypass
      rw [if_pos hprev]
      exact Succeeds.ret ⟨Chain.nil, ⟨fun _ _ => rfl, rfl⟩⟩
    | cons q b => exact bypass_first h hn
  · rw [List.concat_eq_append] at h ⊢
    exact bypass_later h hn

/-- **Removing a node.** -/
theorem remove_chain {a b : List (Nat × β)} {x : β} (h : Chain m head (a ++ (i, x) :: b)) :
    Succeeds (remove m head i) fun r =>
      Chain r.1 r.2 (a ++ b) ∧ r.1.cell i = some ⟨none, none, x⟩ ∧
        Frame (addrs (a ++ (i, x) :: b)) m r.1 := by
  have hout := not_mem_of_nodup h.distinct
  have hi := h.cell a i x b rfl
  obtain ⟨f, rfl⟩ : ∃ f, head = some f := by
    rw [h.head]
    exact Option.isSome_iff_exists.mp (by simp)
  have hprev : (addrs a).getLast?.or (addrs (a ++ (i, x) :: b)).getLast? ≠ none := by
    simp
  refine Succeeds.step (Heap.read_ok hi) ?_
  rw [if_neg hprev]
  refine Succeeds.bind (bypass_chain h hi) ?_
  rintro ⟨m', head'⟩ ⟨hchain, hframe⟩
  have hi' : m'.cell i = m.cell i := hframe.cell i (by simp [hout.1, hout.2])
  refine Succeeds.step (Heap.update_ok (Heap.live_of_cell (hi'.trans hi)) _) (Succeeds.ret ⟨?_, ?_, ?_⟩)
  · apply hchain.congr
    intro j hj
    have hji : j ≠ i := by
      rintro rfl
      rw [addrs_append, List.mem_append] at hj
      exact hj.elim hout.1 hout.2
    rw [Heap.cell_modify, if_neg hji]
  · rw [Heap.cell_modify, if_pos rfl, hi', hi]
    rfl
  · refine ⟨?_, hframe.next⟩
    intro j hj
    rw [addrs_append, addrs_cons, List.mem_append, List.mem_cons, not_or, not_or] at hj
    rw [Heap.cell_modify, if_neg hj.2.1]
    exact hframe.cell j (by simp [hj.1, hj.2.2])

end Chains

end LinkedList
