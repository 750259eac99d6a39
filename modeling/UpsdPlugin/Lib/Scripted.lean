import Mathlib.Data.List.Basic

/-! Programs whose effect is a list of actions.

A program over a state moved by actions may be written with whatever local
variables and control flow it has; what it does to the state is a list of
actions, and perhaps it stops after them with an error. `Performs` says that a
program, started in a state, performs such a deed and, if it does not stop,
returns a value. The rules follow the program text: `pure`, one action, `throw`,
and sequencing, where deeds are concatenated until one of them stops. -/
namespace Scripted
variable {ε σ ι α β : Type}

/-- A list of actions and, if the program ends with them, the error it ends with. -/
structure Deed (ι ε : Type) where
  actions : List ι
  stop : Option ε := none

namespace Deed

/-- One deed after another; nothing follows a stop. -/
def andThen (d e : Deed ι ε) : Deed ι ε :=
  match d.stop with
  | some _ => d
  | none => ⟨d.actions ++ e.actions, e.stop⟩

theorem andThen_of_stop {d : Deed ι ε} {s : ε} (h : d.stop = some s) (e : Deed ι ε) :
    d.andThen e = d := by
  unfold andThen
  rw [h]

theorem andThen_of_none {d : Deed ι ε} (h : d.stop = none) (e : Deed ι ε) :
    d.andThen e = ⟨d.actions ++ e.actions, e.stop⟩ := by
  unfold andThen
  rw [h]

/-- Either the first deed is all there is, or both are performed in full. -/
theorem andThen_cases (d e : Deed ι ε) :
    (d.stop.isSome ∧ d.andThen e = d) ∨
      (d.stop = none ∧ d.andThen e = ⟨d.actions ++ e.actions, e.stop⟩) := by
  cases h : d.stop with
  | some s => exact Or.inl ⟨rfl, andThen_of_stop h e⟩
  | none => exact Or.inr ⟨rfl, andThen_of_none h e⟩

/-- A deed that goes on has gone on throughout. -/
theorem andThen_goes_on {d e : Deed ι ε} (h : (d.andThen e).stop = none) :
    d.stop = none ∧ e.stop = none ∧ (d.andThen e).actions = d.actions ++ e.actions := by
  rcases d.andThen_cases e with ⟨hstop, heq⟩ | ⟨hstop, heq⟩
  · rw [heq] at h
    rw [h] at hstop
    cases hstop
  · rw [heq] at h ⊢
    exact ⟨hstop, h, rfl⟩

theorem forall_andThen {P : ι → Prop} {d e : Deed ι ε} (hd : ∀ a ∈ d.actions, P a)
    (he : ∀ a ∈ e.actions, P a) : ∀ a ∈ (d.andThen e).actions, P a := by
  rcases d.andThen_cases e with ⟨-, heq⟩ | ⟨-, heq⟩
  · rw [heq]
    exact hd
  · rw [heq]
    exact List.forall_mem_append.mpr ⟨hd, he⟩

end Deed

/-! ### Actions that occur together -/

/-- Actions of the one kind occur in the script exactly if actions of the other do. -/
def Tied (p q : ι → Prop) (script : List ι) : Prop := (∃ a ∈ script, p a) ↔ ∃ a ∈ script, q a

namespace Tied
variable {p q : ι → Prop} {a b : List ι}

theorem append (ha : Tied p q a) (hb : Tied p q b) : Tied p q (a ++ b) := by
  unfold Tied at *
  simp only [List.mem_append, or_and_right, exists_or, ha, hb]

theorem of_neither (h : ∀ i ∈ a, ¬ p i ∧ ¬ q i) : Tied p q a := by
  constructor
  · intro hex
    obtain ⟨i, hi, hp⟩ := hex
    exact absurd hp (h i hi).1
  · intro hex
    obtain ⟨i, hi, hq⟩ := hex
    exact absurd hq (h i hi).2

theorem nil : Tied p q [] := of_neither (List.forall_mem_nil _)

theorem single {i : ι} (hp : ¬ p i) (hq : ¬ q i) : Tied p q [i] :=
  of_neither (List.forall_mem_singleton.mpr ⟨hp, hq⟩)

theorem cons {i : ι} (hp : ¬ p i) (hq : ¬ q i) (h : Tied p q a) : Tied p q (i :: a) :=
  (single hp hq).append h

theorem andThen {d e : Deed ι ε} (hd : Tied p q d.actions) (he : Tied p q e.actions) :
    Tied p q (d.andThen e).actions := by
  rcases d.andThen_cases e with ⟨-, heq⟩ | ⟨-, heq⟩
  · rw [heq]
    exact hd
  · rw [heq]
    exact hd.append he

end Tied

/-! ### Programs -/

variable (act : σ → ι → σ)

/-- The state after a list of actions. -/
def play (s : σ) (script : List ι) : σ := script.foldl act s

@[simp] theorem play_nil (s : σ) : play act s [] = s := rfl

theorem play_cons (s : σ) (i : ι) (script : List ι) :
    play act s (i :: script) = play act (act s i) script := rfl

theorem play_append (s : σ) (a b : List ι) : play act s (a ++ b) = play act (play act s a) b :=
  List.foldl_append

def Performs (p : EStateM ε σ α) (s : σ) (d : Deed ι ε) (a : α) : Prop :=
  p s = match d.stop with
    | none => .ok a (play act s d.actions)
    | some e => .error e (play act s d.actions)

variable {act} {p : EStateM ε σ α} {q : α → EStateM ε σ β} {s : σ} {d e : Deed ι ε} {a : α} {b : β}

theorem Performs.pure (s : σ) (a : α) : Performs act (pure a : EStateM ε σ α) s ⟨[], none⟩ a := rfl

theorem Performs.action (s : σ) (i : ι) :
    Performs act (modify (act · i) : EStateM ε σ Unit) s ⟨[i], none⟩ () := rfl

theorem Performs.throw (s : σ) (x : ε) (a : α) :
    Performs act (throw x : EStateM ε σ α) s ⟨[], some x⟩ a := rfl

theorem Performs.bind (hp : Performs act p s d a)
    (hq : d.stop = none → Performs act (q a) (play act s d.actions) e b) :
    Performs act (p >>= q) s (d.andThen e) b := by
  unfold Performs at *
  show EStateM.bind p q s = _
  unfold EStateM.bind
  rw [hp]
  cases h : d.stop with
  | some x => simp only [Deed.andThen_of_stop h, h]
  | none => simpa only [Deed.andThen_of_none h, play_append] using hq h

/-- A deed whose result is replaced. -/
theorem Performs.returning (b : β) (hp : Performs act p s d a) :
    Performs act (p >>= fun _ => Pure.pure b) s d b := by
  have hall := hp.bind (q := fun _ => Pure.pure b) fun _ => Performs.pure _ b
  rcases d.andThen_cases ⟨[], none⟩ with ⟨-, heq⟩ | ⟨hstop, heq⟩
  · rwa [heq] at hall
  · rw [heq, List.append_nil, ← hstop] at hall
    exact hall

section
variable {first rest : List ι} {i : ι} {stop : Option ε}

/-- Sequencing after a part that does not stop. -/
theorem Performs.seq (hp : Performs act p s ⟨first, none⟩ a)
    (hq : Performs act (q a) (play act s first) ⟨rest, stop⟩ b) :
    Performs act (p >>= q) s ⟨first ++ rest, stop⟩ b :=
  hp.bind fun _ => hq

/-- Sequencing after a single action. -/
theorem Performs.cons (hp : Performs act p s ⟨[i], none⟩ a)
    (hq : Performs act (q a) (act s i) ⟨rest, stop⟩ b) :
    Performs act (p >>= q) s ⟨i :: rest, stop⟩ b :=
  hp.seq hq

/-- Sequencing after a part that only reads. -/
theorem Performs.read (hp : Performs act p s ⟨[], none⟩ a) (hq : Performs act (q a) s d b) :
    Performs act (p >>= q) s d b :=
  hp.seq hq

end

end Scripted
