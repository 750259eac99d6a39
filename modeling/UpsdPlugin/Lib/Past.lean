import Mathlib.Data.List.Basic

/-! Properties of every event of a trace, each given what happened before it.

`Past P past rest` says that, after the events `past`, every event of `rest`
satisfies `P` of the events before it. It is built event by event and splits at
any point (`past_append`), so a trace that grows by blocks keeps it block by
block; `past_iff` is what it says of a whole trace. -/
namespace Trace
variable {ε : Type}

def Past (P : List ε → ε → Prop) : List ε → List ε → Prop
  | _, [] => True
  | past, e :: rest => P past e ∧ Past P (past ++ [e]) rest

theorem past_append {P : List ε → ε → Prop} (past a b : List ε) :
    Past P past (a ++ b) ↔ Past P past a ∧ Past P (past ++ a) b := by
  induction a generalizing past with
  | nil => simp [Past]
  | cons e a ih => simp only [List.cons_append, Past, ih, and_assoc, List.append_assoc, List.nil_append]

/-- For a property that more events before cannot break, it is enough to look at the start. -/
theorem past_of_mono {P : List ε → ε → Prop} (hmono : ∀ before more e, P before e → P (before ++ more) e)
    (past rest : List ε) (h : ∀ e ∈ rest, P past e) : Past P past rest := by
  induction rest generalizing past with
  | nil => trivial
  | cons e rest ih =>
    refine ⟨h e (List.mem_cons_self ..), ih (past ++ [e]) fun x hx => ?_⟩
    exact hmono past [e] x (h x (List.mem_cons_of_mem e hx))

/-- A property that does not depend on what happened before. -/
theorem past_of_forall {P : List ε → ε → Prop} (past rest : List ε) (h : ∀ before, ∀ e ∈ rest, P before e) :
    Past P past rest := by
  induction rest generalizing past with
  | nil => trivial
  | cons e rest ih =>
    exact ⟨h past e (List.mem_cons_self ..), ih _ fun before x hx => h before x (List.mem_cons_of_mem e hx)⟩

theorem past_split {P : List ε → ε → Prop} {past rest pre post : List ε} {e : ε}
    (h : Past P past rest) (hs : rest = pre ++ e :: post) : P (past ++ pre) e := by
  rw [hs, past_append] at h
  exact h.2.1

/-- Event by event: `P` holds of the events before it. -/
theorem past_iff {P : List ε → ε → Prop} (past rest : List ε) :
    Past P past rest ↔ ∀ pre e post, rest = pre ++ e :: post → P (past ++ pre) e := by
  constructor
  · intro h pre e post hs
    exact past_split h hs
  · intro h
    induction rest generalizing past with
    | nil => trivial
    | cons e rest ih =>
      refine ⟨by simpa using h [] e rest rfl, ih (past ++ [e]) fun pre x post hs => ?_⟩
      have hx := h (e :: pre) x post (by rw [hs]; rfl)
      simpa using hx

/-- When all that `P` asks of the events of `rest` is one thing about `past`, it is asked as
soon as one of them asks for it. -/
theorem past_iff_once {P : List ε → ε → Prop} {asks : ε → Prop} {D : Prop} (past rest : List ε)
    (h : ∀ pre e post, rest = pre ++ e :: post → (P (past ++ pre) e ↔ (asks e → D))) :
    Past P past rest ↔ ((∃ e ∈ rest, asks e) → D) := by
  rw [past_iff]
  constructor
  · intro hall hex
    obtain ⟨e, he, hasks⟩ := hex
    obtain ⟨pre, post, hs⟩ := List.append_of_mem he
    exact (h pre e post hs).mp (hall pre e post hs) hasks
  · intro hd pre e post hs
    exact (h pre e post hs).mpr fun hasks => hd ⟨e, by simp [hs], hasks⟩

/-- An event of a trace in two parts is an event of one of them. -/
theorem split_append {a b pre post : List ε} {e : ε} (h : a ++ b = pre ++ e :: post) :
    (∃ mid, a = pre ++ e :: mid ∧ post = mid ++ b) ∨ ∃ front, pre = a ++ front ∧ b = front ++ e :: post := by
  rcases List.append_eq_append_iff.mp h with ⟨front, hpre, hb⟩ | ⟨back, ha, hpost⟩
  · exact Or.inr ⟨front, hpre, hb⟩
  · cases back with
    | nil => exact Or.inr ⟨[], by simpa using ha.symm, hpost.symm⟩
    | cons x back =>
      obtain ⟨rfl, rfl⟩ := List.cons.inj hpost
      exact Or.inl ⟨back, ha, rfl⟩

/-- Where something has happened, there is a latest time it happened. -/
theorem exists_latest {p : ε → Prop} {t : List ε} (h : ∃ e ∈ t, p e) :
    ∃ before e after, t = before ++ e :: after ∧ p e ∧ ∀ x ∈ after, ¬ p x := by
  induction t with
  | nil =>
    obtain ⟨e, he, -⟩ := h
    cases he
  | cons a t ih =>
    by_cases hlater : ∃ e ∈ t, p e
    · obtain ⟨before, e, after, rfl, hp, hafter⟩ := ih hlater
      exact ⟨a :: before, e, after, rfl, hp, hafter⟩
    · obtain ⟨e, he, hp⟩ := h
      rcases List.mem_cons.mp he with rfl | he
      · exact ⟨[], e, t, rfl, hp, fun x hx hpx => hlater ⟨x, hx, hpx⟩⟩
      · exact absurd ⟨e, he, hp⟩ hlater

/-- What has happened since the latest time something happened is determined. -/
theorem latest_unique {p : ε → Prop} {before after before' after' : List ε} {e e' : ε}
    (h : before ++ e :: after = before' ++ e' :: after') (he : p e) (he' : p e')
    (hafter : ∀ x ∈ after, ¬ p x) (hafter' : ∀ x ∈ after', ¬ p x) : after = after' := by
  rcases List.append_eq_append_iff.mp h with ⟨mid, -, hmid⟩ | ⟨mid, -, hmid⟩
  · cases mid with
    | nil => exact (List.cons.inj hmid).2
    | cons x mid =>
      obtain ⟨-, rfl⟩ := List.cons.inj hmid
      exact absurd he' (hafter e' (by simp))
  · cases mid with
    | nil => exact (List.cons.inj hmid).2.symm
    | cons x mid =>
      obtain ⟨-, rfl⟩ := List.cons.inj hmid
      exact absurd he (hafter' e (by simp))

end Trace
