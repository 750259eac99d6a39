import Mathlib.Data.List.Basic

/-! Streams of lines.

A stream is cut after every separator; what comes after the last one is a line that has not
ended yet. Whole lines are cut off in front whatever follows them (`cut_lines`), and what is cut off
stays so when more arrives (`cut_append`). An action takes lines one by one until it says stop
(`feed`). -/
namespace Framing

section Cut
variable {α : Type} [DecidableEq α] (sep : α)

/-- The lines, each with its separator, and the rest. -/
def cut : List α → List (List α) × List α
  | [] => ([], [])
  | c :: s =>
    if c = sep then ([c] :: (cut s).1, (cut s).2)
    else
      match cut s with
      | ([], rest) => ([], c :: rest)
      | (line :: lines, rest) => ((c :: line) :: lines, rest)

variable {sep}

theorem cut_sep (s : List α) : cut sep (sep :: s) = ([sep] :: (cut sep s).1, (cut sep s).2) := if_pos rfl

theorem cut_cons {c : α} (hc : c ≠ sep) (s : List α) :
    cut sep (c :: s) =
      match cut sep s with
      | ([], rest) => ([], c :: rest)
      | (line :: lines, rest) => ((c :: line) :: lines, rest) :=
  if_neg hc

theorem cut_line {body : List α} (hbody : sep ∉ body) (s : List α) :
    cut sep (body ++ sep :: s) = ((body ++ [sep]) :: (cut sep s).1, (cut sep s).2) := by
  induction body with
  | nil => exact cut_sep s
  | cons c body ih =>
    obtain ⟨hc, hbody⟩ := not_or.mp (List.mem_cons.not.mp hbody)
    rw [List.cons_append, cut_cons (Ne.symm hc), ih hbody]
    rfl

theorem cut_open {s : List α} (hs : sep ∉ s) : cut sep s = ([], s) := by
  induction s with
  | nil => rfl
  | cons c s ih =>
    obtain ⟨hc, hs⟩ := not_or.mp (List.mem_cons.not.mp hs)
    rw [cut_cons (Ne.symm hc), ih hs]

/-- A stream is an unfinished line, or a line and a stream. -/
theorem stream_cases (sep : α) (s : List α) : sep ∉ s ∨ ∃ body rest, sep ∉ body ∧ s = body ++ sep :: rest := by
  induction s with
  | nil => exact Or.inl List.not_mem_nil
  | cons c s ih =>
    by_cases hc : c = sep
    · exact Or.inr ⟨[], s, List.not_mem_nil, by rw [hc]; rfl⟩
    · rcases ih with hs | ⟨body, rest, hbody, rfl⟩
      · exact Or.inl (List.not_mem_cons_of_ne_of_not_mem (Ne.symm hc) hs)
      · exact Or.inr ⟨c :: body, rest, List.not_mem_cons_of_ne_of_not_mem (Ne.symm hc) hbody, rfl⟩

/-- Whole lines are cut off in front. -/
theorem cut_lines {lines : List (List α)} (hlines : ∀ l ∈ lines, ∃ body, sep ∉ body ∧ l = body ++ [sep])
    (s : List α) : cut sep (lines.flatten ++ s) = (lines ++ (cut sep s).1, (cut sep s).2) := by
  induction lines with
  | nil => rfl
  | cons l lines ih =>
    obtain ⟨⟨body, hbody, rfl⟩, hrest⟩ := List.forall_mem_cons.mp hlines
    have hstream : ((body ++ [sep]) :: lines).flatten ++ s = body ++ sep :: (lines.flatten ++ s) := by simp
    rw [hstream, cut_line hbody, ih hrest]
    rfl

/-- What follows adds lines behind those that are there. -/
theorem cut_append (sep : α) (s rest : List α) : (cut sep s).1 <+: (cut sep (s ++ rest)).1 := by
  induction s with
  | nil => exact List.nil_prefix
  | cons c s ih =>
    rw [List.cons_append]
    by_cases hc : c = sep
    · subst hc
      rw [cut_sep, cut_sep]
      exact (List.prefix_cons_inj [c]).mpr ih
    · rw [cut_cons hc, cut_cons hc]
      rcases hs : cut sep s with ⟨_ | ⟨line, lines⟩, open'⟩
      · exact List.nil_prefix
      · rw [hs] at ih
        obtain ⟨more, hmore⟩ := ih
        rcases hrest : cut sep (s ++ rest) with ⟨whole, last⟩
        rw [hrest] at hmore
        obtain rfl := hmore.symm
        exact (List.prefix_cons_inj (c :: line)).mpr (List.prefix_append lines more)

end Cut

section Feed
variable {σ β : Type} (action : σ → β → Bool × σ)

/-- The action takes the items in order until it says stop. -/
def feed : σ → List β → Bool × σ
  | s, [] => (false, s)
  | s, b :: rest =>
    match action s b with
    | (true, s') => (true, s')
    | (false, s') => feed s' rest

variable {action}

theorem feed_cons_stop {s s' : σ} {b : β} (h : action s b = (true, s')) (rest : List β) :
    feed action s (b :: rest) = (true, s') := by
  rw [feed, h]

theorem feed_cons_go {s s' : σ} {b : β} (h : action s b = (false, s')) (rest : List β) :
    feed action s (b :: rest) = feed action s' rest := by
  rw [feed, h]

theorem feed_singleton (s : σ) (b : β) : feed action s [b] = action s b := by
  rcases hb : action s b with ⟨stop, s'⟩
  cases stop with
  | true => exact feed_cons_stop hb []
  | false => exact feed_cons_go hb []

/-- What follows is taken when there was no stop before. -/
theorem feed_append (s : σ) (a b : List β) :
    feed action s (a ++ b) =
      match feed action s a with
      | (true, s') => (true, s')
      | (false, s') => feed action s' b := by
  induction a generalizing s with
  | nil => rfl
  | cons x a ih =>
    rcases hx : action s x with ⟨stop, s'⟩
    cases stop with
    | true => rw [List.cons_append, feed_cons_stop hx, feed_cons_stop hx]
    | false =>
      rw [List.cons_append, feed_cons_go hx, feed_cons_go hx]
      exact ih s'

end Feed

end Framing
