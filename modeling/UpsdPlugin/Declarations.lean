import UpsdPlugin.Output

/-! Declarations in the output.

A dimension is declared by a DIMENSION line under the CHART line of its chart. In an output made of
whole blocks the declarations are those of its chart blocks (`blocks_declaredIn`). -/
namespace UpsdPlugin

/-! ### Declarations in the output -/

/-- The name on a DIMENSION line. -/
def Line.dimension? : Line → Option CStr
  | dimension _ name _ => some name
  | _ => none

/-- A CHART line with this id and, before the next CHART line, a DIMENSION line with this name. -/
def DeclaredIn (lines : List (Origin × Line)) (id dim : CStr) : Prop :=
  ∃ before head between last after, lines = before ++ head :: (between ++ last :: after) ∧
    head.2.chartId? = some id ∧ (∀ l ∈ between, l.2.chartId? = none) ∧ last.2.dimension? = some dim

/-- Every DIMENSION line comes after a CHART line. -/
def Headed (lines : List (Origin × Line)) : Prop :=
  ∀ before last after, lines = before ++ last :: after → last.2.dimension? ≠ none →
    ∃ l ∈ before, l.2.chartId? ≠ none

section Lines
variable {x y : List (Origin × Line)} {id dim : CStr}

theorem DeclaredIn.head (h : DeclaredIn x id dim) : ∃ l ∈ x, l.2.chartId? = some id := by
  obtain ⟨before, head, between, last, after, rfl, hid, -, -⟩ := h
  exact ⟨head, by simp, hid⟩

theorem DeclaredIn.append_right (h : DeclaredIn x id dim) (y : List (Origin × Line)) :
    DeclaredIn (x ++ y) id dim := by
  obtain ⟨before, head, between, last, after, rfl, hid, hbetween, hdim⟩ := h
  exact ⟨before, head, between, last, after ++ y, by simp, hid, hbetween, hdim⟩

theorem DeclaredIn.append_left (h : DeclaredIn y id dim) (x : List (Origin × Line)) :
    DeclaredIn (x ++ y) id dim := by
  obtain ⟨before, head, between, last, after, rfl, hid, hbetween, hdim⟩ := h
  exact ⟨x ++ before, head, between, last, after, by simp, hid, hbetween, hdim⟩

/-- A declaration does not straddle the start of headed lines. -/
theorem declaredIn_append (hy : Headed y) :
    DeclaredIn (x ++ y) id dim ↔ DeclaredIn x id dim ∨ DeclaredIn y id dim := by
  constructor
  · intro h
    obtain ⟨before, head, between, last, after, heq, hid, hbetween, hdim⟩ := h
    have hlast : last.2.dimension? ≠ none := by simp [hdim]
    have hsplit : x ++ y = (before ++ head :: between) ++ last :: after := by simp [heq]
    rcases List.append_eq_append_iff.mp hsplit with ⟨front, hfront, rfl⟩ | ⟨back, rfl, hback⟩
    · -- The DIMENSION line is in `y`, and so is a CHART line before it.
      obtain ⟨l, hl, hchart⟩ := hy front last after rfl hlast
      rcases List.append_eq_append_iff.mp hfront.symm with ⟨start, -, rfl⟩ | ⟨start, -, hstart⟩
      · exact Or.inr ⟨start, head, between, last, after, by simp, hid, hbetween, hdim⟩
      · cases start with
        | nil =>
          rw [List.nil_append] at hstart
          subst hstart
          exact Or.inr ⟨[], head, between, last, after, by simp, hid, hbetween, hdim⟩
        | cons a start =>
          have hmem : l ∈ between := by
            rw [(List.cons.inj hstart).2]
            exact List.mem_append_right start hl
          exact absurd (hbetween l hmem) hchart
    · cases back with
      | nil =>
        obtain ⟨l, hl, -⟩ := hy [] last after hback.symm hlast
        cases hl
      | cons a back =>
        obtain ⟨rfl, -⟩ := List.cons.inj hback
        exact Or.inl ⟨before, head, between, last, back, by simp, hid, hbetween, hdim⟩
  · intro h
    rcases h with h | h
    · exact h.append_right y
    · exact h.append_left x

theorem Headed.append (hx : Headed x) (hy : Headed y) : Headed (x ++ y) := by
  intro before last after heq hlast
  rcases List.append_eq_append_iff.mp heq with ⟨front, rfl, hfront⟩ | ⟨back, hx', hback⟩
  · obtain ⟨l, hl, hchart⟩ := hy front last after hfront hlast
    exact ⟨l, List.mem_append_right x hl, hchart⟩
  · cases back with
    | nil =>
      obtain ⟨l, hl, -⟩ := hy [] last after hback.symm hlast
      cases hl
    | cons a back =>
      obtain ⟨rfl, -⟩ := List.cons.inj hback
      exact hx before last back hx' hlast

/-- Lines without DIMENSION lines. -/
theorem Headed.of_none (h : ∀ l ∈ x, l.2.dimension? = none) : Headed x := by
  intro before last after heq hlast
  have hmem : last ∈ x := by simp [heq]
  exact absurd (h last hmem) hlast

theorem not_declaredIn_of_none (h : ∀ l ∈ x, l.2.dimension? = none) : ¬ DeclaredIn x id dim := by
  intro hdecl
  obtain ⟨before, head, between, last, after, rfl, -, -, hdim⟩ := hdecl
  have hnone := h last (by simp)
  rw [hnone] at hdim
  cases hdim

end Lines

/-! ### Declarations in blocks -/

theorem frame_lines_none (f : Frame) : ∀ l ∈ (Block.frame f).lines, l.2.dimension? = none := by
  intro l hl
  simp only [Block.lines, List.cons_append, List.mem_cons, List.mem_append, List.mem_map,
    List.not_mem_nil, or_false] at hl
  rcases hl with rfl | ⟨v, -, rfl⟩ | rfl <;> rfl

theorem block_headed (b : Block) : Headed b.lines := by
  cases b with
  | frame f => exact Headed.of_none (frame_lines_none f)
  | chart b =>
    intro before last after heq hlast
    cases before with
    | nil =>
      obtain ⟨rfl, -⟩ := List.cons.inj heq
      have hopen : (b.head).chartId? = some b.id := b.opens
      cases hhead : b.head <;> simp [hhead, Line.dimension?, Line.chartId?] at hlast hopen
    | cons l before =>
      obtain ⟨rfl, -⟩ := List.cons.inj heq
      exact ⟨_, List.mem_cons_self .., by simp [b.opens]⟩

/-- The lines of a chart block after its CHART line. -/
theorem chart_rest {b : ChartBlock} {l : Origin × Line}
    (h : l ∈ b.labels.map labelLine ++ (.registerUps, .clabelCommit) :: b.dimensions.map dimensionLine) :
    l.2.chartId? = none ∧ ∀ dim, l.2.dimension? = some dim → dim ∈ b.names := by
  simp only [List.mem_append, List.mem_map, List.mem_cons] at h
  rcases h with ⟨label, -, rfl⟩ | rfl | ⟨d, hd, rfl⟩
  · exact ⟨rfl, fun dim h => nomatch h⟩
  · exact ⟨rfl, fun dim h => nomatch h⟩
  · refine ⟨rfl, fun dim h => ?_⟩
    obtain rfl := Option.some.inj h
    exact List.mem_map.mpr ⟨d, hd, rfl⟩

theorem chart_declaredIn {b : ChartBlock} {id dim : CStr} :
    DeclaredIn (Block.chart b).lines id dim ↔ b.id = id ∧ dim ∈ b.names := by
  constructor
  · intro h
    obtain ⟨before, head, between, last, after, heq, hid, -, hdim⟩ := h
    cases before with
    | nil =>
      obtain ⟨rfl, hrest⟩ := List.cons.inj heq
      have hlast := chart_rest (b := b) (l := last) (by
        rw [show b.labels.map labelLine ++ _ = _ from hrest]
        simp)
      exact ⟨Option.some.inj (b.opens.symm.trans hid), hlast.2 dim hdim⟩
    | cons l before =>
      have hhead := chart_rest (b := b) (l := head) (by
        rw [show b.labels.map labelLine ++ _ = _ from (List.cons.inj heq).2]
        simp)
      rw [hhead.1] at hid
      cases hid
  · intro h
    obtain ⟨rfl, hdim⟩ := h
    obtain ⟨d, hd, rfl⟩ := List.mem_map.mp hdim
    obtain ⟨front, back, hsplit⟩ := List.append_of_mem hd
    have hlines : (Block.chart b).lines = [] ++ (.registerUps, b.head) ::
        ((b.labels.map labelLine ++ (.registerUps, .clabelCommit) :: front.map dimensionLine) ++
          dimensionLine d :: back.map dimensionLine) := by
      simp [Block.lines, hsplit]
    refine ⟨[], _, _, _, _, hlines, b.opens, ?_, rfl⟩
    intro l hl
    refine (chart_rest (b := b) ?_).1
    rw [hsplit, List.map_append]
    simp only [List.mem_append, List.mem_cons] at hl ⊢
    rcases hl with hl | hl | hl
    · exact Or.inl hl
    · exact Or.inr (Or.inl hl)
    · exact Or.inr (Or.inr (Or.inl hl))

theorem blocks_headed (blocks : List Block) : Headed (blocks.flatMap Block.lines) := by
  induction blocks with
  | nil => exact Headed.of_none (List.forall_mem_nil _)
  | cons b rest ih => exact (block_headed b).append ih

/-- A declaration in the output is one of a chart block. -/
theorem blocks_declaredIn {blocks : List Block} {id dim : CStr} :
    DeclaredIn (blocks.flatMap Block.lines) id dim ↔
      ∃ b : ChartBlock, .chart b ∈ blocks ∧ b.id = id ∧ dim ∈ b.names := by
  induction blocks with
  | nil =>
    refine ⟨fun h => absurd h (not_declaredIn_of_none (List.forall_mem_nil _)), fun h => ?_⟩
    obtain ⟨b, hb, -⟩ := h
    cases hb
  | cons b rest ih =>
    rw [List.flatMap_cons, declaredIn_append (blocks_headed rest), ih]
    cases b with
    | frame f =>
      have hnone : ¬ DeclaredIn _ id dim := not_declaredIn_of_none (frame_lines_none f)
      simp [hnone]
    | chart b => simp [chart_declaredIn, or_and_right, exists_or]

end UpsdPlugin
