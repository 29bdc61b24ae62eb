import BlockSparse.Proofs.Grid.Access
import BlockSparse.Expr.Basic

/-! The walk along a column of a grid. It starts at the `j`-th cell and goes on in steps of one row,
so that it stays in one column. Nothing holds `j` below the number of columns: past the last column
the walk runs through what is left of another one, unless it starts behind the last cell. -/
namespace BlockSparse.Grid
variable {α : Type} {g : Grid α} {i j : Nat}

/-- The walk from the `j`-th cell on stays in column `j % g.numCols`, from row `j / g.numCols`
down. -/
lemma getElem?_blockCol_div_mod (hg : g.WellFormed) (hpos : 0 < g.numCols) (i j : Nat) :
    (g.blockCol j)[i]? = g.get? (j / g.numCols + i) (j % g.numCols) := by
  have hplace : i * g.numCols + j = (j / g.numCols + i) * g.numCols + j % g.numCols := by
    have hdiv := Nat.div_add_mod' j g.numCols
    rw [Nat.add_mul]
    omega
  have hcol := getElem?_blockCol hg (i := j / g.numCols + i) (Nat.mod_lt j hpos)
  rw [← hcol, getElem?_blockCol_walk hg, getElem?_blockCol_walk hg, hplace]

/-- The walk lists the cells of its column down to the last row. -/
theorem map_some_blockCol (hg : g.WellFormed) (hpos : 0 < g.numCols) (j : Nat) :
    (g.blockCol j).map some = (List.range' (j / g.numCols) (g.numRows - j / g.numCols)).map
      (g.get? · (j % g.numCols)) := by
  apply List.ext_getElem?
  intro i
  rw [List.getElem?_map, getElem?_blockCol_div_mod hg hpos, List.getElem?_map]
  by_cases hi : i < g.numRows - j / g.numCols
  · obtain ⟨x, hx⟩ := exists_get? hg (i := j / g.numCols + i) (by omega) (Nat.mod_lt j hpos)
    rw [List.getElem?_range' hi, Nat.one_mul, Option.map_some, hx, Option.map_some]
  · rw [List.getElem?_eq_none (by simpa using hi), get?, if_neg (by omega)]
    rfl

/-- The walk meets nothing exactly when it starts behind the last cell. -/
lemma blockCol_eq_nil_iff (hg : g.WellFormed) :
    g.blockCol j = [] ↔ g.numRows * g.numCols ≤ j := by
  have hfirst : (g.blockCol j)[0]? = g.cells[j]? := by
    rw [getElem?_blockCol_walk hg, Nat.zero_mul, Nat.zero_add]
  rw [← List.length_eq_zero_iff, ← Nat.le_zero, ← List.getElem?_eq_none_iff, hfirst,
    List.getElem?_eq_none_iff, hg]

/-- In a grid that one of the constructors makes, a walk takes steps of one row from the `j`-th cell
on. From a cell of the first row it lists the cells of that column, from top to bottom; from any
other one it lists those of column `j % g.numCols` from row `j / g.numCols` on. So it lists the
cells that single look-ups find in column `j` unless `j` is past the last column but not past the
last cell. -/
theorem blockCol_outcome (hg : Constructed g) (j : Nat) :
    g.blockCol j = stride (max g.numCols 1) j g.cells ∧
    (j < g.numCols → (g.blockCol j).map some = (List.range g.numRows).map (g.get? · j)) ∧
    (0 < g.numCols → (g.blockCol j).map some =
      (List.range' (j / g.numCols) (g.numRows - j / g.numCols)).map
        (g.get? · (j % g.numCols))) ∧
    (g.blockCol j = (List.range g.numRows).filterMap (g.get? · j) ↔
      j < g.numCols ∨ g.numRows * g.numCols ≤ j) := by
  have hwf := hg.wellFormed
  refine ⟨blockCol_eq_stride_max hwf j, fun hj => ?_, fun hpos => map_some_blockCol hwf hpos j, ?_⟩
  · have hwalk := map_some_blockCol hwf (Nat.zero_lt_of_lt hj) j
    rwa [Nat.div_eq_of_lt hj, Nat.mod_eq_of_lt hj, Nat.sub_zero, ← List.range_eq_range'] at hwalk
  · by_cases hj : j < g.numCols
    · exact iff_of_true (blockCol_eq g hj) (.inl hj)
    · have hnone : (List.range g.numRows).filterMap (g.get? · j) = [] := by
        rw [List.filterMap_eq_nil_iff]
        exact fun i _ => if_neg fun hij => hj hij.2
      rw [hnone, blockCol_eq_nil_iff hwf, or_iff_right hj]

/-- Two rows of two scalars. -/
def fourScalars : BlockMatrix Int := ⟨2, 2, [.scalar 1, .scalar 2, .scalar 3, .scalar 4]⟩

lemma constructed_fourScalars : Constructed fourScalars :=
  .rows (show ofRows [[.scalar 1, .scalar 2], [.scalar 3, .scalar 4]] = .ok fourScalars from rfl)

theorem blockCol_outcome_fourScalars : Constructed fourScalars ∧
    (fourScalars.blockCol 1).map some = [fourScalars.get? 0 1, fourScalars.get? 1 1] ∧
    (fourScalars.blockCol 2).map some = [fourScalars.get? 1 0] ∧
    fourScalars.blockCol 4 = (List.range 2).filterMap (fourScalars.get? · 4) := by
  have hcol := blockCol_outcome constructed_fourScalars
  obtain ⟨_, hinside, _⟩ := hcol 1
  obtain ⟨_, _, hpast, _⟩ := hcol 2
  obtain ⟨_, _, _, hbehind⟩ := hcol 4
  exact ⟨constructed_fourScalars, hinside (by decide), hpast (by decide), hbehind.2 (by decide)⟩

/-- Past its two columns, a grid of two rows still yields a cell, the first one of its second
row. -/
theorem blockCol_past_last_column : ¬ ∀ g : BlockMatrix Int, Constructed g →
    ∀ j, g.blockCol j = (List.range g.numRows).filterMap (g.get? · j) := by
  intro h
  have hpast : [Expr.scalar 3] = ([] : List (Expr Int)) := h fourScalars constructed_fourScalars 2
  cases hpast

end BlockSparse.Grid
