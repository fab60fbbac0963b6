import Mathlib.Data.List.Basic
import Mathlib.Data.List.Nodup

namespace MoonBoofuzz

/-! Rows of equal length, one after the other, and the flat index into them. -/

variable {α : Type*}

def grid (rows columns : ℕ) (item : ℕ → ℕ → α) : List α :=
  (List.range rows).flatMap fun row => (List.range columns).map (item row)

variable {rows columns : ℕ} {item : ℕ → ℕ → α}

theorem grid_succ : grid (rows + 1) columns item =
    grid rows columns item ++ (List.range columns).map (item rows) := by
  rw [grid, List.range_succ, List.flatMap_append, List.flatMap_singleton]
  rfl

@[simp] theorem length_grid : (grid rows columns item).length = rows * columns := by
  induction rows with
  | zero => rw [Nat.zero_mul]; rfl
  | succ rows ih =>
      rw [grid_succ, List.length_append, ih, List.length_map, List.length_range,
        Nat.succ_mul]

theorem getElem?_grid {i : ℕ} (hi : i < rows * columns) :
    (grid rows columns item)[i]? = some (item (i / columns) (i % columns)) := by
  induction rows with
  | zero => omega
  | succ rows ih =>
      rw [grid_succ]
      rcases Nat.lt_or_ge i (rows * columns) with hearlier | hlast
      · rw [List.getElem?_append_left (by rw [length_grid]; exact hearlier)]
        exact ih hearlier
      · rw [Nat.succ_mul] at hi
        obtain ⟨column, rfl⟩ := Nat.exists_eq_add_of_le hlast
        have hcolumn : column < columns := by omega
        have hrow : (rows * columns + column) / columns = rows := by
          rw [Nat.mul_comm, Nat.mul_add_div (by omega), Nat.div_eq_of_lt hcolumn,
            Nat.add_zero]
        have hrest : (rows * columns + column) % columns = column := by
          rw [Nat.mul_comm, Nat.mul_add_mod, Nat.mod_eq_of_lt hcolumn]
        rw [List.getElem?_append_right (by rw [length_grid]; exact hlast), length_grid,
          Nat.add_sub_cancel_left, List.getElem?_map, List.getElem?_range hcolumn, hrow, hrest]
        rfl

theorem mem_grid {found : α} : found ∈ grid rows columns item ↔
    ∃ row < rows, ∃ column < columns, item row column = found := by
  simp only [grid, List.mem_flatMap, List.mem_map, List.mem_range]

/-- Items that grow along a row and from row to row are in order. -/
theorem pairwise_grid {before : α → α → Prop}
    (hrow : ∀ row left right, left < right → before (item row left) (item row right))
    (hrows : ∀ above below left right, above < below →
      before (item above left) (item below right)) :
    (grid rows columns item).Pairwise before := by
  rw [grid, List.pairwise_flatMap]
  constructor
  · intro row _
    rw [List.pairwise_map]
    exact List.pairwise_lt_range.imp (hrow row _ _)
  · refine List.pairwise_lt_range.imp fun hlt found hfound found' hfound' => ?_
    obtain ⟨column, -, rfl⟩ := List.mem_map.mp hfound
    obtain ⟨column', -, rfl⟩ := List.mem_map.mp hfound'
    exact hrows _ _ _ _ hlt

end MoonBoofuzz
