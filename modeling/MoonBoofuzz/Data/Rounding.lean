import Mathlib.Algebra.Order.Field.Basic
import Mathlib.Algebra.Ring.Parity
import Mathlib.Order.Interval.Set.OrdConnected
import Mathlib.Tactic.Linarith
import Mathlib.Tactic.Ring

namespace MoonBoofuzz

/-! Rounding to the nearest point of a grid, half to even. -/

variable {K : Type*} [Field K] [LinearOrder K] [IsStrictOrderedRing K]

/-- The cell numbers a point of the grid nearest to the value, and an even one when
there is another as near. -/
structure NearestEven (grid : ℕ → K) (cells : Set ℕ) (value : K) (cell : ℕ) : Prop where
  mem : cell ∈ cells
  nearest : ∀ other ∈ cells, |grid cell - value| ≤ |grid other - value|
  even : ∀ other ∈ cells, other ≠ cell → |grid other - value| = |grid cell - value| → Even cell

variable {grid : ℕ → K} {cells : Set ℕ} {value : K}

theorem abs_sub_lt_of_between {low middle high value : K} (hlow : low < middle)
    (hhigh : middle < high) (hsame : |low - value| = |high - value|) :
    |middle - value| < |low - value| := by
  have hcentre : value - low = high - value := by
    rcases abs_eq_abs.mp hsame with hequal | hopposite
    · linarith
    · linarith
  have hdistance : |low - value| = value - low := by
    rw [abs_sub_comm]
    exact abs_of_nonneg (by linarith)
  rw [hdistance, abs_lt]
  constructor <;> linarith

theorem NearestEven.not_lt (hmono : StrictMonoOn grid cells) (hcells : cells.OrdConnected)
    {cell other : ℕ} (hcell : NearestEven grid cells value cell)
    (hother : NearestEven grid cells value other) : ¬ cell < other := by
  intro hlt
  have hsame : |grid cell - value| = |grid other - value| :=
    le_antisymm (hcell.nearest other hother.mem) (hother.nearest cell hcell.mem)
  rcases Nat.eq_or_lt_of_le (Nat.succ_le_of_lt hlt) with hnext | hbetween
  · -- Neighbours are not both even.
    have hlow := hcell.even other hother.mem (by omega) hsame.symm
    have hhigh := hother.even cell hcell.mem (by omega) hsame
    rw [← hnext, Nat.succ_eq_add_one, Nat.even_add_one] at hhigh
    exact hhigh hlow
  · have hinside : cell + 1 ∈ cells :=
      hcells.out hcell.mem hother.mem ⟨Nat.le_succ cell, Nat.le_of_lt hbetween⟩
    have hcloser := abs_sub_lt_of_between (hmono hcell.mem hinside (Nat.lt_succ_self cell))
      (hmono hinside hother.mem hbetween) hsame
    exact absurd (hcell.nearest _ hinside) (not_le.mpr hcloser)

theorem NearestEven.unique (hmono : StrictMonoOn grid cells) (hcells : cells.OrdConnected)
    {cell other : ℕ} (hcell : NearestEven grid cells value cell)
    (hother : NearestEven grid cells value other) : cell = other :=
  le_antisymm (Nat.not_lt.mp (hother.not_lt hmono hcells hcell))
    (Nat.not_lt.mp (hcell.not_lt hmono hcells hother))

section

variable {cell : ℕ} (hmono : StrictMonoOn grid cells) (hcell : cell ∈ cells)
  (hnext : cell + 1 ∈ cells) (hlow : grid cell ≤ value) (hhigh : value ≤ grid (cell + 1))

include hmono hcell hlow in
theorem distance_below {other : ℕ} (hother : other ∈ cells) (hle : other ≤ cell) :
    |grid other - value| = value - grid other ∧ grid other ≤ grid cell ∧
      (other ≠ cell → grid other < grid cell) := by
  have hgrid : grid other ≤ grid cell := hmono.monotoneOn hother hcell hle
  refine ⟨?_, hgrid, fun hne => hmono hother hcell (lt_of_le_of_ne hle hne)⟩
  rw [abs_sub_comm]
  exact abs_of_nonneg (by linarith)

include hmono hnext hhigh in
theorem distance_above {other : ℕ} (hother : other ∈ cells) (hlt : cell < other) :
    |grid other - value| = grid other - value ∧ grid (cell + 1) ≤ grid other ∧
      (other ≠ cell + 1 → grid (cell + 1) < grid other) := by
  have hgrid : grid (cell + 1) ≤ grid other := hmono.monotoneOn hnext hother hlt
  refine ⟨abs_of_nonneg (by linarith), hgrid, fun hne => hmono hnext hother (by omega)⟩

include hmono hcell hnext hlow hhigh in
theorem nearestEven_lower (hhalf : 2 * value < grid cell + grid (cell + 1) ∨
    2 * value = grid cell + grid (cell + 1) ∧ Even cell) :
    NearestEven grid cells value cell where
  mem := hcell
  nearest := by
    intro other hother
    obtain ⟨hhere, -, -⟩ := distance_below hmono hcell hlow hcell (le_refl _)
    rcases Nat.lt_or_ge cell other with habove | hbelow
    · obtain ⟨hdistance, hle, -⟩ := distance_above hmono hnext hhigh hother habove
      rcases hhalf with hhalf | ⟨hhalf, -⟩ <;> linarith
    · obtain ⟨hdistance, hle, -⟩ := distance_below hmono hcell hlow hother hbelow
      linarith
  even := by
    intro other hother hne hsame
    obtain ⟨hhere, -, -⟩ := distance_below hmono hcell hlow hcell (le_refl _)
    rcases Nat.lt_or_ge cell other with habove | hbelow
    · obtain ⟨hdistance, hle, -⟩ := distance_above hmono hnext hhigh hother habove
      rcases hhalf with hhalf | ⟨-, heven⟩
      · linarith
      · exact heven
    · obtain ⟨hdistance, -, hlt⟩ := distance_below hmono hcell hlow hother hbelow
      have := hlt hne
      linarith

include hmono hcell hnext hlow hhigh in
theorem nearestEven_upper (hhalf : grid cell + grid (cell + 1) < 2 * value ∨
    2 * value = grid cell + grid (cell + 1) ∧ ¬ Even cell) :
    NearestEven grid cells value (cell + 1) where
  mem := hnext
  nearest := by
    intro other hother
    obtain ⟨hhere, -, -⟩ := distance_above hmono hnext hhigh hnext (Nat.lt_succ_self cell)
    rcases Nat.lt_or_ge cell other with habove | hbelow
    · obtain ⟨hdistance, hle, -⟩ := distance_above hmono hnext hhigh hother habove
      linarith
    · obtain ⟨hdistance, hle, -⟩ := distance_below hmono hcell hlow hother hbelow
      rcases hhalf with hhalf | ⟨hhalf, -⟩ <;> linarith
  even := by
    intro other hother hne hsame
    obtain ⟨hhere, -, -⟩ := distance_above hmono hnext hhigh hnext (Nat.lt_succ_self cell)
    rcases Nat.lt_or_ge cell other with habove | hbelow
    · obtain ⟨hdistance, -, hlt⟩ := distance_above hmono hnext hhigh hother habove
      have := hlt hne
      linarith
    · obtain ⟨hdistance, hle, -⟩ := distance_below hmono hcell hlow hother hbelow
      rcases hhalf with hhalf | ⟨-, hodd⟩
      · linarith
      · exact Nat.even_add_one.mpr hodd

end

theorem nearestEven_top (hmono : StrictMonoOn grid cells) {top : ℕ} (htop : IsGreatest cells top)
    (hvalue : grid top ≤ value) : NearestEven grid cells value top where
  mem := htop.1
  nearest := by
    intro other hother
    have hgrid := hmono.monotoneOn hother htop.1 (htop.2 hother)
    rw [abs_sub_comm, abs_of_nonneg (by linarith), abs_sub_comm, abs_of_nonneg (by linarith)]
    linarith
  even := by
    intro other hother hne hsame
    have hgrid := hmono hother htop.1 (lt_of_le_of_ne (htop.2 hother) hne)
    rw [abs_sub_comm, abs_of_nonneg (by linarith), abs_sub_comm,
      abs_of_nonneg (by linarith)] at hsame
    linarith

/-- `value / 2 ^ shift`, rounded half to even. -/
def halfEven (value shift : ℕ) : ℕ :=
  if 2 ^ shift < 2 * (value % 2 ^ shift) ∨
      2 * (value % 2 ^ shift) = 2 ^ shift ∧ ¬ Even (value / 2 ^ shift) then
    value / 2 ^ shift + 1
  else value / 2 ^ shift

theorem halfEven_succ (value shift : ℕ) :
    halfEven value (shift + 1) =
      if 2 ^ shift < value % 2 ^ (shift + 1) ∨
          value % 2 ^ (shift + 1) = 2 ^ shift ∧ value / 2 ^ (shift + 1) % 2 = 1 then
        value / 2 ^ (shift + 1) + 1
      else value / 2 ^ (shift + 1) := by
  have hstep : 2 ^ (shift + 1) = 2 * 2 ^ shift := by
    rw [pow_succ, Nat.mul_comm]
  have hcondition : (2 ^ (shift + 1) < 2 * (value % 2 ^ (shift + 1)) ∨
      2 * (value % 2 ^ (shift + 1)) = 2 ^ (shift + 1) ∧
        ¬ Even (value / 2 ^ (shift + 1))) ↔
      (2 ^ shift < value % 2 ^ (shift + 1) ∨
        value % 2 ^ (shift + 1) = 2 ^ shift ∧ value / 2 ^ (shift + 1) % 2 = 1) := by
    rw [Nat.not_even_iff]
    generalize value % 2 ^ (shift + 1) = rest
    omega
  rw [halfEven, if_congr hcondition rfl rfl]

theorem halfEven_of_lt {value shift : ℕ} (hsmall : 2 * value < 2 ^ shift) :
    halfEven value shift = 0 := by
  have hquotient : value / 2 ^ shift = 0 := Nat.div_eq_of_lt (by omega)
  have hrest : value % 2 ^ shift = value := Nat.mod_eq_of_lt (by omega)
  rw [halfEven, hquotient, hrest, if_neg]
  omega

theorem halfEven_cases (value shift : ℕ) :
    halfEven value shift = value / 2 ^ shift ∨
      halfEven value shift = value / 2 ^ shift + 1 := by
  unfold halfEven
  split
  · exact Or.inr rfl
  · exact Or.inl rfl

/-- On a stretch of the grid with steps of `2 ^ shift` units, rounding to the grid is
rounding off `shift` digits. -/
theorem nearestEven_halfEven (hmono : StrictMonoOn grid cells) {base count shift : ℕ}
    (hbase : Even base) {unit : K} (hunit : 0 < unit) (hcell : base + count / 2 ^ shift ∈ cells)
    (hnext : base + count / 2 ^ shift + 1 ∈ cells)
    (hlow : grid (base + count / 2 ^ shift) = (count / 2 ^ shift : ℕ) * 2 ^ shift * unit)
    (hhigh : grid (base + count / 2 ^ shift + 1) =
      ((count / 2 ^ shift : ℕ) + 1) * 2 ^ shift * unit) :
    NearestEven grid cells (count * unit) (base + halfEven count shift) := by
  have hsplit : (count : K) = (count / 2 ^ shift : ℕ) * 2 ^ shift + (count % 2 ^ shift : ℕ) := by
    exact_mod_cast (Nat.div_add_mod' count (2 ^ shift)).symm
  have hrest : ((count % 2 ^ shift : ℕ) : K) < 2 ^ shift := by
    exact_mod_cast Nat.mod_lt count (Nat.two_pow_pos shift)
  have hnonneg : (0 : K) ≤ (count % 2 ^ shift : ℕ) := Nat.cast_nonneg _
  generalize hquotient : count / 2 ^ shift = quotient at *
  generalize hremainder : count % 2 ^ shift = rest at *
  have hle : grid (base + quotient) ≤ count * unit := by
    rw [hlow, hsplit]
    apply mul_le_mul_of_nonneg_right _ hunit.le
    linarith
  have hge : count * unit ≤ grid (base + quotient + 1) := by
    rw [hhigh, hsplit]
    apply mul_le_mul_of_nonneg_right _ hunit.le
    linarith
  -- Twice the value lies as far above the middle as twice the rest above one step.
  have hmiddle : 2 * (count * unit) - (grid (base + quotient) + grid (base + quotient + 1)) =
      (2 * rest - 2 ^ shift) * unit := by
    rw [hlow, hhigh, hsplit]
    ring
  have hparity : Even (base + quotient) ↔ Even quotient := by
    rw [Nat.even_add]
    simp [hbase]
  rw [halfEven, hquotient, hremainder]
  split
  · rename_i hup
    apply nearestEven_upper hmono hcell hnext hle hge
    rcases hup with hmore | ⟨hhalf, hodd⟩
    · left
      have hmore' : (0 : K) < 2 * rest - 2 ^ shift := by
        rw [sub_pos]
        exact_mod_cast hmore
      have := mul_pos hmore' hunit
      linarith
    · right
      have hhalf' : (2 * rest - 2 ^ shift : K) = 0 := by
        rw [sub_eq_zero]
        exact_mod_cast hhalf
      rw [hhalf', zero_mul] at hmiddle
      exact ⟨by linarith, fun heven => hodd (hparity.mp heven)⟩
  · rename_i hdown
    rw [not_or, not_and_or, not_not, not_lt] at hdown
    obtain ⟨hless, htie⟩ := hdown
    apply nearestEven_lower hmono hcell hnext hle hge
    rcases Nat.eq_or_lt_of_le hless with hhalf | hless
    · right
      have hhalf' : (2 * rest - 2 ^ shift : K) = 0 := by
        rw [sub_eq_zero]
        exact_mod_cast hhalf
      rw [hhalf', zero_mul] at hmiddle
      refine ⟨by linarith, hparity.mpr ?_⟩
      rcases htie with hne | heven
      · exact absurd hhalf hne
      · exact heven
    · left
      have hless' : (2 * rest - 2 ^ shift : K) < 0 := by
        rw [sub_neg]
        exact_mod_cast hless
      have := mul_neg_of_neg_of_pos hless' hunit
      linarith

end MoonBoofuzz
