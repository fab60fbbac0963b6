import MoonBoofuzz.Model.Layout

namespace MoonBoofuzz

theorem toInt_add_of_fits {left right : Int32}
    (hlower : -2147483648 ≤ left.toInt + right.toInt)
    (hupper : left.toInt + right.toInt < 2147483648) :
    (left + right).toInt = left.toInt + right.toInt := by
  rw [Int32.toInt_add]
  exact wrap32_eq_self hlower hupper

theorem toInt_sub_of_fits {left right : Int32}
    (hlower : -2147483648 ≤ left.toInt - right.toInt)
    (hupper : left.toInt - right.toInt < 2147483648) :
    (left - right).toInt = left.toInt - right.toInt := by
  rw [Int32.toInt_sub]
  exact wrap32_eq_self hlower hupper

theorem toInt_mul_of_fits {left right : Int32}
    (hlower : -2147483648 ≤ left.toInt * right.toInt)
    (hupper : left.toInt * right.toInt < 2147483648) :
    (left * right).toInt = left.toInt * right.toInt := by
  rw [Int32.toInt_mul]
  exact wrap32_eq_self hlower hupper

namespace CompiledRequest

structure Ranged (min max step : Int32) (range : RepeatRange) : Prop where
  min : (range.min : Int) = min.toInt
  max : (range.max : Int) = max.toInt
  step : (range.step : Int) = step.toInt

theorem repeatKind_eq_ok {target : Text} {min max step : Int32} {variableName : Option Text}
    {kind : EntryKind} (hkind : repeatKind target min max step variableName = .ok kind) :
    ∃ range, Ranged min max step range ∧ kind = .repetition target range variableName := by
  rw [repeatKind] at hkind
  split at hkind
  · rename_i hguards
    obtain ⟨hmin, hmax, hstep⟩ := hguards
    split at hkind
    · cases hkind
      exact ⟨_, ⟨Int.toNat_of_nonneg hmin, Int.toNat_of_nonneg (by omega),
        Int.toNat_of_nonneg (by omega)⟩, rfl⟩
    · cases hkind
  · cases hkind

theorem addNode_repeated {scope name target : Text} {parent : Option Nat} {depth index : Nat}
    {draft draft' : Draft} {min max step : Int32} {variableName : Option Text}
    (hadd : addNode scope parent depth draft
      (.repeated name target min max step variableName) = .ok (index, draft')) :
    ∃ range, Ranged min max step range ∧
      (entryAt draft'.entries index).kind = .repetition target range variableName := by
  obtain ⟨rfl, hregister⟩ := addNode_plain rfl hadd
  obtain ⟨-, -, kind, hkind, rfl⟩ := registerNode_eq_ok hregister
  obtain ⟨range, hranged, rfl⟩ := repeatKind_eq_ok hkind
  refine ⟨range, hranged, ?_⟩
  simp [entryAt]

section

variable {min max step : Int32} {range : RepeatRange} {i : Nat}

theorem Ranged.count (hranged : Ranged min max step range) :
    ((max - min) / step + 1).toInt = range.count := by
  obtain ⟨hmin, hmax, hstep⟩ := hranged
  have hle := range.min_le
  have hlt := range.max_lt
  have hpositive := range.step_pos
  have hcount := range.count_lt
  have hdifference : (max - min).toInt = ((range.max - range.min : Nat) : Int) := by
    rw [toInt_sub_of_fits (by omega) (by omega)]
    omega
  have hone : (1 : Int32).toInt = 1 := by decide
  have hquotient : ((max - min) / step).toInt =
      (((range.max - range.min) / range.step : Nat) : Int) := by
    have hne : step ≠ -1 := by
      rintro rfl
      have hminus : (-1 : Int32).toInt = -1 := by decide
      omega
    rw [Int32.toInt_div_of_ne_right _ _ hne, hdifference, ← hstep,
      Int.tdiv_eq_ediv_of_nonneg (Int.natCast_nonneg _), Int.natCast_ediv]
  rw [RepeatRange.count]
  generalize (range.max - range.min) / range.step = quotient at hquotient hcount ⊢
  rw [toInt_add_of_fits, hquotient, hone]
  · rfl
  · rw [hquotient, hone]
    omega
  · rw [hquotient, hone]
    omega

theorem Ranged.index_lt (hindex : i < range.count) : i < 2147483648 := by
  have hcount := range.count_lt
  rw [RepeatRange.count] at hindex
  omega

/-- No step of the computation of a candidate leaves the range. -/
theorem Ranged.fits (hranged : Ranged min max step range) (hindex : i < range.count) :
    (step * Int32.ofNat i).toInt = step.toInt * i ∧
      (min + step * Int32.ofNat i).toInt = min.toInt + step.toInt * i ∧
      min.toInt + step.toInt * i ≤ max.toInt := by
  obtain ⟨hmin, hmax, hstep⟩ := hranged
  have hbound := (range.value_eq hindex).2
  have hlt := range.max_lt
  have hofNat : (Int32.ofNat i).toInt = i := Int32.toInt_ofNat_of_lt (Ranged.index_lt hindex)
  have hproduct : step.toInt * i = ((range.step * i : Nat) : Int) := by
    rw [← hstep]
    exact (Int.natCast_mul _ _).symm
  have hstepped : (step * Int32.ofNat i).toInt = step.toInt * i := by
    rw [toInt_mul_of_fits, hofNat]
    · rw [hofNat, hproduct]
      omega
    · rw [hofNat, hproduct]
      omega
  refine ⟨hstepped, ?_, by omega⟩
  rw [toInt_add_of_fits, hstepped]
  · rw [hstepped]
    omega
  · rw [hstepped]
    omega

theorem Ranged.last (hranged : Ranged min max step range) (hlast : i + 1 = range.count)
    {other : Nat} (hother : min.toInt + step.toInt * other ≤ max.toInt) : other ≤ i := by
  obtain ⟨hmin, hmax, hstep⟩ := hranged
  have hproduct : step.toInt * other = ((other * range.step : Nat) : Int) := by
    rw [← hstep, Nat.mul_comm]
    exact (Int.natCast_mul _ _).symm
  have hle : other ≤ (range.max - range.min) / range.step := by
    rw [Nat.le_div_iff_mul_le range.step_pos]
    omega
  rw [RepeatRange.count] at hlast
  omega

end

/-- The candidates of every repeat that is added stay in range, are read back as what they
count, and go up to the last that the maximum allows. -/
theorem repeat_candidates_exact {scope name target : Text} {parent : Option Nat}
    {depth index : Nat} {draft draft' : Draft} {min max step : Int32}
    {variableName : Option Text}
    (hadd : addNode scope parent depth draft
      (.repeated name target min max step variableName) = .ok (index, draft')) :
    (((max - min) / step + 1).toInt = (entryAt draft'.entries index).kind.count) ∧
    ∀ i < (entryAt draft'.entries index).kind.count,
      (step * Int32.ofNat i).toInt = step.toInt * i ∧
      (min + step * Int32.ofNat i).toInt = min.toInt + step.toInt * i ∧
      min.toInt + step.toInt * i ≤ max.toInt ∧
      decodeRepeat ((entryAt draft'.entries index).kind.candidate i) =
        min.toInt + step.toInt * i ∧
      (i + 1 = (entryAt draft'.entries index).kind.count → ∀ other : Nat,
        min.toInt + step.toInt * other ≤ max.toInt →
          min.toInt + step.toInt * other ≤ min.toInt + step.toInt * i) := by
  obtain ⟨range, hranged, hkind⟩ := addNode_repeated hadd
  rw [hkind]
  refine ⟨hranged.count, fun i hi => ?_⟩
  obtain ⟨hstepped, hsum, hbound⟩ := hranged.fits hi
  refine ⟨hstepped, hsum, hbound, ?_, fun hlast other hother => ?_⟩
  · rw [decodeRepeat_candidate target range variableName hi, hranged.min, hranged.step]
  · have hle := hranged.last hlast hother
    have hpositive : 0 ≤ step.toInt := by
      rw [← hranged.step]
      exact Int.natCast_nonneg _
    have hproduct : step.toInt * other ≤ step.toInt * i :=
      Int.mul_le_mul_of_nonneg_left (by exact_mod_cast hle) hpositive
    omega

/-- A step that reaches the largest number at once. -/
def leapDraft : Draft where
  entries := [{
    path := Text.ofAscii "n"
    parent := none
    kind := .repetition (Text.ofAscii "b") ⟨1, 2147483647, 2147483646, by decide, by decide,
      by decide, by decide, by decide⟩ none
    condition := none
    alignment := none
    group := none }]
  paths := [(Text.ofAscii "n", 0)]

theorem leapDraft_added : addNode [] none 0 ⟨[], []⟩
    (.repeated (Text.ofAscii "n") (Text.ofAscii "b") 1 2147483647 2147483646 none) =
      .ok (0, leapDraft) := rfl

theorem leapDraft_candidates :
    (entryAt leapDraft.entries 0).kind.count = 2 ∧
      decodeRepeat ((entryAt leapDraft.entries 0).kind.candidate 1) = 2147483647 := by
  obtain ⟨-, -, -, hdecoded, -⟩ := (repeat_candidates_exact leapDraft_added).2 1 (by decide)
  exact ⟨by decide, hdecoded⟩

end CompiledRequest

end MoonBoofuzz
