import Mathlib.Data.List.DropRight
import Mathlib.Data.List.TakeWhile

namespace MoonBoofuzz

/-! Lists split at a separator, and lists trimmed at their ends. -/

section

variable {α : Type} [DecidableEq α] {separator : α} {whole : List α} {pieces : List (List α)}

theorem notMem_of_mem_splitOn {piece : List α} (hpiece : piece ∈ whole.splitOn separator) :
    separator ∉ piece := by
  induction whole generalizing piece with
  | nil =>
      rw [List.splitOn_nil, List.mem_singleton] at hpiece
      rw [hpiece]
      exact List.not_mem_nil
  | cons item rest ih =>
      rw [List.splitOn, List.splitOnP_cons_eq_if_modifyHead] at hpiece
      split at hpiece
      · rcases List.mem_cons.mp hpiece with rfl | hpiece
        · exact List.not_mem_nil
        · exact ih hpiece
      · rename_i hother
        rw [← List.splitOn] at hpiece
        cases hpieces : rest.splitOn separator with
        | nil => rw [hpieces] at hpiece; cases hpiece
        | cons first others =>
            rw [hpieces] at hpiece ih
            rcases List.mem_cons.mp hpiece with rfl | hpiece
            · intro hmem
              rcases List.mem_cons.mp hmem with rfl | hmem
              · exact hother (by simp)
              · exact ih List.mem_cons_self hmem
            · exact ih (List.mem_cons_of_mem _ hpiece)

/-- The pieces are what the separator stands between. -/
theorem splitOn_eq_iff :
    whole.splitOn separator = pieces ↔
      pieces ≠ [] ∧ (∀ piece ∈ pieces, separator ∉ piece) ∧
        whole = [separator].intercalate pieces := by
  constructor
  · rintro rfl
    exact ⟨List.splitOnP_ne_nil _ _, fun piece => notMem_of_mem_splitOn,
      (List.intercalate_splitOn separator).symm⟩
  · rintro ⟨hne, hpieces, rfl⟩
    exact List.splitOn_intercalate separator hpieces hne

end

section

variable {α : Type} {drops : α → Bool} {whole kept : List α}

/-- The list neither begins nor ends with something that is dropped. -/
structure Pared (drops : α → Bool) (kept : List α) : Prop where
  first : ∀ item ∈ kept.head?, drops item = false
  last : ∀ item ∈ kept.getLast?, drops item = false

theorem rdropWhile_eq_iff :
    whole.rdropWhile drops = kept ↔
      (∀ item ∈ kept.getLast?, drops item = false) ∧
        ∃ back, (∀ item ∈ back, drops item = true) ∧ whole = kept ++ back := by
  constructor
  · rintro rfl
    refine ⟨fun item hitem => ?_, whole.rtakeWhile drops, fun item => List.mem_rtakeWhile_imp,
      List.rdropWhile_append_rtakeWhile.symm⟩
    obtain ⟨hne, rfl⟩ := List.mem_getLast?_eq_getLast hitem
    exact Bool.eq_false_iff.mpr (List.rdropWhile_last_not drops whole hne)
  · rintro ⟨hlast, back, hback, rfl⟩
    induction back using List.reverseRecOn with
    | nil =>
        rw [List.append_nil, List.rdropWhile_eq_self_iff]
        intro hne
        exact Bool.eq_false_iff.mp (hlast _ (List.getLast_mem_getLast? hne))
    | append_singleton back item ih =>
        rw [← List.append_assoc, List.rdropWhile_concat_pos _ _ _ (hback item (by simp))]
        exact ih fun other hother => hback other (List.mem_append_left _ hother)

theorem dropWhile_eq_iff :
    whole.dropWhile drops = kept ↔
      (∀ item ∈ kept.head?, drops item = false) ∧
        ∃ front, (∀ item ∈ front, drops item = true) ∧ whole = front ++ kept := by
  constructor
  · rintro rfl
    refine ⟨fun item hitem => ?_, whole.takeWhile drops, fun item => List.mem_takeWhile_imp,
      List.takeWhile_append_dropWhile.symm⟩
    have hfirst := List.head?_dropWhile_not drops whole
    rw [Option.mem_def.mp hitem] at hfirst
    exact hfirst
  · rintro ⟨hfirst, front, hfront, rfl⟩
    rw [List.dropWhile_append_of_pos hfront]
    cases kept with
    | nil => rfl
    | cons item rest => exact List.dropWhile_cons_of_neg (by simp [hfirst item rfl])

theorem trim_eq_iff :
    (whole.dropWhile drops).rdropWhile drops = kept ↔
      Pared drops kept ∧ ∃ front back, (∀ item ∈ front, drops item = true) ∧
        (∀ item ∈ back, drops item = true) ∧ whole = front ++ kept ++ back := by
  rw [rdropWhile_eq_iff]
  constructor
  · rintro ⟨hlast, back, hback, hkept⟩
    obtain ⟨hfirst, front, hfront, hwhole⟩ := dropWhile_eq_iff.mp hkept
    refine ⟨⟨fun item hitem => ?_, hlast⟩, front, back, hfront, hback, ?_⟩
    · refine hfirst item ?_
      rw [List.head?_append, Option.mem_def.mp hitem]
      rfl
    · rw [hwhole, List.append_assoc]
  · rintro ⟨hpared, front, back, hfront, hback, rfl⟩
    refine ⟨hpared.last, ?_⟩
    cases kept with
    | nil =>
        refine ⟨[], fun item hitem => absurd hitem List.not_mem_nil, ?_⟩
        rw [List.append_nil, List.append_nil, List.dropWhile_eq_nil_iff]
        intro item hitem
        rcases List.mem_append.mp hitem with hitem | hitem
        · exact hfront item hitem
        · exact hback item hitem
    | cons item rest =>
        refine ⟨back, hback, dropWhile_eq_iff.mpr ⟨?_, front, hfront, List.append_assoc _ _ _⟩⟩
        rintro _ ⟨⟩
        exact hpared.first item rfl

end

end MoonBoofuzz
