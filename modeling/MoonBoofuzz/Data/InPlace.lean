import Mathlib.Data.List.Basic

namespace MoonBoofuzz

/-! Loops that overwrite a list in place.  A loop that reads only what it has not written
yet gives each place what it would get from the original. -/

variable {α : Type*}

def fillDown (next : List α → ℕ → α) : ℕ → List α → List α
  | 0, items => items
  | count + 1, items => fillDown next count (items.set count (next items count))

def fillUp (next : List α → ℕ → α) : ℕ → ℕ → List α → List α
  | 0, _, items => items
  | count + 1, start, items => fillUp next count (start + 1) (items.set start (next items start))

def ReadsBelow (next : List α → ℕ → α) : Prop :=
  ∀ {items items' : List α} {i : ℕ}, (∀ j ≤ i, items[j]? = items'[j]?) →
    next items i = next items' i

def ReadsAbove (next : List α → ℕ → α) : Prop :=
  ∀ {items items' : List α} {i : ℕ}, (∀ j, i ≤ j → items[j]? = items'[j]?) →
    next items i = next items' i

variable {next : List α → ℕ → α}

theorem length_fillDown : ∀ (count : ℕ) (items : List α),
    (fillDown next count items).length = items.length := by
  intro count
  induction count with
  | zero => exact fun _ => rfl
  | succ count ih =>
      intro items
      rw [fillDown, ih, List.length_set]

theorem length_fillUp : ∀ (count start : ℕ) (items : List α),
    (fillUp next count start items).length = items.length := by
  intro count
  induction count with
  | zero => exact fun _ _ => rfl
  | succ count ih =>
      intro start items
      rw [fillUp, ih, List.length_set]

theorem getElem?_fillDown (hreads : ReadsBelow next) : ∀ {count i : ℕ} {items : List α},
    (fillDown next count items)[i]? =
      if i < count ∧ i < items.length then some (next items i) else items[i]? := by
  intro count
  induction count with
  | zero =>
      intro i items
      rw [fillDown, if_neg (by omega)]
  | succ count ih =>
      intro i items
      have hsame : i < count →
          next (items.set count (next items count)) i = next items i := by
        intro hlt
        apply hreads
        intro j hle
        exact List.getElem?_set_ne (by omega)
      rw [fillDown, ih, List.length_set]
      rcases Nat.lt_trichotomy i count with hlt | rfl | hgt
      · by_cases hinside : i < items.length
        · rw [if_pos ⟨hlt, hinside⟩, if_pos ⟨by omega, hinside⟩, hsame hlt]
        · rw [if_neg (by omega), if_neg (by omega), List.getElem?_set_ne (by omega)]
      · rw [if_neg (by omega)]
        by_cases hinside : i < items.length
        · rw [if_pos ⟨by omega, hinside⟩, List.getElem?_set_self hinside]
        · rw [if_neg (by omega), List.getElem?_eq_none (by rw [List.length_set]; omega),
            List.getElem?_eq_none (by omega)]
      · rw [if_neg (by omega), if_neg (by omega), List.getElem?_set_ne (by omega)]

theorem getElem?_fillUp (hreads : ReadsAbove next) : ∀ {count start i : ℕ} {items : List α},
    (fillUp next count start items)[i]? =
      if (start ≤ i ∧ i < start + count) ∧ i < items.length then some (next items i)
      else items[i]? := by
  intro count
  induction count with
  | zero =>
      intro start i items
      rw [fillUp, if_neg (by omega)]
  | succ count ih =>
      intro start i items
      have hsame : start < i →
          next (items.set start (next items start)) i = next items i := by
        intro hlt
        apply hreads
        intro j hle
        exact List.getElem?_set_ne (by omega)
      rw [fillUp, ih, List.length_set]
      rcases Nat.lt_trichotomy i start with hlt | rfl | hgt
      · rw [if_neg (by omega), if_neg (by omega), List.getElem?_set_ne (by omega)]
      · rw [if_neg (by omega)]
        by_cases hinside : i < items.length
        · rw [if_pos ⟨by omega, hinside⟩, List.getElem?_set_self hinside]
        · rw [if_neg (by omega), List.getElem?_eq_none (by rw [List.length_set]; omega),
            List.getElem?_eq_none (by omega)]
      · by_cases hinside : i < start + (count + 1) ∧ i < items.length
        · rw [if_pos (by omega), if_pos (by omega), hsame hgt]
        · rw [if_neg (by omega), if_neg (by omega), List.getElem?_set_ne (by omega)]

end MoonBoofuzz
