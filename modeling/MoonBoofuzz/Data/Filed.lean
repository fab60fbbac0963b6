import Mathlib.Logic.Function.Basic
import Mathlib.Data.List.Basic

namespace MoonBoofuzz

/-! Items that are stored one after the other, each under a name of its own. -/

/-- Where each item that is there has been stored, the first of them as number one, and
nothing else has been. -/
structure Filed (name : Nat → κ) (before : κ → Option β) (items : List (Option β))
    (store : κ → Option β) : Prop where
  held : ∀ i item, items[i]? = some (some item) → store (name (i + 1)) = some item
  other : ∀ key, (∀ i < items.length, key ≠ name (i + 1)) → store key = before key

namespace Filed

variable {name : Nat → κ} {before store after : κ → Option β} {items : List (Option β)}
  {item : Option β}

theorem start (name : Nat → κ) (store : κ → Option β) : Filed name store [] store where
  held := fun i item hitem => by cases hitem
  other := fun key _ => rfl

theorem snoc (hfiled : Filed name before items store) (hname : Function.Injective name)
    (hitem : ∀ value, item = some value → after (name (items.length + 1)) = some value)
    (hother : ∀ key, key ≠ name (items.length + 1) → after key = store key) :
    Filed name before (items ++ [item]) after where
  held := by
    intro i value hvalue
    rw [List.getElem?_append] at hvalue
    split at hvalue
    · rename_i hlt
      have hne : name (i + 1) ≠ name (items.length + 1) := by
        intro hsame
        have hindex := hname hsame
        omega
      rw [hother _ hne]
      exact hfiled.held i value hvalue
    · rename_i hle
      obtain rfl : i = items.length := by
        by_contra hne
        rw [List.getElem?_eq_none (by simp only [List.length_singleton]; omega)] at hvalue
        cases hvalue
      rw [Nat.sub_self] at hvalue
      cases hvalue
      exact hitem value rfl
  other := by
    intro key hkey
    rw [List.length_append, List.length_singleton] at hkey
    rw [hother key (hkey items.length (Nat.lt_succ_self _))]
    exact hfiled.other key fun i hi => hkey i (Nat.lt_succ_of_lt hi)

end Filed

end MoonBoofuzz
