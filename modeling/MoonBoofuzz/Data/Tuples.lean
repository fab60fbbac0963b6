import Mathlib.Data.List.Basic
import Mathlib.Data.List.Nodup

namespace MoonBoofuzz

/-! Tuples of items in which each item allows the ones that follow it. -/

namespace Tuples

variable {α : Type} (allows : α → α → Bool)

/-- The tuples of `count` items, by first item in the order of the list. -/
def tuples : Nat → List α → List (List α)
  | 0, _ => [[]]
  | count + 1, items =>
      items.flatMap fun item =>
        (tuples count (items.filter (allows item))).map (item :: ·)

variable {allows}

theorem mem_tuples {count : Nat} : ∀ {items tuple : List α},
    tuple ∈ tuples allows count items ↔
      tuple.length = count ∧ (∀ item ∈ tuple, item ∈ items) ∧
        tuple.Pairwise fun x y => allows x y = true := by
  induction count with
  | zero =>
      intro items tuple
      simp only [tuples, List.mem_singleton, List.length_eq_zero_iff]
      constructor
      · rintro rfl
        simp
      · exact And.left
  | succ count ih =>
      intro items tuple
      simp only [tuples, List.mem_flatMap, List.mem_map, ih, List.mem_filter]
      constructor
      · rintro ⟨first, hfirst, rest, ⟨hlength, hmem, hpairs⟩, rfl⟩
        refine ⟨by simp [hlength], ?_, ?_⟩
        · exact List.forall_mem_cons.mpr ⟨hfirst, fun item h => (hmem item h).1⟩
        · exact List.pairwise_cons.mpr ⟨fun item h => (hmem item h).2, hpairs⟩
      · rintro ⟨hlength, hmem, hpairs⟩
        cases tuple with
        | nil => simp at hlength
        | cons first rest =>
            obtain ⟨hfirst, hrest⟩ := List.forall_mem_cons.mp hmem
            obtain ⟨hallowed, hothers⟩ := List.pairwise_cons.mp hpairs
            refine ⟨first, hfirst, rest, ⟨by simpa using hlength, ?_, hothers⟩, rfl⟩
            exact fun item h => ⟨hrest item h, hallowed item h⟩

theorem tuples_pairwise {before : α → α → Prop} {count : Nat} :
    ∀ {items : List α}, items.Pairwise before →
      (tuples allows count items).Pairwise (List.Lex before) := by
  induction count with
  | zero =>
      intro items _
      simp [tuples]
  | succ count ih =>
      intro items hitems
      rw [tuples, List.pairwise_flatMap]
      refine ⟨?_, ?_⟩
      · intro item _
        rw [List.pairwise_map]
        exact (ih (hitems.filter _)).imp fun hlex => .cons hlex
      · refine hitems.imp fun hbefore left hleft right hright => ?_
        obtain ⟨rest, -, rfl⟩ := List.mem_map.mp hleft
        obtain ⟨rest', -, rfl⟩ := List.mem_map.mp hright
        exact .rel hbefore

end Tuples

end MoonBoofuzz
