import Mathlib.Data.List.Basic
import Mathlib.Data.List.Flatten
import Mathlib.Data.List.Forall2

namespace MoonBoofuzz

/-! Lists that consist of one block of entries for each of some items. -/

inductive Blocks (holds : α → List β → Prop) : List α → List β → Prop
  | nil : Blocks holds [] []
  | cons {item : α} {block : List β} {items : List α} {rest : List β}
      (hblock : holds item block) (hrest : Blocks holds items rest) :
      Blocks holds (item :: items) (block ++ rest)

namespace Blocks

variable {holds : α → List β → Prop} {holds' : α → List γ → Prop}
  {items items' : List α} {entries entries' : List β}

theorem single {item : α} {block : List β} (hblock : holds item block) :
    Blocks holds [item] block := by
  have hcons : Blocks holds [item] (block ++ []) := .cons hblock .nil
  rwa [List.append_nil] at hcons

theorem append (hfirst : Blocks holds items entries)
    (hsecond : Blocks holds items' entries') :
    Blocks holds (items ++ items') (entries ++ entries') := by
  induction hfirst with
  | nil => exact hsecond
  | cons hblock _ ih =>
      rw [List.cons_append, List.append_assoc]
      exact .cons hblock ih

theorem collect (other : List β → List γ) (hblocks : Blocks holds items entries)
    (hnil : other [] = [])
    (happend : ∀ first second, other (first ++ second) = other first ++ other second)
    (hother : ∀ item ∈ items, ∀ block, holds item block → holds' item (other block)) :
    Blocks holds' items (other entries) := by
  induction hblocks with
  | nil =>
      rw [hnil]
      exact .nil
  | cons hblock _ ih =>
      rw [happend]
      exact .cons (hother _ List.mem_cons_self _ hblock)
        (ih fun item hitem => hother item (List.mem_cons_of_mem _ hitem))

theorem flatMap_eq {value : α → List β}
    (hblocks : Blocks (fun item block => block = value item) items entries) :
    entries = items.flatMap value := by
  induction hblocks with
  | nil => rfl
  | cons hblock _ ih => rw [List.flatMap_cons, hblock, ih]

theorem eq_nil_iff (hblocks : Blocks holds items entries)
    (hne : ∀ item ∈ items, ∀ block, holds item block → block ≠ []) :
    entries = [] ↔ items = [] := by
  cases hblocks with
  | nil => simp
  | cons hblock _ =>
      have hblock' := hne _ List.mem_cons_self _ hblock
      simp [hblock']

theorem dropWhile {drops : α → Bool} {drops' : β → Bool}
    (hblocks : Blocks holds items entries)
    (hsame : ∀ item ∈ items, ∀ block, holds item block →
      block ≠ [] ∧ ∀ entry ∈ block, drops' entry = drops item) :
    Blocks holds (items.dropWhile drops) (entries.dropWhile drops') := by
  induction hblocks with
  | nil => exact .nil
  | @cons item block items rest hblock hrest ih =>
      obtain ⟨hne, hentries⟩ := hsame _ List.mem_cons_self _ hblock
      have hrest' := ih fun item hitem => hsame item (List.mem_cons_of_mem _ hitem)
      cases hdrops : drops item with
      | true =>
          rw [List.dropWhile_cons_of_pos hdrops, List.dropWhile_append_of_pos
            fun entry hentry => by rw [hentries entry hentry, hdrops]]
          exact hrest'
      | false =>
          rw [List.dropWhile_cons_of_neg (by simp [hdrops])]
          obtain ⟨entry, others, rfl⟩ := List.exists_cons_of_ne_nil hne
          have hentry : drops' entry = false := by
            rw [hentries entry List.mem_cons_self, hdrops]
          rw [List.cons_append, List.dropWhile_cons_of_neg (by simp [hentry]),
            ← List.cons_append]
          exact .cons hblock hrest

theorem filter_key [DecidableEq κ] {key : α → κ} {key' : β → κ}
    (hblocks : Blocks holds items entries)
    (hkey : ∀ item ∈ items, ∀ block, holds item block → ∀ entry ∈ block,
      key' entry = key item)
    (hnodup : (items.map key).Nodup) {item : α} (hitem : item ∈ items) :
    ∃ block, holds item block ∧ entries.filter (fun entry => key' entry = key item) = block := by
  have hothers : ∀ {others : List α} {rest : List β}, Blocks holds others rest →
      (∀ other ∈ others, ∀ block, holds other block → ∀ entry ∈ block,
        key' entry = key other) → key item ∉ others.map key →
      rest.filter (fun entry => key' entry = key item) = [] := by
    intro others rest hrest hkeys hnone
    induction hrest with
    | nil => rfl
    | @cons other block others rest hblock _ ih =>
        rw [List.map_cons, List.mem_cons, not_or] at hnone
        rw [List.filter_append, ih (fun other hother =>
          hkeys other (List.mem_cons_of_mem _ hother)) hnone.2, List.append_nil,
          List.filter_eq_nil_iff]
        intro entry hentry
        rw [decide_eq_true_eq, hkeys other List.mem_cons_self block hblock entry hentry]
        exact Ne.symm hnone.1
  induction hblocks with
  | nil => cases hitem
  | @cons first block items rest hblock hrest ih =>
      rw [List.map_cons, List.nodup_cons] at hnodup
      have hlater : ∀ other ∈ items, ∀ block, holds other block → ∀ entry ∈ block,
          key' entry = key other :=
        fun other hother => hkey other (List.mem_cons_of_mem _ hother)
      have hfirst := hkey first List.mem_cons_self block hblock
      rw [List.filter_append]
      rcases List.mem_cons.mp hitem with rfl | hmem
      · refine ⟨block, hblock, ?_⟩
        rw [hothers hrest hlater hnodup.1, List.append_nil, List.filter_eq_self]
        intro entry hentry
        exact decide_eq_true (hfirst entry hentry)
      · obtain ⟨found, hholds, hfound⟩ := ih hlater hnodup.2 hmem
        refine ⟨found, hholds, ?_⟩
        have hne : key first ≠ key item := by
          intro hsame
          exact hnodup.1 (hsame ▸ List.mem_map_of_mem hmem)
        rw [hfound, List.filter_eq_nil_iff.mpr, List.nil_append]
        intro entry hentry
        rw [decide_eq_true_eq, hfirst entry hentry]
        exact hne

end Blocks

end MoonBoofuzz
