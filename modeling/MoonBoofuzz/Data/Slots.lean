import Mathlib.Data.List.Basic
import Mathlib.Data.List.TakeDrop

namespace MoonBoofuzz

/-! Numbered positions of an enumeration that may be empty or impassable. -/

/-- What lies at a position: a value, nothing, or something the enumeration does not
get past. -/
inductive Slot (α : Type) where
  | keep (value : α)
  | pass
  | stuck

namespace Slot

variable {α β : Type}

def map (f : α → β) : Slot α → Slot β
  | .keep value => .keep (f value)
  | .pass => .pass
  | .stuck => .stuck

/-- The values up to the first impassable position. -/
def kept : List (Slot α) → List α
  | [] => []
  | .keep value :: rest => value :: kept rest
  | .pass :: rest => kept rest
  | .stuck :: _ => []

/-- The next value and the number of positions up to and including its own, or the
number of positions up to the end. -/
def ahead : List (Slot α) → Option (Option α × Nat)
  | [] => some (none, 0)
  | .keep value :: _ => some (some value, 1)
  | .pass :: rest => (ahead rest).map fun found => (found.1, found.2 + 1)
  | .stuck :: _ => none

/-- The enumeration gets past every position. -/
def Clear (slots : List (Slot α)) : Prop :=
  ∀ slot ∈ slots, slot ≠ .stuck

theorem kept_append {first : List (Slot α)} (hclear : Clear first)
    (second : List (Slot α)) : kept (first ++ second) = kept first ++ kept second := by
  induction first with
  | nil => rfl
  | cons slot rest ih =>
      obtain ⟨hslot, hrest⟩ := List.forall_mem_cons.mp hclear
      cases slot with
      | keep value => simp [kept, ih hrest]
      | pass => simp [kept, ih hrest]
      | stuck => exact absurd rfl hslot

theorem kept_append_of_not_clear {first : List (Slot α)} (hstuck : ¬ Clear first)
    (second : List (Slot α)) : kept (first ++ second) = kept first := by
  induction first with
  | nil => simp [Clear] at hstuck
  | cons slot rest ih =>
      cases slot with
      | stuck => rfl
      | keep value =>
          have hrest : ¬ Clear rest := fun h => hstuck (by simpa [Clear] using h)
          simp [kept, ih hrest]
      | pass =>
          have hrest : ¬ Clear rest := fun h => hstuck (by simpa [Clear] using h)
          simp [kept, ih hrest]

theorem kept_map (f : α → β) (slots : List (Slot α)) :
    kept (slots.map (map f)) = (kept slots).map f := by
  induction slots with
  | nil => rfl
  | cons slot rest ih => cases slot <;> simp [map, kept, ih]

theorem length_kept_le (slots : List (Slot α)) : (kept slots).length ≤ slots.length := by
  induction slots with
  | nil => simp [kept]
  | cons slot rest ih => cases slot <;> simp [kept] <;> omega

theorem clear_map {f : α → β} {slots : List (Slot α)} :
    Clear (slots.map (map f)) ↔ Clear slots := by
  induction slots with
  | nil => simp [Clear]
  | cons slot rest ih =>
      simp only [Clear, List.map_cons, List.forall_mem_cons] at ih ⊢
      rw [ih]
      cases slot <;> simp [map]

theorem clear_iff_drop {slots : List (Slot α)} {count : Nat}
    (hbefore : Clear (slots.take count)) :
    Clear slots ↔ Clear (slots.drop count) := by
  constructor
  · intro hclear slot hmem
    exact hclear slot (List.mem_of_mem_drop hmem)
  · intro hafter slot hmem
    rw [← List.take_append_drop count slots, List.mem_append] at hmem
    rcases hmem with h | h
    · exact hbefore slot h
    · exact hafter slot h

theorem ahead_some {slots : List (Slot α)} {value : α} {count : Nat}
    (hahead : ahead slots = some (some value, count)) :
    0 < count ∧ count ≤ slots.length ∧ kept slots = value :: kept (slots.drop count) ∧
      slots[count - 1]? = some (.keep value) ∧ Clear (slots.take count) := by
  induction slots generalizing count with
  | nil => simp [ahead] at hahead
  | cons slot rest ih =>
      cases slot with
      | stuck => simp [ahead] at hahead
      | keep other =>
          simp only [ahead, Option.some.injEq, Prod.mk.injEq] at hahead
          obtain ⟨rfl, rfl⟩ := hahead
          simp [kept, Clear]
      | pass =>
          simp only [ahead, Option.map_eq_some_iff, Prod.mk.injEq] at hahead
          obtain ⟨⟨found, steps⟩, hrest, rfl, rfl⟩ := hahead
          obtain ⟨hpositive, hle, hkept, hslot, hclear⟩ := ih hrest
          obtain ⟨steps, rfl⟩ := Nat.exists_eq_add_of_lt hpositive
          simp only [Nat.zero_add] at *
          refine ⟨by omega, by simp; omega, by simpa [kept] using hkept,
            by simpa using hslot, ?_⟩
          rw [List.take_succ_cons]
          exact List.forall_mem_cons.mpr ⟨by simp, hclear⟩

theorem ahead_none {slots : List (Slot α)} {count : Nat}
    (hahead : ahead slots = some (none, count)) :
    count = slots.length ∧ kept slots = [] ∧ Clear slots := by
  induction slots generalizing count with
  | nil =>
      simp only [ahead, Option.some.injEq, Prod.mk.injEq, true_and] at hahead
      exact ⟨hahead.symm, rfl, by simp [Clear]⟩
  | cons slot rest ih =>
      cases slot with
      | stuck => simp [ahead] at hahead
      | keep other => simp [ahead] at hahead
      | pass =>
          simp only [ahead, Option.map_eq_some_iff, Prod.mk.injEq] at hahead
          obtain ⟨⟨found, steps⟩, hrest, rfl, rfl⟩ := hahead
          obtain ⟨rfl, hkept, hclear⟩ := ih hrest
          exact ⟨by simp, by simpa [kept] using hkept,
            List.forall_mem_cons.mpr ⟨by simp, hclear⟩⟩

theorem ahead_le {slots : List (Slot α)} {found : Option α} {count : Nat}
    (hahead : ahead slots = some (found, count)) : count ≤ slots.length := by
  cases found with
  | none => exact Nat.le_of_eq (ahead_none hahead).1
  | some value => exact (ahead_some hahead).2.1

theorem ahead_stuck {slots : List (Slot α)} (hahead : ahead slots = none) :
    kept slots = [] ∧ ¬ Clear slots := by
  induction slots with
  | nil => simp [ahead] at hahead
  | cons slot rest ih =>
      cases slot with
      | stuck => exact ⟨rfl, fun h => h _ List.mem_cons_self rfl⟩
      | keep other => simp [ahead] at hahead
      | pass =>
          simp only [ahead, Option.map_eq_none_iff] at hahead
          obtain ⟨hkept, hstuck⟩ := ih hahead
          exact ⟨by simpa [kept] using hkept,
            fun h => hstuck (List.forall_mem_cons.mp h).2⟩

theorem ahead_map (f : α → β) (slots : List (Slot α)) :
    ahead (slots.map (map f)) =
      (ahead slots).map fun found => (found.1.map f, found.2) := by
  induction slots with
  | nil => rfl
  | cons slot rest ih =>
      cases slot with
      | keep value => rfl
      | stuck => rfl
      | pass =>
          simp only [List.map_cons, map, ahead, ih]
          cases ahead rest <;> rfl

section

variable {ordinal : α → Int}

/-- The value at position `i` is numbered `base + i`. -/
def Numbered (ordinal : α → Int) (base : Nat) (slots : List (Slot α)) : Prop :=
  ∀ (i : Nat) value, slots[i]? = some (.keep value) → ordinal value = (base + i : Nat)

theorem Numbered.drop {base : Nat} {slots : List (Slot α)}
    (hnumbered : Numbered ordinal base slots) (count : Nat) :
    Numbered ordinal (base + count) (slots.drop count) := by
  intro i value hslot
  rw [List.getElem?_drop] at hslot
  rw [hnumbered _ value hslot, Nat.add_assoc]

theorem mem_kept {slots : List (Slot α)} {value : α} (hmem : value ∈ kept slots) :
    ∃ i : Nat, slots[i]? = some (.keep value) := by
  induction slots with
  | nil => cases hmem
  | cons slot rest ih =>
      have hlater : value ∈ kept rest →
          ∃ i : Nat, (slot :: rest)[i]? = some (.keep value) := by
        intro h
        obtain ⟨i, hi⟩ := ih h
        exact ⟨i + 1, by simpa using hi⟩
      cases slot with
      | stuck => cases hmem
      | pass => exact hlater hmem
      | keep other =>
          rcases List.mem_cons.mp hmem with rfl | htail
          · exact ⟨0, rfl⟩
          · exact hlater htail

theorem Numbered.kept_bounds {base : Nat} {slots : List (Slot α)}
    (hnumbered : Numbered ordinal base slots) {value : α} (hmem : value ∈ kept slots) :
    base ≤ ordinal value ∧ ordinal value < (base + slots.length : Nat) := by
  obtain ⟨i, hi⟩ := mem_kept hmem
  have hlt := (List.getElem?_eq_some_iff.mp hi).1
  rw [hnumbered i value hi]
  omega

end

def Passed (slots : List (Slot α)) : Prop :=
  ∀ slot ∈ slots, slot = .pass

theorem Passed.clear {slots : List (Slot α)} (hpassed : Passed slots) : Clear slots := by
  intro slot hmem
  rw [hpassed slot hmem]
  exact fun hsame => by cases hsame

theorem Passed.kept {slots : List (Slot α)} (hpassed : Passed slots) : kept slots = [] := by
  induction slots with
  | nil => rfl
  | cons slot rest ih =>
      obtain ⟨rfl, hrest⟩ := List.forall_mem_cons.mp hpassed
      exact ih hrest

theorem Passed.take {slots : List (Slot α)} (hpassed : Passed slots) (count : Nat) :
    Passed (slots.take count) :=
  fun slot hmem => hpassed slot (List.mem_of_mem_take hmem)

theorem Passed.append {first second : List (Slot α)} (hfirst : Passed first)
    (hsecond : Passed second) : Passed (first ++ second) :=
  List.forall_mem_append.mpr ⟨hfirst, hsecond⟩

theorem Passed.map {slots : List (Slot α)} (hpassed : Passed slots) (f : α → β) :
    Passed (slots.map (map f)) := by
  rintro slot hmem
  obtain ⟨other, hother, rfl⟩ := List.mem_map.mp hmem
  rw [hpassed other hother, Slot.map]

theorem passed_of_ahead {slots : List (Slot α)} {count : Nat}
    (hahead : ahead slots = some (none, count)) : Passed slots := by
  induction slots generalizing count with
  | nil => exact List.forall_mem_nil _
  | cons slot rest ih =>
      cases slot with
      | keep value => cases hahead
      | stuck => cases hahead
      | pass =>
          obtain ⟨⟨found, steps⟩, hrest, hsame⟩ := Option.map_eq_some_iff.mp hahead
          cases hsame
          exact List.forall_mem_cons.mpr ⟨rfl, ih hrest⟩

theorem passed_before {slots : List (Slot α)} {value : α} {count : Nat}
    (hahead : ahead slots = some (some value, count)) : Passed (slots.take (count - 1)) := by
  induction slots generalizing count with
  | nil => cases hahead
  | cons slot rest ih =>
      cases slot with
      | stuck => cases hahead
      | keep other =>
          cases hahead
          exact List.forall_mem_nil _
      | pass =>
          obtain ⟨⟨found, steps⟩, hrest, hsame⟩ := Option.map_eq_some_iff.mp hahead
          cases hsame
          have hpositive : 0 < steps := (ahead_some hrest).1
          obtain ⟨before, rfl⟩ : ∃ before, steps = before + 1 := ⟨steps - 1, by omega⟩
          exact List.forall_mem_cons.mpr ⟨rfl, ih hrest⟩

theorem ahead_append {first : List (Slot α)} (hpassed : Passed first)
    (second : List (Slot α)) :
    ahead (first ++ second) =
      (ahead second).map fun found => (found.1, found.2 + first.length) := by
  induction first with
  | nil => cases hahead : ahead second <;> simp [hahead]
  | cons slot rest ih =>
      obtain ⟨rfl, hrest⟩ := List.forall_mem_cons.mp hpassed
      rw [List.cons_append, ahead, ih hrest, Option.map_map, List.length_cons]
      rfl

theorem ahead_append_some {first : List (Slot α)} {value : α} {count : Nat}
    (hahead : ahead first = some (some value, count)) (second : List (Slot α)) :
    ahead (first ++ second) = some (some value, count) := by
  induction first generalizing count with
  | nil => cases hahead
  | cons slot rest ih =>
      cases slot with
      | stuck => cases hahead
      | keep other => exact hahead
      | pass =>
          obtain ⟨⟨found, steps⟩, hrest, hsame⟩ := Option.map_eq_some_iff.mp hahead
          cases hsame
          rw [List.cons_append, ahead, ih hrest]
          rfl

theorem ahead_take {slots : List (Slot α)} {value : α} {count size : Nat}
    (hahead : ahead slots = some (some value, count)) (hle : count ≤ size) :
    ahead (slots.take size) = some (some value, count) := by
  obtain ⟨hpositive, hlength, -, hat, -⟩ := ahead_some hahead
  have hsplit : slots.take size = slots.take (count - 1) ++
      .keep value :: (slots.drop count).take (size - count) := by
    have hcons : slots.drop (count - 1) = .keep value :: slots.drop count := by
      rw [List.drop_eq_getElem_cons (by omega), (List.getElem?_eq_some_iff.mp hat).2,
        Nat.sub_add_cancel hpositive]
    obtain ⟨more, rfl⟩ := Nat.exists_eq_add_of_le hle
    have hsize : count + more = (count - 1) + (more + 1) := by omega
    rw [hsize, List.take_add, hcons, List.take_succ_cons]
    congr 3
    omega
  rw [hsplit, ahead_append (passed_before hahead), ahead, List.length_take,
    Option.map_some]
  simp only [Option.some.injEq, Prod.mk.injEq, true_and]
  omega

/-- Values that are taken one after another, and the positions that are left. -/
inductive Takes : List (Slot α) → List α → List (Slot α) → Prop
  | nil (slots : List (Slot α)) : Takes slots [] slots
  | cons {slots rest : List (Slot α)} {value : α} {values : List α} {count : Nat}
      (hahead : ahead slots = some (some value, count))
      (hrest : Takes (slots.drop count) values rest) : Takes slots (value :: values) rest

theorem Takes.kept {slots rest : List (Slot α)} {values : List α}
    (htakes : Takes slots values rest) : kept slots = values ++ Slot.kept rest := by
  induction htakes with
  | nil slots => rfl
  | cons hahead _ ih => rw [(ahead_some hahead).2.2.1, ih, List.cons_append]

theorem Takes.clear {slots rest : List (Slot α)} {values : List α}
    (htakes : Takes slots values rest) (hrest : Clear rest) : Clear slots := by
  induction htakes with
  | nil slots => exact hrest
  | cons hahead _ ih => exact (clear_iff_drop (ahead_some hahead).2.2.2.2).mpr (ih hrest)

section

variable {ordinal : α → Int} {base : Nat} {slots : List (Slot α)}

theorem Numbered.tail {slot : Slot α}
    (hnumbered : Numbered ordinal base (slot :: slots)) : Numbered ordinal (base + 1) slots :=
  hnumbered.drop 1

theorem Numbered.kept_increasing (hnumbered : Numbered ordinal base slots) :
    (kept slots).Pairwise fun left right => ordinal left < ordinal right := by
  induction slots generalizing base with
  | nil => exact .nil
  | cons slot rest ih =>
      have htail := hnumbered.tail
      cases slot with
      | stuck => exact .nil
      | pass => exact ih htail
      | keep value =>
          have hfirst : ordinal value = (base + 0 : Nat) := hnumbered 0 value rfl
          refine .cons (fun other hmem => ?_) (ih htail)
          have hlower := (htail.kept_bounds hmem).1
          omega

theorem Numbered.kept_take (hnumbered : Numbered ordinal base slots) (count : Nat) :
    kept (slots.take count) =
      (kept slots).filter fun value => decide (ordinal value < (base + count : Nat)) := by
  induction slots generalizing base count with
  | nil => rw [List.take_nil]; rfl
  | cons slot rest ih =>
      have htail := hnumbered.tail
      cases count with
      | zero =>
          symm
          refine List.filter_eq_nil_iff.mpr fun value hmem => ?_
          have hlower := (hnumbered.kept_bounds hmem).1
          simpa using hlower
      | succ count =>
          have hsum : base + 1 + count = base + (count + 1) := by omega
          have hrest := ih htail count
          rw [hsum] at hrest
          rw [List.take_succ_cons]
          cases slot with
          | stuck => rfl
          | pass => exact hrest
          | keep value =>
              have hfirst : ordinal value = (base + 0 : Nat) := hnumbered 0 value rfl
              rw [Slot.kept, Slot.kept, List.filter_cons_of_pos, hrest]
              rw [decide_eq_true_eq, hfirst]
              omega

end

end Slot

end MoonBoofuzz
