import MoonBoofuzz.Data.InPlace

namespace MoonBoofuzz

/-! A stream in which an item depends on the item one window back, on the one after that
and on one more inside the window.  A block of one window, overwritten in place with
indices that wrap around, runs the stream on by one window. -/

structure Window where
  size : ℕ
  lag : ℕ
  one_lt_size : 1 < size
  lag_lt_size : lag < size

namespace Window

variable {α : Type*} (window : Window) (rule : α → α → α → α)

def Follows (stream : ℕ → α) : Prop :=
  ∀ k, stream (k + window.size) =
    rule (stream k) (stream (k + 1)) (stream (k + window.lag))

def stream (first : ℕ → α) : ℕ → α
  | n =>
      if _h : n < window.size then first n
      else rule (stream first (n - window.size)) (stream first (n - window.size + 1))
        (stream first (n - window.size + window.lag))
termination_by n => n
decreasing_by
  · have := window.one_lt_size
    omega
  · have := window.one_lt_size
    omega
  · have := window.lag_lt_size
    omega

variable {window rule}

theorem stream_of_lt (first : ℕ → α) {n : ℕ} (hn : n < window.size) :
    window.stream rule first n = first n := by
  rw [stream, dif_pos hn]

theorem stream_follows (first : ℕ → α) :
    window.Follows rule (window.stream rule first) := by
  intro k
  rw [stream, dif_neg (by omega), Nat.add_sub_cancel]

theorem Follows.ext {left right : ℕ → α} (hleft : window.Follows rule left)
    (hright : window.Follows rule right) (hfirst : ∀ k < window.size, left k = right k) :
    ∀ n, left n = right n := by
  intro n
  induction n using Nat.strongRecOn with
  | ind n ih =>
      have hsize := window.one_lt_size
      have hlag := window.lag_lt_size
      rcases Nat.lt_or_ge n window.size with hlow | hhigh
      · exact hfirst n hlow
      · obtain ⟨k, rfl⟩ := Nat.exists_eq_add_of_le' hhigh
        rw [hleft k, hright k, ih k (by omega), ih (k + 1) (by omega),
          ih (k + window.lag) (by omega)]

variable [Inhabited α]

def blockItem (window : Window) (rule : α → α → α → α) (items : List α) (i : ℕ) : α :=
  rule (items.getD i default) (items.getD ((i + 1) % window.size) default)
    (items.getD ((i + window.lag) % window.size) default)

def nextBlock (window : Window) (rule : α → α → α → α) (items : List α) : List α :=
  fillUp (window.blockItem rule) window.size 0 items

/-- The block holds one window of the stream, from a base on. -/
def Holds (window : Window) (stream : ℕ → α) (base : ℕ) (items : List α) : Prop :=
  ∀ j < window.size, items[j]? = some (stream (base + j))

def HoldsUpTo (window : Window) (stream : ℕ → α) (base filled : ℕ) (items : List α) :
    Prop :=
  (∀ j < filled, items[j]? = some (stream (base + window.size + j))) ∧
    ∀ j, filled ≤ j → j < window.size → items[j]? = some (stream (base + j))

variable {stream : ℕ → α} {base filled : ℕ} {items : List α}

/-- A wrapped index finds the item that far ahead, whether it is old or already new. -/
theorem HoldsUpTo.getD_wrap (hholds : HoldsUpTo window stream base filled items)
    (hfilled : filled < window.size) (ahead : ℕ) (hahead : ahead < window.size) :
    items.getD ((filled + ahead) % window.size) default =
      stream (base + filled + ahead) := by
  rw [List.getD_eq_getElem?_getD]
  rcases Nat.lt_or_ge (filled + ahead) window.size with hold | hnew
  · rw [Nat.mod_eq_of_lt hold, hholds.2 _ (Nat.le_add_right _ _) hold, Option.getD_some,
      Nat.add_assoc]
  · have hwrap : (filled + ahead) % window.size = filled + ahead - window.size := by
      rw [Nat.mod_eq_sub_mod hnew, Nat.mod_eq_of_lt (by omega)]
    rw [hwrap, hholds.1 _ (by omega), Option.getD_some]
    congr 1
    omega

theorem HoldsUpTo.blockItem_eq (hfollows : window.Follows rule stream)
    (hholds : HoldsUpTo window stream base filled items) (hfilled : filled < window.size) :
    window.blockItem rule items filled = stream (base + window.size + filled) := by
  have hsize := window.one_lt_size
  have hhere := hholds.getD_wrap hfilled 0 (by omega)
  rw [Nat.add_zero, Nat.mod_eq_of_lt hfilled] at hhere
  rw [blockItem, hhere, hholds.getD_wrap hfilled 1 hsize,
    hholds.getD_wrap hfilled window.lag window.lag_lt_size, Nat.add_zero,
    ← hfollows (base + filled), Nat.add_right_comm]

theorem HoldsUpTo.set (hfollows : window.Follows rule stream)
    (hholds : HoldsUpTo window stream base filled items) (hfilled : filled < window.size) :
    HoldsUpTo window stream base (filled + 1)
      (items.set filled (window.blockItem rule items filled)) := by
  have hinside : filled < items.length :=
    (List.getElem?_eq_some_iff.mp (hholds.2 filled (Nat.le_refl _) hfilled)).1
  constructor
  · intro j hj
    rcases Nat.lt_succ_iff_lt_or_eq.mp hj with hlt | rfl
    · rw [List.getElem?_set_ne (by omega)]
      exact hholds.1 j hlt
    · rw [List.getElem?_set_self hinside, hholds.blockItem_eq hfollows hfilled]
  · intro j hle hlt
    rw [List.getElem?_set_ne (by omega)]
    exact hholds.2 j (by omega) hlt

theorem HoldsUpTo.fillUp (hfollows : window.Follows rule stream) : ∀ {count filled : ℕ}
    {items : List α}, HoldsUpTo window stream base filled items →
      filled + count = window.size →
      HoldsUpTo window stream base window.size
        (MoonBoofuzz.fillUp (window.blockItem rule) count filled items) := by
  intro count
  induction count with
  | zero =>
      intro filled items hholds hcount
      rw [Nat.add_zero] at hcount
      rw [← hcount]
      exact hholds
  | succ count ih =>
      intro filled items hholds hcount
      exact ih (hholds.set hfollows (by omega)) (by omega)

/-- Overwriting the block runs it on by one window. -/
theorem Holds.nextBlock (hfollows : window.Follows rule stream)
    (hholds : Holds window stream base items) :
    Holds window stream (base + window.size) (window.nextBlock rule items) := by
  have hstart : HoldsUpTo window stream base 0 items :=
    ⟨fun j hj => absurd hj (Nat.not_lt_zero j), fun j _ hj => hholds j hj⟩
  exact (hstart.fillUp hfollows (Nat.zero_add _)).1

end Window

end MoonBoofuzz
