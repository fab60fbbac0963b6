import Mathlib.Data.List.Forall2
import MoonBoofuzz.Data.Eval

namespace MoonBoofuzz

/-! Lists mapped by a function that may fail: the answers stand side by side with what they
answer. -/

section

variable {ε α β : Type}

theorem exceptMapM_eq_ok_iff {step : α → Except ε β} {items : List α} {answers : List β} :
    items.mapM step = .ok answers ↔
      List.Forall₂ (fun item answer => step item = .ok answer) items answers := by
  induction items generalizing answers with
  | nil =>
      rw [List.mapM_nil, List.forall₂_nil_left_iff]
      constructor
      · intro hdone
        cases hdone
        rfl
      · rintro rfl
        rfl
  | cons item rest ih =>
      rw [List.mapM_cons, exceptBind_eq_ok_iff, List.forall₂_cons_left_iff]
      constructor
      · rintro ⟨answer, hanswer, hrest⟩
        obtain ⟨others, hothers, hdone⟩ := exceptBind_eq_ok_iff.mp hrest
        cases hdone
        exact ⟨answer, others, hanswer, ih.mp hothers, rfl⟩
      · rintro ⟨answer, others, hanswer, hothers, rfl⟩
        exact ⟨answer, hanswer, exceptBind_eq_ok_iff.mpr ⟨others, ih.mpr hothers, rfl⟩⟩

theorem Eval.mapM_eq_done_iff {step : α → Eval ε β} {items : List α} {answers : List β} :
    items.mapM step = .done answers ↔
      List.Forall₂ (fun item answer => step item = .done answer) items answers := by
  induction items generalizing answers with
  | nil =>
      rw [List.mapM_nil, List.forall₂_nil_left_iff, pure_eq, Eval.done.injEq]
      exact eq_comm
  | cons item rest ih =>
      rw [List.mapM_cons, bind_eq_done_iff, List.forall₂_cons_left_iff]
      constructor
      · rintro ⟨answer, hanswer, hrest⟩
        obtain ⟨others, hothers, hdone⟩ := bind_eq_done_iff.mp hrest
        cases hdone
        exact ⟨answer, others, hanswer, ih.mp hothers, rfl⟩
      · rintro ⟨answer, others, hanswer, hothers, rfl⟩
        exact ⟨answer, hanswer, bind_eq_done_iff.mpr ⟨others, ih.mpr hothers, rfl⟩⟩

theorem Eval.mapM_eq_raised {step : α → Eval ε β} {items : List α} {error : ε}
    (hraised : items.mapM step = .raised error) : ∃ item ∈ items, step item = .raised error := by
  induction items with
  | nil => cases hraised
  | cons item rest ih =>
      rw [List.mapM_cons, bind_eq_raised_iff] at hraised
      rcases hraised with hhere | ⟨answer, -, hlater⟩
      · exact ⟨item, List.mem_cons_self, hhere⟩
      · rcases bind_eq_raised_iff.mp hlater with hrest | ⟨others, -, hdone⟩
        · obtain ⟨other, hmem, hother⟩ := ih hrest
          exact ⟨other, List.mem_cons_of_mem _ hmem, hother⟩
        · cases hdone

end

theorem forall₂_compose {α β γ : Type} {first : α → β → Prop} {second : β → γ → Prop}
    {left : List α} {middle : List β} {right : List γ}
    (hfirst : List.Forall₂ first left middle) (hsecond : List.Forall₂ second middle right) :
    List.Forall₂ (fun x z => ∃ y, first x y ∧ second y z) left right := by
  induction hfirst generalizing right with
  | nil =>
      cases hsecond
      exact .nil
  | cons hhead _ ih =>
      cases hsecond with
      | cons hnext hrest => exact .cons ⟨_, hhead, hnext⟩ (ih hrest)

section

variable {α β : Type} {relation : α → β → Prop} {left : List α} {right : List β}

theorem forall₂_of_mem_left (hrelated : List.Forall₂ relation left right) {x : α}
    (hmem : x ∈ left) : ∃ y ∈ right, relation x y := by
  induction hrelated with
  | nil => cases hmem
  | cons hhead _ ih =>
      rcases List.mem_cons.mp hmem with rfl | htail
      · exact ⟨_, List.mem_cons_self, hhead⟩
      · obtain ⟨y, hy, hrelation⟩ := ih htail
        exact ⟨y, List.mem_cons_of_mem _ hy, hrelation⟩

theorem forall₂_of_mem_right (hrelated : List.Forall₂ relation left right) {y : β}
    (hmem : y ∈ right) : ∃ x ∈ left, relation x y :=
  forall₂_of_mem_left (List.Forall₂.flip hrelated) hmem

theorem eq_map_of_forall₂ {value : α → β} (hrelated : List.Forall₂ relation left right)
    (hvalue : ∀ x ∈ left, ∀ y, relation x y → y = value x) : right = left.map value := by
  induction hrelated with
  | nil => rfl
  | cons hhead _ ih =>
      obtain ⟨hfirst, hrest⟩ := List.forall_mem_cons.mp hvalue
      rw [hfirst _ hhead, ih hrest, List.map_cons]

theorem nodup_map_of_forall₂ {γ : Type} {name : α → γ}
    (hrelated : List.Forall₂ relation left right)
    (hsame : ∀ {x x' y y'}, relation x y → relation x' y' → name x = name x' → y = y')
    (hnodup : right.Nodup) : (left.map name).Nodup := by
  induction hrelated with
  | nil => exact .nil
  | @cons x y _ _ hhead htail ih =>
      obtain ⟨hfresh, hrest⟩ := List.nodup_cons.mp hnodup
      rw [List.map_cons, List.nodup_cons]
      refine ⟨fun hmem => ?_, ih hrest⟩
      obtain ⟨x', hx', hname⟩ := List.mem_map.mp hmem
      obtain ⟨y', hy', hother⟩ := forall₂_of_mem_left htail hx'
      exact hfresh (hsame hhead hother hname.symm ▸ hy')

end

end MoonBoofuzz
