import MoonBoofuzz.Fields.Binary

namespace MoonBoofuzz

/-! The windows a binary field overwrites, in the order of its indices. -/

def windowsOf (value : Bytes) (widths : List Nat) : List (Nat × Nat × Nat) :=
  widths.flatMap fun width =>
    grid (value.length + 1 - width) (byteReplacements width).length fun position place =>
      (width, position, place)

/-- The order by width, then position, then place in the library. -/
def windowBefore (left right : Nat × Nat × Nat) : Prop :=
  left.1 < right.1 ∨ left.1 = right.1 ∧
    (left.2.1 < right.2.1 ∨ left.2.1 = right.2.1 ∧ left.2.2 < right.2.2)

variable {value : Bytes} {widths : List Nat}

theorem decodeWindow_eq (value : Bytes) : ∀ (widths : List Nat) (offset : Nat),
    CheckedField.decodeWindow value widths offset = (windowsOf value widths)[offset]? := by
  intro widths
  induction widths with
  | nil => exact fun _ => rfl
  | cons width rest ih =>
      intro offset
      rw [CheckedField.decodeWindow, windowsOf, List.flatMap_cons]
      rcases Nat.lt_or_ge offset ((value.length + 1 - width) * (byteReplacements width).length)
        with hinside | hbeyond
      · rw [if_pos hinside, List.getElem?_append_left (by rw [length_grid]; exact hinside),
          getElem?_grid hinside]
      · rw [if_neg (Nat.not_lt.mpr hbeyond),
          List.getElem?_append_right (by rw [length_grid]; exact hbeyond), length_grid, ih]
        rfl

theorem mem_windowsOf {width position place : Nat} :
    (width, position, place) ∈ windowsOf value widths ↔
      width ∈ widths ∧ position < value.length + 1 - width ∧
        place < (byteReplacements width).length := by
  simp only [windowsOf, List.mem_flatMap, mem_grid, Prod.mk.injEq]
  constructor
  · rintro ⟨_, hwidth, _, hposition, _, hplace, rfl, rfl, rfl⟩
    exact ⟨hwidth, hposition, hplace⟩
  · rintro ⟨hwidth, hposition, hplace⟩
    exact ⟨width, hwidth, position, hposition, place, hplace, rfl, rfl, rfl⟩

theorem windowsOf_pairwise (hwidths : widths.Pairwise (· < ·)) :
    (windowsOf value widths).Pairwise windowBefore := by
  rw [windowsOf, List.pairwise_flatMap]
  constructor
  · intro width _
    apply pairwise_grid
    · exact fun row left right hlt => .inr ⟨rfl, .inr ⟨rfl, hlt⟩⟩
    · exact fun above below left right hlt => .inr ⟨rfl, .inl hlt⟩
  · refine hwidths.imp fun hlt left hleft right hright => ?_
    obtain ⟨_, -, _, -, rfl⟩ := mem_grid.mp hleft
    obtain ⟨_, -, _, -, rfl⟩ := mem_grid.mp hright
    exact .inl hlt

theorem length_byteReplacements : ∀ width ∈ windowWidths,
    ∀ item ∈ byteReplacements width, item.length = width := by
  decide

/-- The flagged sum is exact as long as the windows of the whole value fit. -/
theorem foldlM_addWindows (hvalue : value.length ≤ 20000000) : ∀ (widths : List Nat)
    (count : Nat), (∀ width ∈ widths, width ≤ 4) →
      count + (windowsOf value widths).length < 2147483648 →
      widths.foldlM (CheckedField.addWindows value) (count : Int) =
        pure ((count + (windowsOf value widths).length : Nat) : Int) := by
  intro widths
  induction widths with
  | nil => exact fun _ _ _ => rfl
  | cons width rest ih =>
      intro count hwidths hbound
      have hwidth : width ≤ 4 := hwidths width List.mem_cons_self
      have hsplit : (windowsOf value (width :: rest)).length =
          (value.length + 1 - width) * (byteReplacements width).length +
            (windowsOf value rest).length := by
        rw [windowsOf, List.flatMap_cons, List.length_append, length_grid]
        rfl
      rw [hsplit] at hbound
      have hpositions : max ((value.length : Int) - width + 1) 0 =
          ((value.length + 1 - width : Nat) : Int) := by omega
      have hstep : CheckedField.addWindows value count width =
          pure ((count + (value.length + 1 - width) * (byteReplacements width).length : Nat) :
            Int) := by
        rw [CheckedField.addWindows, Flagged.sub32_eq_pure (by omega) (by omega),
          Flagged.pure_bind', Flagged.add32_eq_pure (by omega) (by omega),
          Flagged.pure_bind', hpositions]
        rw [Flagged.mul32_eq_pure (by rw [← Int.natCast_mul]; omega)
          (by rw [← Int.natCast_mul]; omega), Flagged.pure_bind', ← Int.natCast_mul]
        exact Flagged.add32_eq_pure (by omega) (by omega)
      rw [List.foldlM_cons, hstep, Flagged.pure_bind',
        ih _ (fun other hmem => hwidths other (List.mem_cons_of_mem _ hmem)) (by omega),
        hsplit, Nat.add_assoc]

theorem length_windowsOf_le (hvalue : value.length ≤ 20000000) :
    fixedCount + (windowsOf value windowWidths).length ≤ 1220000054 := by
  have hone : (byteReplacements 1).length = 6 := by decide
  have htwo : (byteReplacements 2).length = 8 := by decide
  have hfour : (byteReplacements 4).length = 47 := by decide
  have hfixed : fixedCount = 54 := by decide
  simp only [windowsOf, windowWidths, List.flatMap_cons, List.flatMap_nil, List.length_append,
    length_grid, List.length_nil, hone, htwo, hfour, hfixed]
  omega

theorem binaryCount_eq (hvalue : value.length ≤ 20000000) :
    CheckedField.binaryCount value =
      pure ((fixedCount + (windowsOf value windowWidths).length : Nat) : Int) := by
  have hbound := length_windowsOf_le hvalue
  rw [CheckedField.binaryCount, Flagged.add32_eq_pure (by decide) (by decide),
    Flagged.pure_bind']
  exact foldlM_addWindows hvalue windowWidths fixedCount (by decide) (by omega)

theorem windowWidths_pos : ∀ width ∈ windowWidths, 0 < width := by
  decide

theorem mem_windowsOf_widths {width position place : Nat} :
    (width, position, place) ∈ windowsOf value windowWidths ↔
      width ∈ windowWidths ∧ position + width ≤ value.length ∧
        place < (byteReplacements width).length := by
  rw [mem_windowsOf]
  constructor
  · rintro ⟨hwidth, hposition, hplace⟩
    exact ⟨hwidth, by omega, hplace⟩
  · rintro ⟨hwidth, hposition, hplace⟩
    have hpositive : 0 < width := windowWidths_pos width hwidth
    exact ⟨hwidth, by omega, hplace⟩

theorem overwrite?_of_mem {width position place : Nat}
    (hwindow : (width, position, place) ∈ windowsOf value windowWidths) :
    ∃ item, (byteReplacements width)[place]? = some item ∧ item.length = width ∧
      CheckedField.overwrite? value (width, position, place) =
        some (value.take position ++ item ++ value.drop (position + width)) := by
  obtain ⟨hwidth, hposition, hplace⟩ := mem_windowsOf_widths.mp hwindow
  have hitem := List.getElem?_eq_getElem hplace
  refine ⟨_, hitem, length_byteReplacements width hwidth _ (List.getElem_mem hplace), ?_⟩
  simp only [CheckedField.overwrite?, hitem, hposition, if_true, Option.map_some]

theorem binaryRaw?_window {options : BinaryOptions} {i : Nat} {window : Nat × Nat × Nat}
    (hwindow : (windowsOf value windowWidths)[i]? = some window) :
    CheckedField.binaryRaw? value options (fixedCount + i) =
      CheckedField.overwrite? value window := by
  have hfixed : 12 ≤ fixedCount := by decide
  have hdecode : CheckedField.decodeWindow value windowWidths (fixedCount + i - fixedCount) =
      some window := by
    rw [Nat.add_sub_cancel_left, decodeWindow_eq]
    exact hwindow
  rw [CheckedField.binaryRaw?, if_neg (by omega), if_neg (by omega), if_neg (by omega),
    hdecode]

theorem binary_eq {options : BinaryOptions} (hvalue : value.length ≤ 20000000)
    (hpadding : options.padding.length = 1) (hsize : ∀ n ∈ options.size, 0 ≤ n)
    (hmaxLen : ∀ n ∈ options.maxLen, 0 ≤ n) :
    CheckedField.binary value options =
      .ok ((CheckedField.binaryBase value options
        ((fixedCount + (windowsOf value windowWidths).length : Nat) : Int)).withFuzzValues
          options.fuzzValues options.fuzzable) := by
  have hlimits : ¬ ([options.size, options.maxLen].any fun limit =>
      limit.any fun n => n < 0) = true := by
    intro hnegative
    obtain ⟨limit, hlimit, hany⟩ := List.any_eq_true.mp hnegative
    obtain ⟨n, hn, hlt⟩ := (Option.any_eq_true _ _).mp hany
    have hlt : n < 0 := of_decide_eq_true hlt
    have hle : 0 ≤ n := by
      rcases List.mem_pair.mp hlimit with rfl | rfl
      · exact hsize n hn
      · exact hmaxLen n hn
    omega
  rw [CheckedField.binary, if_neg (by rw [hpadding]; decide), if_neg hlimits,
    if_neg (by omega), binaryCount_eq hvalue, Flagged.pure_bind']

theorem binary_windows_bijective (value padding : Bytes) (fuzzable : Bool)
    (hvalue : value.length ≤ 20000000) (hpadding : padding.length = 1) :
    ∃ (field : CheckedField) (windows : List (Nat × Nat × Nat)),
      CheckedField.binary value { padding := padding, fuzzable := fuzzable } =
        .ok (pure field) ∧
      field.count = (if fuzzable then ((12 + magicBytes.length + windows.length : Nat) : Int)
        else 0) ∧
      windows.Pairwise windowBefore ∧
      (∀ width position place, (width, position, place) ∈ windows ↔
        width ∈ [1, 2, 4] ∧ position + width ≤ value.length ∧
          place < (byteReplacements width).length) ∧
      ∀ (i width position place : Nat), windows[i]? = some (width, position, place) →
        CheckedField.decodeWindow value [1, 2, 4] i = some (width, position, place) ∧
        ∃ item, (byteReplacements width)[place]? = some item ∧ item.length = width ∧
          field.candidate (12 + magicBytes.length + i) =
            some (value.take position ++ item ++ value.drop (position + width)) := by
  let options : BinaryOptions := { padding := padding, fuzzable := fuzzable }
  have hbuild : CheckedField.binary value options = .ok (pure
      (CheckedField.binaryBase value options
        ((fixedCount + (windowsOf value windowWidths).length : Nat) : Int))) := by
    rw [binary_eq hvalue hpadding (fun _ h => absurd h (by simp)) (fun _ h => absurd h (by simp)),
      CheckedField.withFuzzValues_nil]
  refine ⟨_, windowsOf value windowWidths, hbuild, rfl, windowsOf_pairwise (by decide),
    fun _ _ _ => mem_windowsOf_widths, ?_⟩
  intro i width position place hwindow
  have hmem : (width, position, place) ∈ windowsOf value windowWidths :=
    List.mem_of_getElem? hwindow
  obtain ⟨item, hitem, hlength, hoverwrite⟩ := overwrite?_of_mem hmem
  refine ⟨(decodeWindow_eq value _ i).trans hwindow, item, hitem, hlength, ?_⟩
  change (CheckedField.binaryRaw? value options (fixedCount + i)).map options.adjust = _
  rw [binaryRaw?_window hwindow, hoverwrite]
  rfl

theorem binary_windows_bijective_sample :
    ∃ (field : CheckedField) (windows : List (Nat × Nat × Nat)),
      CheckedField.binary [0x41, 0x42, 0x43] { padding := [0x00], fuzzable := true } =
        .ok (pure field) ∧
      field.count = ((12 + magicBytes.length + windows.length : Nat) : Int) ∧
      windows.Pairwise windowBefore ∧ (2, 1, 0) ∈ windows := by
  obtain ⟨field, windows, hbuild, hcount, hordered, hmem, -⟩ :=
    binary_windows_bijective [0x41, 0x42, 0x43] [0x00] true (by decide) rfl
  exact ⟨field, windows, hbuild, hcount, hordered, (hmem 2 1 0).mpr (by decide)⟩

end MoonBoofuzz
