import MoonBoofuzz.Fields.Build
import MoonBoofuzz.Fields.Limits

namespace MoonBoofuzz

namespace CheckedField

variable {extra : List Bytes} {fuzzable : Bool} {field : Flagged CheckedField}

theorem honest_text_candidates {value : Bytes} {candidates : List TextCandidate}
    (hsound : ∀ candidate ∈ candidates, candidate.Sound)
    (hcount : candidates.length < 1610612736) (hextra : extra.length ≤ 2 ^ 29) :
    Honest (textBase value candidates fuzzable >>= fun base =>
      base.withFuzzValues extra fuzzable) := by
  refine honest_counted ?_ hcount hextra
  intro i hi count
  have hat : at? candidates (i : Int) = some candidates[i] := by
    rw [at?_natCast, List.getElem?_eq_getElem hi]
  refine honestAt_of_eq (n := candidates[i].length) ?_ fun hlength => ?_
  · dsimp only
    rw [hat, Option.map_some]
  · dsimp only
    rw [hat, Option.bind_some]
    exact (hsound _ (List.getElem_mem hi)).render hlength

end CheckedField

theorem length_longCandidates (seed : Text) : (longCandidates seed).length = 64 := rfl

theorem length_valueRepeats_le (library : List Text) (value : Text) :
    (valueRepeats library value).length ≤ 3 := List.length_filterMap_le _ _

theorem length_textCandidates_le (library : StringLibrary) (value : Text) :
    (textCandidates library.texts value).length ≤ 2000 := by
  have hrepeats := length_valueRepeats_le library.texts value
  have hlong : (stringSeeds.flatMap longCandidates).length = 28 * 64 := by
    simp only [List.length_flatMap, length_longCandidates]
    rfl
  have hterminators : terminators.length = 52 := rfl
  rw [textCandidates, List.length_append, List.length_append, List.length_append,
    List.length_map, library.length_texts, hlong, hterminators]
  omega

theorem length_delimiterCandidates_le (value : Text) :
    (delimiterCandidates value).length ≤ 100 := by
  have htexts : delimiterTexts.length = 40 := rfl
  rw [delimiterCandidates]
  split
  · simp only [List.length_append, List.length_map, htexts, List.length_cons, List.length_nil]
    omega
  · simp only [List.length_append, List.length_map, htexts, List.length_cons, List.length_nil]
    omega

theorem length_pushAbove_le (kept : List Nat) (next : Nat) :
    (pushAbove kept next).length ≤ kept.length + 1 := by
  rw [pushAbove]
  split
  · split
    · rw [List.length_append, List.length_singleton]
    · exact Nat.le_succ _
  · rw [List.length_append, List.length_singleton]

theorem length_integerBoundaries_le (maximum : Nat) :
    (integerBoundaries maximum).length ≤ 150 := by
  have hneighbours : ∀ boundary, (boundaryNeighbours maximum boundary).length ≤ 20 :=
    fun boundary => List.length_filterMap_le _ _
  refine Nat.le_trans (length_foldl_push_le length_pushAbove_le) ?_
  simp only [List.length_nil, List.length_append, List.length_map, List.length_range,
    List.flatMap_cons, List.flatMap_nil, List.map_cons, List.map_nil]
  have hzero := hneighbours 0
  have hbound := fun divisor => hneighbours
    (maximum / divisor + if maximum % divisor = divisor - 1 then 1 else 0)
  have h32 := hbound 32
  have h16 := hbound 16
  have h8 := hbound 8
  have h4 := hbound 4
  have h3 := hbound 3
  have h2 := hbound 2
  omega

namespace CheckedField

variable {extra : List Bytes} {fuzzable : Bool} {field : Flagged CheckedField}

theorem honest_text (library : StringLibrary) (value : Text) (hextra : extra.length ≤ 2 ^ 29) :
    Honest (text library value fuzzable extra) := by
  have hlength := length_textCandidates_le library value
  have hkept := @length_foldl_push_le _ _ length_pushUnlike_le
    (textCandidates library.texts value) []
  refine honest_text_candidates ?_ ?_ hextra
  · intro candidate hmem
    rcases mem_foldl_pushUnlike hmem with hnone | hgiven
    · exact absurd hnone List.not_mem_nil
    · exact textCandidates_sound candidate hgiven
  · rw [List.length_nil] at hkept
    omega

theorem honest_delimiter (value : Text) (hextra : extra.length ≤ 2 ^ 29) :
    Honest (delimiter value fuzzable extra) := by
  have hlength := length_delimiterCandidates_le value
  exact honest_text_candidates delimiterCandidates_sound (by omega) hextra

theorem integerMax_width {width maximum : Nat} (hmax : integerMax width = .ok maximum) :
    0 < width := by
  rw [integerMax] at hmax
  split at hmax
  · omega
  · exact absurd hmax (by simp)

theorem honest_integer {value : UInt64} {width : Int} {endian : Endian}
    (hbuilt : integer value width endian fuzzable extra = .ok field)
    (hextra : extra.length ≤ 2 ^ 29) : Honest field := by
  obtain ⟨maximum, hmax, hrest⟩ := exceptBind_eq_ok_iff.mp hbuilt
  have hwidth := integerMax_width hmax
  have hlength := length_integerBoundaries_le maximum
  split at hrest
  · rw [Except.ok.injEq] at hrest
    rw [← hrest]
    refine honest_counted ?_ (by omega) hextra
    intro i hi count
    have hat : at? (integerBoundaries maximum) (i : Int) =
        some (integerBoundaries maximum)[i] := by
      rw [at?_natCast, List.getElem?_eq_getElem hi]
    refine honestAt_of_eq rfl fun _ =>
      ⟨encodeInteger (integerBoundaries maximum)[i] width.toNat endian, ?_, ?_⟩
    · dsimp only
      rw [hat, Option.map_some]
    · rw [encodeInteger, List.length_map, List.length_range]
      omega
  · exact absurd hrest (by simp)

theorem binary_guards {value : Bytes} {options : BinaryOptions}
    (hbuilt : binary value options = .ok field) :
    value.length ≤ 20000000 ∧ options.Accepted := by
  rw [binary] at hbuilt
  split at hbuilt
  · exact absurd hbuilt (by simp)
  · rename_i hpadding
    split at hbuilt
    · exact absurd hbuilt (by simp)
    · rename_i hlimits
      split at hbuilt
      · exact absurd hbuilt (by simp)
      · rename_i hlong
        have hnonneg : ∀ limit ∈ [options.size, options.maxLen], ∀ n ∈ limit, 0 ≤ n := by
          intro limit hlimit n hn
          by_contra hnegative
          exact hlimits (List.any_eq_true.mpr ⟨limit, hlimit,
            (Option.any_eq_true _ _).mpr ⟨n, hn, decide_eq_true (not_le.mp hnegative)⟩⟩)
        exact ⟨Nat.le_of_not_lt hlong,
          { length_padding := not_not.mp hpadding
            size_nonneg := hnonneg options.size List.mem_cons_self
            maxLen_nonneg := hnonneg options.maxLen
              (List.mem_cons_of_mem _ List.mem_cons_self) }⟩

theorem binaryBase_count (value : Bytes) (options : BinaryOptions) (count : Int) :
    (binaryBase value options count).count = if options.fuzzable then count else 0 := rfl

theorem honest_binary {value : Bytes} {options : BinaryOptions}
    (hbuilt : binary value options = .ok field) (hextra : options.fuzzValues.length ≤ 2 ^ 29) :
    Honest field := by
  obtain ⟨hvalue, haccepted⟩ := binary_guards hbuilt
  have hwindows := length_windowsOf_le hvalue
  rw [binary_eq hvalue haccepted.length_padding haccepted.size_nonneg haccepted.maxLen_nonneg,
    Except.ok.injEq] at hbuilt
  rw [← hbuilt, honest_withFuzzValues_iff]
  · intro hfuzzable
    rw [binaryBase_count, hfuzzable, if_pos rfl]
    omega
  · intro i hi
    rw [binaryBase_count] at hi
    split at hi
    · exact (rawAt_of_lt haccepted hvalue (Int.ofNat_lt.mp hi)).honestAt haccepted
    · exact absurd hi (not_lt.mpr (Int.natCast_nonneg i))
  · rw [binaryBase_count]
    split
    · exact Int.natCast_nonneg _
    · exact le_refl _
  · rw [binaryBase_count]
    split
    · omega
    · decide

theorem askedCount_eq {options : RandomDataOptions} (hmin : 0 ≤ options.minLength.toInt)
    (hmax : options.minLength.toInt ≤ options.maxLength.toInt) (hstep : 0 < options.stepValue) :
    options.askedCount = Flagged.add32
      ((options.maxLength.toInt - options.minLength.toInt) / options.stepValue) 1 := by
  have hupper := options.maxLength.toInt_lt
  rw [RandomDataOptions.askedCount, if_pos hstep, Flagged.sub32_eq_pure (by omega) (by omega),
    Flagged.pure_bind', Int.tdiv_eq_ediv_of_nonneg (by omega)]

theorem quotient_lt_iff {range step : Int} (hnonneg : 0 ≤ range) (hupper : range < 2147483648)
    (hstep : 0 < step) :
    range / step + 1 < 2147483648 ↔ ¬ (step = 1 ∧ range = 2147483647) := by
  constructor
  · rintro hfits ⟨rfl, rfl⟩
    exact absurd hfits (by decide)
  · intro hother
    have hquotient : range / step ≤ range := Int.ediv_le_self step hnonneg
    rcases eq_or_ne step 1 with rfl | hlarger
    · omega
    · have hhalf : range / step ≤ range / 2 := by
        rw [Int.le_ediv_iff_mul_le (by decide)]
        calc range / step * 2 ≤ range / step * step :=
              Int.mul_le_mul_of_nonneg_left (by omega) (Int.ediv_nonneg hnonneg (by omega))
          _ ≤ range := Int.ediv_mul_le range (by omega)
      omega

theorem randomData_done {options : RandomDataOptions} {fuel : Nat}
    (hbuilt : randomData options fuzzable extra fuel = .done field) :
    0 ≤ options.minLength.toInt ∧ options.minLength.toInt ≤ options.maxLength.toInt ∧
      0 ≤ options.maxMutations.toInt ∧ 0 ≤ options.stepValue ∧
      ∃ generator final, (List.range options.askedCount.value.toNat).foldlM
          (randomCandidate options fuel) { generator := generator } = .done final ∧
        field = (options.askedCount >>= fun _ =>
          ofSaved options.defaultValue final.saved fuzzable >>= fun base =>
            base.withFuzzValues extra fuzzable) := by
  rw [randomData] at hbuilt
  obtain ⟨_, hrange, hbuilt⟩ := Eval.bind_eq_done_iff.mp hbuilt
  obtain ⟨_, hmutations, hbuilt⟩ := Eval.bind_eq_done_iff.mp hbuilt
  obtain ⟨_, hstep, hbuilt⟩ := Eval.bind_eq_done_iff.mp hbuilt
  obtain ⟨generator, -, hbuilt⟩ := Eval.bind_eq_done_iff.mp hbuilt
  obtain ⟨final, hfinal, hfield⟩ := Eval.bind_eq_done_iff.mp hbuilt
  rw [Eval.check_eq_done_iff] at hrange hmutations hstep
  rw [Eval.pure_eq, Eval.done.injEq] at hfield
  exact ⟨hrange.1, hrange.2, hmutations, hstep, generator, final, hfinal, hfield.symm⟩

theorem honest_randomData_iff {options : RandomDataOptions} {fuel : Nat}
    (hbuilt : randomData options fuzzable extra fuel = .done field)
    (hextra : extra.length ≤ 2 ^ 29) :
    Honest field ↔
      ¬ (options.stepValue = 1 ∧ options.minLength.toInt = 0 ∧
        options.maxLength.toInt = 2147483647) ∧
      (fuzzable = true → options.stepValue = 0 →
        options.maxMutations.toInt + extra.length < 2147483648) := by
  obtain ⟨hmin, hmax, hmutations, hstep, generator, final, hfinal, rfl⟩ :=
    randomData_done hbuilt
  have hlength := foldlM_randomCandidate_length hfinal
  rw [List.length_range] at hlength
  simp only [List.length_nil, Nat.zero_add] at hlength
  rw [honest_after_iff, honest_saved_iff, hlength]
  rcases Int.lt_or_eq_of_le hstep with hpositive | hzero
  · -- The lengths are steps apart.
    have hupper := options.maxLength.toInt_lt
    have hlower := Int.ediv_nonneg
      (show 0 ≤ options.maxLength.toInt - options.minLength.toInt by omega) hstep
    have hquotient := quotient_lt_iff
      (show 0 ≤ options.maxLength.toInt - options.minLength.toInt by omega) (by omega) hpositive
    have hcount := askedCount_eq hmin hmax hpositive
    rw [hcount] at hfinal ⊢
    constructor
    · rintro ⟨hflag, -⟩
      rw [Flagged.add32, Flagged.ofExact_overflowed, Bool.not_eq_false', Flagged.fits_iff,
        hquotient] at hflag
      exact ⟨fun hfull => hflag.2 ⟨hfull.1, by omega⟩, fun _ hnone => by omega⟩
    · rintro ⟨hother, -⟩
      have hfits := hquotient.mpr fun hfull => hother ⟨hfull.1, by omega, by omega⟩
      rw [Flagged.add32_eq_pure (by omega) hfits, Flagged.pure_value] at hfinal ⊢
      refine ⟨rfl, fun _ => ?_⟩
      have hrange : ∀ i < ((options.maxLength.toInt - options.minLength.toInt) /
            options.stepValue + 1).toNat,
          options.minLength.toInt + i * options.stepValue < 2147483648 := by
        intro i hi
        have hindex : (i : Int) ≤
            (options.maxLength.toInt - options.minLength.toInt) / options.stepValue := by omega
        have hproduct := (Int.le_ediv_iff_mul_le hpositive).mp hindex
        omega
      obtain ⟨-, hbudget⟩ :=
        foldlM_randomCandidate_budget hmin hpositive (le_refl 0) hrange hfinal
      omega
  · have hcount : options.askedCount = pure options.maxMutations.toInt := by
      rw [RandomDataOptions.askedCount, if_neg (by omega)]
    rw [hcount, Flagged.pure_value, Flagged.pure_overflowed]
    constructor
    · rintro ⟨-, hsum⟩
      refine ⟨fun hfull => by omega, fun hfuzzable _ => ?_⟩
      have hupper := hsum hfuzzable
      omega
    · rintro ⟨-, hsum⟩
      refine ⟨rfl, fun hfuzzable => ?_⟩
      have hupper := hsum hfuzzable hzero.symm
      omega

theorem honest_group_iff {values : List Bytes} {default : Option Bytes}
    (hbuilt : group values default fuzzable extra = .ok field) :
    Honest field ↔ (fuzzable = true →
      (values.erase (default.getD (values.headD []))).length + extra.length < 2147483648) := by
  cases values with
  | nil => exact absurd hbuilt (by simp [group])
  | cons first rest =>
      rw [group, Except.ok.injEq] at hbuilt
      rw [← hbuilt]
      rw [simple, List.append_nil, honest_saved_iff, List.headD_cons]
      norm_cast

theorem honest_fromLines_iff {defaultValue : Bytes} {lines : List Bytes} {maxLen : Int}
    (hbuilt : fromLines defaultValue lines maxLen fuzzable extra = .ok field) :
    Honest field ↔ (fuzzable = true →
      (keptLines lines maxLen).length + extra.length < 2147483648) := by
  rw [fromLines] at hbuilt
  split at hbuilt
  · rw [Except.ok.injEq] at hbuilt
    rw [← hbuilt, honest_simple_iff]
    norm_cast
  · exact absurd hbuilt (by simp)

theorem honest_float_iff {options : FloatOptions} {arithmetic : DoubleArithmetic} {fuel : Nat}
    (hbuilt : float options arithmetic fuzzable extra fuel = .done field) :
    Honest field ↔ (fuzzable = true → ∀ precision generator texts,
      parseFloatPrecision options.sFormat = .ok precision →
      Mt19937.fromSeed (options.seed.getD 0) = .ok generator →
      floatTexts options arithmetic precision fuel
        (List.range options.maxMutations.toInt.toNat) generator = .done texts →
      (texts.destutter (· ≠ ·)).length + extra.length < 2147483648) := by
  rw [float] at hbuilt
  obtain ⟨_, -, hbuilt⟩ := Eval.bind_eq_done_iff.mp hbuilt
  obtain ⟨_, -, hbuilt⟩ := Eval.bind_eq_done_iff.mp hbuilt
  obtain ⟨precision, hprecision, hbuilt⟩ := Eval.bind_eq_done_iff.mp hbuilt
  obtain ⟨value, -, hbuilt⟩ := Eval.bind_eq_done_iff.mp hbuilt
  obtain ⟨generator, hgenerator, hbuilt⟩ := Eval.bind_eq_done_iff.mp hbuilt
  obtain ⟨final, hfinal, hfield⟩ := Eval.bind_eq_done_iff.mp hbuilt
  rw [Eval.liftM_eq, Eval.ofExcept_eq_done_iff] at hprecision hgenerator
  rw [Eval.pure_eq, Eval.done.injEq] at hfield
  obtain ⟨texts, htexts, hlength⟩ := length_floatCandidates rfl rfl hfinal
  rw [← hfield, honest_saved_iff, hlength]
  constructor
  · intro hsum hfuzzable precision' generator' texts' hprecision' hgenerator' htexts'
    rw [hprecision, Except.ok.injEq] at hprecision'
    rw [hgenerator, Except.ok.injEq] at hgenerator'
    subst hprecision' hgenerator'
    rw [htexts, Eval.done.injEq] at htexts'
    rw [← htexts']
    exact_mod_cast hsum hfuzzable
  · intro hsum hfuzzable
    exact_mod_cast hsum hfuzzable precision generator texts hprecision hgenerator htexts

end CheckedField

/-- Lengths are honest at every index of a built field, and its counts exact, exactly when the
arguments keep the counts in range. -/
theorem candidate_lengths_honest_iff (call : FieldCall) (context : FieldContext)
    (fuzzable : Bool) (fuzzValues : List Bytes) (hextra : fuzzValues.length ≤ 2 ^ 29)
    (field : Flagged CheckedField)
    (hbuilt : call.build context fuzzable fuzzValues = .done field) :
    CheckedField.Honest field ↔ call.CountsFit context fuzzable fuzzValues := by
  cases call with
  | simple value values =>
      rw [FieldCall.build, Eval.done.injEq] at hbuilt
      rw [← hbuilt, CheckedField.honest_simple_iff, FieldCall.CountsFit]
      norm_cast
  | group values default =>
      rw [FieldCall.build, Eval.liftM_eq, Eval.ofExcept_eq_done_iff] at hbuilt
      exact CheckedField.honest_group_iff hbuilt
  | integer value width endian =>
      rw [FieldCall.build, Eval.liftM_eq, Eval.ofExcept_eq_done_iff] at hbuilt
      exact iff_of_true (CheckedField.honest_integer hbuilt hextra) trivial
  | binary value size maxLen padding =>
      rw [FieldCall.build, Eval.liftM_eq, Eval.ofExcept_eq_done_iff] at hbuilt
      exact iff_of_true (CheckedField.honest_binary hbuilt hextra) trivial
  | text value =>
      rw [FieldCall.build, Eval.done.injEq] at hbuilt
      rw [← hbuilt]
      exact iff_of_true (CheckedField.honest_text context.library value hextra) trivial
  | delimiter value =>
      rw [FieldCall.build, Eval.done.injEq] at hbuilt
      rw [← hbuilt]
      exact iff_of_true (CheckedField.honest_delimiter value hextra) trivial
  | randomData options => exact CheckedField.honest_randomData_iff hbuilt hextra
  | float options => exact CheckedField.honest_float_iff hbuilt
  | fromLines defaultValue lines maxLen =>
      rw [FieldCall.build, Eval.liftM_eq, Eval.ofExcept_eq_done_iff] at hbuilt
      exact CheckedField.honest_fromLines_iff hbuilt

def plainContext : FieldContext where
  library := { texts := List.replicate 109 [], length_texts := List.length_replicate }
  arithmetic :=
    { le := fun left right => left ≤ right
      add := fun left _ => left
      sub := fun left _ => left
      mul := fun left _ => left
      div := fun left _ => left
      ofUInt32 := fun word => word.toUInt64
      ofInt64 := fun number => UInt64.ofInt number
      toText := fun _ => Text.ofAscii "0" }
  fuel := 1

/-- Random data with a step, and lines of which one stands there twice and one is too long. -/
theorem candidate_lengths_honest_sample :
    (∃ field, (FieldCall.randomData { maxLength := 0, step := some 1 }).build plainContext true
        [[0x21]] = .done field ∧ CheckedField.Honest field) ∧
      ∃ field, (FieldCall.fromLines [] [[0x41], [0x42], [0x41], [0x43, 0x44]] 1).build plainContext
        true [[0x21]] = .done field ∧ CheckedField.Honest field := by
  constructor
  · exact ⟨_, rfl, (candidate_lengths_honest_iff
      (.randomData { maxLength := 0, step := some 1 }) plainContext true [[0x21]] (by decide) _
      rfl).mpr ⟨by decide, by decide⟩⟩
  · exact ⟨_, rfl, (candidate_lengths_honest_iff
      (.fromLines [] [[0x41], [0x42], [0x41], [0x43, 0x44]] 1) plainContext true [[0x21]]
      (by decide) _ rfl).mpr fun _ => by decide⟩

/-- Lengths from none to the largest, one apart, wrap the count and pass the byte budget. -/
theorem full_range_wraps : ∃ field,
    (FieldCall.randomData { maxLength := 2147483647, step := some 1 }).build plainContext true [] =
      .done field ∧ field.value.count = 0 ∧ ¬ CheckedField.Honest field := by
  let options : RandomDataOptions := { maxLength := 2147483647, step := some 1 }
  have hcount : options.askedCount = { value := -2147483648, overflowed := true } := by
    rw [CheckedField.askedCount_eq (by decide) (by decide) (by decide)]
    have hrange : (options.maxLength.toInt - options.minLength.toInt) / options.stepValue =
        2147483647 := by decide
    have hwrap : wrap32 (2147483647 + 1) = -2147483648 := by decide
    have hfits : Flagged.fits (2147483647 + 1) = false := by decide
    rw [hrange, Flagged.add32, Flagged.ofExact, hwrap, hfits, Bool.not_false]
  have hbuilt : (FieldCall.randomData options).build plainContext true [] =
      .done (options.askedCount >>= fun _ =>
        CheckedField.ofSaved [] [] true >>= fun base => base.withFuzzValues [] true) := by
    rw [FieldCall.build, CheckedField.randomData, hcount]
    rfl
  refine ⟨_, hbuilt, rfl, fun hhonest => ?_⟩
  have hflag := hhonest.1
  rw [Flagged.bind_overflowed, hcount] at hflag
  exact absurd hflag (by decide)

end MoonBoofuzz
