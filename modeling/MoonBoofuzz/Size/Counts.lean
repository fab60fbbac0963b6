import MoonBoofuzz.Size.Wire

namespace MoonBoofuzz

namespace CompiledRequest

/-! Mutated ascii sizes.  A replaced entry renders as its replacement, but an ascii size
is measured by the text of the size it would compute. -/

section

variable {request : CompiledRequest} {replacements : Replacements}
  {vars : Option Vars} {index : Nat} {spec : SizeSpec}

theorem measure_ascii (hvisible : request.isVisible replacements vars index = .ok true)
    (hkind : request.kind index = .computedSize spec) (hascii : spec.ascii = true)
    (fuel : Nat) :
    measure request replacements vars (fuel + 1) (index, []) =
      (sizeValue request replacements vars fuel spec >>= fun text =>
        measured request text.length) := by
  rw [measure_visible [] fuel hvisible, hkind, measureKind, if_pos hascii, sizeValue,
    bind_assoc]
  rfl

theorem measure_ascii_returns (hvisible : request.isVisible replacements vars index = .ok true)
    (hkind : request.kind index = .computedSize spec) (hascii : spec.ascii = true)
    {length : Int} :
    Eval.Returns (fun fuel => measure request replacements vars fuel (index, [])) length ↔
      ∃ text, Eval.Returns (fun fuel => sizeValue request replacements vars fuel spec) text ∧
        text.length = length ∧ text.length ≤ request.maxBytes.val := by
  constructor
  · rintro ⟨fuel, hdone⟩
    cases fuel with
    | zero => cases hdone
    | succ fuel =>
        simp only [measure_ascii hvisible hkind hascii, Eval.bind_eq_done_iff, measured,
          Eval.check_eq_done_iff, Eval.done.injEq] at hdone
        obtain ⟨text, htext, _, hfits, hlength⟩ := hdone
        exact ⟨text, ⟨fuel, htext⟩, hlength, by exact_mod_cast hfits⟩
  · rintro ⟨text, ⟨fuel, htext⟩, rfl, hfits⟩
    refine ⟨fuel + 1, ?_⟩
    simp only [measure_ascii hvisible hkind hascii, htext, Eval.done_bind]
    exact measured_eq_done (by exact_mod_cast hfits)

def AsciiMeasured (request : CompiledRequest) (replacements : Replacements)
    (vars : Option Vars) (index : Nat) : Prop :=
  ∀ bytes, Eval.Returns (fun fuel => renderNode request replacements vars fuel (index, []))
      bytes →
    Eval.Returns (fun fuel => measure request replacements vars fuel (index, []))
      (bytes.length : Int)

/-- The entry is not replaced, and the text of its size keeps to the byte limit. -/
def AsciiKept (request : CompiledRequest) (replacements : Replacements)
    (vars : Option Vars) (index : Nat) (spec : SizeSpec) : Prop :=
  request.isVisible replacements vars index = .ok true →
    replacements.lookup index = none ∧
      ∀ text, Eval.Returns (fun fuel => sizeValue request replacements vars fuel spec) text →
        text.length ≤ request.maxBytes.val

theorem measure_le_maxBytes {fuel : Nat} {total : Int}
    (hdone : measure request replacements vars fuel (index, []) = .done total) :
    total ≤ request.maxBytes.val := by
  cases fuel with
  | zero => cases hdone
  | succ fuel =>
      cases hvisible : request.isVisible replacements vars index with
      | error error => simp [measure, measureStep, hvisible] at hdone
      | ok visible =>
          cases visible with
          | false =>
              cases (measure_hidden [] fuel hvisible).symm.trans hdone
              exact Int.natCast_nonneg _
          | true =>
              rw [measure_visible [] fuel hvisible] at hdone
              simp only [Eval.bind_eq_done_iff, measured, Eval.check_eq_done_iff,
                Eval.done.injEq] at hdone
              obtain ⟨size, -, _, hfits, rfl⟩ := hdone
              exact hfits

theorem length_ascii_le (hascii : spec.ascii = true) {text : Bytes}
    (htext : Eval.Returns (fun fuel => sizeValue request replacements vars fuel spec) text) :
    text.length ≤ 10 := by
  obtain ⟨fuel, hdone⟩ := htext
  simp only [sizeValue, sizeValueWith, Eval.bind_eq_done_iff] at hdone
  obtain ⟨target, -, total, htotal, hencode⟩ := hdone
  rw [encodeSize_eq] at hencode
  split at hencode
  · cases hencode
  · split at hencode
    · cases hencode
    · cases hencode
      rw [writeSize, if_pos hascii, Bytes.decimal, List.length_map,
        Nat.length_toDigits_le_iff (by decide) (by decide)]
      have hmeasured := measure_le_maxBytes htotal
      have hbound := request.maxBytes.isLt
      have hoffset := spec.offset.toInt_lt
      have hlength := spec.length_mem
      unfold statedSize
      split <;> omega

theorem renderNode_ascii_replaced {value : Bytes}
    (hvisible : request.isVisible replacements vars index = .ok true)
    (hkind : request.kind index = .computedSize spec)
    (hlookup : replacements.lookup index = some value) {bytes : Bytes} :
    Eval.Returns (fun fuel => renderNode request replacements vars fuel (index, [])) bytes ↔
      bytes = value ∧ value.length ≤ request.maxBytes.val := by
  have hrepeat : (request.kind index).isRepetition = false := by
    rw [hkind]
    rfl
  constructor
  · rintro ⟨fuel, hdone⟩
    cases fuel with
    | zero => cases hdone
    | succ fuel =>
        dsimp only at hdone
        rw [renderNode_replaced [] fuel hvisible hrepeat hlookup] at hdone
        simp only [Eval.bind_eq_done_iff, Eval.check_eq_done_iff, Eval.done.injEq] at hdone
        obtain ⟨_, hfits, hvalue⟩ := hdone
        exact ⟨hvalue.symm, hfits⟩
  · rintro ⟨rfl, hfits⟩
    refine ⟨1, (renderNode_replaced [] 0 hvisible hrepeat hlookup).trans ?_⟩
    rw [Eval.check_bind_of hfits]

theorem renderNode_ascii_computed
    (hvisible : request.isVisible replacements vars index = .ok true)
    (hkind : request.kind index = .computedSize spec)
    (hlookup : replacements.lookup index = none) {bytes : Bytes} :
    Eval.Returns (fun fuel => renderNode request replacements vars fuel (index, [])) bytes ↔
      Eval.Returns (fun fuel => sizeValue request replacements vars fuel spec) bytes := by
  constructor
  · rintro ⟨fuel, hdone⟩
    cases fuel with
    | zero => cases hdone
    | succ fuel =>
        exact ⟨fuel, (renderNode_size hvisible hkind hlookup []).symm.trans hdone⟩
  · rintro ⟨fuel, hdone⟩
    exact ⟨fuel + 1, (renderNode_size hvisible hkind hlookup []).trans hdone⟩

theorem ascii_measured_hidden
    (hhidden : request.isVisible replacements vars index ≠ .ok true) :
    AsciiMeasured request replacements vars index := by
  rintro bytes ⟨fuel, hdone⟩
  cases fuel with
  | zero => cases hdone
  | succ fuel =>
      cases hvisible : request.isVisible replacements vars index with
      | error error => simp [renderNode, renderStep, hvisible] at hdone
      | ok visible =>
          cases visible with
          | true => exact absurd hvisible hhidden
          | false =>
              cases (renderNode_hidden [] fuel hvisible).symm.trans hdone
              exact ⟨1, measure_hidden [] 0 hvisible⟩

theorem ascii_measured_unreplaced (hkind : request.kind index = .computedSize spec)
    (hascii : spec.ascii = true) (hlookup : replacements.lookup index = none) :
    AsciiMeasured request replacements vars index ↔
      AsciiKept request replacements vars index spec := by
  by_cases hvisible : request.isVisible replacements vars index = .ok true
  · simp only [AsciiMeasured, AsciiKept, hvisible, hlookup, forall_const, true_and,
      measure_ascii_returns hvisible hkind hascii,
      renderNode_ascii_computed hvisible hkind hlookup]
    constructor
    · intro hall text htext
      obtain ⟨other, hother, -, hfits⟩ := hall text htext
      rwa [htext.unique (sizeValue_mono spec) hother]
    · intro hall text htext
      exact ⟨text, htext, rfl, hall text htext⟩
  · exact ⟨fun _ hshown => absurd hshown hvisible, fun _ => ascii_measured_hidden hvisible⟩

/-- An ascii size is measured as it is rendered unless it is replaced; without a
replacement this fails only where its text goes past a byte limit below ten.  A replaced
entry is measured right only if its replacement happens to be as long as the text it stands
for. -/
theorem ascii_measured_iff (hkind : request.kind index = .computedSize spec)
    (hascii : spec.ascii = true) :
    (AsciiKept request replacements vars index spec →
        AsciiMeasured request replacements vars index) ∧
      (replacements.lookup index = none →
        (AsciiMeasured request replacements vars index ↔
          AsciiKept request replacements vars index spec) ∧
        (10 ≤ request.maxBytes.val → AsciiKept request replacements vars index spec)) ∧
      ∀ value, request.isVisible replacements vars index = .ok true →
        replacements.lookup index = some value → value.length ≤ request.maxBytes.val →
        AsciiMeasured request replacements vars index →
        ∃ text, Eval.Returns (fun fuel => sizeValue request replacements vars fuel spec)
          text ∧ text.length = value.length := by
  refine ⟨fun hkept => ?_, fun hlookup => ⟨ascii_measured_unreplaced hkind hascii hlookup,
    fun hbytes _ => ⟨hlookup, fun text htext => ?_⟩⟩,
    fun value hvisible hlookup hfits hmeasured => ?_⟩
  · by_cases hvisible : request.isVisible replacements vars index = .ok true
    · exact (ascii_measured_unreplaced hkind hascii (hkept hvisible).1).mpr hkept
    · exact ascii_measured_hidden hvisible
  · exact (length_ascii_le hascii htext).trans hbytes
  · obtain ⟨text, htext, hlength, -⟩ := (measure_ascii_returns hvisible hkind hascii).mp
      (hmeasured value ((renderNode_ascii_replaced hvisible hkind hlookup).mpr ⟨rfl, hfits⟩))
    exact ⟨text, htext, by exact_mod_cast hlength⟩

end

/-! A length over a block that holds an ascii size. -/

def asciiSpec : SizeSpec where
  target := Text.ofAscii "r.body"
  length := 1
  endian := .little
  offset := 0
  inclusive := false
  ascii := true
  mutations := [[0x30]]
  length_mem := by decide
  ascii_exclusive := by decide
  mutations_length := by simp

def outerSpec : SizeSpec where
  target := Text.ofAscii "r.head"
  length := 1
  endian := .little
  offset := 0
  inclusive := false
  ascii := false
  mutations := []
  length_mem := by decide
  ascii_exclusive := by decide
  mutations_length := by simp

def tenField : Field :=
  Field.simple [0x30, 0x31, 0x32, 0x33, 0x34, 0x35, 0x36, 0x37, 0x38, 0x39] []

def headedRoot : Block :=
  Block.new (Text.ofAscii "r")
    [.sized (Text.ofAscii "len") outerSpec,
     .nested (Block.new (Text.ofAscii "head") [.sized (Text.ofAscii "n") asciiSpec]),
     .nested (Block.new (Text.ofAscii "body") [.leaf (Text.ofAscii "x") tenField])]

def headedRequest : CompiledRequest where
  name := Text.ofAscii "r"
  entries :=
    [⟨Text.ofAscii "r", none, .container [1, 2, 4], none, none, none⟩,
     ⟨Text.ofAscii "r.len", some 0, .computedSize outerSpec, none, none, none⟩,
     ⟨Text.ofAscii "r.head", some 0, .container [3], none, none, none⟩,
     ⟨Text.ofAscii "r.head.n", some 2, .computedSize asciiSpec, none, none, none⟩,
     ⟨Text.ofAscii "r.body", some 0, .container [5], none, none, none⟩,
     ⟨Text.ofAscii "r.body.x", some 4, .atom tenField, none, none, none⟩]
  paths :=
    [(Text.ofAscii "r", 0), (Text.ofAscii "r.len", 1), (Text.ofAscii "r.head", 2),
     (Text.ofAscii "r.head.n", 3), (Text.ofAscii "r.body", 4),
     (Text.ofAscii "r.body.x", 5)]
  maxBytes := 64
  seq := .sequence [.sequence [], .sequence [.plain 3], .sequence [.sequence []]]

theorem headedRoot_compiles : compile headedRoot 64 6 = .done headedRequest := rfl

/-- Replaced by one of its candidates the ascii size renders one byte, but it is measured
as the two of its computed text, and so is the block around it. -/
theorem headedRequest_mismeasured :
    compile headedRoot 64 6 = .done headedRequest ∧
      CandidateReplacements headedRequest [(3, [0x30])] ∧
      ¬ AsciiMeasured headedRequest [(3, [0x30])] none 3 ∧
      renderNode headedRequest [(3, [0x30])] none 4 (2, []) = .done [0x30] ∧
      sizeValue headedRequest [(3, [0x30])] none 4 outerSpec = .done [2] := by
  refine ⟨headedRoot_compiles, ?_, fun hmeasured => ?_, rfl, by decide +kernel⟩
  · intro pair hmem
    rw [List.mem_singleton.mp hmem]
    exact ⟨0, by decide, rfl⟩
  · have hone := hmeasured [0x30] ⟨1, rfl⟩
    have htwo : Eval.Returns
        (fun fuel => measure headedRequest [(3, [0x30])] none fuel (3, [])) 2 :=
      ⟨4, by decide +kernel⟩
    have hsame := hone.unique (fun _ _ hle => measure_mono hle _) htwo
    exact absurd hsame (by decide)

theorem headedRequest_measured : AsciiMeasured headedRequest [] none 3 := by
  have hkind : headedRequest.kind 3 = .computedSize asciiSpec := rfl
  have hall := @ascii_measured_iff headedRequest [] none 3 asciiSpec hkind rfl
  exact hall.1 ((hall.2.1 rfl).2 (by decide))

/-! Repeat counts from session variables. -/

section

variable {request : CompiledRequest} {replacements : Replacements} {index target : Nat}
  {path name : Text} {range : RepeatRange} {map : Vars} {value content : Bytes}

/-- A visible repeat that is not replaced, with the variable it takes its count from. -/
structure Driven (request : CompiledRequest) (replacements : Replacements) (index : Nat)
    (path name : Text) (map : Vars) (value : Bytes) : Prop where
  kind : ∃ range, request.kind index = .repetition path range (some name)
  unreplaced : replacements.lookup index = none
  visible : request.isVisible replacements (some map) index = .ok true
  found : map.lookup name = some value
  long : 4 ≤ value.length

theorem Driven.repeatCount (hdriven : Driven request replacements index path name map value) :
    repeatCount replacements (some map) index (some name) = .ok (decodeRepeat value) := by
  simp [CompiledRequest.repeatCount, hdriven.unreplaced, hdriven.found, hdriven.long]

theorem Driven.renderNode (hdriven : Driven request replacements index path name map value)
    (htarget : request.resolve path = .ok target) {fuel : Nat}
    (hcontent : renderNode request replacements (some map) fuel (target, []) =
      .done content) :
    CompiledRequest.renderNode request replacements (some map) (fuel + 1) (index, []) =
      if content = [] ∨ decodeRepeat value ≤ (request.maxBytes.val : Int).tdiv content.length
      then .done (content.repeatTimes (decodeRepeat value))
      else .raised (.limitText "repeated block exceeds byte limit") := by
  obtain ⟨range, hkind⟩ := hdriven.kind
  exact renderNode_repeat [] hdriven.visible hkind hdriven.repeatCount htarget hcontent

theorem Driven.measure (hdriven : Driven request replacements index path name map value)
    (htarget : request.resolve path = .ok target) {fuel : Nat} {child : Int}
    (hchild : measure request replacements (some map) fuel (target, []) = .done child) :
    CompiledRequest.measure request replacements (some map) (fuel + 1) (index, []) =
      if child = 0 ∨ decodeRepeat value ≤ (request.maxBytes.val : Int).tdiv child
      then measured request (wrap32 (child * decodeRepeat value))
      else .raised (.limitText "repeated length exceeds byte limit") := by
  obtain ⟨range, hkind⟩ := hdriven.kind
  rw [measure_visible [] fuel hdriven.visible, hkind, measureKind, hdriven.repeatCount,
    htarget]
  simp only [Eval.liftM_eq, Eval.ofExcept_ok, Eval.done_bind, hchild, Eval.check]
  split <;> rfl

end

/-! A message whose body is repeated as often as a session says. -/

end CompiledRequest

end MoonBoofuzz
