import MoonBoofuzz.Size.Agreement

namespace MoonBoofuzz

namespace CompiledRequest

/-! Size fields on the wire. -/

section

variable {request : CompiledRequest} {replacements : Replacements}
  {vars : Option Vars}

theorem Extends.empty (fuel index : Nat) :
    Extends request replacements vars fuel index [] [] where
  subset := by simp
  suspended := by simp
  leads := by simp

/-- A terminating measurement of a block that renders gives the rendered
length. -/
theorem measure_returns_length
    (hcandidates : CandidateReplacements request replacements)
    (htargets : BlockTargets request) {index : Nat}
    (hcontainer : (request.kind index).isContainer = true)
    (hsteady : Steady request replacements vars index)
    (hmeasure : Eval.Terminates fun fuel =>
      measure request replacements vars fuel (index, [])) {bytes : Bytes}
    (hrender : Eval.Returns
      (fun fuel => renderNode request replacements vars fuel (index, [])) bytes) :
    Eval.Returns (fun fuel => measure request replacements vars fuel (index, []))
      (bytes.length : Int) := by
  obtain ⟨fuel, hsettled⟩ := hmeasure
  obtain ⟨fuel', hbytes⟩ := hrender
  have hfits := renderNode_container_length_le hcontainer hbytes
  exact ⟨fuel, measure_agree hcandidates htargets hsteady (Extends.empty fuel index)
    hsettled hbytes hfits⟩

theorem sizeValue_of_measure {spec : SizeSpec} {target fuel : Nat} {total : Int}
    (htarget : request.resolve spec.target = .ok target)
    (htotal : measure request replacements vars fuel (target, []) = .done total) :
    sizeValue request replacements vars fuel spec = encodeSize spec total := by
  simp [sizeValue, sizeValueWith, htarget, htotal]

theorem renderNode_size {index fuel : Nat} {spec : SizeSpec}
    (hvisible : request.isVisible replacements vars index = .ok true)
    (hkind : request.kind index = .computedSize spec)
    (hlookup : replacements.lookup index = none) (active : List Nat) :
    renderNode request replacements vars (fuel + 1) (index, active) =
      sizeValue request replacements vars fuel spec := by
  rw [renderNode_kind active fuel hvisible (Or.inr hlookup), hkind]
  rfl

end

/-- The values a size field of `spec` can state. -/
def Encodable (spec : SizeSpec) (value : Int) : Prop :=
  0 ≤ value ∧ value ≤ 2 ^ (8 * spec.length) - 1

instance (spec : SizeSpec) (value : Int) : Decidable (Encodable spec value) := by
  unfold Encodable
  exact inferInstance

theorem encodeSize_encodable {spec : SizeSpec} {total : Int}
    (hfits : Encodable spec (statedSize spec total)) :
    encodeSize spec total = .done (writeSize spec (statedSize spec total).toNat) ∧
      (readSize spec (writeSize spec (statedSize spec total).toNat) : Int) =
        statedSize spec total := by
  obtain ⟨hnonneg, hmaximum⟩ := hfits
  rw [Nat.mul_comm] at hmaximum
  have hsmall : (statedSize spec total).toNat < 2 ^ (spec.length * 8) := by
    rw [Int.toNat_lt hnonneg]
    push_cast
    omega
  rw [encodeSize_eq, if_neg (by omega), if_neg (by omega),
    readSize_writeSize spec hsmall]
  exact ⟨rfl, Int.toNat_of_nonneg hnonneg⟩

theorem encodeSize_not_encodable {spec : SizeSpec} {total : Int}
    (hfits : ¬ Encodable spec (statedSize spec total)) :
    ∃ text, encodeSize spec total = .raised (.invalid text) := by
  rw [encodeSize_eq]
  split
  · exact ⟨_, rfl⟩
  · rename_i hnonneg
    have hlarge : 2 ^ (spec.length * 8) - 1 < statedSize spec total := by
      by_contra hsmall
      apply hfits
      rw [Encodable, Nat.mul_comm 8]
      exact ⟨by omega, by omega⟩
    rw [if_pos hlarge]
    exact ⟨_, rfl⟩

theorem encodeSize_settled (spec : SizeSpec) (total : Int) :
    (encodeSize spec total).Settled := by
  rw [encodeSize_eq]
  split
  · simp
  · split <;> simp

theorem renderNode_size_eq {request : CompiledRequest} {replacements : Replacements}
    {vars : Option Vars} (hcandidates : CandidateReplacements request replacements)
    (htargets : BlockTargets request) {index target : Nat} {spec : SizeSpec}
    (hvisible : request.isVisible replacements vars index = .ok true)
    (hkind : request.kind index = .computedSize spec)
    (hlookup : replacements.lookup index = none)
    (htarget : request.resolve spec.target = .ok target)
    (hsteady : Steady request replacements vars target) {fuel : Nat} {active : List Nat}
    {content bytes : Bytes}
    (hcontent : renderNode request replacements vars fuel (index, active) = .done content)
    (hbytes : Eval.Returns
      (fun fuel => renderNode request replacements vars fuel (target, [])) bytes) :
    content = writeSize spec (statedSize spec bytes.length).toNat := by
  obtain ⟨target', htarget', hcontainer⟩ := htargets.size index spec hkind
  rw [htarget] at htarget'
  cases htarget'
  obtain _ | fuel := fuel
  · cases hcontent
  · rw [renderNode_size hvisible hkind hlookup active, sizeValue, sizeValueWith, htarget,
      Eval.liftM_eq, Eval.ofExcept_ok, Eval.done_bind] at hcontent
    obtain ⟨total, htotal, hencode⟩ := Eval.bind_eq_done_iff.mp hcontent
    have hterminates : Eval.Terminates fun fuel =>
        measure request replacements vars fuel (target, []) := ⟨fuel, by simp [htotal]⟩
    have hlength := measure_returns_length hcandidates htargets hcontainer hsteady hterminates
      hbytes
    have hsame : total = bytes.length :=
      Eval.Returns.unique (fun _ _ hle => measure_mono hle _) ⟨fuel, htotal⟩ hlength
    rw [hsame, encodeSize_eq] at hencode
    split at hencode
    · cases hencode
    · split at hencode
      · cases hencode
      · cases hencode
        rfl

/-- Size fields tell the truth: the measured length of the target is its rendered
length, and the field states the length with its offset and its own width, or
raises `Invalid` when that number does not fit. -/
theorem sizeValue_states_length {root : Block} {maxBytes : Int32}
    {request : CompiledRequest}
    (hcompile : Eval.Returns (compile root maxBytes) request)
    {replacements : Replacements} {vars : Option Vars}
    (hcandidates : CandidateReplacements request replacements)
    {index target : Nat} {spec : SizeSpec}
    (hkind : request.kind index = .computedSize spec)
    (hlookup : replacements.lookup index = none)
    (htarget : request.resolve spec.target = .ok target)
    (hsteady : Steady request replacements vars target)
    (hmeasure : Eval.Terminates fun fuel =>
      measure request replacements vars fuel (target, [])) {bytes : Bytes}
    (hrender : Eval.Returns
      (fun fuel => renderNode request replacements vars fuel (target, [])) bytes) :
    Eval.Returns (fun fuel => measure request replacements vars fuel (target, []))
        (bytes.length : Int) ∧
      (Encodable spec (statedSize spec bytes.length) →
        ∃ content,
          Eval.Returns
            (fun fuel => sizeValue request replacements vars fuel spec) content ∧
          (readSize spec content : Int) = statedSize spec bytes.length ∧
          (request.isVisible replacements vars index = .ok true →
            ∀ active, Eval.Returns
              (fun fuel => renderNode request replacements vars fuel (index, active))
              content)) ∧
      ((∃ error, Eval.Raises
          (fun fuel => sizeValue request replacements vars fuel spec) error) ↔
        ¬ Encodable spec (statedSize spec bytes.length)) ∧
      ∀ error, Eval.Raises
        (fun fuel => sizeValue request replacements vars fuel spec) error →
          ∃ text, error = .invalid text := by
  obtain ⟨fuel, hcompiled⟩ := hcompile
  have htargets := (compile_eq_done hcompiled).blockTargets
  obtain ⟨target', htarget', hcontainer⟩ := htargets.size index spec hkind
  rw [htarget] at htarget'
  cases htarget'
  have hlength := measure_returns_length hcandidates htargets hcontainer hsteady
    hmeasure hrender
  obtain ⟨enough, htotal⟩ := hlength
  have hvalue := sizeValue_of_measure htarget htotal
  have hraises : ∀ error, Eval.Raises
      (fun fuel => sizeValue request replacements vars fuel spec) error →
        encodeSize spec bytes.length = .raised error := by
    rintro error ⟨fuel', hraised⟩
    rw [← hvalue]
    exact Eval.raised_of_settled (sizeValue_mono spec) hraised
      (hvalue ▸ encodeSize_settled spec bytes.length)
  refine ⟨⟨enough, htotal⟩, ?_, ⟨?_, ?_⟩, ?_⟩
  · intro hfits
    obtain ⟨hencode, hread⟩ := encodeSize_encodable hfits
    refine ⟨_, ⟨enough, hvalue.trans hencode⟩, hread, ?_⟩
    intro hvisible active
    refine ⟨enough + 1, ?_⟩
    exact (renderNode_size hvisible hkind hlookup active).trans
      (hvalue.trans hencode)
  · rintro ⟨error, hraised⟩ hfits
    rw [(encodeSize_encodable hfits).1] at hraises
    exact absurd (hraises error hraised) (by simp)
  · intro hfits
    obtain ⟨text, hraised⟩ := encodeSize_not_encodable hfits
    exact ⟨_, enough, hvalue.trans hraised⟩
  · intro error hraised
    by_cases hfits : Encodable spec (statedSize spec bytes.length)
    · rw [(encodeSize_encodable hfits).1] at hraises
      exact absurd (hraises error hraised) (by simp)
    · obtain ⟨text, hinvalid⟩ := encodeSize_not_encodable hfits
      rw [hraises error hraised] at hinvalid
      exact ⟨text, Eval.raised.inj hinvalid⟩

def lengthSpec : SizeSpec where
  target := Text.ofAscii "r.body"
  length := 2
  endian := .big
  offset := 1
  inclusive := true
  ascii := false
  mutations := []
  length_mem := by decide
  ascii_exclusive := by decide
  mutations_length := by simp

def bodyField : Field := Field.simple [0x41, 0x42] [[0x43, 0x44, 0x45]]

def framedRoot : Block :=
  Block.new (Text.ofAscii "r")
    [.sized (Text.ofAscii "len") lengthSpec,
     .nested (Block.new (Text.ofAscii "body")
       [.leaf (Text.ofAscii "x") bodyField])]

def framedRequest : CompiledRequest where
  name := Text.ofAscii "r"
  entries :=
    [⟨Text.ofAscii "r", none, .container [1, 2], none, none, none⟩,
     ⟨Text.ofAscii "r.len", some 0, .computedSize lengthSpec, none, none, none⟩,
     ⟨Text.ofAscii "r.body", some 0, .container [3], none, none, none⟩,
     ⟨Text.ofAscii "r.body.x", some 2, .atom bodyField, none, none, none⟩]
  paths :=
    [(Text.ofAscii "r", 0), (Text.ofAscii "r.len", 1),
     (Text.ofAscii "r.body", 2), (Text.ofAscii "r.body.x", 3)]
  maxBytes := 64
  seq := .sequence [.sequence [], .sequence [.plain 3]]

theorem framedRoot_compiles : compile framedRoot 64 6 = .done framedRequest := rfl

theorem framedRequest_steady (replacements : Replacements) (index : Nat) :
    Steady framedRequest replacements none index where
  ascii := by
    intro inner spec _ hkind hascii
    rcases inner with _ | _ | _ | _ | inner <;> cases hkind
    cases hascii
  repeats := by
    intro inner path range name map bytes _ _ _ hvars
    cases hvars

/-- With the body replaced by three bytes the length field states six. -/
theorem framedRequest_states_length :
    ∃ content, Eval.Returns
        (fun fuel => sizeValue framedRequest [(3, [0x43, 0x44, 0x45])] none fuel
          lengthSpec) content ∧
      (readSize lengthSpec content : Int) = 6 := by
  have hcandidates : CandidateReplacements framedRequest
      [(3, [0x43, 0x44, 0x45])] := by
    intro pair hmem
    rw [List.mem_singleton.mp hmem]
    exact ⟨0, by decide, rfl⟩
  have hmeasure : measure framedRequest [(3, [0x43, 0x44, 0x45])] none 3 (2, []) =
      .done 3 := rfl
  have hrender : renderNode framedRequest [(3, [0x43, 0x44, 0x45])] none 3 (2, []) =
      .done [0x43, 0x44, 0x45] := rfl
  have hkind : framedRequest.kind 1 = .computedSize lengthSpec := rfl
  obtain ⟨-, hencodes, -⟩ := sizeValue_states_length ⟨6, framedRoot_compiles⟩
    hcandidates hkind rfl rfl (framedRequest_steady _ 2) ⟨3, by simp [hmeasure]⟩
    ⟨3, hrender⟩
  obtain ⟨content, hreturns, hread, -⟩ := hencodes (by decide)
  exact ⟨content, hreturns, hread⟩

end CompiledRequest

end MoonBoofuzz
