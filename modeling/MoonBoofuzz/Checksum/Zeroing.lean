import MoonBoofuzz.Model.Lookup
import MoonBoofuzz.Size.Agreement

namespace MoonBoofuzz

namespace CompiledRequest

/-! A checksum that covers itself.  While it is rendered it stands on the active
chain and contributes zeros; replacing it by these zeros has the same effect. -/

section

variable {request : CompiledRequest} {replacements : Replacements}
  {vars : Option Vars} {index : Nat} {spec : ChecksumSpec}

/-- The replacements with the checksum's own slots zeroed. -/
def zeroed (replacements : Replacements) (index : Nat) (spec : ChecksumSpec) :
    Replacements :=
  replacements ++ [(index, Bytes.zeros spec.algorithm.length)]

theorem lookup_zeroed_of_ne {other : Nat} (hother : other ≠ index) :
    (zeroed replacements index spec).lookup other = replacements.lookup other := by
  have hlast : Replacements.lookup [(index, Bytes.zeros spec.algorithm.length)] other =
      none := by
    simp [Replacements.lookup, List.lookup_cons, beq_eq_false_iff_ne.mpr hother]
  rw [zeroed, Replacements.lookup_append, hlast, Option.or_none]

theorem lookup_zeroed_self (hlookup : replacements.lookup index = none) :
    (zeroed replacements index spec).lookup index =
      some (Bytes.zeros spec.algorithm.length) := by
  rw [zeroed, Replacements.lookup_append, hlookup]
  simp [Replacements.lookup]

theorem agreeOff_zeroed :
    AgreeOff (· = index) replacements (zeroed replacements index spec) :=
  fun _ hother => lookup_zeroed_of_ne hother

theorem unread_checksum (hconditions : ConditionTargets request)
    (hkind : request.kind index = .computedChecksum spec) :
    Unread request (· = index) where
  condition := by
    rintro owner condition target hcondition htarget rfl
    have hfield := hconditions owner condition target hcondition htarget
    simp [hkind, EntryKind.isField] at hfield
  checksum := by
    rintro _ rfl
    simp [hkind, EntryKind.isChecksum]

theorem renderChildren_done_of {maxBytes : Nat} {overflow : ModelError}
    {first second : Nat → Run Bytes} :
    ∀ (children : List Nat) (output : Bytes) {result : Bytes},
      output.length ≤ maxBytes →
      (∀ child bytes, first child = .done bytes → bytes.length ≤ maxBytes →
        second child = .done bytes) →
      renderChildren maxBytes overflow first children output = .done result →
      renderChildren maxBytes overflow second children output = .done result
  | [], _, _, _, _, hrender => hrender
  | child :: rest, output, result, hfits, hsecond, hrender => by
      simp only [renderChildren, Eval.bind_eq_done_iff, Eval.check_eq_done_iff]
        at hrender ⊢
      obtain ⟨bytes, hbytes, token, hroom, hrest⟩ := hrender
      refine ⟨bytes, hsecond child bytes hbytes (by omega), token, hroom, ?_⟩
      apply renderChildren_done_of rest (output ++ bytes) _ hsecond hrest
      rw [List.length_append]
      omega

theorem renderKind_zeroed (htargets : BlockTargets request) {other : Nat}
    (hother : other ≠ index) {sizes : SizeSpec → Run Bytes}
    {first second : Call → Run Bytes} {around active : List Nat}
    (hchains : other ∈ around ↔ other ∈ active)
    (hblocks : ∀ inner chain bytes, (request.kind inner).isContainer = true →
      first (inner, chain) = .done bytes → bytes.length ≤ request.maxBytes.val)
    (hsame : ∀ inner bytes, first (inner, around) = .done bytes →
      bytes.length ≤ request.maxBytes.val → second (inner, active) = .done bytes)
    (hnested : ∀ inner bytes, first (inner, around ++ [other]) = .done bytes →
      bytes.length ≤ request.maxBytes.val →
        second (inner, active ++ [other]) = .done bytes)
    {bytes : Bytes} (hfits : bytes.length ≤ request.maxBytes.val)
    (hrender : renderKind request replacements vars sizes first other around
      (request.kind other) = .done bytes) :
    renderKind request (zeroed replacements index spec) vars sizes second other active
      (request.kind other) = .done bytes := by
  cases hkind : request.kind other with
  | atom field => simpa [hkind, renderKind] using hrender
  | dynamic field variableName => simpa [hkind, renderKind] using hrender
  | computedSize spec => simpa [hkind, renderKind] using hrender
  | computedChecksum inner =>
      simp only [hkind, renderKind] at hrender ⊢
      by_cases hmem : other ∈ around
      · simpa [hmem, hchains.mp hmem] using hrender
      · have hfresh : other ∉ active := fun h => hmem (hchains.mpr h)
        simp only [hmem, hfresh, if_false, Eval.bind_eq_done_iff, Eval.liftM_eq,
          Eval.ofExcept_eq_done_iff] at hrender ⊢
        obtain ⟨target, htarget, content, hcontent, hdigest⟩ := hrender
        obtain ⟨target', htarget', hcontainer⟩ := htargets.checksum other inner hkind
        rw [htarget] at htarget'
        cases htarget'
        exact ⟨target, htarget, content,
          hnested target content hcontent (hblocks _ _ _ hcontainer hcontent), hdigest⟩
  | mirror path =>
      simp only [hkind, renderKind] at hrender ⊢
      by_cases hmem : other ∈ around
      · simpa [hmem, hchains.mp hmem] using hrender
      · have hfresh : other ∉ active := fun h => hmem (hchains.mpr h)
        simp only [hmem, hfresh, if_false, Eval.bind_eq_done_iff, Eval.liftM_eq,
          Eval.ofExcept_eq_done_iff] at hrender ⊢
        obtain ⟨target, htarget, hcontent⟩ := hrender
        exact ⟨target, htarget, hnested target bytes hcontent hfits⟩
  | repetition path range variableName =>
      simp only [hkind, renderKind, Eval.bind_eq_done_iff, Eval.liftM_eq,
        Eval.ofExcept_eq_done_iff, repeatCount_congr (lookup_zeroed_of_ne hother)]
        at hrender ⊢
      obtain ⟨count, hcount, target, htarget, content, hcontent, hrepeat⟩ := hrender
      have hcontainer := htargets.repetition _ _ _ _ _ hkind htarget
      exact ⟨count, hcount, target, htarget, content,
        hsame target content hcontent (hblocks _ _ _ hcontainer hcontent), hrepeat⟩
  | container children =>
      simp only [hkind, renderKind, Eval.bind_eq_done_iff] at hrender ⊢
      obtain ⟨output, houtput, hpadding⟩ := hrender
      exact ⟨output, renderChildren_done_of children [] (Nat.zero_le _)
        (fun child content => hsame child content) houtput, hpadding⟩

/-- Rendering with the checksum on the active chain is rendering with its slots
zeroed. -/
theorem renderNode_zeroed (htargets : BlockTargets request)
    (hconditions : ConditionTargets request)
    (hkind : request.kind index = .computedChecksum spec)
    (hlookup : replacements.lookup index = none) :
    ∀ {fuel other : Nat} {around active : List Nat} {bytes : Bytes},
      (∀ inner, inner ∈ around ↔ inner = index ∨ inner ∈ active) →
      bytes.length ≤ request.maxBytes.val →
      renderNode request replacements vars fuel (other, around) = .done bytes →
      renderNode request (zeroed replacements index spec) vars fuel (other, active) =
        .done bytes := by
  intro fuel
  induction fuel with
  | zero =>
      intro other around active bytes _ _ hrender
      simp [renderNode] at hrender
  | succ fuel ih =>
      intro other around active bytes hchains hfits hrender
      have hunread := unread_checksum hconditions hkind
      have hagree : AgreeOff (· = index) replacements
          (zeroed replacements index spec) := agreeOff_zeroed
      have hvisible := isVisible_congr hunread hagree vars other
      rcases hshown : request.isVisible replacements vars other with error | shown
      · simp [renderNode, renderStep, hshown] at hrender
      rw [hshown] at hvisible
      cases shown with
      | false =>
          rw [renderNode_hidden around fuel hshown] at hrender
          rw [renderNode_hidden active fuel hvisible, hrender]
      | true =>
          by_cases hself : other = index
          · subst hself
            have hmem : other ∈ around := (hchains other).mpr (Or.inl rfl)
            have hplain : (request.kind other).isRepetition = false := by
              simp [hkind, EntryKind.isRepetition]
            rw [renderNode_kind around fuel hshown (Or.inr hlookup), hkind] at hrender
            simp only [renderKind, hmem, if_true, Eval.done.injEq] at hrender
            subst bytes
            rw [renderNode_replaced active fuel hvisible hplain
              (lookup_zeroed_self hlookup)]
            exact Eval.check_bind_of hfits _
          · by_cases hreplaced : (request.kind other).isRepetition = true ∨
                replacements.lookup other = none
            · have hreplaced' : (request.kind other).isRepetition = true ∨
                  (zeroed replacements index spec).lookup other = none := by
                rwa [lookup_zeroed_of_ne hself]
              rw [renderNode_kind around fuel hshown hreplaced] at hrender
              rw [renderNode_kind active fuel hvisible hreplaced',
                sizeValue_congr hunread hagree]
              refine renderKind_zeroed htargets hself ?_ ?_ ?_ ?_ hfits hrender
              · simp [hchains, hself]
              · intro inner chain content hcontainer hcontent
                exact renderNode_container_length_le hcontainer hcontent
              · intro inner content hcontent hroom
                exact ih hchains hroom hcontent
              · intro inner content hcontent hroom
                refine ih ?_ hroom hcontent
                intro entry
                simp [hchains, or_assoc]
            · push Not at hreplaced
              obtain ⟨hplain, hsome⟩ := hreplaced
              obtain ⟨value, hvalue⟩ := Option.ne_none_iff_exists'.mp hsome
              have hplain : (request.kind other).isRepetition = false := by
                simpa using hplain
              rw [renderNode_replaced around fuel hshown hplain hvalue] at hrender
              rw [renderNode_replaced active fuel hvisible hplain
                ((lookup_zeroed_of_ne hself).trans hvalue)]
              exact hrender

end

/-- A visible checksum that is not replaced is the digest of its target with its
own slots zeroed. -/
theorem checksum_verifies {root : Block} {maxBytes : Int32}
    {request : CompiledRequest}
    (hcompile : Eval.Returns (compile root maxBytes) request)
    {replacements : Replacements} {vars : Option Vars} {index : Nat}
    {spec : ChecksumSpec} (hkind : request.kind index = .computedChecksum spec)
    (hlookup : replacements.lookup index = none)
    (hvisible : request.isVisible replacements vars index = .ok true) {bytes : Bytes}
    (hrender : Eval.Returns
      (fun fuel => renderNode request replacements vars fuel (index, [])) bytes) :
    ∃ target content,
      request.resolve spec.target = .ok target ∧
      Eval.Returns (fun fuel => renderNode request (zeroed replacements index spec)
        vars fuel (target, [])) content ∧
      bytes = spec.algorithm.render content spec.endian := by
  obtain ⟨fuel, hcompiled⟩ := hcompile
  have hstages := compile_eq_done hcompiled
  obtain ⟨target, htarget, hcontainer⟩ := hstages.blockTargets.checksum index spec hkind
  obtain ⟨fuel', hreturned⟩ := hrender
  have hdone : renderNode request replacements vars fuel' (index, []) = .done bytes :=
    hreturned
  obtain _ | fuel' := fuel'
  · simp [renderNode] at hdone
  rw [renderNode_kind [] fuel' hvisible (Or.inr hlookup), hkind] at hdone
  simp only [renderKind, List.not_mem_nil, if_false, htarget, Eval.liftM_eq,
    Eval.ofExcept_ok, Eval.done_bind, List.nil_append, Eval.bind_eq_done_iff,
    Eval.done.injEq] at hdone
  obtain ⟨content, hcontent, rfl⟩ := hdone
  refine ⟨target, content, htarget, ⟨fuel', ?_⟩, rfl⟩
  refine renderNode_zeroed hstages.blockTargets hstages.conditionTargets hkind hlookup
    (by simp) ?_ hcontent
  exact renderNode_container_length_le hcontainer hcontent

def sumSpec : ChecksumSpec where
  target := Text.ofAscii "r"
  endian := .big
  mutations := []
  algorithm := .adler32
  mutations_length := by simp

def summedField : Field := Field.simple [0x41] []

def summedRoot : Block :=
  Block.new (Text.ofAscii "r")
    [.checksummed (Text.ofAscii "sum") sumSpec,
     .leaf (Text.ofAscii "x") summedField]

def summedRequest : CompiledRequest where
  name := Text.ofAscii "r"
  entries :=
    [⟨Text.ofAscii "r", none, .container [1, 2], none, none, none⟩,
     ⟨Text.ofAscii "r.sum", some 0, .computedChecksum sumSpec, none, none, none⟩,
     ⟨Text.ofAscii "r.x", some 0, .atom summedField, none, none, none⟩]
  paths :=
    [(Text.ofAscii "r", 0), (Text.ofAscii "r.sum", 1), (Text.ofAscii "r.x", 2)]
  maxBytes := 64
  seq := .sequence [.sequence [], .sequence []]

theorem summedRoot_compiles : compile summedRoot 64 6 = .done summedRequest := rfl

/-- The four bytes on the wire are the digest of `00 00 00 00 41`. -/
theorem summedRequest_verifies :
    ∃ target content,
      summedRequest.resolve sumSpec.target = .ok target ∧
      Eval.Returns (fun fuel => renderNode summedRequest (zeroed [] 1 sumSpec) none
        fuel (target, [])) content ∧
      [0x00, 0x46, 0x00, 0x42] = sumSpec.algorithm.render content sumSpec.endian := by
  have hkind : summedRequest.kind 1 = .computedChecksum sumSpec := rfl
  have hrender : renderNode summedRequest [] none 6 (1, []) =
      .done [0x00, 0x46, 0x00, 0x42] := rfl
  exact checksum_verifies ⟨6, summedRoot_compiles⟩ hkind rfl rfl ⟨6, hrender⟩

end CompiledRequest

end MoonBoofuzz
