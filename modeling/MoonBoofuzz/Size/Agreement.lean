import Mathlib.Logic.Relation
import MoonBoofuzz.Model.Compiled
import MoonBoofuzz.Model.Whole

namespace MoonBoofuzz

namespace CompiledRequest

inductive Refers (request : CompiledRequest) : Nat → Nat → Prop
  | child {index child : Nat} {children : List Nat}
      (hkind : request.kind index = .container children)
      (hmem : child ∈ children) : Refers request index child
  | repetition {index target : Nat} {path : Text} {range : RepeatRange}
      {variableName : Option Text}
      (hkind : request.kind index = .repetition path range variableName)
      (htarget : request.resolve path = .ok target) : Refers request index target
  | mirror {index target : Nat} {path : Text}
      (hkind : request.kind index = .mirror path)
      (htarget : request.resolve path = .ok target) : Refers request index target

def Reaches (request : CompiledRequest) : Nat → Nat → Prop :=
  Relation.ReflTransGen (Refers request)

/-- Every replacement is one of the candidates of the entry it replaces. -/
def CandidateReplacements (request : CompiledRequest)
    (replacements : Replacements) : Prop :=
  ∀ pair ∈ replacements, ∃ position,
    position < (request.kind pair.1).count ∧
      pair.2 = (request.kind pair.1).candidate position

/-- No ascii size reachable from `index` is replaced, and every session variable
that drives a repeat there decodes to a non-negative count. -/
structure Steady (request : CompiledRequest) (replacements : Replacements)
    (vars : Option Vars) (index : Nat) : Prop where
  ascii : ∀ inner spec, Reaches request index inner →
    request.kind inner = .computedSize spec → spec.ascii = true →
      replacements.lookup inner = none
  repeats : ∀ inner path range name map bytes, Reaches request index inner →
    request.kind inner = .repetition path range (some name) →
      replacements.lookup inner = none → vars = some map →
        map.lookup name = some bytes → 4 ≤ bytes.length →
          0 ≤ decodeRepeat bytes

theorem Steady.step {request : CompiledRequest} {replacements : Replacements}
    {vars : Option Vars} {index inner : Nat}
    (hsteady : Steady request replacements vars index)
    (hrefers : Refers request index inner) :
    Steady request replacements vars inner where
  ascii := fun deeper spec hreaches =>
    hsteady.ascii deeper spec (.head hrefers hreaches)
  repeats := fun deeper path range name map bytes hreaches =>
    hsteady.repeats deeper path range name map bytes (.head hrefers hreaches)

section

variable {request : CompiledRequest} {replacements : Replacements}
  {vars : Option Vars}

/-! Chains of visible mirrors.  A chain leads through a number of links to an
entry that is not a mirror. -/

inductive MirrorChain (request : CompiledRequest) (replacements : Replacements)
    (vars : Option Vars) : Nat → Nat → Nat → Prop
  | stop {index : Nat} (hkind : (request.kind index).isMirror = false) :
      MirrorChain request replacements vars index index 0
  | link {index target last links : Nat} {path : Text}
      (hvisible : request.isVisible replacements vars index = .ok true)
      (hkind : request.kind index = .mirror path)
      (htarget : request.resolve path = .ok target)
      (hrest : MirrorChain request replacements vars target last links) :
      MirrorChain request replacements vars index last (links + 1)

theorem MirrorChain.unique {index last last' links links' : Nat}
    (hfirst : MirrorChain request replacements vars index last links)
    (hsecond : MirrorChain request replacements vars index last' links') :
    last = last' ∧ links = links' := by
  induction hfirst generalizing links' with
  | stop hkind =>
      cases hsecond with
      | stop _ => exact ⟨rfl, rfl⟩
      | link _ hmirror _ _ => simp [hmirror, EntryKind.isMirror] at hkind
  | link hvisible hkind htarget hrest ih =>
      cases hsecond with
      | stop hother => simp [hkind, EntryKind.isMirror] at hother
      | link _ hkind' htarget' hrest' =>
          rw [hkind] at hkind'
          cases hkind'
          rw [htarget] at htarget'
          cases htarget'
          obtain ⟨hlast, hlinks⟩ := ih hrest'
          exact ⟨hlast, by omega⟩

/-- A settled measurement of a mirror has measured the end of its chain, unless
the active chain cuts it short. -/
theorem measure_settled_of_chain {index last links : Nat}
    (hchain : MirrorChain request replacements vars index last links) :
    ∀ {fuel : Nat} {active : List Nat},
      (∀ other ∈ active, ∀ links',
        MirrorChain request replacements vars other last links' → links < links') →
      (measure request replacements vars fuel (index, active)).Settled →
      ∃ fuel' ≤ fuel, (measure request replacements vars fuel' (last, [])).Settled := by
  induction hchain with
  | @stop index hkind =>
      intro fuel active _ hsettled
      refine ⟨fuel, le_refl _, ?_⟩
      rw [measure_active hkind fuel [] active]
      exact hsettled
  | @link index target last links path hvisible hkind htarget hrest ih =>
      intro fuel active hactive hsettled
      have hself := MirrorChain.link hvisible hkind htarget hrest
      cases fuel with
      | zero => simp [measure] at hsettled
      | succ fuel =>
          have hfresh : index ∉ active := fun hmem =>
            absurd (hactive index hmem _ hself) (by omega)
          rw [measure_visible active fuel hvisible, hkind] at hsettled
          simp only [measureKind, hfresh, if_false, htarget,
            Eval.bind_settled_iff, Eval.liftM_eq, Eval.ofExcept_ok,
            Eval.done_bind] at hsettled
          have hlonger : ∀ other ∈ active ++ [index], ∀ links',
              MirrorChain request replacements vars other last links' →
                links < links' := by
            intro other hmem links' hother
            rcases List.mem_append.mp hmem with hmem | hmem
            · have := hactive other hmem links' hother
              omega
            · rw [List.mem_singleton.mp hmem] at hother
              have := (hself.unique hother).2
              omega
          obtain ⟨fuel', hle, hlast⟩ := ih hlonger hsettled.1
          exact ⟨fuel', by omega, hlast⟩

end

/-! Blocks: the two loops over children and the two paddings agree. -/

theorem measureChildren_agree {maxBytes : Fin 2147483648}
    {lengths : Nat → Run Int} {contents : Nat → Run Bytes}
    {overflow : ModelError} {result : Bytes} :
    ∀ (children : List Nat) (output : Bytes),
      (∀ child ∈ children, ∀ bytes, (lengths child).Settled →
        contents child = .done bytes → bytes.length ≤ maxBytes.val →
          lengths child = .done bytes.length) →
      output.length ≤ maxBytes.val →
      (measureChildren maxBytes.val lengths children output.length).Settled →
      renderChildren maxBytes.val overflow contents children output =
        .done result →
      measureChildren maxBytes.val lengths children output.length =
        .done result.length
  | [], output, _, _, _, hrender => by
      simp only [renderChildren, Eval.done.injEq] at hrender
      subst result
      rfl
  | child :: rest, output, hagree, hfits, hsettled, hrender => by
      have hbound := maxBytes.isLt
      simp only [renderChildren, Eval.bind_eq_done_iff, Eval.check_eq_done_iff]
        at hrender
      obtain ⟨bytes, hbytes, _, hcheck, hrest⟩ := hrender
      simp only [measureChildren, Eval.bind_settled_iff] at hsettled
      obtain ⟨hchild, htail⟩ := hsettled
      have hlength := hagree child (by simp) bytes hchild hbytes (by omega)
      have hroom : wrap32 ((maxBytes.val : Int) - output.length) =
          maxBytes.val - output.length := by
        apply wrap32_eq_self <;> omega
      have htotal : wrap32 ((output.length : Int) + bytes.length) =
          (output ++ bytes).length := by
        rw [List.length_append]
        push_cast
        apply wrap32_eq_self <;> omega
      have hpass : (bytes.length : Int) ≤
          wrap32 ((maxBytes.val : Int) - output.length) := by
        rw [hroom]
        exact hcheck
      have hsettledRest := (htail _ hlength).2 () (by simpa using hpass)
      rw [htotal] at hsettledRest
      have hih := measureChildren_agree rest (output ++ bytes)
        (fun candidate hmem => hagree candidate (by simp [hmem]))
        (by rw [List.length_append]; omega) hsettledRest hrest
      simp only [measureChildren, hlength, Eval.done_bind]
      rw [Eval.check_bind_of hpass, htotal]
      exact hih

theorem measurePadding_agree {maxBytes : Fin 2147483648}
    {alignment : Option Alignment} {output result : Bytes}
    (hfits : output.length ≤ maxBytes.val)
    (hrender : renderPadding maxBytes.val alignment output = .done result) :
    measurePadding maxBytes.val alignment output.length =
      .done result.length := by
  have hbound := maxBytes.isLt
  cases alignment with
  | none =>
      simp only [renderPadding, Eval.done.injEq] at hrender
      subst result
      rfl
  | some alignment =>
      simp only [renderPadding, Eval.bind_eq_done_iff, Eval.check_eq_done_iff,
        Eval.done.injEq] at hrender
      obtain ⟨_, hcheck, rfl⟩ := hrender
      have hmodulus := alignment.modulus_pos
      have hsmall := alignment.modulus_lt
      have hremainder := Nat.mod_lt output.length hmodulus
      have hlength : (alignmentPadding alignment output.length).length =
          alignment.modulus - output.length % alignment.modulus := by
        simp [alignmentPadding]
      have htmod : ((output.length : Int).tmod alignment.modulus) =
          (output.length % alignment.modulus : Nat) := by
        rw [Int.tmod_eq_emod_of_nonneg (by omega)]
        rfl
      have hpadding : wrap32 ((alignment.modulus : Int) -
          (output.length : Int).tmod alignment.modulus) =
            (alignmentPadding alignment output.length).length := by
        rw [htmod, hlength, wrap32_eq_self] <;> omega
      have hroom : wrap32 ((maxBytes.val : Int) - output.length) =
          maxBytes.val - output.length := by
        apply wrap32_eq_self <;> omega
      have htotal : wrap32 ((output.length : Int) +
          (alignmentPadding alignment output.length).length) =
            (output ++ alignmentPadding alignment output.length).length := by
        rw [List.length_append, wrap32_eq_self] <;> omega
      simp only [measurePadding, hpadding, hroom]
      rw [Eval.check_bind_of hcheck, htotal]

/-! One entry: its measured kind agrees with its rendered kind whenever the
calls it makes agree. -/

section

variable {request : CompiledRequest} {replacements : Replacements}
  {vars : Option Vars} {index : Nat}

theorem CandidateReplacements.lookup
    (hcandidates : CandidateReplacements request replacements) {value : Bytes}
    (hlookup : replacements.lookup index = some value) :
    ∃ position, position < (request.kind index).count ∧
      value = (request.kind index).candidate position :=
  hcandidates (index, value) (Replacements.mem_of_lookup hlookup)

theorem measureKind_replaced (hcandidates : CandidateReplacements request replacements)
    (hsteady : Steady request replacements vars index)
    (hkind : (request.kind index).isRepetition = false) {value : Bytes}
    (hlookup : replacements.lookup index = some value) (lengths : Call → Run Int)
    (active : List Nat) :
    measureKind request replacements vars lengths index active
      (request.kind index) = .done value.length := by
  obtain ⟨position, hposition, hvalue⟩ := hcandidates.lookup hlookup
  cases hentry : request.kind index with
  | atom field => simp [measureKind, hlookup]
  | dynamic field variableName => simp [measureKind, hlookup]
  | computedSize spec =>
      have hbinary : spec.ascii = false := by
        by_contra hascii
        have hnone := hsteady.ascii index spec .refl hentry (by simpa using hascii)
        simp [hlookup] at hnone
      rw [hentry] at hposition hvalue
      simp only [EntryKind.count, EntryKind.candidate] at hposition hvalue
      have hmem : value ∈ spec.mutations := by
        rw [hvalue, List.getD_eq_getElem?_getD, List.getElem?_eq_getElem hposition]
        exact List.getElem_mem hposition
      simp [measureKind, hbinary, spec.mutations_length hbinary value hmem]
  | computedChecksum spec =>
      rw [hentry] at hposition hvalue
      simp only [EntryKind.count, EntryKind.candidate] at hposition hvalue
      have hmem : value ∈ spec.mutations := by
        rw [hvalue, List.getD_eq_getElem?_getD, List.getElem?_eq_getElem hposition]
        exact List.getElem_mem hposition
      simp [measureKind, spec.mutations_length value hmem]
  | repetition path range variableName =>
      simp [hentry, EntryKind.isRepetition] at hkind
  | mirror target => simp [hentry, EntryKind.count] at hposition
  | container children => simp [hentry, EntryKind.count] at hposition

theorem repeatCount_nonneg (hcandidates : CandidateReplacements request replacements)
    (hsteady : Steady request replacements vars index) {path : Text}
    {range : RepeatRange} {variableName : Option Text}
    (hentry : request.kind index = .repetition path range variableName) {count : Int}
    (hcount : repeatCount replacements vars index variableName = .ok count) :
    0 ≤ count := by
  unfold repeatCount at hcount
  cases hlookup : replacements.lookup index with
  | some value =>
      obtain ⟨position, hposition, hvalue⟩ := hcandidates.lookup hlookup
      rw [hentry] at hposition hvalue
      have hdecoded := decodeRepeat_candidate path range variableName hposition
      simp only [hlookup, Except.ok.injEq] at hcount
      rw [← hcount, hvalue, hdecoded]
      exact_mod_cast Nat.zero_le (range.min + range.step * position)
  | none =>
      simp only [hlookup] at hcount
      split at hcount
      · rename_i name map
        split at hcount
        · rename_i bytes hbytes
          split at hcount
          · rename_i hlong
            rw [← Except.ok.inj hcount]
            exact hsteady.repeats index path range name map bytes .refl hentry
              hlookup rfl hbytes hlong
          · cases hcount
        · cases hcount
      · rw [← Except.ok.inj hcount]

theorem measureRepeat_agree {maxBytes : Fin 2147483648} {content : Bytes}
    {count : Int} {overflow : ModelError} (hnonneg : 0 ≤ count)
    (hcheck : content = [] ∨ count ≤ (maxBytes.val : Int).tdiv content.length) :
    (do
      Eval.check
        ((content.length : Int) = 0 ∨
          count ≤ (maxBytes.val : Int).tdiv content.length) overflow
      Eval.done (wrap32 (content.length * count))) =
        .done ((content.repeatTimes count).length : Int) := by
  obtain ⟨copies, rfl⟩ := Int.eq_ofNat_of_zero_le hnonneg
  have hbound := maxBytes.isLt
  have hproduct : content.length * copies ≤ maxBytes.val := by
    rcases hcheck with rfl | hcheck
    · simp
    · rw [Int.tdiv_eq_ediv_of_nonneg (by omega)] at hcheck
      have hquotient : copies ≤ maxBytes.val / content.length := by
        exact_mod_cast hcheck
      rw [Nat.mul_comm]
      exact (Nat.mul_le_mul_right _ hquotient).trans (Nat.div_mul_le_self _ _)
  have hpass : (content.length : Int) = 0 ∨
      (copies : Int) ≤ (maxBytes.val : Int).tdiv content.length := by
    rcases hcheck with rfl | hcheck
    · exact Or.inl rfl
    · exact Or.inr hcheck
  rw [Eval.check_bind_of hpass, Bytes.length_repeatTimes]
  have hexact : ((content.length * copies : Nat) : Int) =
      content.length * copies := by push_cast; rfl
  rw [← hexact, wrap32_eq_self] <;> omega

theorem measureKind_agree (hcandidates : CandidateReplacements request replacements)
    (htargets : BlockTargets request)
    (hsteady : Steady request replacements vars index)
    (hkind : (request.kind index).isMirror = false)
    {lengths : Call → Run Int} {contents : Call → Run Bytes}
    {sizes : SizeSpec → Run Bytes} {active : List Nat} {bytes : Bytes}
    (hblocks : ∀ inner bytes, (request.kind inner).isContainer = true →
      contents (inner, active) = .done bytes → bytes.length ≤ request.maxBytes.val)
    (hsizes : ∀ spec bytes, (sizeValueWith request lengths spec).Settled →
      sizes spec = .done bytes → sizeValueWith request lengths spec = .done bytes)
    (hwidths : ∀ spec bytes, spec.ascii = false → sizes spec = .done bytes →
      bytes.length = spec.length)
    (hagree : ∀ inner bytes, Refers request index inner →
      (lengths (inner, [])).Settled → contents (inner, active) = .done bytes →
        bytes.length ≤ request.maxBytes.val →
          lengths (inner, []) = .done bytes.length)
    (hlookup : (request.kind index).isRepetition = true ∨
      replacements.lookup index = none)
    (hsettled : (measureKind request replacements vars lengths index []
      (request.kind index)).Settled)
    (hrender : renderKind request replacements vars sizes contents index active
      (request.kind index) = .done bytes) :
    measureKind request replacements vars lengths index []
      (request.kind index) = .done bytes.length := by
  cases hentry : request.kind index with
  | mirror target => simp [hentry, EntryKind.isMirror] at hkind
  | atom field =>
      have hnone : replacements.lookup index = none := by
        simpa [hentry, EntryKind.isRepetition] using hlookup
      simp only [hentry, renderKind, Eval.bind_eq_done_iff, Eval.done.injEq] at hrender
      obtain ⟨_, -, rfl⟩ := hrender
      simp [measureKind, hnone]
  | dynamic field variableName =>
      have hnone : replacements.lookup index = none := by
        simpa [hentry, EntryKind.isRepetition] using hlookup
      simp only [hentry, renderKind, Eval.bind_eq_done_iff, Eval.done.injEq] at hrender
      obtain ⟨value, hvalue, rfl⟩ := hrender
      simp only [measureKind, hnone]
      rw [hvalue]
      rfl
  | computedChecksum spec =>
      simp only [hentry, renderKind] at hrender
      split at hrender
      · cases hrender
        simp [measureKind]
      · simp only [Eval.bind_eq_done_iff, Eval.done.injEq] at hrender
        obtain ⟨target, -, content, -, rfl⟩ := hrender
        simp [measureKind]
  | computedSize spec =>
      simp only [hentry, renderKind] at hrender
      by_cases hascii : spec.ascii = true
      · simp only [hentry, measureKind, hascii, if_true, Eval.bind_settled_iff]
          at hsettled
        simp only [measureKind, hascii, if_true]
        rw [hsizes spec bytes hsettled.1 hrender]
        rfl
      · -- A fixed-width size measures its width without computing its value.
        have hbinary : spec.ascii = false := by simpa using hascii
        simp [measureKind, hbinary, hwidths spec bytes hbinary hrender]
  | repetition path range variableName =>
      simp only [hentry, renderKind, measureKind, Eval.bind_eq_done_iff,
        Eval.bind_settled_iff, Eval.liftM_eq, Eval.ofExcept_eq_done_iff,
        Eval.check_eq_done_iff, Eval.done.injEq] at hrender hsettled
      obtain ⟨count, hcount, target, htarget, content, hcontent, _, hcheck, rfl⟩ :=
        hrender
      have hinner := (hsettled.2 count hcount).2 target htarget
      have hfits := hblocks target content
        (htargets.repetition _ _ _ _ _ hentry htarget) hcontent
      have hlength := hagree target content (.repetition hentry htarget)
        hinner.1 hcontent hfits
      have hnonneg := repeatCount_nonneg hcandidates hsteady hentry hcount
      simp only [measureKind, hcount, htarget, Eval.liftM_eq, Eval.ofExcept_ok,
        Eval.done_bind, hlength]
      exact measureRepeat_agree hnonneg hcheck
  | container children =>
      simp only [hentry, renderKind, measureKind, Eval.bind_eq_done_iff,
        Eval.bind_settled_iff] at hrender hsettled
      obtain ⟨output, houtput, hpadded⟩ := hrender
      have hchildren := measureChildren_agree children []
        (fun child hmem content hchild hcontent hfits =>
          hagree child content (.child hentry hmem) hchild hcontent hfits)
        (Nat.zero_le _) hsettled.1 houtput
      have hfits := renderChildren_length_le children [] (Nat.zero_le _) houtput
      simp only [measureKind]
      rw [show (0 : Int) = (([] : Bytes).length : Int) from rfl, hchildren]
      exact measurePadding_agree hfits hpadded

/-! Whole requests.  Rendering carries its active chain through blocks and
repeats, measuring drops it there; the chains below differ by mirrors whose own
measurement is still going on. -/

/-- A mirror whose chain ends at an entry that `fuel` does not suffice to
measure. -/
def Suspended (request : CompiledRequest) (replacements : Replacements)
    (vars : Option Vars) (fuel mirror : Nat) : Prop :=
  ∃ last links, MirrorChain request replacements vars mirror last links ∧
    ∀ fuel' ≤ fuel, ¬ (measure request replacements vars fuel' (last, [])).Settled

/-- The chain `around` of a rendering call extends the chain `active` of the
measuring call for the same entry by suspended mirrors only. -/
structure Extends (request : CompiledRequest) (replacements : Replacements)
    (vars : Option Vars) (fuel index : Nat) (active around : List Nat) : Prop where
  subset : ∀ mirror ∈ active, mirror ∈ around
  suspended : ∀ mirror ∈ around, mirror ∈ active ∨
    Suspended request replacements vars fuel mirror
  leads : ∀ mirror ∈ active, ∀ last links,
    MirrorChain request replacements vars index last links →
      ∃ links', links < links' ∧
        MirrorChain request replacements vars mirror last links'

theorem Suspended.mono {fuel fuel' mirror : Nat}
    (h : Suspended request replacements vars fuel mirror) (hle : fuel' ≤ fuel) :
    Suspended request replacements vars fuel' mirror := by
  obtain ⟨last, links, hchain, hpending⟩ := h
  exact ⟨last, links, hchain, fun smaller hsmaller => hpending smaller (by omega)⟩

theorem Extends.mono {fuel fuel' : Nat} {active around : List Nat}
    (h : Extends request replacements vars fuel index active around)
    (hle : fuel' ≤ fuel) :
    Extends request replacements vars fuel' index active around where
  subset := h.subset
  suspended := fun mirror hmem => (h.suspended mirror hmem).imp_right (·.mono hle)
  leads := h.leads

/-- Below an entry that is not a mirror the measuring chain starts afresh. -/
theorem Extends.inside {fuel fuel' : Nat} {active around : List Nat}
    (h : Extends request replacements vars fuel index active around)
    (hle : fuel' ≤ fuel) (hkind : (request.kind index).isMirror = false)
    (hpending : ∀ smaller ≤ fuel',
      ¬ (measure request replacements vars smaller (index, [])).Settled)
    (inner : Nat) :
    Extends request replacements vars fuel' inner [] around where
  subset := by simp
  suspended := by
    intro mirror hmem
    refine Or.inr ?_
    rcases h.suspended mirror hmem with hactive | hsuspended
    · obtain ⟨links, -, hchain⟩ := h.leads mirror hactive index 0 (.stop hkind)
      exact ⟨index, links, hchain, hpending⟩
    · exact hsuspended.mono hle
  leads := by simp

theorem Extends.follow {fuel fuel' target : Nat} {active around : List Nat}
    {path : Text} (h : Extends request replacements vars fuel index active around)
    (hle : fuel' ≤ fuel)
    (hvisible : request.isVisible replacements vars index = .ok true)
    (hkind : request.kind index = .mirror path)
    (htarget : request.resolve path = .ok target) :
    Extends request replacements vars fuel' target (active ++ [index])
      (around ++ [index]) where
  subset := by
    intro mirror hmem
    rcases List.mem_append.mp hmem with hmem | hmem
    · exact List.mem_append_left _ (h.subset mirror hmem)
    · exact List.mem_append_right _ hmem
  suspended := by
    intro mirror hmem
    rcases List.mem_append.mp hmem with hmem | hmem
    · exact (h.suspended mirror hmem).imp (List.mem_append_left _) (·.mono hle)
    · exact Or.inl (List.mem_append_right _ hmem)
  leads := by
    intro mirror hmem last links hchain
    have hself := MirrorChain.link hvisible hkind htarget hchain
    rcases List.mem_append.mp hmem with hmem | hmem
    · obtain ⟨links', hlt, hlonger⟩ := h.leads mirror hmem last _ hself
      exact ⟨links', by omega, hlonger⟩
    · rw [List.mem_singleton.mp hmem]
      exact ⟨links + 1, by omega, hself⟩

/-- A mirror that the rendering cuts short is cut short by the measurement too:
otherwise measuring it would settle what is still being measured around it. -/
theorem Extends.mem_active {fuel : Nat} {active around : List Nat}
    (h : Extends request replacements vars fuel index active around)
    (hsettled : (measure request replacements vars fuel (index, active)).Settled)
    (hmem : index ∈ around) : index ∈ active := by
  rcases h.suspended index hmem with hactive | ⟨last, links, hchain, hpending⟩
  · exact hactive
  · have hlonger : ∀ other ∈ active, ∀ links',
        MirrorChain request replacements vars other last links' →
          links < links' := by
      intro other hother links' hchain'
      obtain ⟨links'', hlt, hchain''⟩ := h.leads other hother last links hchain
      have := (hchain'.unique hchain'').2
      omega
    obtain ⟨fuel', hle, hlast⟩ := measure_settled_of_chain hchain hlonger hsettled
    exact absurd hlast (hpending fuel' hle)

theorem sizeValueWith_length {lengths : Call → Run Int} {spec : SizeSpec}
    {bytes : Bytes} (hbinary : spec.ascii = false)
    (hvalue : sizeValueWith request lengths spec = .done bytes) :
    bytes.length = spec.length := by
  simp only [sizeValueWith, Eval.bind_eq_done_iff] at hvalue
  obtain ⟨target, -, total, -, hencode⟩ := hvalue
  rw [encodeSize_eq] at hencode
  split at hencode
  · cases hencode
  · split at hencode
    · cases hencode
    · cases hencode
      exact writeSize_length hbinary _

theorem measure_done_of_le {first second : Nat} (hle : first ≤ second)
    {call : Call} {size : Int}
    (hdone : measure request replacements vars first call = .done size) :
    measure request replacements vars second call = .done size := by
  rw [Eval.eq_of_le_of_settled (measure_mono hle call) (by simp [hdone]), hdone]

private theorem measure_mirror_agree {fuel fuel' : Nat} {active around : List Nat}
    {bytes : Bytes} {path : Text}
    (hcandidates : CandidateReplacements request replacements)
    (hvisible : request.isVisible replacements vars index = .ok true)
    (hkind : request.kind index = .mirror path)
    (hextends : Extends request replacements vars (fuel + 1) index active around)
    (hsettled : (measure request replacements vars (fuel + 1)
      (index, active)).Settled)
    (hrender : renderNode request replacements vars (fuel' + 1) (index, around) =
      .done bytes)
    (hfits : bytes.length ≤ request.maxBytes.val)
    (hfollow : ∀ target, request.resolve path = .ok target →
      Extends request replacements vars fuel target (active ++ [index])
        (around ++ [index]) →
      (measure request replacements vars fuel (target, active ++ [index])).Settled →
      renderNode request replacements vars fuel' (target, around ++ [index]) =
        .done bytes →
      measure request replacements vars fuel (target, active ++ [index]) =
        .done bytes.length) :
    measure request replacements vars (fuel + 1) (index, active) =
      .done bytes.length := by
  have hnone : replacements.lookup index = none := by
    cases hlookup : replacements.lookup index with
    | none => rfl
    | some value =>
        obtain ⟨position, hposition, -⟩ := hcandidates.lookup hlookup
        simp [hkind, EntryKind.count] at hposition
  have hactive := hextends.mem_active hsettled
  rw [renderNode_kind around fuel' hvisible (Or.inr hnone), hkind] at hrender
  rw [measure_visible active fuel hvisible, hkind] at hsettled ⊢
  simp only [renderKind] at hrender
  simp only [measureKind] at hsettled ⊢
  by_cases hmem : index ∈ around
  · simp only [hmem, if_true, Eval.done.injEq] at hrender
    subst bytes
    simp [hactive hmem, measured, Eval.check]
  · have hfresh : index ∉ active := fun h => hmem (hextends.subset index h)
    simp only [hmem, if_false, Eval.bind_eq_done_iff, Eval.liftM_eq,
      Eval.ofExcept_eq_done_iff] at hrender
    obtain ⟨target, htarget, hrender⟩ := hrender
    simp only [hfresh, if_false, htarget, Eval.liftM_eq, Eval.ofExcept_ok,
      Eval.done_bind, Eval.bind_settled_iff] at hsettled ⊢
    have hinner := hfollow target htarget
      (hextends.follow (Nat.le_succ fuel) hvisible hkind htarget)
      hsettled.1 hrender
    rw [hinner]
    exact measured_eq_done (by exact_mod_cast hfits)

/-- Measuring gives the length of what is rendered. -/
theorem measure_agree (hcandidates : CandidateReplacements request replacements)
    (htargets : BlockTargets request) {fuel : Nat} :
    ∀ {index fuel' : Nat} {active around : List Nat} {bytes : Bytes},
      Steady request replacements vars index →
      Extends request replacements vars fuel index active around →
      (measure request replacements vars fuel (index, active)).Settled →
      renderNode request replacements vars fuel' (index, around) = .done bytes →
      bytes.length ≤ request.maxBytes.val →
      measure request replacements vars fuel (index, active) =
        .done bytes.length := by
  induction fuel using Nat.strong_induction_on with
  | _ fuel ih =>
      intro index fuel' active around bytes hsteady hextends hsettled hrender hfits
      obtain _ | fuel' := fuel'
      · simp [renderNode] at hrender
      obtain _ | fuel := fuel
      · simp [measure] at hsettled
      rcases hvisible : request.isVisible replacements vars index with error | shown
      · simp [renderNode, renderStep, hvisible] at hrender
      obtain rfl | rfl := Bool.eq_false_or_eq_true shown |>.symm
      · rw [renderNode_hidden around fuel' hvisible] at hrender
        cases hrender
        exact measure_hidden active fuel hvisible
      by_cases hmirror : (request.kind index).isMirror = true
      · obtain ⟨path, hkind⟩ : ∃ path, request.kind index = .mirror path := by
          cases hentry : request.kind index <;>
            simp_all [EntryKind.isMirror]
        apply measure_mirror_agree hcandidates hvisible hkind hextends hsettled
          hrender hfits
        intro target htarget hinside hinner hcontent
        exact ih fuel (Nat.lt_succ_self fuel)
          (hsteady.step (.mirror hkind htarget)) hinside hinner hcontent hfits
      have hkind : (request.kind index).isMirror = false := by simpa using hmirror
      -- With the least fuel that settles the entry, its own measurement is still
      -- pending while its parts are measured.
      by_cases hearlier : ∃ smaller ≤ fuel,
          (measure request replacements vars smaller (index, [])).Settled
      · obtain ⟨smaller, hle, hsmaller⟩ := hearlier
        rw [measure_active hkind smaller [] active] at hsmaller
        apply measure_done_of_le (hle.trans (Nat.le_succ fuel))
        exact ih smaller (by omega) hsteady (hextends.mono (by omega)) hsmaller
          hrender hfits
      push Not at hearlier
      rw [measure_visible active fuel hvisible,
        measureKind_active hkind _ index active []] at hsettled ⊢
      have hmeasured : measured request (bytes.length : Int) =
          .done (bytes.length : Int) := measured_eq_done (by exact_mod_cast hfits)
      suffices hsize : measureKind request replacements vars
          (measure request replacements vars fuel) index [] (request.kind index) =
            .done bytes.length by
        rw [hsize]
        exact hmeasured
      by_cases hreplaced : (request.kind index).isRepetition = true ∨
          replacements.lookup index = none
      · rw [renderNode_kind around fuel' hvisible hreplaced] at hrender
        refine measureKind_agree hcandidates htargets hsteady hkind ?_ ?_ ?_ ?_
          hreplaced (Eval.bind_settled_iff.mp hsettled).1 hrender
        · intro inner content hcontainer hcontent
          exact renderNode_container_length_le hcontainer hcontent
        · intro spec content hsized hcontent
          have hother : (sizeValue request replacements vars fuel' spec).Settled := by
            simp [hcontent]
          rw [← hcontent]
          exact Eval.settled_unique (sizeValue_mono spec) hsized hother
        · intro spec content hbinary hcontent
          exact sizeValueWith_length hbinary hcontent
        · intro inner content hrefers hinner hcontent hroom
          exact ih fuel (Nat.lt_succ_self fuel) (hsteady.step hrefers)
            (hextends.inside (Nat.le_succ fuel) hkind hearlier inner)
            hinner hcontent hroom
      · push Not at hreplaced
        obtain ⟨hplain, hlookup⟩ := hreplaced
        obtain ⟨value, hvalue⟩ := Option.ne_none_iff_exists'.mp hlookup
        have hplain : (request.kind index).isRepetition = false := by
          simpa using hplain
        rw [renderNode_replaced around fuel' hvisible hplain hvalue] at hrender
        simp only [Eval.bind_eq_done_iff, Eval.done.injEq] at hrender
        obtain ⟨_, -, rfl⟩ := hrender
        exact measureKind_replaced hcandidates hsteady hplain hvalue _ []

end

end CompiledRequest

end MoonBoofuzz
