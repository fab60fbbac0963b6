import MoonBoofuzz.Model.Lookup
import MoonBoofuzz.Mutation.Chains
import MoonBoofuzz.Mutation.Combinatorial
import MoonBoofuzz.Mutation.Emission

namespace MoonBoofuzz

namespace CompiledRequest

/-! The parts of a case are sent by name, with its leaf last. -/

def named (request : CompiledRequest) (part : Nat × Nat) : Text × Nat :=
  ((request.entry part.1).path, part.2)

/-- The order in which the parts of a case are looked up again. -/
def replayed (leaf : Nat × Nat) (parts : Parts) : Parts :=
  (parts.filter fun part => part ≠ leaf) ++ [leaf]

def bytesOf (request : CompiledRequest) (part : Nat × Nat) : Bytes :=
  (request.kind part.1).candidate part.2

section

variable {request : CompiledRequest}

theorem lookup_partReplacements (parts : Parts) (entry : Nat) :
    (request.partReplacements parts).lookup entry =
      (parts.find? fun part => part.1 == entry).map request.bytesOf := by
  induction parts with
  | nil => rfl
  | cons part rest ih =>
      simp only [partReplacements, Replacements.lookup, List.map_cons,
        List.lookup_cons, List.find?_cons] at ih ⊢
      by_cases hentry : part.1 = entry
      · simp [hentry, bytesOf]
      · have hentry' : entry ≠ part.1 := fun h => hentry h.symm
        simp only [beq_eq_false_iff_ne.mpr hentry, beq_eq_false_iff_ne.mpr hentry']
        exact ih

theorem caseReplacements_named (htable : Table request) {parts : Parts}
    (hparts : ∀ part ∈ parts, part.1 < request.entries.length) :
    request.caseReplacements (parts.map request.named) =
      .ok (request.partReplacements parts) := by
  induction parts with
  | nil => rfl
  | cons part rest ih =>
      obtain ⟨hpart, hrest⟩ := List.forall_mem_cons.mp hparts
      simp only [List.map_cons, caseReplacements, named, htable.resolve_self hpart]
      rw [exceptBind_eq_ok_iff]
      refine ⟨part.1, rfl, ?_⟩
      rw [exceptBind_eq_ok_iff]
      exact ⟨_, ih hrest, rfl⟩

/-- Where the leaf is the first candidate that the parts name for its field, any other
candidate they name for it has the same bytes. -/
def Settles (request : CompiledRequest) (parts : Parts) : Prop :=
  (parts.find? fun part => part.1 == (parts.getLastD (0, 0)).1) =
      some (parts.getLastD (0, 0)) →
    ∀ other, (parts.find? fun part => decide (part ≠ parts.getLastD (0, 0)) &&
        part.1 == (parts.getLastD (0, 0)).1) = some other →
      request.bytesOf other = request.bytesOf (parts.getLastD (0, 0))

theorem lookup_replayed (leaf : Nat × Nat) (parts : Parts) (entry : Nat) :
    (request.partReplacements (replayed leaf parts)).lookup entry =
      (((parts.find? fun part => decide (part ≠ leaf) && part.1 == entry).or
        (if leaf.1 = entry then some leaf else none)).map request.bytesOf) := by
  have hfilter : (parts.filter fun part => part ≠ leaf).find? (fun part => part.1 == entry) =
      parts.find? fun part => decide (part ≠ leaf) && part.1 == entry := by
    rw [List.find?_filter]
    congr 1
    funext part
    rw [Bool.decide_and, Bool.decide_eq_true, Bool.decide_eq_true]
  have hlast : [leaf].find? (fun part => part.1 == entry) =
      if leaf.1 = entry then some leaf else none := by
    rw [List.find?_singleton]
    simp only [beq_iff_eq]
  rw [lookup_partReplacements, replayed, List.find?_append, hfilter, hlast]

theorem lookup_replayed_other {leaf : Nat × Nat} {parts : Parts} {entry : Nat}
    (hentry : leaf.1 ≠ entry) :
    (request.partReplacements (replayed leaf parts)).lookup entry =
      (request.partReplacements parts).lookup entry := by
  rw [lookup_replayed, lookup_partReplacements, if_neg hentry, Option.or_none]
  congr 2
  funext part
  by_cases hpart : part = leaf
  · simp [hpart, hentry]
  · simp [hpart]

/-- The parts that are sent put the same bytes everywhere as the parts the case was built
from exactly when they settle. -/
theorem lookup_replayed_iff (front : Parts) (leaf : Nat × Nat) :
    (∀ entry, (request.partReplacements (replayed leaf (front ++ [leaf]))).lookup entry =
        (request.partReplacements (front ++ [leaf])).lookup entry) ↔
      request.Settles (front ++ [leaf]) := by
  have hfield : (∀ entry,
      (request.partReplacements (replayed leaf (front ++ [leaf]))).lookup entry =
        (request.partReplacements (front ++ [leaf])).lookup entry) ↔
      (request.partReplacements (replayed leaf (front ++ [leaf]))).lookup leaf.1 =
        (request.partReplacements (front ++ [leaf])).lookup leaf.1 := by
    refine ⟨fun hall => hall leaf.1, fun hleaf entry => ?_⟩
    by_cases hentry : leaf.1 = entry
    · exact hentry ▸ hleaf
    · exact lookup_replayed_other hentry
  rw [hfield, lookup_replayed, lookup_partReplacements, if_pos rfl, Settles,
    List.getLastD_concat]
  generalize hparts : front ++ [leaf] = parts
  have hmem : leaf ∈ parts := by simp [← hparts]
  obtain ⟨first, hfirst⟩ : ∃ first,
      parts.find? (fun part => part.1 == leaf.1) = some first := by
    rw [← Option.isSome_iff_exists, List.find?_isSome]
    exact ⟨leaf, hmem, by simp⟩
  rw [hfirst]
  by_cases hleaf : first = leaf
  · subst hleaf
    cases hother : parts.find? fun part => decide (part ≠ first) && part.1 == first.1 with
    | none => simp
    | some other => simp
  · -- The first candidate is not the leaf, so it is not dropped either.
    have hkept : parts.find? (fun part => decide (part ≠ leaf) && part.1 == leaf.1) =
        some first := by
      obtain ⟨hentry, before, after, rfl, hbefore⟩ :=
        List.find?_eq_some_iff_append.mp hfirst
      refine List.find?_eq_some_iff_append.mpr ⟨by simpa [hleaf] using hentry, before, after,
        rfl, fun part hpart => ?_⟩
      have hnot := hbefore part hpart
      simp only [Bool.not_eq_true'] at hnot ⊢
      rw [hnot, Bool.and_false]
    rw [hkept]
    simp [hleaf]

theorem caseReplacements_replayed (htable : Table request) {front : Parts}
    {leaf : Nat × Nat}
    (hcount : ∀ part ∈ front ++ [leaf], part.2 < (request.kind part.1).count)
    {vars : Option Vars} {ordinal : Nat} {case : MutationCase}
    (hbuild : Eval.Returns (request.buildCase vars ordinal (front ++ [leaf])) case) :
    request.caseReplacements case.parts =
      .ok (request.partReplacements (replayed leaf (front ++ [leaf]))) := by
  obtain ⟨fuel, hdone⟩ := hbuild
  simp only [buildCase, List.getLastD_concat, Eval.bind_eq_done_iff,
    Eval.done.injEq] at hdone
  obtain ⟨_, -, payload, -, rfl⟩ := hdone
  have hparts : request.extraParts leaf (front ++ [leaf]) ++ [request.named leaf] =
      (replayed leaf (front ++ [leaf])).map request.named := by
    simp only [extraParts, replayed, List.map_append, List.map_cons, List.map_nil]
    rfl
  have hinside : ∀ part ∈ replayed leaf (front ++ [leaf]),
      part.1 < request.entries.length := by
    intro part hmem
    apply lt_of_count
    apply hcount part
    rcases List.mem_append.mp hmem with hmem | hmem
    · exact List.mem_of_mem_filter hmem
    · simp [List.mem_singleton.mp hmem]
  rw [← caseReplacements_named htable hinside, ← hparts]
  rfl

theorem renderCase_parts (htable : Table request) {front : Parts}
    {leaf : Nat × Nat}
    (hcount : ∀ part ∈ front ++ [leaf], part.2 < (request.kind part.1).count)
    (hsettles : request.Settles (front ++ [leaf])) {vars : Option Vars} {ordinal : Nat}
    {case : MutationCase}
    (hbuild : Eval.Returns (request.buildCase vars ordinal (front ++ [leaf])) case) :
    Eval.Returns (request.renderCase case.parts vars) case.payload := by
  have hreplacements := caseReplacements_replayed htable hcount hbuild
  obtain ⟨fuel, hdone⟩ := hbuild
  simp only [buildCase, List.getLastD_concat, Eval.bind_eq_done_iff,
    Eval.done.injEq] at hdone
  obtain ⟨_, -, payload, hpayload, rfl⟩ := hdone
  refine ⟨fuel, ?_⟩
  simp only [renderCase, hreplacements, Eval.liftM_eq, Eval.ofExcept_ok, Eval.done_bind,
    renderNode_congr ((lookup_replayed_iff front leaf).mpr hsettles)]
  exact hpayload

/-- The field lies inside two nested blocks that both name it as their group. -/
def Doubled (request : CompiledRequest) (field : Nat) : Prop :=
  ∃ outer inner, request.Encloses outer inner ∧ request.Encloses inner field ∧
    (request.entry outer).group = some (request.entry field).path ∧
    (request.entry inner).group = some (request.entry field).path

/-- A field that groups two nested blocks around itself has only one candidate
value. -/
def SinglyGrouped (request : CompiledRequest) : Prop :=
  ∀ field, request.Doubled field → ∀ i j, i < (request.kind field).count →
    j < (request.kind field).count → request.bytesOf (field, i) = request.bytesOf (field, j)

theorem settles_of_front {front : Parts} {leaf : Nat × Nat}
    (hfront : ∀ other ∈ front, other ≠ leaf → other.1 = leaf.1 → leaf ∈ front →
      request.bytesOf other = request.bytesOf leaf) :
    request.Settles (front ++ [leaf]) := by
  rw [Settles, List.getLastD_concat]
  intro hfirst other hother
  obtain ⟨hne, hentry⟩ : other ≠ leaf ∧ other.1 = leaf.1 := by
    simpa using List.find?_some hother
  have hmem : other ∈ front := by
    rcases List.mem_append.mp (List.mem_of_find?_eq_some hother) with hmem | hmem
    · exact hmem
    · exact absurd (List.mem_singleton.mp hmem) hne
  refine hfront other hmem hne hentry ?_
  -- Found before the end of the list, as there is another match before it.
  rw [List.find?_append] at hfirst
  cases hfound : front.find? fun part => part.1 == leaf.1 with
  | none => exact absurd (List.find?_eq_none.mp hfound other hmem) (by simp [hentry])
  | some found =>
      rw [hfound, Option.some_or, Option.some.injEq] at hfirst
      exact hfirst ▸ List.mem_of_find?_eq_some hfound

theorem Assembled.parts {root : Block} {maxBytes : Int32} {fuel : Nat}
    (hassembled : Assembled root maxBytes fuel request) {parts : Parts}
    (hmem : parts ∈ denote request request.seq) :
    ∃ front leaf, parts = front ++ [leaf] ∧
      ∀ part ∈ front ++ [leaf], part.2 < (request.kind part.1).count := by
  obtain ⟨groups, front, leaf, -, rfl, hchain⟩ := hassembled.chain hmem
  exact ⟨front, leaf, rfl, hchain.count⟩

theorem Assembled.settles {root : Block} {maxBytes : Int32} {fuel : Nat}
    (hassembled : Assembled root maxBytes fuel request)
    (hsingle : request.SinglyGrouped) {parts : Parts}
    (hmem : parts ∈ denote request request.seq) : request.Settles parts := by
  obtain ⟨groups, front, leaf, hgroups, rfl, hchain⟩ := hassembled.chain hmem
  refine settles_of_front fun other hother hne hentry hleaf => ?_
  obtain ⟨field, i⟩ := other
  obtain rfl : field = leaf.1 := hentry
  obtain ⟨outer, inner, houter, hinner, houterGroup, hinnerGroup⟩ :=
    hchain.nested hother hleaf hne rfl
  have hdoubled : request.Doubled leaf.1 :=
    ⟨outer, inner, houter, hinner, hassembled.group hgroups houterGroup,
      hassembled.group hgroups hinnerGroup⟩
  exact hsingle leaf.1 hdoubled i leaf.2 (hchain.count _ (List.mem_append_left _ hother))
    (hchain.count _ (List.mem_append_left _ hleaf))

structure Sound (request : CompiledRequest) (state : CombState) : Prop where
  units : ∀ unit ∈ state.units, EndsAtChild unit ∧
    ∀ part ∈ unit.parts, part.index < (request.kind part.entry).count
  frames : ∀ frame ∈ state.frames, ∀ part ∈ frame.parts,
    part.index < (request.kind part.entry).count

/-- A list of parts of existing candidates with paths apart. -/
structure Combined (request : CompiledRequest) (parts : Parts) : Prop where
  nonempty : parts ≠ []
  count : ∀ part ∈ parts, part.2 < (request.kind part.1).count
  apart : parts.Pairwise request.Apart

theorem Sound.setFrames {state : CombState} (hsound : Sound request state)
    {depth emitted : Nat} {frames : List CombFrame}
    (hframes : ∀ frame ∈ frames, ∀ part ∈ frame.parts,
      part.index < (request.kind part.entry).count) :
    Sound request { state with
      depth := depth
      depthEmitted := emitted
      frames := frames } :=
  ⟨hsound.units, hframes⟩

theorem Combined.of_unit {unit : StreamUnit} {outer : List UnitPart}
    (hends : EndsAtChild unit)
    (hcount : ∀ part ∈ outer ++ unit.parts,
      part.index < (request.kind part.entry).count)
    (hapart : request.containsDuplicatePaths (outer ++ unit.parts) = false) :
    request.Combined ((outer ++ unit.parts).map (·.pair)) where
  nonempty := by
    obtain ⟨index, hlast⟩ := hends
    intro hnil
    have hunit : unit.parts = [] :=
      (List.append_eq_nil_iff.mp (List.map_eq_nil_iff.mp hnil)).2
    simp [hunit] at hlast
  count := by
    intro part hmem
    obtain ⟨unitPart, hpart, rfl⟩ := List.mem_map.mp hmem
    exact hcount unitPart hpart
  apart := by simpa [containsDuplicatePaths_eq] using hapart

theorem combTurn_keeps : Walker.Keeps request.combTurn (Sound request)
    request.Combined := by
  intro state hsound
  unfold combTurn
  cases hframes : state.frames with
  | nil => exact hsound
  | cons frame rest =>
      have hframe := hsound.frames frame (by simp [hframes])
      have hrest : ∀ other ∈ rest, ∀ part ∈ other.parts,
          part.index < (request.kind part.entry).count :=
        fun other hmem => hsound.frames other (by simp [hframes, hmem])
      have hstay : ∀ {entered : CombFrame}, entered.parts = frame.parts →
          ∀ other ∈ entered :: rest, ∀ part ∈ other.parts,
            part.index < (request.kind part.entry).count := by
        intro entered hparts
        exact List.forall_mem_cons.mpr ⟨hparts ▸ hframe, hrest⟩
      cases hunit : state.units[frame.unitIndex]? with
      | none =>
          cases rest with
          | nil =>
              simp only [hunit, finishDepth]
              split
              · exact hsound.setFrames (by simp)
              · exact hsound.setFrames (by simp [CombFrame.new])
          | cons next others =>
              simp only [hunit]
              exact hsound.setFrames hrest
      | some unit =>
          obtain ⟨hends, hcounts⟩ := hsound.units unit (List.mem_of_getElem? hunit)
          have hall : ∀ part ∈ frame.parts ++ unit.parts,
              part.index < (request.kind part.entry).count :=
            List.forall_mem_append.mpr ⟨hframe, hcounts⟩
          simp only [hunit]
          split
          · exact hsound.setFrames (hstay rfl)
          · split
            · exact hsound.setFrames (List.forall_mem_cons.mpr ⟨hall, hstay rfl⟩)
            · split
              · exact hsound.setFrames (hstay rfl)
              · rename_i hapart
                exact ⟨.of_unit hends hall (by simpa using hapart),
                  hsound.setFrames (hstay rfl)⟩

theorem Combined.settles {front : Parts} {leaf : Nat × Nat}
    (hcombined : request.Combined (front ++ [leaf])) :
    request.Settles (front ++ [leaf]) := by
  refine settles_of_front fun other hother _ hentry _ => ?_
  have hapart := (List.pairwise_append.mp hcombined.apart).2.2 other hother leaf (by simp)
  rw [Apart, hentry] at hapart
  exact absurd (List.infix_refl _) hapart.1

theorem Assembled.sound {root : Block} {maxBytes : Int32} {fuel : Nat}
    (hassembled : Assembled root maxBytes fuel request) (maxDepth : Option Int) :
    Sound request ⟨collectUnits request [] request.seq, maxDepth, 1, 0, [.new]⟩ where
  units := by
    intro unit hmem
    refine ⟨collectUnits_child request.seq [] unit hmem, fun part hpart => ?_⟩
    have hparts : unit.parts.map (·.pair) ∈ denote request request.seq := by
      have hunits := @collectUnits_parts request request.seq []
      simp only [List.map_nil, List.nil_append, List.map_id'] at hunits
      rw [← hunits]
      exact List.mem_map.mpr ⟨unit, hmem, rfl⟩
    obtain ⟨groups, front, leaf, -, hsplit, hchain⟩ := hassembled.chain hparts
    refine hchain.count part.pair ?_
    rw [← hsplit]
    exact List.mem_map.mpr ⟨part, hpart, rfl⟩
  frames := by simp [CombFrame.new]

end

end CompiledRequest

namespace CaseStream

/-- In the sequential mode the candidate at the position settles. -/
def SettledAt (request : CompiledRequest) (mode : CompiledRequest.Mode)
    (position : Nat) : Prop :=
  mode = .sequential → ∀ parts,
    (CompiledRequest.denote request request.seq)[position]? = some parts →
      request.Settles parts

theorem Originates.settles {request : CompiledRequest} {root : Block}
    {maxBytes : Int32} {fuel : Nat}
    (hassembled : CompiledRequest.Assembled root maxBytes fuel request)
    {mode : CompiledRequest.Mode} {vars : Option Vars} {case : MutationCase}
    (horiginates : Originates request vars (request.initialCursor mode) case)
    (hsettled : SettledAt request mode case.ordinal.toNat) :
    ∃ position front leaf,
      (∀ part ∈ front ++ [leaf], part.2 < (request.kind part.1).count) ∧
        request.Settles (front ++ [leaf]) ∧
        Eval.Returns (request.buildCase vars position (front ++ [leaf])) case := by
  obtain ⟨values, parts, last, htakes, hposition, hbuild⟩ := horiginates
  cases mode with
  | sequential =>
      have hat := htakes.getElem?_of_drains request.sequentialCursor_drains
      obtain ⟨front, leaf, rfl, hcount⟩ :=
        hassembled.parts (List.mem_of_getElem? hat)
      rw [← hposition, Int.toNat_natCast] at hsettled
      exact ⟨_, front, leaf, hcount, hsettled rfl _ hat, hbuild⟩
  | combinatorial maxDepth =>
      have hkeeps := CompiledRequest.keeps_lift request.cursorTurn_combinatorial
        CompiledRequest.combTurn_keeps
      have hcombined := hkeeps.takes htakes ⟨_, rfl, hassembled.sound maxDepth⟩ parts
        (by simp)
      obtain ⟨front, leaf, rfl⟩ := List.eq_nil_or_concat' parts |>.resolve_left
        hcombined.nonempty
      exact ⟨_, front, leaf, hcombined.count, hcombined.settles, hbuild⟩

/-- What a stream emits is what is sent: the case rendered again from its named parts
has the payload it was emitted with, where its candidate settles.  The two renderings put
the same bytes into every field exactly then, and on a request with no field that groups
two nested blocks around itself all candidates settle. -/
theorem replay_payload {root : Block} {maxBytes : Int32} {request : CompiledRequest}
    (hcompile : Eval.Returns (CompiledRequest.compile root maxBytes) request)
    {mode : CompiledRequest.Mode} {vars : Option Vars} {start limit : Int32}
    {stream after : CaseStream}
    (hstream : request.enumerate mode vars start limit = .ok stream)
    {answers : List Answer} (hcalls : Calls stream answers after)
    {case : MutationCase} (hcase : .done (some case) ∈ answers) :
    (SettledAt request mode case.ordinal.toNat →
        Eval.Returns (request.renderCase case.parts vars) case.payload) ∧
      (mode = .sequential → ∃ parts replacements,
        (CompiledRequest.denote request request.seq)[case.ordinal.toNat]? = some parts ∧
          Eval.Returns (request.buildCase vars case.ordinal.toNat parts) case ∧
          request.caseReplacements case.parts = .ok replacements ∧
          ((∀ entry, replacements.lookup entry =
              (request.partReplacements parts).lookup entry) ↔ request.Settles parts)) ∧
      (request.SinglyGrouped → SettledAt request mode case.ordinal.toNat) := by
  obtain ⟨fuel, hdone⟩ := hcompile
  have hassembled := (CompiledRequest.compile_eq_done hdone).assembled
  have horiginates := enumerate_originates hstream hcalls hcase
  refine ⟨fun hsettled => ?_, fun hmode => ?_, fun hsingle _ parts hparts =>
    hassembled.settles hsingle (List.mem_of_getElem? hparts)⟩
  · obtain ⟨_, front, leaf, hcount, hsettles, hbuild⟩ :=
      horiginates.settles hassembled hsettled
    exact CompiledRequest.renderCase_parts hassembled.table hcount hsettles hbuild
  · subst hmode
    obtain ⟨values, parts, last, htakes, hposition, hbuild⟩ := horiginates
    have hat := htakes.getElem?_of_drains request.sequentialCursor_drains
    obtain ⟨front, leaf, rfl, hcount⟩ := hassembled.parts (List.mem_of_getElem? hat)
    rw [← hposition, Int.toNat_natCast]
    exact ⟨_, _, hat, hbuild,
      CompiledRequest.caseReplacements_replayed hassembled.table hcount hbuild,
      CompiledRequest.lookup_replayed_iff front leaf⟩

def pairedCase : MutationCase where
  id := Text.ofAscii "v1:r.a:1+r.b:0"
  requestName := Text.ofAscii "r"
  fieldPath := Text.ofAscii "r.b"
  mutationIndex := 0
  ordinal := 4
  payload := [0x33, 0x35]
  extra := [(Text.ofAscii "r.a", 1)]

theorem pairedRequest_singlyGrouped :
    ∀ request ∈ [CompiledRequest.pairedRequest], request.SinglyGrouped := by
  refine List.forall_mem_singleton.mpr ?_
  rintro field ⟨outer, inner, -, -, hgroup, -⟩
  rcases outer with _ | _ | _ | outer <;> cases hgroup

def doubledField : Field := Field.simple [0x30] [[0x31], [0x32]]

def doubledRoot : Block :=
  Block.new (Text.ofAscii "r")
    [.nested ⟨Text.ofAscii "a",
      [.nested ⟨Text.ofAscii "b",
        [.leaf (Text.ofAscii "g") doubledField],
        none, none, some (Text.ofAscii "r.a.b.g")⟩],
      none, none, some (Text.ofAscii "r.a.b.g")⟩]

def doubledSeq : CaseSeq :=
  .sequence [.sequence [.plain 3], .product 3 (.sequence [.plain 3])]

def doubledRequest : CompiledRequest where
  name := Text.ofAscii "r"
  entries :=
    [⟨Text.ofAscii "r", none, .container [1], none, none, none⟩,
     ⟨Text.ofAscii "r.a", some 0, .container [2], none, none,
       some (Text.ofAscii "r.a.b.g")⟩,
     ⟨Text.ofAscii "r.a.b", some 1, .container [3], none, none,
       some (Text.ofAscii "r.a.b.g")⟩,
     ⟨Text.ofAscii "r.a.b.g", some 2, .atom doubledField, none, none, none⟩]
  paths :=
    [(Text.ofAscii "r", 0), (Text.ofAscii "r.a", 1), (Text.ofAscii "r.a.b", 2),
     (Text.ofAscii "r.a.b.g", 3)]
  maxBytes := 64
  seq := .sequence [.sequence [.sequence [doubledSeq],
    .product 3 (.sequence [doubledSeq])]]

theorem doubledRoot_compiles :
    CompiledRequest.compile doubledRoot 64 8 = .done doubledRequest := rfl

def doubledStream : CaseStream where
  request := doubledRequest
  limit := 1
  skip := 10
  ordinal := 10
  emitted := 0
  state := .running
  cursor := doubledRequest.sequentialCursor
  vars := none

def doubledCase : MutationCase where
  id := Text.ofAscii "v1:r.a.b.g:0+r.a.b.g:1+r.a.b.g:0"
  requestName := Text.ofAscii "r"
  fieldPath := Text.ofAscii "r.a.b.g"
  mutationIndex := 0
  ordinal := 10
  payload := [0x31]
  extra := [(Text.ofAscii "r.a.b.g", 1)]

def settledCase : MutationCase where
  id := Text.ofAscii "v1:r.a.b.g:1+r.a.b.g:0+r.a.b.g:0"
  requestName := Text.ofAscii "r"
  fieldPath := Text.ofAscii "r.a.b.g"
  mutationIndex := 0
  ordinal := 14
  payload := [0x32]
  extra := [(Text.ofAscii "r.a.b.g", 1)]

/-- Where the outer block has the other candidate, the case is sent as it was emitted. -/
theorem settledCase_replays :
    Eval.Returns (doubledRequest.renderCase settledCase.parts none) [0x32] := by
  have hstream : doubledRequest.enumerate .sequential none 14 1 =
      .ok { doubledStream with skip := 14, ordinal := 14 } := rfl
  have hanswers : Answers { doubledStream with skip := 14, ordinal := 14 }
      (.done (some settledCase))
      (next 60 { doubledStream with skip := 14, ordinal := 14 }).2 := ⟨60, rfl, by simp⟩
  refine (replay_payload ⟨8, doubledRoot_compiles⟩ hstream (.cons hanswers (.nil _))
    (List.mem_singleton.mpr rfl)).1 ?_
  intro _ parts hparts hfirst
  have hraw : (CompiledRequest.denote doubledRequest doubledRequest.seq)[14]? =
      some [(3, 1), (3, 0), (3, 0)] := rfl
  obtain rfl := Option.some.inj (hraw.symm.trans hparts)
  cases hfirst

/-- The eleventh case mutates the field three times, to its first, second and again
first candidate.  It is emitted with the first and sent with the second. -/
theorem doubledCase_differs :
    Eval.Returns (CompiledRequest.compile doubledRoot 64) doubledRequest ∧
      doubledRequest.enumerate .sequential none 10 1 = .ok doubledStream ∧
      (∃ after, Calls doubledStream [.done (some doubledCase)] after) ∧
      Eval.Returns (doubledRequest.renderCase doubledCase.parts none) [0x32] ∧
      ¬ Eval.Returns (doubledRequest.renderCase doubledCase.parts none)
        doubledCase.payload := by
  have hanswers : Answers doubledStream (.done (some doubledCase))
      (next 60 doubledStream).2 := ⟨60, rfl, by simp⟩
  have hsent : Eval.Returns (doubledRequest.renderCase doubledCase.parts none) [0x32] :=
    ⟨8, rfl⟩
  refine ⟨⟨8, doubledRoot_compiles⟩, rfl, ⟨_, .cons hanswers (.nil _)⟩, hsent, ?_⟩
  intro hpayload
  have hequal := hsent.unique (CompiledRequest.renderCase_mono _ _ _) hpayload
  revert hequal
  decide

end CaseStream

end MoonBoofuzz
