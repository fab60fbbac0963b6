import Mathlib.Data.Prod.Lex
import Mathlib.Tactic.Ring
import MoonBoofuzz.Mutation.Sequential

namespace MoonBoofuzz

namespace CompiledRequest

variable {request : CompiledRequest} {units : List StreamUnit}

/-! The combinatorial walker comes to its end. -/

/-- A frame below some others; a different unit was entered on each of them. -/
structure Descended (units : List StreamUnit) (outer : Nat) (frame : CombFrame) :
    Prop where
  index : frame.unitIndex ≤ units.length
  kept : frame.incoming ⊆ frame.acc
  entered : ∃ children : List Nat, children.Nodup ∧ children.length = outer ∧
    children ⊆ frame.incoming ∧ children ⊆ units.map (·.child)

def Levels (units : List StreamUnit) : List CombFrame → Prop
  | [] => True
  | frame :: rest => Descended units rest.length frame ∧ Levels units rest

structure Walking (units : List StreamUnit) (state : CombState) : Prop where
  sameUnits : state.units = units
  ends : ∀ unit ∈ units, EndsAtChild unit
  within : state.frames.length ≤ state.depth
  deepest : state.depth ≤ units.length + 1
  emitted : state.depthEmitted ≠ 0 → state.depth ≤ units.length
  levels : Levels units state.frames

/-- The passes that a stack of frames has left at most, innermost frame first. -/
def weight (units depth : Nat) : List CombFrame → Nat
  | [] => 0
  | frame :: rest =>
      (units + 1 - frame.unitIndex) * (units + 2) ^ (depth - (rest.length + 1)) +
        weight units depth rest

theorem weight_cons (units depth : Nat) (frame : CombFrame) (rest : List CombFrame) :
    weight units depth (frame :: rest) =
      (units + 1 - frame.unitIndex) * (units + 2) ^ (depth - (rest.length + 1)) +
        weight units depth rest := rfl

def walkMeasure (units : List StreamUnit) (state : CombState) : Lex (Nat × Nat) :=
  toLex (units.length + 1 - state.depth, weight units.length state.depth state.frames)

theorem descended_new : Descended units 0 .new :=
  ⟨Nat.zero_le _, List.Subset.refl _, [], List.nodup_nil, rfl, List.nil_subset _,
    List.nil_subset _⟩

theorem Descended.next {outer : Nat} {frame : CombFrame} {unit : StreamUnit}
    (hframe : Descended units outer frame)
    (hunit : units[frame.unitIndex]? = some unit) (more : List Nat) :
    Descended units outer
      { frame with unitIndex := frame.unitIndex + 1, acc := frame.acc ++ more } where
  index := (List.getElem?_eq_some_iff.mp hunit).1
  kept := fun _ hmem => List.mem_append_left _ (hframe.kept hmem)
  entered := hframe.entered

theorem child_mem {unit : StreamUnit} (hends : EndsAtChild unit) :
    unit.child ∈ unit.parts.map (·.entry) := by
  obtain ⟨index, hlast⟩ := hends
  exact List.mem_map.mpr ⟨_, List.mem_of_getLast? hlast, rfl⟩

theorem Descended.entered_cons {outer : Nat} {frame : CombFrame} {unit : StreamUnit}
    (hframe : Descended units outer frame)
    (hunit : units[frame.unitIndex]? = some unit) (hskip : unit.child ∉ frame.incoming) :
    ∃ children : List Nat, children.Nodup ∧ children.length = outer + 1 ∧
      (∀ child ∈ children, child ∈ frame.incoming ∨ child = unit.child) ∧
      children ⊆ units.map (·.child) := by
  obtain ⟨children, hnodup, hlength, hincoming, hunits⟩ := hframe.entered
  refine ⟨unit.child :: children, ?_, by simp [hlength], ?_, ?_⟩
  · exact List.nodup_cons.mpr ⟨fun hmem => hskip (hincoming hmem), hnodup⟩
  · intro child hmem
    rcases List.mem_cons.mp hmem with rfl | hmem
    · exact Or.inr rfl
    · exact Or.inl (hincoming hmem)
  · refine List.cons_subset.mpr ⟨?_, hunits⟩
    exact List.mem_map.mpr ⟨unit, List.mem_of_getElem? hunit, rfl⟩

theorem Descended.inner {outer : Nat} {frame : CombFrame} {unit : StreamUnit}
    (hframe : Descended units outer frame)
    (hunit : units[frame.unitIndex]? = some unit) (hskip : unit.child ∉ frame.incoming)
    (hends : EndsAtChild unit) (parts : List UnitPart) :
    Descended units (outer + 1) {
      unitIndex := 0
      incoming := frame.acc ++ unit.parts.map (·.entry)
      acc := frame.acc ++ unit.parts.map (·.entry)
      parts := parts } where
  index := Nat.zero_le _
  kept := List.Subset.refl _
  entered := by
    obtain ⟨children, hnodup, hlength, hmem, hunits⟩ := hframe.entered_cons hunit hskip
    refine ⟨children, hnodup, hlength, fun child hchild => ?_, hunits⟩
    rcases hmem child hchild with hincoming | rfl
    · exact List.mem_append_left _ (hframe.kept hincoming)
    · exact List.mem_append_right _ (child_mem hends)

theorem Descended.depth_le {outer : Nat} {frame : CombFrame} {unit : StreamUnit}
    (hframe : Descended units outer frame)
    (hunit : units[frame.unitIndex]? = some unit) (hskip : unit.child ∉ frame.incoming) :
    outer + 1 ≤ units.length := by
  obtain ⟨children, hnodup, hlength, -, hunits⟩ := hframe.entered_cons hunit hskip
  have hle := hnodup.length_le_of_subset hunits
  rwa [hlength, List.length_map] at hle

theorem weight_next {frame entered : CombFrame} {rest : List CombFrame} {depth : Nat}
    (hindex : frame.unitIndex < units.length)
    (hentered : entered.unitIndex = frame.unitIndex + 1) :
    weight units.length depth (entered :: rest) +
        (units.length + 2) ^ (depth - (rest.length + 1)) =
      weight units.length depth (frame :: rest) := by
  obtain ⟨left, hleft⟩ := Nat.exists_eq_add_of_lt hindex
  simp only [weight_cons, hentered, hleft]
  have hmore : frame.unitIndex + left + 1 + 1 - frame.unitIndex = left + 2 := by omega
  have hless : frame.unitIndex + left + 1 + 1 - (frame.unitIndex + 1) = left + 1 := by
    omega
  rw [hmore, hless]
  ring

theorem weight_inner {frame entered inner : CombFrame} {rest : List CombFrame}
    {depth : Nat} (hindex : frame.unitIndex < units.length)
    (hentered : entered.unitIndex = frame.unitIndex + 1) (hinner : inner.unitIndex = 0)
    (hroom : rest.length + 1 < depth) :
    weight units.length depth (inner :: entered :: rest) <
      weight units.length depth (frame :: rest) := by
  obtain ⟨below, hbelow⟩ := Nat.exists_eq_add_of_lt hroom
  have hpower : (units.length + 2) ^ (depth - (rest.length + 1)) =
      (units.length + 2) * (units.length + 2) ^ below := by
    have hexponent : depth - (rest.length + 1) = below + 1 := by omega
    rw [hexponent, pow_succ, mul_comm]
  have hdeeper : depth - ((entered :: rest).length + 1) = below := by
    rw [List.length_cons]
    omega
  have hpositive : 0 < (units.length + 2) ^ below := Nat.pow_pos (by omega)
  have hnext := @weight_next units frame entered rest depth hindex hentered
  rw [weight_cons _ _ inner, hinner, hdeeper, ← hnext, hpower, Nat.sub_zero, add_comm]
  gcongr
  omega

theorem combTurn_falls {state : CombState} (hwalking : Walking units state) :
    Walker.Falls (Walking units)
      (fun next => walkMeasure units next < walkMeasure units state)
      (request.combTurn state) := by
  obtain ⟨rfl, hends, hwithin, hdeepest, hemitted, hlevels⟩ := hwalking
  have hbelow : ∀ {emitted : Nat} {frames : List CombFrame},
      weight state.units.length state.depth frames <
        weight state.units.length state.depth state.frames →
      walkMeasure state.units { state with depthEmitted := emitted, frames := frames } <
        walkMeasure state.units state :=
    fun hless => Prod.Lex.toLex_lt_toLex.mpr (Or.inr ⟨rfl, hless⟩)
  unfold combTurn
  cases hframes : state.frames with
  | nil => trivial
  | cons frame rest =>
      rw [hframes] at hwithin hlevels hbelow
      obtain ⟨hframe, hrest⟩ := hlevels
      have hpower : 0 < (state.units.length + 2) ^ (state.depth - (rest.length + 1)) :=
        Nat.pow_pos (by omega)
      cases hunit : state.units[frame.unitIndex]? with
      | none =>
          cases rest with
          | nil =>
              simp only [hunit, finishDepth]
              split
              · trivial
              · rename_i hgoes
                have hdepth := hemitted (fun hzero => hgoes (Or.inl hzero))
                refine ⟨⟨rfl, hends, ?_, ?_, ?_, ?_⟩, ?_⟩
                · simp
                · exact Nat.succ_le_succ hdepth
                · simp
                · exact ⟨descended_new, trivial⟩
                · apply Prod.Lex.toLex_lt_toLex.mpr
                  left
                  dsimp only
                  omega
          | cons outer others =>
              simp only [hunit]
              refine ⟨⟨rfl, hends, by simp at hwithin ⊢; omega, hdeepest, hemitted,
                hrest⟩, hbelow ?_⟩
              have hindex := hframe.index
              have hleft : 0 < state.units.length + 1 - frame.unitIndex := by omega
              have hpositive := Nat.mul_pos hleft hpower
              rw [weight_cons _ _ frame]
              omega
      | some unit =>
          have hindex := (List.getElem?_eq_some_iff.mp hunit).1
          have hnext : ∀ {emitted : Nat} {entered : CombFrame},
              Descended state.units rest.length entered →
              entered.unitIndex = frame.unitIndex + 1 →
              (emitted ≠ 0 → state.depth ≤ state.units.length) →
              Walking state.units
                  { state with depthEmitted := emitted, frames := entered :: rest } ∧
                walkMeasure state.units
                    { state with depthEmitted := emitted, frames := entered :: rest } <
                  walkMeasure state.units state := by
            intro emitted entered hentered hnumber hmore
            refine ⟨⟨rfl, hends, hwithin, hdeepest, hmore, hentered, hrest⟩, hbelow ?_⟩
            have hweight := @weight_next state.units frame entered rest state.depth hindex hnumber
            omega
          have hmoved : Descended state.units rest.length
              { frame with unitIndex := frame.unitIndex + 1 } := by
            have hmore := hframe.next hunit []
            rwa [List.append_nil] at hmore
          simp only [hunit]
          split
          · exact hnext hmoved rfl hemitted
          · rename_i hskip
            split
            · rename_i hroom
              rw [List.length_cons] at hroom
              refine ⟨⟨rfl, hends, by simp only [List.length_cons]; omega, hdeepest,
                hemitted, hframe.inner hunit hskip (hends unit (List.mem_of_getElem? hunit)) _,
                hframe.next hunit _, hrest⟩, hbelow ?_⟩
              exact weight_inner hindex rfl rfl hroom
            · rename_i hroom
              have hdepth := hframe.depth_le hunit hskip
              rw [List.length_cons] at hroom
              split
              · exact hnext hmoved rfl hemitted
              · exact hnext hmoved rfl (fun _ => by rw [List.length_cons] at hwithin; omega)

theorem combTurn_finite {state : CombState} (hwalking : Walking units state) :
    ∃ raw, Walker.Drains request.combTurn state raw :=
  Walker.exists_drains (walkMeasure units) (fun _ => combTurn_falls) state hwalking

theorem combinatorialCursor_finite (request : CompiledRequest) (maxDepth : Option Int) :
    ∃ raw, Walker.Drains request.cursorTurn (request.combinatorialCursor maxDepth) raw := by
  have hwalking : Walking (collectUnits request [] request.seq)
      ⟨collectUnits request [] request.seq, maxDepth, 1, 0, [.new]⟩ :=
    ⟨rfl, collectUnits_child request.seq [], le_refl _, by simp, by simp,
      descended_new, trivial⟩
  obtain ⟨raw, hdrains⟩ := @combTurn_finite request _ _ hwalking
  exact ⟨raw, drains_lift request.cursorTurn_combinatorial hdrains⟩

theorem initialCursor_finite (request : CompiledRequest) (mode : Mode) :
    ∃ raw, Walker.Drains request.cursorTurn (request.initialCursor mode) raw := by
  cases mode with
  | sequential => exact ⟨_, request.sequentialCursor_drains⟩
  | combinatorial maxDepth => exact request.combinatorialCursor_finite maxDepth

noncomputable def candidates (request : CompiledRequest) (mode : Mode) : List Parts :=
  (request.initialCursor_finite mode).choose

theorem candidates_drains (request : CompiledRequest) (mode : Mode) :
    Walker.Drains request.cursorTurn (request.initialCursor mode)
      (request.candidates mode) :=
  (request.initialCursor_finite mode).choose_spec

end CompiledRequest

end MoonBoofuzz
