import MoonBoofuzz.Mutation.Finite

namespace MoonBoofuzz

namespace CompiledRequest

section

variable (request : CompiledRequest) (units : List StreamUnit)

/-- The units that a frame still has to try, each with what the levels below give for
it.  `acc` keeps growing over them. -/
def rowCases (below : List Nat → List UnitPart → List Parts) (incoming : List Nat)
    (parts : List UnitPart) : List Nat → List StreamUnit → List Parts
  | _, [] => []
  | acc, unit :: left =>
      if unit.child ∈ incoming then rowCases below incoming parts acc left
      else
        below (acc ++ unit.parts.map (·.entry)) (parts ++ unit.parts) ++
          rowCases below incoming parts (acc ++ unit.parts.map (·.entry)) left

/-- The cases with `remaining` more units after the given parts. -/
def levelCases : Nat → List Nat → List UnitPart → List Parts
  | 0, _, parts =>
      if request.containsDuplicatePaths parts then [] else [parts.map (·.pair)]
  | remaining + 1, incoming, parts =>
      rowCases (levelCases remaining) incoming parts incoming units

def lastDepthState (depth : Nat) : CombState :=
  ⟨units, some depth, depth, 0, [.new]⟩

end

/-- The cases that combine `depth` units of the base sequence. -/
def depthCases (request : CompiledRequest) (depth : Nat) : List Parts :=
  levelCases request (collectUnits request [] request.seq) depth [] []

variable {request : CompiledRequest} {units : List StreamUnit}

theorem rowCases_last {incoming : List Nat} {parts : List UnitPart}
    {left : List StreamUnit} (first second : List Nat) :
    rowCases (levelCases request units 0) incoming parts first left =
      rowCases (levelCases request units 0) incoming parts second left := by
  induction left generalizing first second with
  | nil => rfl
  | cons unit left ih =>
      rw [rowCases, rowCases]
      split
      · exact ih first second
      · rw [ih (first ++ unit.parts.map (·.entry)) (second ++ unit.parts.map (·.entry))]
        rfl

/-- A fresh level with `remaining` levels below it emits its cases, and its frame comes
to its end. -/
def LevelEmits (request : CompiledRequest) (units : List StreamUnit)
    (maxDepth : Option Int) (depth remaining : Nat) : Prop :=
  ∀ (outer : List CombFrame) (incoming : List Nat) (parts : List UnitPart)
    (emitted : Nat), outer.length + 1 + remaining = depth →
    ∃ acc, Walker.Yields request.combTurn
      ⟨units, maxDepth, depth, emitted, ⟨0, incoming, incoming, parts⟩ :: outer⟩
      (levelCases request units (remaining + 1) incoming parts)
      ⟨units, maxDepth, depth,
        emitted + (levelCases request units (remaining + 1) incoming parts).length,
        ⟨units.length, incoming, acc, parts⟩ :: outer⟩

section

variable {maxDepth : Option Int} {depth emitted : Nat} {incoming acc : List Nat}
  {parts : List UnitPart} {outer : List CombFrame} {past left : List StreamUnit}
  {unit : StreamUnit}

theorem combTurn_skipped (hsplit : units = past ++ unit :: left)
    (hskip : unit.child ∈ incoming) :
    request.combTurn
        ⟨units, maxDepth, depth, emitted, ⟨past.length, incoming, acc, parts⟩ :: outer⟩ =
      .move ⟨units, maxDepth, depth, emitted,
        ⟨past.length + 1, incoming, acc, parts⟩ :: outer⟩ := by
  subst hsplit
  simp [combTurn, hskip]

theorem combTurn_combined (hsplit : units = past ++ unit :: left)
    (hfree : unit.child ∉ incoming) (hlevel : outer.length + 1 = depth) :
    Walker.Yields request.combTurn
      ⟨units, maxDepth, depth, emitted, ⟨past.length, incoming, acc, parts⟩ :: outer⟩
      (levelCases request units 0 [] (parts ++ unit.parts))
      ⟨units, maxDepth, depth,
        emitted + (levelCases request units 0 [] (parts ++ unit.parts)).length,
        ⟨past.length + 1, incoming, acc, parts⟩ :: outer⟩ := by
  subst hsplit
  rw [levelCases]
  split
  · rename_i hoverlap
    refine .move ?_ (.refl _)
    simp [combTurn, hfree, hlevel, hoverlap]
  · rename_i hapart
    refine .emit ?_ (.refl _)
    simp [combTurn, hfree, hlevel, hapart]

theorem combTurn_descended (hsplit : units = past ++ unit :: left)
    (hfree : unit.child ∉ incoming) (hlevel : outer.length + 1 < depth) :
    request.combTurn
        ⟨units, maxDepth, depth, emitted, ⟨past.length, incoming, acc, parts⟩ :: outer⟩ =
      .move ⟨units, maxDepth, depth, emitted,
        ⟨0, acc ++ unit.parts.map (·.entry), acc ++ unit.parts.map (·.entry),
            parts ++ unit.parts⟩ ::
          ⟨past.length + 1, incoming, acc ++ unit.parts.map (·.entry), parts⟩ ::
          outer⟩ := by
  subst hsplit
  simp [combTurn, hfree, hlevel]

theorem combTurn_popped {frame : CombFrame} (hframe : frame.unitIndex = units.length)
    (houter : outer ≠ []) :
    request.combTurn ⟨units, maxDepth, depth, emitted, frame :: outer⟩ =
      .move ⟨units, maxDepth, depth, emitted, outer⟩ := by
  cases outer with
  | nil => exact absurd rfl houter
  | cons next rest => simp [combTurn, hframe]

theorem row_emits {remaining : Nat} (hlevel : outer.length + 1 + remaining = depth)
    (hbelow : ∀ below, remaining = below + 1 →
      LevelEmits request units maxDepth depth below) :
    ∀ (left past : List StreamUnit) (acc : List Nat) (emitted : Nat),
      units = past ++ left →
      ∃ acc', Walker.Yields request.combTurn
        ⟨units, maxDepth, depth, emitted, ⟨past.length, incoming, acc, parts⟩ :: outer⟩
        (rowCases (levelCases request units remaining) incoming parts acc left)
        ⟨units, maxDepth, depth,
          emitted +
            (rowCases (levelCases request units remaining) incoming parts acc left).length,
          ⟨units.length, incoming, acc', parts⟩ :: outer⟩
  | [], past, acc, emitted, hsplit => by
      rw [List.append_nil] at hsplit
      refine ⟨acc, ?_⟩
      rw [hsplit]
      exact .refl _
  | unit :: left, past, acc, emitted, hsplit => by
      have hnext : units = (past ++ [unit]) ++ left := by simp [hsplit]
      have hposition : (past ++ [unit]).length = past.length + 1 := by simp
      by_cases hskip : unit.child ∈ incoming
      · obtain ⟨acc', hrest⟩ := row_emits hlevel hbelow left (past ++ [unit]) acc
          emitted hnext
        rw [hposition] at hrest
        rw [rowCases, if_pos hskip]
        exact ⟨acc', .move (combTurn_skipped hsplit hskip) hrest⟩
      rw [rowCases, if_neg hskip, List.length_append, ← Nat.add_assoc]
      obtain _ | below := remaining
      · -- The last level: the unit itself is emitted, or left out.
        rw [rowCases_last (acc ++ unit.parts.map (·.entry)) acc]
        obtain ⟨acc', hrest⟩ := row_emits hlevel hbelow left (past ++ [unit]) acc
          (emitted + (levelCases request units 0 [] (parts ++ unit.parts)).length) hnext
        rw [hposition] at hrest
        exact ⟨acc', (combTurn_combined hsplit hskip hlevel).trans hrest⟩
      · -- A level below: the frame for it is pushed, runs and is popped.
        obtain ⟨inner, hdeep⟩ := hbelow below rfl
          (⟨past.length + 1, incoming, acc ++ unit.parts.map (·.entry), parts⟩ :: outer)
          (acc ++ unit.parts.map (·.entry)) (parts ++ unit.parts) emitted
          (by simp only [List.length_cons]; omega)
        obtain ⟨acc', hrest⟩ := row_emits hlevel hbelow left (past ++ [unit])
          (acc ++ unit.parts.map (·.entry)) _ hnext
        rw [hposition] at hrest
        exact ⟨acc', .move (combTurn_descended hsplit hskip (by omega))
          (hdeep.trans (.move (combTurn_popped rfl (List.cons_ne_nil _ _)) hrest))⟩

theorem level_emits (remaining : Nat) :
    LevelEmits request units maxDepth depth remaining := by
  induction remaining with
  | zero =>
      intro outer incoming parts emitted hlevel
      exact row_emits hlevel (fun below hbelow => by omega) units [] incoming emitted rfl
  | succ below ih =>
      intro outer incoming parts emitted hlevel
      refine row_emits hlevel (fun other hother => ?_) units [] incoming emitted rfl
      obtain rfl : below = other := by omega
      exact ih

theorem depth_emits (depth : Nat) :
    ∃ acc, Walker.Yields request.combTurn
      ⟨units, maxDepth, depth + 1, 0, [.new]⟩
      (levelCases request units (depth + 1) [] [])
      ⟨units, maxDepth, depth + 1, (levelCases request units (depth + 1) [] []).length,
        [⟨units.length, [], acc, []⟩]⟩ := by
  obtain ⟨acc, hyields⟩ := @level_emits request units maxDepth (depth + 1) depth [] [] [] 0
    (by simp [Nat.add_comm])
  rw [Nat.zero_add] at hyields
  exact ⟨acc, hyields⟩

theorem combTurn_finished :
    request.combTurn ⟨units, maxDepth, depth, emitted, [⟨units.length, [], acc, []⟩]⟩ =
      finishDepth ⟨units, maxDepth, depth, emitted, [⟨units.length, [], acc, []⟩]⟩ := by
  simp [combTurn]

theorem depth_drains (hlast : (∃ maximum ∈ maxDepth, maximum ≤ ((depth + 1 : Nat) : Int)) ∨
    levelCases request units (depth + 1) [] [] = []) :
    Walker.Drains request.combTurn ⟨units, maxDepth, depth + 1, 0, [.new]⟩
      (levelCases request units (depth + 1) [] []) := by
  obtain ⟨acc, hyields⟩ := @depth_emits request units maxDepth depth
  refine hyields.drains (combTurn_finished.trans (if_pos ?_))
  rcases hlast with hmaximum | hempty
  · exact Or.inr hmaximum
  · exact Or.inl (by simp [hempty])

theorem depth_drains_append (hmore : ¬ ∃ maximum ∈ maxDepth, maximum ≤ ((depth + 1 : Nat) : Int))
    (hcases : levelCases request units (depth + 1) [] [] ≠ []) {rest : List Parts}
    (hrest : Walker.Drains request.combTurn ⟨units, maxDepth, depth + 1 + 1, 0, [.new]⟩
      rest) :
    Walker.Drains request.combTurn ⟨units, maxDepth, depth + 1, 0, [.new]⟩
      (levelCases request units (depth + 1) [] [] ++ rest) := by
  obtain ⟨acc, hyields⟩ := @depth_emits request units maxDepth depth
  refine hyields.drains_append (Walker.Drains.of_move ?_ hrest)
  refine combTurn_finished.trans (if_neg ?_)
  intro hlast
  rcases hlast with hzero | hmaximum
  · exact hcases (List.length_eq_zero_iff.mp hzero)
  · exact hmore hmaximum

end

theorem containsDuplicatePaths_append {first : List UnitPart} (second : List UnitPart)
    (hoverlap : request.containsDuplicatePaths first = true) :
    request.containsDuplicatePaths (first ++ second) = true := by
  induction first with
  | nil => simp [containsDuplicatePaths] at hoverlap
  | cons part rest ih =>
      simp only [containsDuplicatePaths, Bool.or_eq_true, List.cons_append,
        List.any_append] at hoverlap ⊢
      rcases hoverlap with hpart | hrest
      · exact Or.inl (Or.inl hpart)
      · exact Or.inr (ih hrest)

theorem rowCases_nil {below : List Nat → List UnitPart → List Parts}
    {incoming : List Nat} {parts : List UnitPart} {left : List StreamUnit}
    (hbelow : ∀ acc, ∀ unit ∈ left, below acc (parts ++ unit.parts) = [])
    (acc : List Nat) : rowCases below incoming parts acc left = [] := by
  induction left generalizing acc with
  | nil => rfl
  | cons unit left ih =>
      have hothers := ih fun acc other hmem => hbelow acc other (by simp [hmem])
      rw [rowCases]
      split
      · exact hothers acc
      · rw [hbelow _ unit (by simp), hothers]
        rfl

theorem rowCases_nil_mono {first second : List Nat → List UnitPart → List Parts}
    {incoming : List Nat} {parts : List UnitPart} {left : List StreamUnit}
    (hbelow : ∀ acc, ∀ unit ∈ left, first acc (parts ++ unit.parts) = [] →
      second acc (parts ++ unit.parts) = [])
    (acc : List Nat) (hnil : rowCases first incoming parts acc left = []) :
    rowCases second incoming parts acc left = [] := by
  induction left generalizing acc with
  | nil => rfl
  | cons unit left ih =>
      have hothers := ih fun acc other hmem => hbelow acc other (by simp [hmem])
      rw [rowCases] at hnil ⊢
      split
      · rename_i hskip
        rw [if_pos hskip] at hnil
        exact hothers acc hnil
      · rename_i hfree
        rw [if_neg hfree, List.append_eq_nil_iff] at hnil
        rw [hbelow _ unit (by simp) hnil.1, hothers _ hnil.2]
        rfl

theorem levelCases_overlap {remaining : Nat} {incoming : List Nat}
    {parts : List UnitPart} (hoverlap : request.containsDuplicatePaths parts = true) :
    levelCases request units remaining incoming parts = [] := by
  induction remaining generalizing incoming parts with
  | zero => rw [levelCases, if_pos hoverlap]
  | succ remaining ih =>
      apply rowCases_nil
      intro acc unit _
      exact ih (containsDuplicatePaths_append unit.parts hoverlap)

/-- The accumulated sets grow alike at every depth, so a level without cases has none
with one more level below it. -/
theorem levelCases_succ_nil {remaining : Nat} {incoming : List Nat}
    {parts : List UnitPart}
    (hnil : levelCases request units remaining incoming parts = []) :
    levelCases request units (remaining + 1) incoming parts = [] := by
  induction remaining generalizing incoming parts with
  | zero =>
      apply levelCases_overlap
      rw [levelCases] at hnil
      by_contra hapart
      simp [hapart] at hnil
  | succ remaining ih =>
      apply rowCases_nil_mono _ _ hnil
      intro acc unit _ hbelow
      exact ih hbelow

theorem depthCases_nil_of_le {depth deeper : Nat} (hle : depth ≤ deeper)
    (hnil : request.depthCases depth = []) : request.depthCases deeper = [] := by
  induction hle with
  | refl => exact hnil
  | step _ ih => exact levelCases_succ_nil ih

theorem mem_rowCases {below : List Nat → List UnitPart → List Parts}
    {incoming : List Nat} {parts : List UnitPart} {left : List StreamUnit}
    {acc : List Nat} {case : Parts}
    (hmem : case ∈ rowCases below incoming parts acc left) :
    ∃ unit ∈ left, unit.child ∉ incoming ∧ ∃ acc', acc ⊆ acc' ∧
      case ∈ below (acc' ++ unit.parts.map (·.entry)) (parts ++ unit.parts) := by
  induction left generalizing acc with
  | nil => cases hmem
  | cons unit left ih =>
      have hlater : ∀ {acc'}, acc ⊆ acc' → case ∈ rowCases below incoming parts acc' left →
          ∃ other ∈ unit :: left, other.child ∉ incoming ∧ ∃ acc', acc ⊆ acc' ∧
            case ∈ below (acc' ++ other.parts.map (·.entry)) (parts ++ other.parts) := by
        intro acc' hsubset hrest
        obtain ⟨other, hother, hfree, acc'', hsubset', hcase⟩ := ih hrest
        exact ⟨other, by simp [hother], hfree, acc'', List.Subset.trans hsubset hsubset', hcase⟩
      rw [rowCases] at hmem
      split at hmem
      · exact hlater (List.Subset.refl _) hmem
      · rename_i hfree
        rcases List.mem_append.mp hmem with hfirst | hrest
        · exact ⟨unit, by simp, hfree, acc, List.Subset.refl _, hfirst⟩
        · exact hlater (List.subset_append_left _ _) hrest

theorem levelCases_children (hends : ∀ unit ∈ units, EndsAtChild unit)
    {remaining : Nat} {incoming : List Nat} {parts : List UnitPart} {case : Parts}
    (hmem : case ∈ levelCases request units remaining incoming parts) :
    ∃ children : List Nat, children.Nodup ∧ children.length = remaining ∧
      (∀ child ∈ children, child ∉ incoming) ∧ children ⊆ units.map (·.child) := by
  induction remaining generalizing incoming parts with
  | zero => exact ⟨[], List.nodup_nil, rfl, by simp, List.nil_subset _⟩
  | succ remaining ih =>
      obtain ⟨unit, hunit, hfree, acc, hsubset, hcase⟩ := mem_rowCases hmem
      obtain ⟨children, hnodup, hlength, hnew, hunits⟩ := ih hcase
      have hchild : unit.child ∉ children := by
        intro hchosen
        apply hnew _ hchosen
        exact List.mem_append_right _ (child_mem (hends unit hunit))
      refine ⟨unit.child :: children, List.nodup_cons.mpr ⟨hchild, hnodup⟩,
        by simp [hlength], ?_, ?_⟩
      · intro child hmem'
        rcases List.mem_cons.mp hmem' with rfl | hlater
        · exact hfree
        · intro hincoming
          exact hnew child hlater (List.mem_append_left _ (hsubset hincoming))
      · exact List.cons_subset.mpr ⟨List.mem_map.mpr ⟨unit, hunit, rfl⟩, hunits⟩

theorem depthCases_nil_of_large {depth : Nat}
    (hdepth : (collectUnits request [] request.seq).length < depth) :
    request.depthCases depth = [] := by
  by_contra hcases
  obtain ⟨case, hmem⟩ := List.exists_mem_of_ne_nil _ hcases
  obtain ⟨children, hnodup, hlength, -, hunits⟩ :=
    levelCases_children (collectUnits_child request.seq []) hmem
  have hle := hnodup.length_le_of_subset hunits
  rw [List.length_map, hlength] at hle
  omega

theorem lastDepthState_drains (depth : Nat) :
    Walker.Drains request.combTurn
      (lastDepthState (collectUnits request [] request.seq) (depth + 1))
      (request.depthCases (depth + 1)) :=
  depth_drains (Or.inl ⟨_, rfl, le_refl _⟩)

/-- From one depth on: `left` more after it, the last of them being the maximum, or
without cases when there is no maximum. -/
theorem depths_drain {maxDepth : Option Int} (left : Nat) : ∀ depth : Nat,
    (∀ maximum ∈ maxDepth, maximum = ((depth + 1 + left : Nat) : Int)) →
    (maxDepth = none → request.depthCases (depth + 1 + left) = []) →
    Walker.Drains request.combTurn
      ⟨collectUnits request [] request.seq, maxDepth, depth + 1, 0, [.new]⟩
      ((List.range' (depth + 1) (left + 1)).flatMap request.depthCases) := by
  induction left with
  | zero =>
      intro depth hmax hempty
      rw [List.range'_one, List.flatMap_singleton]
      apply depth_drains
      cases maxDepth with
      | none => exact Or.inr (hempty rfl)
      | some maximum => exact Or.inl ⟨maximum, rfl, (hmax maximum rfl).le⟩
  | succ left ih =>
      intro depth hmax hempty
      have hdeeper : depth + 1 + 1 + left = depth + 1 + (left + 1) := by omega
      rw [List.range'_succ, List.flatMap_cons]
      by_cases hnil : request.depthCases (depth + 1) = []
      · have hothers : (List.range' (depth + 1 + 1) (left + 1)).flatMap
            request.depthCases = [] := by
          rw [List.flatMap_eq_nil_iff]
          intro deeper hmem
          rw [List.mem_range'_1] at hmem
          exact depthCases_nil_of_le (by omega) hnil
        rw [hothers, List.append_nil]
        exact depth_drains (Or.inr hnil)
      · have hmore : ¬ ∃ maximum ∈ maxDepth, maximum ≤ ((depth + 1 : Nat) : Int) := by
          rintro ⟨maximum, hmem, hle⟩
          have hlast := hmax maximum hmem
          omega
        apply depth_drains_append hmore hnil
        apply ih (depth + 1)
        · rw [hdeeper]
          exact hmax
        · rw [hdeeper]
          exact hempty

/-- The combinatorial stream comes to its end, whatever the maximal depth; a depth
without cases has only such depths after it; and without a maximum the stream gives the
cases of every depth. -/
theorem combinatorial_lossless (request : CompiledRequest) :
    (∀ maxDepth, ∃ raw,
      Walker.Drains request.cursorTurn (request.combinatorialCursor maxDepth) raw) ∧
    (∀ depth, Walker.Drains request.combTurn
      (lastDepthState (collectUnits request [] request.seq) (depth + 1))
      (request.depthCases (depth + 1))) ∧
    (∀ depth deeper, depth ≤ deeper → request.depthCases depth = [] →
      request.depthCases deeper = []) ∧
    ∀ depth, (collectUnits request [] request.seq).length ≤ depth →
      Walker.Drains request.cursorTurn (request.combinatorialCursor none)
        ((List.range' 1 (depth + 1)).flatMap request.depthCases) := by
  refine ⟨request.combinatorialCursor_finite, lastDepthState_drains,
    fun _ _ => depthCases_nil_of_le, fun depth hdepth => ?_⟩
  refine drains_lift request.cursorTurn_combinatorial ?_
  apply depths_drain depth 0
  · rintro _ ⟨⟩
  · exact fun _ => depthCases_nil_of_large (by omega)

end CompiledRequest

end MoonBoofuzz
