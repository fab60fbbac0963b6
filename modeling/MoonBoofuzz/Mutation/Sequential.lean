import MoonBoofuzz.Mutation.Stream

namespace MoonBoofuzz

namespace CompiledRequest

/-! What a case sequence stands for: the lists of mutated parts, in order. -/

mutual
def denote (request : CompiledRequest) : CaseSeq → List Parts
  | .plain entry =>
      (List.range (request.kind entry).count).map fun i => [(entry, i)]
  | .sequence children => denoteAll request children
  | .product group inner =>
      (List.range (request.kind group).count).flatMap fun pass =>
        (denote request inner).map ((group, pass) :: ·)

def denoteAll (request : CompiledRequest) : List CaseSeq → List Parts
  | [] => []
  | child :: rest => denote request child ++ denoteAll request rest
end

section

variable {request : CompiledRequest}

theorem plain_yields (entry : Nat) (rest : List StreamFrame) :
    ∀ left child : Nat, child + left = (request.kind entry).count →
      Walker.Yields (findTurn request) (⟨.plain entry, child, 0, false⟩ :: rest)
        ((List.range' child left).map fun i => walkingParts rest ++ [(entry, i)])
        rest
  | 0, child, hleft => by
      have hdone : ¬ child < (request.kind entry).count := by omega
      exact .move (by simp [findTurn, hdone]) (.refl rest)
  | left + 1, child, hleft => by
      have hmore : child < (request.kind entry).count := by omega
      rw [List.range'_succ, List.map_cons]
      have hturn : findTurn request (⟨.plain entry, child, 0, false⟩ :: rest) =
          .emit (walkingParts rest ++ [(entry, child)])
            (⟨.plain entry, child + 1, 0, false⟩ :: rest) := by
        simp [findTurn, hmore]
      exact .emit hturn (plain_yields entry rest left (child + 1) (by omega))

theorem product_yields (group : Nat) (inner : CaseSeq) (rest : List StreamFrame)
    (hinner : ∀ outer : List StreamFrame,
      Walker.Yields (findTurn request) (.new inner :: outer)
        ((denote request inner).map (walkingParts outer ++ ·)) outer) :
    ∀ left pass : Nat, pass + left = (request.kind group).count →
      Walker.Yields (findTurn request)
        (⟨.product group inner, 0, pass, false⟩ :: rest)
        ((List.range' pass left).flatMap fun pass =>
          (denote request inner).map fun parts =>
            walkingParts rest ++ (group, pass) :: parts) rest
  | 0, pass, hleft => by
      have hdone : ¬ pass < (request.kind group).count := by omega
      exact .move (by simp [findTurn, hdone]) (.refl rest)
  | left + 1, pass, hleft => by
      have hmore : pass < (request.kind group).count := by omega
      rw [List.range'_succ, List.flatMap_cons]
      -- Open the pass, walk the inner sequence, close the pass.
      have hwalk := hinner (⟨.product group inner, 0, pass, true⟩ :: rest)
      simp only [walkingParts, List.append_assoc, List.singleton_append] at hwalk
      have hopen : findTurn request (⟨.product group inner, 0, pass, false⟩ :: rest) =
          .move (.new inner :: ⟨.product group inner, 0, pass, true⟩ :: rest) := by
        simp [findTurn, hmore]
      have hclose : findTurn request (⟨.product group inner, 0, pass, true⟩ :: rest) =
          .move (⟨.product group inner, 0, pass + 1, false⟩ :: rest) := by
        simp [findTurn]
      have hothers := product_yields group inner rest hinner left (pass + 1) (by omega)
      exact .move hopen (hwalk.trans (.move hclose hothers))

mutual
/-- The walker enumerates a sequence and then removes its frame. -/
theorem denote_yields : ∀ (seq : CaseSeq) (rest : List StreamFrame),
    Walker.Yields (findTurn request) (.new seq :: rest)
      ((denote request seq).map (walkingParts rest ++ ·)) rest
  | .plain entry, rest => by
      have hyields := plain_yields entry rest (request.kind entry).count 0
        (Nat.zero_add _)
      simpa [denote, StreamFrame.new, List.range_eq_range', List.map_map,
        Function.comp_def] using hyields
  | .sequence children, rest => by
      rw [denote]
      exact denoteAll_yields children rest []
  | .product group inner, rest => by
      have hyields := product_yields group inner rest (denote_yields inner)
        (request.kind group).count 0 (Nat.zero_add _)
      simpa [denote, StreamFrame.new, List.range_eq_range', List.map_flatMap,
        List.map_map, Function.comp_def] using hyields

theorem denoteAll_yields : ∀ (left : List CaseSeq) (rest : List StreamFrame)
    (past : List CaseSeq),
    Walker.Yields (findTurn request)
      (⟨.sequence (past ++ left), past.length, 0, false⟩ :: rest)
      ((denoteAll request left).map (walkingParts rest ++ ·)) rest
  | [], rest, past => by
      refine .move ?_ (.refl rest)
      simp [findTurn]
  | child :: left, rest, past => by
      have hturn : findTurn request
          (⟨.sequence (past ++ child :: left), past.length, 0, false⟩ :: rest) =
            .move (.new child ::
              ⟨.sequence (past ++ child :: left), past.length + 1, 0, false⟩ ::
                rest) := by
        simp [findTurn]
      have hfirst := denote_yields child
        (⟨.sequence (past ++ child :: left), past.length + 1, 0, false⟩ :: rest)
      have hnext := denoteAll_yields left rest (past ++ [child])
      rw [List.append_assoc, List.length_append] at hnext
      rw [denoteAll, List.map_append]
      exact .move hturn (hfirst.trans hnext)
end

mutual
theorem collectUnits_parts : ∀ (seq : CaseSeq) (outer : List UnitPart),
    (collectUnits request outer seq).map (fun unit => unit.parts.map (·.pair)) =
      (denote request seq).map (outer.map (·.pair) ++ ·)
  | .plain entry, outer => by
      simp [collectUnits, denote, UnitPart.pair]
  | .sequence children, outer => by
      simpa [collectUnits, denote] using collectAll_parts children outer
  | .product group inner, outer => by
      simp only [collectUnits, denote, List.map_flatMap]
      congr 1
      funext pass
      rw [collectUnits_parts inner]
      simp [UnitPart.pair]

theorem collectAll_parts : ∀ (children : List CaseSeq) (outer : List UnitPart),
    (collectAll request outer children).map (fun unit => unit.parts.map (·.pair)) =
      (denoteAll request children).map (outer.map (·.pair) ++ ·)
  | [], outer => rfl
  | child :: rest, outer => by
      rw [collectAll, denoteAll, List.map_append, List.map_append,
        collectUnits_parts child, collectAll_parts rest]
end

def EndsAtChild (unit : StreamUnit) : Prop :=
  ∃ index, unit.parts.getLast? = some ⟨unit.child, index, false⟩

mutual
theorem collectUnits_child : ∀ (seq : CaseSeq) (outer : List UnitPart)
    (unit : StreamUnit), unit ∈ collectUnits request outer seq → EndsAtChild unit
  | .plain entry, outer, unit, hmem => by
      obtain ⟨index, -, rfl⟩ := List.mem_map.mp hmem
      exact ⟨index, by simp⟩
  | .sequence children, outer, unit, hmem =>
      collectAll_child children outer unit hmem
  | .product group inner, outer, unit, hmem => by
      obtain ⟨pass, -, hinner⟩ := List.mem_flatMap.mp hmem
      exact collectUnits_child inner _ unit hinner

theorem collectAll_child : ∀ (children : List CaseSeq) (outer : List UnitPart)
    (unit : StreamUnit), unit ∈ collectAll request outer children →
      EndsAtChild unit
  | [], outer, unit, hmem => by simp [collectAll] at hmem
  | child :: rest, outer, unit, hmem => by
      rw [collectAll] at hmem
      rcases List.mem_append.mp hmem with hmem | hmem
      · exact collectUnits_child child outer unit hmem
      · exact collectAll_child rest outer unit hmem
end

mutual
/-- The 64-bit count is the number of enumerated cases up to wrap-around. -/
theorem seqCount_eq : ∀ seq : CaseSeq,
    wrap64 (seqCount request seq) = wrap64 (denote request seq).length
  | .plain entry => by simp [seqCount, denote]
  | .sequence children => by
      rw [seqCount, denote, seqTotal_eq children 0, Int.zero_add]
  | .product group inner => by
      have hlength : ((denote request (.product group inner)).length : Int) =
          (request.kind group).count * (denote request inner).length := by
        simp [denote, List.length_flatMap, List.map_const']
      rw [hlength, seqCount, wrap64_wrap64, ← wrap64_mul, seqCount_eq inner,
        wrap64_mul]

theorem seqTotal_eq : ∀ (children : List CaseSeq) (total : Int),
    wrap64 (seqTotal request total children) =
      wrap64 (total + (denoteAll request children).length)
  | [], total => by simp [seqTotal, denoteAll]
  | child :: rest, total => by
      have hsum : wrap64 (total + seqCount request child) =
          wrap64 (total + (denote request child).length) := by
        rw [← wrap64_add, seqCount_eq child, wrap64_add]
      rw [seqTotal, seqTotal_eq rest, hsum, denoteAll, List.length_append,
        ← wrap64_add, wrap64_wrap64, wrap64_add]
      push_cast
      rw [Int.add_assoc]
end

theorem wrap64_seqTotal : ∀ (children : List CaseSeq) (total : Int),
    wrap64 total = total →
      wrap64 (seqTotal request total children) = seqTotal request total children
  | [], _, htotal => htotal
  | _ :: rest, _, _ => wrap64_seqTotal rest _ (wrap64_wrap64 _)

theorem seqCount_of_small {seq : CaseSeq}
    (hsmall : (denote request seq).length < 2 ^ 63) :
    seqCount request seq = (denote request seq).length := by
  have hexact : wrap64 ((denote request seq).length : Int) =
      (denote request seq).length := by
    apply wrap64_eq_self <;> omega
  have hcount : wrap64 (seqCount request seq) = wrap64 (denote request seq).length :=
    seqCount_eq seq
  rw [hexact] at hcount
  cases seq with
  | plain entry => simp [seqCount, denote]
  | sequence children =>
      rw [← hcount, seqCount]
      exact (wrap64_seqTotal children 0 rfl).symm
  | product group inner =>
      rw [← hcount, seqCount, wrap64_wrap64]

end

theorem find_drains (request : CompiledRequest) :
    Walker.Drains (findTurn request) [.new request.seq]
      (denote request request.seq) := by
  have hyields : Walker.Yields (findTurn request) [.new request.seq]
      ((denote request request.seq).map (walkingParts [] ++ ·)) [] :=
    denote_yields request.seq []
  simp only [walkingParts, List.nil_append, List.map_id'] at hyields
  exact hyields.drains rfl

/-- Every way the code enumerates the sequential cases agrees with what the case
sequence stands for: repeated calls of `find`, the collected units, and the
number of cases as long as it stays below `2 ^ 63`. -/
theorem find_enumerates_denotation (request : CompiledRequest) :
    Walker.Drains (findTurn request) [.new request.seq]
        (denote request request.seq) ∧
      (collectUnits request [] request.seq).map
          (fun unit => unit.parts.map (·.pair)) =
        denote request request.seq ∧
      (∀ unit ∈ collectUnits request [] request.seq,
        unit.parts.getLast?.map (·.entry) = some unit.child) ∧
      ((denote request request.seq).length < 2 ^ 63 →
        request.rawMutationCount = (denote request request.seq).length) := by
  refine ⟨find_drains request, ?_, ?_, ?_⟩
  · have hparts : (collectUnits request [] request.seq).map
        (fun unit => unit.parts.map (·.pair)) =
          (denote request request.seq).map (([] : List UnitPart).map (·.pair) ++ ·) :=
      collectUnits_parts request.seq []
    simpa using hparts
  · intro unit hmem
    obtain ⟨index, hlast⟩ := collectUnits_child request.seq [] unit hmem
    simp [hlast]
  · exact seqCount_of_small

section

variable {σ : Type} {turn : σ → Turn σ Parts} {outer : Cursor → Turn Cursor Parts}
  {wrap : σ → Cursor}

theorem gives_lift (hturn : ∀ state, outer (wrap state) = lift wrap (turn state))
    {state last : σ} {found : Option Parts}
    (hgives : Walker.Gives turn state found last) :
    Walker.Gives outer (wrap state) found (wrap last) := by
  induction hgives with
  | emit h => exact .emit (by rw [hturn, h]; rfl)
  | halt h => exact .halt (by rw [hturn, h]; rfl)
  | move h _ ih => exact .move (by rw [hturn, h]; rfl) ih

theorem takes_lift (hturn : ∀ state, outer (wrap state) = lift wrap (turn state))
    {state last : σ} {values : List Parts}
    (htakes : Walker.Takes turn state values last) :
    Walker.Takes outer (wrap state) values (wrap last) := by
  induction htakes with
  | nil state => exact .nil _
  | cons hfirst _ ih => exact .cons (gives_lift hturn hfirst) ih

theorem drains_lift (hturn : ∀ state, outer (wrap state) = lift wrap (turn state))
    {state : σ} {values : List Parts} (hdrains : Walker.Drains turn state values) :
    Walker.Drains outer (wrap state) values := by
  obtain ⟨last, final, htakes, hnone⟩ := hdrains
  exact ⟨wrap last, wrap final, takes_lift hturn htakes, gives_lift hturn hnone⟩

theorem keeps_lift (hturn : ∀ state, outer (wrap state) = lift wrap (turn state))
    {inv : σ → Prop} {good : Parts → Prop} (hkeeps : Walker.Keeps turn inv good) :
    Walker.Keeps outer (fun cursor => ∃ state, cursor = wrap state ∧ inv state)
      good := by
  intro cursor hinv
  obtain ⟨state, rfl, hstate⟩ := hinv
  have hmeets := hkeeps state hstate
  rw [hturn]
  cases hnext : turn state with
  | emit value next =>
      rw [hnext] at hmeets
      exact ⟨hmeets.1, next, rfl, hmeets.2⟩
  | move next =>
      rw [hnext] at hmeets
      exact ⟨next, rfl, hmeets⟩
  | halt next =>
      rw [hnext] at hmeets
      exact ⟨next, rfl, hmeets⟩

end

theorem cursorTurn_sequential (request : CompiledRequest) (stack : List StreamFrame) :
    request.cursorTurn (.sequential stack) = lift .sequential (findTurn request stack) :=
  rfl

theorem cursorTurn_combinatorial (request : CompiledRequest) (state : CombState) :
    request.cursorTurn (.combinatorial state) =
      lift .combinatorial (combTurn request state) := rfl

theorem sequentialCursor_drains (request : CompiledRequest) :
    Walker.Drains request.cursorTurn request.sequentialCursor
      (denote request request.seq) :=
  drains_lift request.cursorTurn_sequential (find_drains request)

end CompiledRequest

end MoonBoofuzz
