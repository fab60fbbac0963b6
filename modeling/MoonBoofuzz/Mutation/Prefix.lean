import MoonBoofuzz.Mutation.Chains

namespace MoonBoofuzz

namespace CompiledRequest

/-! Where the plain cases of an entry start. -/

mutual
/-- `raw_prefix_walk`: the cases before the target, and whether it has been found. -/
def rawPrefixWalk (request : CompiledRequest) (target : Nat) :
    CaseSeq → Bool → Int × Bool
  | _, true => (0, true)
  | .plain entry, false =>
      if entry = target then (0, true) else ((request.kind entry).count, false)
  | .sequence children, false => rawPrefixTotal request target 0 children false
  | .product group inner, false =>
      -- The target is not in here: the plain pass of the block came before.
      (wrap64 ((request.kind group).count * request.seqCount inner), false)

def rawPrefixTotal (request : CompiledRequest) (target : Nat) (total : Int) :
    List CaseSeq → Bool → Int × Bool
  | [], found => (total, found)
  | child :: rest, found =>
      let (count, found) := rawPrefixWalk request target child found
      rawPrefixTotal request target (wrap64 (total + count)) rest found
end

/-- `raw_prefix_before`. -/
def rawPrefixBefore (request : CompiledRequest) (path : Text) : Except ModelError Int := do
  let target ← request.resolve path
  let (before, found) := request.rawPrefixWalk target request.seq false
  .ok (if found then before else -1)

def EndsIn (entry : Nat) (parts : Parts) : Prop :=
  ∃ index, parts.getLast? = some (entry, index)

/-- Position `k` of the cases is the first to end in the entry, with its first
candidate alone. -/
structure StartsAt (entry : Nat) (raw : List Parts) (k : Nat) : Prop where
  at_start : raw[k]? = some [(entry, 0)]
  before : ∀ parts ∈ raw.take k, ¬ EndsIn entry parts

/-- Case sequences in which every product replays the sequence in front of it. -/
inductive Replaying (request : CompiledRequest) : CaseSeq → Prop
  | plain {entry : Nat} (hcount : 0 < (request.kind entry).count) :
      Replaying request (.plain entry)
  | sequence {children : List CaseSeq}
      (hchildren : ∀ child ∈ children, Replaying request child) :
      Replaying request (.sequence children)
  | replayed {group : Nat} {inner : CaseSeq} (hinner : Replaying request inner) :
      Replaying request (.sequence [inner, .product group inner])

section

variable {request : CompiledRequest}

theorem replaying_of_leaf {index : Nat} {kind : EntryKind}
    (hkind : request.kind index = kind) {seq : CaseSeq}
    (hseq : (if 0 < kind.count then .done (.plain index) else .done (.sequence []) :
      Run CaseSeq) = .done seq) : Replaying request seq := by
  split at hseq
  · rename_i hcount
    cases hseq
    exact .plain (hkind ▸ hcount)
  · cases hseq
    exact .sequence (by simp)

theorem buildCaseSeq_replaying {groups : List (Nat × Nat)} {fuel index : Nat}
    {seq : CaseSeq}
    (hseq : buildCaseSeq request.entries groups fuel index = .done seq) :
    Replaying request seq := by
  induction fuel generalizing index seq with
  | zero => cases hseq
  | succ fuel ih =>
      have hentry : (entryAt request.entries index).kind = request.kind index := rfl
      rw [buildCaseSeq, hentry] at hseq
      cases hkind : request.kind index with
      | container children =>
          simp only [hkind, Eval.bind_eq_done_iff] at hseq
          obtain ⟨seqs, hseqs, hseq⟩ := hseq
          have hinner : Replaying request (.sequence seqs) := by
            apply Replaying.sequence
            intro child hmem
            obtain ⟨_, -, hchild⟩ := mapM_done_mem hseqs hmem
            exact ih hchild
          split at hseq
          · cases hseq
            exact .replayed hinner
          · cases hseq
            exact hinner
      | mirror target =>
          simp only [hkind, Eval.done.injEq] at hseq
          subst hseq
          exact .sequence (by simp)
      | atom field => exact replaying_of_leaf hkind (by simpa only [hkind] using hseq)
      | dynamic field variableName =>
          exact replaying_of_leaf hkind (by simpa only [hkind] using hseq)
      | repetition target range variableName =>
          exact replaying_of_leaf hkind (by simpa only [hkind] using hseq)
      | computedSize spec =>
          exact replaying_of_leaf hkind (by simpa only [hkind] using hseq)
      | computedChecksum spec =>
          exact replaying_of_leaf hkind (by simpa only [hkind] using hseq)

theorem Assembled.replaying {root : Block} {maxBytes : Int32} {fuel : Nat}
    (hassembled : Assembled root maxBytes fuel request) : Replaying request request.seq := by
  obtain ⟨groups, -, hseq⟩ := hassembled.sequenced
  exact buildCaseSeq_replaying hseq

mutual
theorem denote_ne_nil : ∀ (seq : CaseSeq), ∀ parts ∈ denote request seq, parts ≠ []
  | .plain entry, parts, hmem => by
      obtain ⟨index, -, rfl⟩ := List.mem_map.mp hmem
      simp
  | .sequence children, parts, hmem => denoteAll_ne_nil children parts hmem
  | .product group inner, parts, hmem => by
      obtain ⟨pass, -, hinner⟩ := List.mem_flatMap.mp hmem
      obtain ⟨rest, -, rfl⟩ := List.mem_map.mp hinner
      simp

theorem denoteAll_ne_nil : ∀ (children : List CaseSeq),
    ∀ parts ∈ denoteAll request children, parts ≠ []
  | [], parts, hmem => by cases hmem
  | child :: rest, parts, hmem => by
      rw [denoteAll] at hmem
      rcases List.mem_append.mp hmem with hfirst | hothers
      · exact denote_ne_nil child parts hfirst
      · exact denoteAll_ne_nil rest parts hothers
end

theorem product_endsIn {entry group : Nat} {inner : CaseSeq}
    (hmiss : ∀ parts ∈ denote request inner, ¬ EndsIn entry parts) :
    ∀ parts ∈ denote request (.product group inner), ¬ EndsIn entry parts := by
  intro parts hmem hends
  obtain ⟨pass, -, hinner⟩ := List.mem_flatMap.mp hmem
  obtain ⟨rest, hrest, rfl⟩ := List.mem_map.mp hinner
  obtain ⟨index, hlast⟩ := hends
  have hnonempty := denote_ne_nil inner rest hrest
  rw [List.getLast?_cons_of_ne_nil hnonempty] at hlast
  exact hmiss rest hrest ⟨index, hlast⟩

theorem StartsAt.append {entry k : Nat} {raw : List Parts} (hstarts : StartsAt entry raw k)
    (rest : List Parts) : StartsAt entry (raw ++ rest) k := by
  have hk := (List.getElem?_eq_some_iff.mp hstarts.at_start).1
  constructor
  · rw [List.getElem?_append_left hk, hstarts.at_start]
  · rw [List.take_append_of_le_length hk.le]
    exact hstarts.before

theorem StartsAt.after {entry k : Nat} {raw past : List Parts}
    (hstarts : StartsAt entry raw k) (hmiss : ∀ parts ∈ past, ¬ EndsIn entry parts) :
    StartsAt entry (past ++ raw) (past.length + k) := by
  constructor
  · rw [List.getElem?_append_right (Nat.le_add_right _ _), Nat.add_sub_cancel_left,
      hstarts.at_start]
  · intro parts hmem
    rw [List.take_length_add_append] at hmem
    rcases List.mem_append.mp hmem with hpast | htake
    · exact hmiss parts hpast
    · exact hstarts.before parts htake

inductive Walked (entry : Nat) (raw : List Parts) : Int × Bool → Prop
  | found {k : Nat} (hstarts : StartsAt entry raw k) : Walked entry raw (k, true)
  | missed (hmiss : ∀ parts ∈ raw, ¬ EndsIn entry parts) :
      Walked entry raw (raw.length, false)

theorem rawPrefixTotal_found {target : Nat} {total : Int} (htotal : wrap64 total = total)
    (children : List CaseSeq) :
    rawPrefixTotal request target total children true = (total, true) := by
  induction children with
  | nil => rfl
  | cons child rest ih =>
      rw [rawPrefixTotal, rawPrefixWalk]
      simpa [htotal] using ih

theorem wrap64_count {count : Nat} (hcount : count < 2 ^ 63) : wrap64 (count : Int) = count := by
  apply wrap64_eq_self <;> omega

theorem Walked.cons {target : Nat} {child : CaseSeq} {rest : List CaseSeq}
    {past : List Parts}
    (hchild : Walked target (denote request child)
      (rawPrefixWalk request target child false))
    (hmiss : ∀ parts ∈ past, ¬ EndsIn target parts)
    (hsmall : (past ++ denoteAll request (child :: rest)).length < 2 ^ 63)
    (hrest : (∀ parts ∈ past ++ denote request child, ¬ EndsIn target parts) →
      Walked target ((past ++ denote request child) ++ denoteAll request rest)
        (rawPrefixTotal request target (past ++ denote request child).length rest
          false)) :
    Walked target (past ++ denoteAll request (child :: rest))
      (rawPrefixTotal request target past.length (child :: rest) false) := by
  have hlength : (past ++ denoteAll request (child :: rest)).length =
      past.length + (denote request child).length +
        (denoteAll request rest).length := by
    simp [denoteAll, Nat.add_assoc]
  rw [rawPrefixTotal, denoteAll, ← List.append_assoc]
  generalize rawPrefixWalk request target child false = answer at hchild
  cases hchild with
  | @found k hstarts =>
      have hk := (List.getElem?_eq_some_iff.mp hstarts.at_start).1
      have hexact : wrap64 ((past.length + k : Nat) : Int) = (past.length + k : Nat) :=
        wrap64_count (by omega)
      rw [Int.natCast_add] at hexact
      simp only [hexact]
      rw [rawPrefixTotal_found hexact, ← Int.natCast_add]
      exact .found ((hstarts.after hmiss).append _)
  | missed hnone =>
      have hexact : wrap64 ((past.length + (denote request child).length : Nat) : Int) =
          (past.length + (denote request child).length : Nat) :=
        wrap64_count (by omega)
      rw [Int.natCast_add] at hexact
      simp only [hexact]
      rw [← Int.natCast_add, ← List.length_append]
      apply hrest
      intro parts hmem
      rcases List.mem_append.mp hmem with hpast | hfirst
      · exact hmiss parts hpast
      · exact hnone parts hfirst

theorem rawPrefixTotal_walked {target : Nat} {children : List CaseSeq}
    (hwalk : ∀ child ∈ children, (denote request child).length < 2 ^ 63 →
      Walked target (denote request child) (rawPrefixWalk request target child false)) :
    ∀ {past : List Parts}, (∀ parts ∈ past, ¬ EndsIn target parts) →
      (past ++ denoteAll request children).length < 2 ^ 63 →
      Walked target (past ++ denoteAll request children)
        (rawPrefixTotal request target past.length children false) := by
  induction children with
  | nil =>
      intro past hmiss _
      simpa [denoteAll, rawPrefixTotal] using Walked.missed hmiss
  | cons child rest ih =>
      intro past hmiss hsmall
      have hparts := hsmall
      simp only [denoteAll, List.length_append] at hparts
      apply Walked.cons (hwalk child (by simp) (by omega)) hmiss hsmall
      intro hnone
      apply ih (fun other hmem => hwalk other (by simp [hmem])) hnone
      simp only [List.length_append]
      omega

theorem rawPrefixWalk_walked {target : Nat} {seq : CaseSeq}
    (hreplaying : Replaying request seq) (hsmall : (denote request seq).length < 2 ^ 63) :
    Walked target (denote request seq) (rawPrefixWalk request target seq false) := by
  induction hreplaying with
  | @plain entry hcount =>
      rw [rawPrefixWalk]
      by_cases hentry : entry = target
      · subst hentry
        rw [if_pos rfl]
        refine @Walked.found _ _ 0 ⟨?_, by simp⟩
        simp [denote, hcount]
      · rw [if_neg hentry]
        have hmissed : Walked target (denote request (.plain entry))
            ((denote request (.plain entry)).length, false) := by
          apply Walked.missed
          intro parts hmem hends
          obtain ⟨index, -, rfl⟩ := List.mem_map.mp hmem
          obtain ⟨other, hlast⟩ := hends
          simp only [List.getLast?_singleton, Option.some.injEq, Prod.mk.injEq] at hlast
          exact hentry hlast.1
        simpa [denote] using hmissed
  | @sequence children hchildren ih =>
      have hall := @rawPrefixTotal_walked request target children
        (fun child hmem hlength => ih child hmem hlength) [] (by simp)
        (by simpa [denote] using hsmall)
      simpa [denote, rawPrefixWalk] using hall
  | @replayed group inner hinner ih =>
      have hsum : denote request (.sequence [inner, .product group inner]) =
          [] ++ denoteAll request [inner, .product group inner] := by
        rw [denote, List.nil_append]
      rw [hsum] at hsmall ⊢
      have hparts := hsmall
      simp only [denoteAll, List.length_append, List.length_nil] at hparts
      rw [rawPrefixWalk]
      apply Walked.cons (ih (by omega)) (by simp) hsmall
      intro hnone
      apply rawPrefixTotal_walked _ hnone
      · simp only [denoteAll, List.length_append, List.length_nil]
        omega
      · -- Reached only when the plain pass misses the target, as its replays then do.
        intro child hmem hlength
        obtain rfl : child = .product group inner := by simpa using hmem
        have hcount := seqCount_of_small hlength
        rw [seqCount] at hcount
        rw [rawPrefixWalk, hcount]
        exact .missed (product_endsIn (by simpa using hnone))

end

/-- The raw prefix of an entry is the position of its first case: the candidate `0` of
the entry alone, before every other case that ends in the entry.  It is negative exactly
when the enumeration has no such case. -/
theorem rawPrefixBefore_position {root : Block} {maxBytes : Int32}
    {request : CompiledRequest}
    (hcompile : Eval.Returns (compile root maxBytes) request) {path : Text} {entry : Nat}
    (hresolve : request.resolve path = .ok entry) {raw : List Parts}
    (hraw : Walker.Drains request.cursorTurn request.sequentialCursor raw)
    (hsmall : raw.length < 2 ^ 63) :
    ∃ k, request.rawPrefixBefore path = .ok k ∧
      (0 ≤ k ↔ ∃ parts ∈ raw, EndsIn entry parts) ∧
      (0 ≤ k → StartsAt entry raw k.toNat) ∧
      (k = -1 ↔ ∀ parts ∈ raw, ¬ EndsIn entry parts) := by
  obtain ⟨fuel, hdone⟩ := hcompile
  have hreplaying := (compile_eq_done hdone).assembled.replaying
  obtain rfl := hraw.unique request.sequentialCursor_drains
  have hwalked := @rawPrefixWalk_walked request entry _ hreplaying hsmall
  have hanswer : request.rawPrefixBefore path =
      .ok (if (request.rawPrefixWalk entry request.seq false).2 then
        (request.rawPrefixWalk entry request.seq false).1 else -1) := by
    rw [rawPrefixBefore, hresolve]
    rfl
  generalize request.rawPrefixWalk entry request.seq false = answer at hwalked hanswer
  refine ⟨_, hanswer, ?_⟩
  cases hwalked with
  | @found k hstarts =>
      have hmem := List.mem_of_getElem? hstarts.at_start
      have hends : EndsIn entry [(entry, 0)] := ⟨0, rfl⟩
      simp only [if_true]
      refine ⟨⟨fun _ => ⟨_, hmem, hends⟩, fun _ => by omega⟩, fun _ => hstarts, ?_, ?_⟩
      · intro hnegative
        omega
      · intro hnone
        exact absurd hends (hnone _ hmem)
  | missed hmiss =>
      simp only [Bool.false_eq_true, if_false]
      refine ⟨⟨by omega, ?_⟩, by omega, fun _ => hmiss, fun _ => trivial⟩
      intro hsome
      obtain ⟨parts, hmem, hends⟩ := hsome
      exact absurd hends (hmiss parts hmem)

def twoValues : Field := Field.simple [0x30] [[0x31], [0x32]]

def replayedRoot : Block :=
  Block.new (Text.ofAscii "r")
    [.leaf (Text.ofAscii "g") twoValues,
     .nested ⟨Text.ofAscii "b", [.leaf (Text.ofAscii "x") twoValues], none, none,
       some (Text.ofAscii "r.g")⟩,
     .leaf (Text.ofAscii "y") twoValues]

def replayedRequest : CompiledRequest where
  name := Text.ofAscii "r"
  entries :=
    [⟨Text.ofAscii "r", none, .container [1, 2, 4], none, none, none⟩,
     ⟨Text.ofAscii "r.g", some 0, .atom twoValues, none, none, none⟩,
     ⟨Text.ofAscii "r.b", some 0, .container [3], none, none,
       some (Text.ofAscii "r.g")⟩,
     ⟨Text.ofAscii "r.b.x", some 2, .atom twoValues, none, none, none⟩,
     ⟨Text.ofAscii "r.y", some 0, .atom twoValues, none, none, none⟩]
  paths :=
    [(Text.ofAscii "r", 0), (Text.ofAscii "r.g", 1), (Text.ofAscii "r.b", 2),
     (Text.ofAscii "r.b.x", 3), (Text.ofAscii "r.y", 4)]
  maxBytes := 64
  seq := .sequence [.plain 1, .sequence [.sequence [.plain 3],
    .product 1 (.sequence [.plain 3])], .plain 4]

theorem replayedRoot_compiles : compile replayedRoot 64 8 = .done replayedRequest := rfl

/-- The cases of `r.y` start after those of the block and their four replays. -/
theorem replayedRequest_position :
    ∃ k, replayedRequest.rawPrefixBefore (Text.ofAscii "r.y") = .ok k ∧ 0 ≤ k ∧
      StartsAt 4 (denote replayedRequest replayedRequest.seq) k.toNat := by
  have hresolve : replayedRequest.resolve (Text.ofAscii "r.y") = .ok 4 := rfl
  obtain ⟨k, hk, hends, hstarts, -⟩ := rawPrefixBefore_position
    ⟨8, replayedRoot_compiles⟩ hresolve replayedRequest.sequentialCursor_drains
    (by decide)
  have hfound : 0 ≤ k := hends.mpr ⟨[(4, 0)], by decide, 0, rfl⟩
  exact ⟨k, hk, hfound, hstarts hfound⟩

end CompiledRequest

end MoonBoofuzz
