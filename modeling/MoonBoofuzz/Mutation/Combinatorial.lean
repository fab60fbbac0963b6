import Mathlib.Data.List.Perm.Subperm
import MoonBoofuzz.Data.Tuples
import MoonBoofuzz.Mutation.Depths
import MoonBoofuzz.Mutation.Units

namespace MoonBoofuzz

namespace CompiledRequest

/-! Combinations of candidates. -/

/-- The paths of two mutated entries do not contain one another. -/
def Apart (request : CompiledRequest) (left right : Nat × Nat) : Prop :=
  ¬ (request.entry left.1).path <:+: (request.entry right.1).path ∧
    ¬ (request.entry right.1).path <:+: (request.entry left.1).path

instance (request : CompiledRequest) (left right : Nat × Nat) :
    Decidable (request.Apart left right) :=
  inferInstanceAs (Decidable (_ ∧ _))

/-- The tuples the combinatorial enumeration is to emit at a depth. -/
structure IsCombination (request : CompiledRequest) (depth : Nat) (parts : Parts) :
    Prop where
  length : parts.length = depth
  candidates : ∀ part ∈ parts, part.2 < (request.kind part.1).count
  increasing : parts.Pairwise fun left right => left.1 < right.1
  apart : parts.Pairwise request.Apart

def later (left right : Nat × Nat) : Bool := decide (left.1 < right.1)

/-- The given tuples after the parts chosen so far, without those that mutate
overlapping paths. -/
def keepApart (request : CompiledRequest) (outer : Parts) (tuples : List Parts) :
    List Parts :=
  (tuples.map (outer ++ ·)).filter fun parts => decide (parts.Pairwise request.Apart)

def combinations (request : CompiledRequest) (depth : Nat) : List Parts :=
  request.keepApart [] (Tuples.tuples later depth request.choices)

section

variable {request : CompiledRequest}

theorem mem_combinations {depth : Nat} {parts : Parts} :
    parts ∈ request.combinations depth ↔ request.IsCombination depth parts := by
  simp only [combinations, keepApart, List.mem_filter, decide_eq_true_eq,
    List.nil_append, List.map_id', Tuples.mem_tuples, mem_choices, later]
  constructor
  · rintro ⟨⟨hlength, hcandidates, hincreasing⟩, hapart⟩
    exact ⟨hlength, hcandidates, hincreasing, hapart⟩
  · intro h
    exact ⟨⟨h.length, h.candidates, h.increasing⟩, h.apart⟩

theorem combinations_pairwise (depth : Nat) :
    (request.combinations depth).Pairwise (List.Lex Earlier) := by
  rw [combinations, keepApart]
  simp only [List.nil_append, List.map_id']
  exact (Tuples.tuples_pairwise choices_pairwise).filter _

theorem IsCombination.tail {depth : Nat} {part : Nat × Nat} {parts : Parts}
    (h : request.IsCombination (depth + 1) (part :: parts)) :
    request.IsCombination depth parts where
  length := by simpa using h.length
  candidates := (List.forall_mem_cons.mp h.candidates).2
  increasing := (List.pairwise_cons.mp h.increasing).2
  apart := (List.pairwise_cons.mp h.apart).2

theorem combinations_succ_nil {depth : Nat} (hnil : request.combinations depth = []) :
    request.combinations (depth + 1) = [] := by
  rw [List.eq_nil_iff_forall_not_mem] at hnil ⊢
  intro parts hmem
  have h := mem_combinations.mp hmem
  cases parts with
  | nil => simpa using h.length
  | cons part rest => exact hnil rest (mem_combinations.mpr h.tail)

theorem combinations_nil_of_le {first second : Nat} (hle : first ≤ second)
    (hnil : request.combinations first = []) : request.combinations second = [] := by
  induction hle with
  | refl => exact hnil
  | step _ ih => exact combinations_succ_nil ih

theorem combinations_nil_of_large {depth : Nat}
    (hdepth : request.entries.length < depth) : request.combinations depth = [] := by
  rw [List.eq_nil_iff_forall_not_mem]
  intro parts hmem
  have h := mem_combinations.mp hmem
  have hnodup : (parts.map (·.1)).Nodup := by
    rw [List.nodup_iff_pairwise_ne, List.pairwise_map]
    exact h.increasing.imp fun hless => Nat.ne_of_lt hless
  have hinside : parts.map (·.1) ⊆ List.range request.entries.length := by
    intro entry hentry
    obtain ⟨part, hpart, rfl⟩ := List.mem_map.mp hentry
    exact List.mem_range.mpr (lt_of_count (h.candidates part hpart))
  have hlength := (List.subperm_of_subset hnodup hinside).length_le
  simp only [List.length_map, List.length_range, h.length] at hlength
  omega

theorem containsDuplicatePaths_eq (parts : List UnitPart) :
    request.containsDuplicatePaths parts =
      !decide ((parts.map (·.pair)).Pairwise request.Apart) := by
  induction parts with
  | nil => simp [containsDuplicatePaths]
  | cons part rest ih =>
      rw [containsDuplicatePaths, ih, List.map_cons]
      simp only [List.pairwise_cons, Bool.decide_and, Bool.not_and]
      congr 1
      rw [Bool.eq_iff_iff]
      simp only [List.any_eq_true, Bool.not_eq_true', decide_eq_false_iff_not,
        List.mem_map, forall_exists_index, and_imp, forall_apply_eq_imp_iff₂,
        not_forall, Apart, pathsOverlap, Bool.or_eq_true, Text.contains_iff,
        UnitPart.pair]
      constructor
      · rintro ⟨other, hother, hoverlap⟩
        exact ⟨other, hother, by tauto⟩
      · rintro ⟨other, hother, hoverlap⟩
        exact ⟨other, hother, by tauto⟩

theorem keepApart_append (outer : Parts) (first second : List Parts) :
    request.keepApart outer (first ++ second) =
      request.keepApart outer first ++ request.keepApart outer second := by
  simp [keepApart]

theorem keepApart_cons (outer : Parts) (choice : Nat × Nat) (tuples : List Parts) :
    request.keepApart outer (tuples.map (choice :: ·)) =
      request.keepApart (outer ++ [choice]) tuples := by
  simp [keepApart, Function.comp_def]

def available (request : CompiledRequest) (incoming : List Nat) : Parts :=
  request.choices.filter fun choice => decide (choice.1 ∉ incoming)

/-- The accumulated set of a frame: what it started from and the units before the
current one. -/
def Accumulates (incoming : List Nat) (past : Parts) (acc : List Nat) : Prop :=
  ∀ entry, entry ∈ acc ↔ entry ∈ incoming ∨ ∃ other ∈ past, other.1 = entry

theorem Accumulates.skip {incoming acc : List Nat} {past : Parts}
    {choice : Nat × Nat} (hacc : Accumulates incoming past acc)
    (hskip : choice.1 ∈ incoming) : Accumulates incoming (past ++ [choice]) acc := by
  intro entry
  rw [hacc entry]
  constructor
  · rintro (hmem | ⟨other, hother, rfl⟩)
    · exact Or.inl hmem
    · exact Or.inr ⟨other, by simp [hother], rfl⟩
  · rintro (hmem | ⟨other, hother, rfl⟩)
    · exact Or.inl hmem
    · rcases List.mem_append.mp hother with hpast | hlast
      · exact Or.inr ⟨other, hpast, rfl⟩
      · rw [List.mem_singleton.mp hlast]
        exact Or.inl hskip

theorem Accumulates.push {incoming acc : List Nat} {past : Parts}
    (hacc : Accumulates incoming past acc) (choice : Nat × Nat) :
    Accumulates incoming (past ++ [choice]) (acc ++ [choice.1]) := by
  intro entry
  simp only [List.mem_append, List.mem_singleton, hacc entry, or_and_right, exists_or,
    exists_eq_left, or_assoc, @eq_comm _ entry]

theorem available_descend {past left : Parts} {choice : Nat × Nat}
    {incoming acc : List Nat} (hsplit : request.choices = past ++ choice :: left)
    (hacc : Accumulates incoming past acc) :
    request.available (acc ++ [choice.1]) =
      (request.available incoming).filter (later choice) := by
  have hsorted := request.choices_pairwise
  rw [hsplit, List.pairwise_append, List.pairwise_cons] at hsorted
  obtain ⟨-, ⟨hleft, -⟩, hpast⟩ := hsorted
  rw [available, available, List.filter_filter]
  apply List.filter_congr
  intro other hother
  rw [hsplit, List.mem_append, List.mem_cons] at hother
  simp only [later, ← Bool.decide_and, decide_eq_decide, List.mem_append,
    List.mem_singleton, hacc _, not_or, not_exists, not_and]
  constructor
  · rintro ⟨⟨hincoming, hfresh⟩, hne⟩
    refine ⟨?_, hincoming⟩
    rcases hother with hmem | rfl | hmem
    · exact absurd rfl (hfresh other hmem)
    · exact absurd rfl hne
    · rcases hleft other hmem with hless | ⟨hequal, -⟩
      · exact hless
      · exact absurd hequal.symm hne
  · rintro ⟨hless, hincoming⟩
    refine ⟨⟨hincoming, ?_⟩, by omega⟩
    intro before hbefore hequal
    rcases hpast before hbefore choice (by simp) with hsmaller | ⟨hsame, -⟩ <;> omega

def row (request : CompiledRequest) (incoming : List Nat) (remaining : Nat)
    (left : Parts) : List Parts :=
  (left.filter fun choice => decide (choice.1 ∉ incoming)).flatMap fun choice =>
    (Tuples.tuples later remaining
      ((request.available incoming).filter (later choice))).map (choice :: ·)

theorem row_cons_skip {incoming : List Nat} {remaining : Nat} {choice : Nat × Nat}
    {left : Parts} (hskip : choice.1 ∈ incoming) :
    request.row incoming remaining (choice :: left) =
      request.row incoming remaining left := by
  simp [row, hskip]

theorem row_cons {incoming : List Nat} {remaining : Nat} {choice : Nat × Nat}
    {left : Parts} (hfree : choice.1 ∉ incoming) :
    request.row incoming remaining (choice :: left) =
      (Tuples.tuples later remaining
          ((request.available incoming).filter (later choice))).map (choice :: ·) ++
        request.row incoming remaining left := by
  simp [row, hfree]

theorem levelCases_zero (parts : List UnitPart) (units : List StreamUnit)
    (incoming : List Nat) :
    levelCases request units 0 incoming parts =
      request.keepApart (parts.map (·.pair)) [[]] := by
  rw [levelCases, containsDuplicatePaths_eq]
  by_cases hapart : (parts.map (·.pair)).Pairwise request.Apart
  · simp [keepApart, hapart]
  · simp [keepApart, hapart]

theorem rowCases_single {remaining : Nat} {incoming : List Nat} {parts : List UnitPart}
    (hbelow : ∀ incoming parts, levelCases request (request.choices.map single) remaining
      incoming parts = request.keepApart (parts.map (·.pair))
        (Tuples.tuples later remaining (request.available incoming))) :
    ∀ {left past : Parts} {acc : List Nat}, request.choices = past ++ left →
      Accumulates incoming past acc →
      rowCases (levelCases request (request.choices.map single) remaining) incoming parts acc
        (left.map single) =
          request.keepApart (parts.map (·.pair)) (request.row incoming remaining left) := by
  intro left
  induction left with
  | nil => exact fun _ _ => rfl
  | cons choice left ih =>
      intro past acc hsplit hacc
      have hnext : request.choices = (past ++ [choice]) ++ left := by simp [hsplit]
      have hunit : (single choice).parts = [⟨choice.1, choice.2, false⟩] := rfl
      rw [List.map_cons, rowCases]
      by_cases hskip : choice.1 ∈ incoming
      · rw [if_pos (show (single choice).child ∈ incoming from hskip), row_cons_skip hskip]
        exact ih hnext (hacc.skip hskip)
      · rw [if_neg (show (single choice).child ∉ incoming from hskip), row_cons hskip,
          keepApart_append, keepApart_cons, hbelow, hunit, List.map_append]
        change request.keepApart _ (Tuples.tuples later remaining
          (request.available (acc ++ [choice.1]))) ++ _ = _
        rw [available_descend hsplit hacc]
        exact congrArg _ (ih hnext (hacc.push choice))

/-- Without groups a level gives the tuples over the entries that are not skipped. -/
theorem levelCases_single (remaining : Nat) : ∀ (incoming : List Nat) (parts : List UnitPart),
    levelCases request (request.choices.map single) remaining incoming parts =
      request.keepApart (parts.map (·.pair))
        (Tuples.tuples later remaining (request.available incoming)) := by
  induction remaining with
  | zero => exact fun incoming parts => levelCases_zero parts _ incoming
  | succ remaining ih =>
      intro incoming parts
      have hacc : Accumulates incoming [] incoming := by
        intro entry
        simp
      exact rowCases_single ih (List.nil_append _) hacc

theorem depthCases_eq (hunits : collectUnits request [] request.seq =
      request.choices.map single) :
    request.depthCases = request.combinations := by
  funext depth
  have havailable : request.available [] = request.choices := by simp [available]
  rw [depthCases, hunits, levelCases_single, havailable]
  rfl

end

def lastDepth (request : CompiledRequest) : Option Int → Nat
  | some maximum => maximum.toNat
  | none => request.entries.length + 1

theorem combinatorialCursor_drains {root : Block} {maxBytes : Int32} {fuel : Nat}
    {request : CompiledRequest} (hassembled : Assembled root maxBytes fuel request)
    (hfree : request.GroupFree) {maxDepth : Option Int}
    (hdepth : ∀ maximum ∈ maxDepth, 1 ≤ maximum) :
    Walker.Drains request.cursorTurn (request.combinatorialCursor maxDepth)
      ((List.range' 1 (request.lastDepth maxDepth)).flatMap request.combinations) := by
  have hcases := depthCases_eq (collectUnits_groupFree hassembled hfree)
  refine drains_lift request.cursorTurn_combinatorial ?_
  rw [← hcases]
  cases maxDepth with
  | none =>
      refine depths_drain request.entries.length 0 (by simp) fun _ => ?_
      rw [hcases]
      exact combinations_nil_of_large (by omega)
  | some maximum =>
      have hpositive := hdepth maximum rfl
      obtain ⟨left, hleft⟩ : ∃ left : Nat, maximum = ((0 + 1 + left : Nat) : Int) :=
        ⟨maximum.toNat - 1, by omega⟩
      have hlast : request.lastDepth (some maximum) = left + 1 := by
        simp only [lastDepth]
        omega
      rw [hlast]
      refine depths_drain left 0 ?_ (by simp)
      intro other hother
      rw [← Option.mem_some_iff.mp hother]
      exact hleft

/-- Repeated steps of the combinatorial walker emit the combinations of each depth in
turn, each depth in the order of its units. -/
theorem combinatorial_exact {root : Block} {maxBytes : Int32}
    {request : CompiledRequest}
    (hcompile : Eval.Returns (compile root maxBytes) request)
    (hfree : request.GroupFree) {maxDepth : Option Int}
    (hdepth : ∀ maximum ∈ maxDepth, 1 ≤ maximum) :
    Walker.Drains request.cursorTurn (request.combinatorialCursor maxDepth)
        ((List.range' 1 (request.lastDepth maxDepth)).flatMap request.combinations) ∧
      (∀ depth parts, parts ∈ request.combinations depth ↔
        request.IsCombination depth parts) ∧
      (∀ depth, (request.combinations depth).Pairwise (List.Lex Earlier)) ∧
      (∀ depth deeper, depth ≤ deeper → request.combinations depth = [] →
        request.combinations deeper = []) ∧
      ∀ depth, request.entries.length < depth → request.combinations depth = [] := by
  obtain ⟨fuel, hdone⟩ := hcompile
  have hassembled := (compile_eq_done hdone).assembled
  refine ⟨combinatorialCursor_drains hassembled hfree hdepth,
    fun _ _ => mem_combinations, combinations_pairwise,
    fun _ _ => combinations_nil_of_le, fun _ => combinations_nil_of_large⟩

def pairedRoot : Block :=
  Block.new (Text.ofAscii "r")
    [.leaf (Text.ofAscii "a") (Field.simple [0x31] [[0x32], [0x33]]),
     .leaf (Text.ofAscii "b") (Field.simple [0x34] [[0x35]])]

def pairedRequest : CompiledRequest where
  name := Text.ofAscii "r"
  entries :=
    [⟨Text.ofAscii "r", none, .container [1, 2], none, none, none⟩,
     ⟨Text.ofAscii "r.a", some 0, .atom (Field.simple [0x31] [[0x32], [0x33]]),
       none, none, none⟩,
     ⟨Text.ofAscii "r.b", some 0, .atom (Field.simple [0x34] [[0x35]]),
       none, none, none⟩]
  paths :=
    [(Text.ofAscii "r", 0), (Text.ofAscii "r.a", 1), (Text.ofAscii "r.b", 2)]
  maxBytes := 64
  seq := .sequence [.plain 1, .plain 2]

theorem pairedRoot_compiles : compile pairedRoot 64 4 = .done pairedRequest := rfl

/-- Depth two: the three candidates alone, then the two pairs. -/
theorem pairedRequest_drains :
    Walker.Drains pairedRequest.cursorTurn (pairedRequest.combinatorialCursor (some 2))
      [[(1, 0)], [(1, 1)], [(2, 0)], [(1, 0), (2, 0)], [(1, 1), (2, 0)]] := by
  have hfree : pairedRequest.GroupFree := by
    intro entry hmem
    simp only [pairedRequest, List.mem_cons, List.not_mem_nil, or_false] at hmem
    rcases hmem with rfl | rfl | rfl <;> rfl
  have hdepth : ∀ maximum ∈ some (2 : Int), 1 ≤ maximum := by
    rintro _ ⟨⟩
    decide
  exact (combinatorial_exact ⟨4, pairedRoot_compiles⟩ hfree hdepth).1

end CompiledRequest

end MoonBoofuzz
