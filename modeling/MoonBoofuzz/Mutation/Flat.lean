import MoonBoofuzz.Model.Flat
import MoonBoofuzz.Mutation.Sequential
import MoonBoofuzz.Mutation.Sweep

namespace MoonBoofuzz

namespace CaseStream

/-! A stream whose candidates all fit. -/

theorem delivers_all {payload : Parts → Bytes} {raw : List Parts} {stream : CaseStream}
    (hrunning : stream.state = .running) (hskip : stream.skip = 0)
    (hordinal : stream.ordinal = stream.emitted) (hbound : stream.limit ≤ 2147483647)
    (hdrains : Walker.Drains stream.request.cursorTurn stream.cursor raw)
    (hbuild : ∀ parts ∈ raw, ∀ position, ∃ case,
      Eval.Returns (stream.request.buildCase stream.vars position parts) case ∧
        case.payload = payload parts)
    (hlimit : stream.emitted + raw.length ≤ stream.limit) :
    ∃ cases middle after, Delivers stream cases middle ∧
      Answers middle (.done none) after ∧
      cases.map MutationCase.payload = raw.map payload ∧
      (stream.emitted + raw.length < stream.limit → after.state = .exhausted) := by
  obtain ⟨last, final, htakes, hends⟩ := hdrains
  induction raw generalizing stream with
  | nil =>
      cases htakes
      have hlands : Lands stream.request stream.skip stream.cursor 0 stream.cursor := by
        rw [hskip]
        exact .zero _
      rcases Nat.lt_or_ge stream.emitted stream.limit with hbelow | hreached
      · refine ⟨[], stream, _, .nil stream, (answers_running hrunning).mpr
          ⟨0, stream.cursor, hlands, .emits rfl hbelow (.exhausted ?_ hends)⟩, rfl,
          fun _ => rfl⟩
        exact hordinal ▸ (by omega : stream.emitted < 2147483647)
      · refine ⟨[], stream, _, .nil stream, (answers_running hrunning).mpr
          ⟨0, stream.cursor, hlands, .limited rfl hreached⟩, rfl, fun hbelow => ?_⟩
        rw [List.length_nil] at hbelow
        omega
  | cons parts rest ih =>
      rw [List.length_cons] at hlimit
      cases htakes with
      | @cons _ next _ _ _ hfirst hrest =>
          obtain ⟨case, hcase, hpayload⟩ := hbuild parts (by simp) stream.ordinal
          have hlands : Lands stream.request stream.skip stream.cursor 0 stream.cursor := by
            rw [hskip]
            exact .zero _
          have hroom : stream.ordinal < 2147483647 := by omega
          have hanswers : Answers stream (.done (some case)) _ :=
            (answers_running hrunning).mpr ⟨0, stream.cursor, hlands,
              .emits rfl (by omega) (.built hroom hfirst hcase)⟩
          obtain ⟨cases, middle, after, hdelivers, hnone, hpayloads, hexhausted⟩ :=
            @ih { stream with
                skip := 0
                cursor := next
                ordinal := stream.ordinal + 1
                emitted := stream.emitted + 1 }
              hrunning rfl (congrArg (· + 1) hordinal) hbound
              (fun other hmem => hbuild other (by simp [hmem])) (by simp only; omega)
              hrest hends
          refine ⟨case :: cases, middle, after, .cons hanswers hdelivers, hnone, ?_, ?_⟩
          · rw [List.map_cons, List.map_cons, hpayload, hpayloads]
          · intro hbelow
            rw [List.length_cons] at hbelow
            exact hexhausted (by simp only; omega)

end CaseStream

namespace CompiledRequest

section

variable {name : Text} {request : Request} {maxBytes : Fin 2147483648}

def flatPayload (request : Request) (alternative : Bytes) (fieldIndex : Nat) : Bytes :=
  request.fields.zipIdx.flatMap fun item =>
    if item.2 = fieldIndex then alternative else item.1.defaultValue

def flatParts (item : Primitive × Nat) : List Parts :=
  (List.range item.1.mutations.length).map fun i => [(item.2 + 1, i)]

theorem flat_count {item : Primitive × Nat} (hmem : item ∈ request.fields.zipIdx) :
    ((flat name request maxBytes).kind (item.2 + 1)).count = item.1.mutations.length := by
  rw [kind, flat_entry_succ hmem]
  simp [flatEntry, EntryKind.count, flatField, Field.simple]

theorem flat_candidate {item : Primitive × Nat} (hmem : item ∈ request.fields.zipIdx)
    (i : Nat) :
    ((flat name request maxBytes).kind (item.2 + 1)).candidate i =
      item.1.mutations.getD i [] := by
  rw [kind, flat_entry_succ hmem]
  simp [flatEntry, EntryKind.candidate, flatField, Field.simple]

theorem denote_flat :
    denote (flat name request maxBytes) (flat name request maxBytes).seq =
      request.fields.zipIdx.flatMap flatParts := by
  have hall : ∀ items : List (Primitive × Nat), items ⊆ request.fields.zipIdx →
      denoteAll (flat name request maxBytes) (items.map flatSeq) =
        items.flatMap flatParts := by
    intro items
    induction items with
    | nil => exact fun _ => rfl
    | cons item rest ih =>
        intro hsubset
        have hcount : ((flat name request maxBytes).kind (item.2 + 1)).count =
            item.1.mutations.length := flat_count (hsubset (List.mem_cons_self ..))
        rw [List.map_cons, denoteAll, List.flatMap_cons,
          ih fun _ hmem => hsubset (List.mem_cons_of_mem _ hmem)]
        congr 1
        unfold flatSeq flatParts
        split
        · rw [denote, hcount]
        · rename_i hnone
          rw [Nat.eq_zero_of_not_pos hnone]
          rfl
  exact hall _ (List.Subset.refl _)

theorem flat_buildCase {item : Primitive × Nat} (hmem : item ∈ request.fields.zipIdx) {i : Nat}
    (vars : Option Vars) (position : Nat)
    (hfits : (flatPayload request (item.1.mutations.getD i []) item.2).length ≤ maxBytes.val) :
    ∃ case, Eval.Returns
        ((flat name request maxBytes).buildCase vars position [(item.2 + 1, i)]) case ∧
      case.payload = flatPayload request (item.1.mutations.getD i []) item.2 := by
  have hreplacements : (flat name request maxBytes).partReplacements [(item.2 + 1, i)] =
      [(item.2 + 1, item.1.mutations.getD i [])] := by
    simp only [partReplacements, List.map_cons, List.map_nil, flat_candidate hmem]
  have hroot : Replacements.lookup [(item.2 + 1, item.1.mutations.getD i [])] 0 = none := by
    simp [Replacements.lookup, List.lookup_cons]
  have hvalue : ∀ other : Primitive × Nat,
      flatValue [(item.2 + 1, item.1.mutations.getD i [])] other =
        if other.2 = item.2 then item.1.mutations.getD i [] else other.1.defaultValue := by
    intro other
    rw [flatValue, Replacements.lookup, List.lookup_cons]
    split
    · rename_i hsame
      have hindex : other.2 = item.2 := by simpa using hsame
      rw [if_pos hindex, Option.getD_some]
    · rename_i hother
      have hindex : other.2 ≠ item.2 := by simpa using hother
      rw [if_neg hindex]
      rfl
  have hpayload : request.fields.zipIdx.flatMap
      (flatValue [(item.2 + 1, item.1.mutations.getD i [])]) =
        flatPayload request (item.1.mutations.getD i []) item.2 := by
    rw [flatPayload, funext hvalue]
  have hnode := @flat_renderNode name request maxBytes _ hroot vars 0
    (by rw [hpayload]; exact hfits)
  rw [hpayload] at hnode
  -- The candidate is part of the message, so it passes the check before it is built.
  have hleaf : checkLeaf (flat name request maxBytes) (item.2 + 1, i) = .done () := by
    have hkind : (flat name request maxBytes).kind (item.2 + 1) = .atom (flatField item.1) := by
      rw [kind, flat_entry_succ hmem]
      rfl
    have hpart : (item.1.mutations.getD i []).length ≤ maxBytes.val := by
      refine le_trans ?_ hfits
      rw [flatPayload, List.flatMap_def]
      refine (List.sublist_flatten_of_mem (List.mem_map.mpr ⟨item, hmem, ?_⟩)).length_le
      rw [if_pos rfl]
    rw [checkLeaf, hkind]
    simp only [flatField, Field.simple, List.append_nil, Eval.check]
    exact if_pos (by exact_mod_cast hpart)
  refine ⟨?case, ⟨2, ?built⟩, ?sent⟩
  case built =>
    rw [buildCase, List.getLastD_cons, List.getLastD_nil, hleaf, hreplacements,
      Eval.done_bind, hnode, Eval.done_bind]
  case sent => rfl

theorem mutations_eq (request : Request) :
    request.mutations = request.fields.zipIdx.flatMap fun item =>
      (List.range item.1.mutations.length).map fun i =>
        flatPayload request (item.1.mutations.getD i []) item.2 := by
  rw [Request.mutations]
  apply List.flatMap_congr
  intro item _
  apply List.ext_getElem
  · simp
  · intro i hleft hright
    have hindex : i < item.1.mutations.length := by simpa using hleft
    simp [flatPayload, List.getD_eq_getElem?_getD, List.getElem?_eq_getElem hindex]

end

def partsPayload (request : Request) (parts : Parts) : Bytes :=
  match parts with
  | [(index + 1, i)] =>
      flatPayload request
        (((request.fields[index]?).map Primitive.mutations).getD [] |>.getD i []) index
  | _ => []

/-- A flat request and its compiled form agree: on the default message, and on all
mutations in order. -/
theorem fromRequest_agrees {request : Request} {name : Text} (hname : validName name = true)
    {maxBytes : Int32} (hrender : (request.render.length : Int) ≤ maxBytes.toInt)
    (hmutations : ∀ payload ∈ request.mutations, (payload.length : Int) ≤ maxBytes.toInt) :
    ∃ compiled, Eval.Returns (fromRequest name request maxBytes) compiled ∧
      Eval.Returns compiled.render request.render ∧
      ∀ (vars : Option Vars) (limit : Int32), (request.mutations.length : Int) ≤ limit.toInt →
        ∃ stream cases middle after, compiled.cases vars 0 limit = .ok stream ∧
          CaseStream.Delivers stream cases middle ∧
          CaseStream.Answers middle (.done none) after ∧
          cases.map MutationCase.payload = request.mutations ∧
          ((request.mutations.length : Int) < limit.toInt → after.state = .exhausted) := by
  obtain ⟨bytes, hbytes, hcompiled, hdefault⟩ := fromRequest_returns hname hrender
  refine ⟨flat name request bytes, hcompiled, hdefault, fun vars limit hlimit => ?_⟩
  have hupper := limit.toInt_lt
  have hpayload : ∀ item ∈ request.fields.zipIdx, ∀ i,
      partsPayload request [(item.2 + 1, i)] =
        flatPayload request (item.1.mutations.getD i []) item.2 := by
    intro item hmem i
    rw [List.mem_zipIdx_iff_getElem?] at hmem
    simp only [partsPayload, hmem, Option.map_some, Option.getD_some]
  have hpayloads : (request.fields.zipIdx.flatMap flatParts).map (partsPayload request) =
      request.mutations := by
    rw [mutations_eq, List.map_flatMap]
    apply List.flatMap_congr
    intro item hmem
    rw [flatParts, List.map_map]
    exact List.map_congr_left fun i _ => hpayload item hmem i
  have hcount : (request.fields.zipIdx.flatMap flatParts).length = request.mutations.length := by
    rw [← hpayloads, List.length_map]
  have hbuild : ∀ parts ∈ request.fields.zipIdx.flatMap flatParts, ∀ position, ∃ case,
      Eval.Returns ((flat name request bytes).buildCase vars position parts) case ∧
        case.payload = partsPayload request parts := by
    intro parts hparts position
    have hsent : partsPayload request parts ∈ request.mutations :=
      hpayloads ▸ List.mem_map_of_mem hparts
    obtain ⟨item, hitem, hmem⟩ := List.mem_flatMap.mp hparts
    obtain ⟨i, -, rfl⟩ := List.mem_map.mp hmem
    have hfits := hmutations _ hsent
    rw [hpayload item hitem] at hfits ⊢
    exact flat_buildCase hitem vars position (by omega)
  have hdrains := (flat name request bytes).sequentialCursor_drains
  rw [denote_flat] at hdrains
  obtain ⟨cases, middle, after, hdelivers, hnone, hsame, hstate⟩ :=
    @CaseStream.delivers_all (partsPayload request) _
      ⟨flat name request bytes, limit.toInt.toNat, 0, 0, 0, .running,
        (flat name request bytes).sequentialCursor, vars⟩ rfl rfl rfl
      (by simp only; omega) hdrains hbuild (by simp only; omega)
  refine ⟨_, cases, middle, after, ?_, hdelivers, hnone, hsame.trans hpayloads, ?_⟩
  · rw [CompiledRequest.cases, CompiledRequest.stream, if_pos ⟨by decide, by omega⟩]
    rfl
  · intro hbelow
    exact hstate (by simp only; omega)

def choicesRequest : Request where
  fields := [.choice [0x41] [[0x31], [0x32]], .static [0x3a], .choice [0x42] [[0x33], [0x33]]]

theorem choicesRequest_agrees :
    ∃ compiled,
      Eval.Returns (fromRequest (Text.ofAscii "r") choicesRequest 64) compiled ∧
      ∃ stream cases middle after, compiled.cases none 0 2147483647 = .ok stream ∧
        CaseStream.Delivers stream cases middle ∧
        CaseStream.Answers middle (.done none) after ∧
        cases.map MutationCase.payload =
          [[0x31, 0x3a, 0x42], [0x32, 0x3a, 0x42], [0x41, 0x3a, 0x33],
            [0x41, 0x3a, 0x33]] ∧
        after.state = .exhausted := by
  have hname : validName (Text.ofAscii "r") = true := by decide
  obtain ⟨compiled, hcompiled, -, hdrained⟩ :=
    @fromRequest_agrees choicesRequest _ hname 64 (by decide) (by decide)
  obtain ⟨stream, cases, middle, after, hstream, hdelivers, hnone, hsame, hstate⟩ :=
    hdrained none 2147483647 (by decide)
  exact ⟨compiled, hcompiled, stream, cases, middle, after, hstream, hdelivers, hnone, hsame,
    hstate (by decide)⟩

end CompiledRequest

end MoonBoofuzz
