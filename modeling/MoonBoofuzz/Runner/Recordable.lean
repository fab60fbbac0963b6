import MoonBoofuzz.Mutation.Replay
import MoonBoofuzz.Runner.Record
import MoonBoofuzz.Runner.Thresholds

namespace MoonBoofuzz

namespace CompiledRequest

variable {request : CompiledRequest}

theorem Table.path_ne_nil (htable : Table request) {index : Nat}
    (hindex : index < request.entries.length) : (request.entry index).path ≠ [] := by
  have hroot : (request.entry 0).path ≠ [] := by
    have hname := htable.rootName
    simp only [validName, decide_eq_true_eq] at hname
    exact hname.1
  by_cases hzero : index = 0
  · rwa [hzero]
  · obtain ⟨children, -, hforest⟩ := htable.tree
    obtain ⟨rest, hrest⟩ := hforest.path (Nat.one_le_iff_ne_zero.mpr hzero) hindex
    rw [← hrest]
    simp

theorem Enumerates.exist (hcompiles : request.Compiles) {mode : Mode} {raw : List Parts}
    (henumerates : request.Enumerates mode raw) {parts : Parts} (hmem : parts ∈ raw) :
    parts ≠ [] ∧ ∀ part ∈ parts, part.2 < (request.kind part.1).count := by
  obtain ⟨root, maxBytes, fuel, hdone⟩ := hcompiles
  have hassembled := (compile_eq_done hdone).assembled
  cases mode with
  | sequential =>
      obtain rfl := Walker.Drains.unique henumerates request.sequentialCursor_drains
      obtain ⟨groups, front, leaf, -, rfl, hchain⟩ := hassembled.chain hmem
      exact ⟨by simp, hchain.count⟩
  | combinatorial maxDepth =>
      obtain ⟨last, final, htakes, -⟩ := henumerates
      have hkeeps := keeps_lift request.cursorTurn_combinatorial combTurn_keeps
      have hcombined :=
        hkeeps.takes htakes ⟨_, rfl, hassembled.sound maxDepth⟩ parts hmem
      exact ⟨hcombined.nonempty, hcombined.count⟩

theorem buildCase_named {vars : Option Vars} {ordinal fuel : Nat} {parts : Parts}
    {case : MutationCase} (hbuild : request.buildCase vars ordinal parts fuel = .done case) :
    case.requestName = request.name ∧
      case.fieldPath = (request.entry (parts.getLastD (0, 0)).1).path := by
  simp only [buildCase, Eval.bind_eq_done_iff, Eval.done.injEq] at hbuild
  obtain ⟨_, -, payload, -, rfl⟩ := hbuild
  exact ⟨rfl, rfl⟩

theorem Compiles.table (hcompiles : request.Compiles) : Table request := by
  obtain ⟨root, maxBytes, fuel, hdone⟩ := hcompiles
  exact (compile_eq_done hdone).assembled.table

theorem Compiles.name_ne_nil (hcompiles : request.Compiles) : request.name ≠ [] := by
  obtain ⟨root, maxBytes, fuel, hdone⟩ := hcompiles
  have hassembled := (compile_eq_done hdone).assembled
  obtain ⟨index, hadd⟩ := hassembled.added
  rw [hassembled.name]
  obtain ⟨name, children, condition, alignment, group⟩ := root
  obtain ⟨-, registered, indices, filled, hregister, -, -⟩ := addNode_nested hadd
  obtain ⟨hname, -⟩ := registerNode_eq_ok hregister
  simp only [validName, decide_eq_true_eq] at hname
  exact hname.1

end CompiledRequest

namespace Runner

open CaseStream ProtocolDefinition

variable {ω : Type}

theorem mem_slots {path : SessionPath (EdgeCallback ω)} {vars : Option Vars}
    {base skip : Nat} {raw : List Parts} {case : MutationCase}
    (hmem : case ∈ Slot.kept ((path.slots vars base raw).drop skip)) :
    ∃ position parts inner, parts ∈ raw ∧
      Eval.Returns (path.target.buildCase vars position parts) inner ∧
        case = inner.shift base := by
  obtain ⟨i, hslot⟩ := Slot.mem_kept hmem
  rw [List.getElem?_drop, SessionPath.slots, List.getElem?_map,
    Option.map_eq_some_iff] at hslot
  obtain ⟨slot, hat, hcase⟩ := hslot
  cases slot with
  | stuck => cases hcase
  | pass => cases hcase
  | keep inner =>
      cases hcase
      obtain ⟨position, parts, hparts, hkeep⟩ := CompiledRequest.mem_slotsFrom hat
      exact ⟨position, parts, inner, hparts, CompiledRequest.slotAt_eq_keep.mp hkeep, rfl⟩

theorem Given.belongs {paths : List (SessionPath (EdgeCallback ω))} {settings : Settings ω}
    {path : SessionPath (EdgeCallback ω)} {case : MutationCase}
    (hgiven : Given paths settings path case) (hrequests : path.requests ≠ [])
    (hcompiles : path.target.Compiles) (hordinal : 0 ≤ wrap32 case.ordinal) :
    Settings.Belongs path case.recorded := by
  obtain ⟨raw, first, skip, henumerates, hkept⟩ := hgiven.kept
  obtain ⟨position, parts, inner, hparts, ⟨fuel, hbuild⟩, rfl⟩ := mem_slots hkept
  obtain ⟨hname, hfield⟩ := CompiledRequest.buildCase_named hbuild
  obtain ⟨hne, hexist⟩ := henumerates.exist hcompiles hparts
  obtain ⟨front, leaf, rfl⟩ := List.eq_nil_or_concat' parts |>.resolve_left hne
  have hleaf := CompiledRequest.lt_of_count (hexist leaf (by simp))
  refine ⟨?_, ?_, ?_, hordinal⟩
  · obtain ⟨before, target, hsplit⟩ := List.eq_nil_or_concat' path.requests |>.resolve_left
      hrequests
    simp [SessionPath.names, SessionPath.target, hsplit, MutationCase.recorded,
      MutationCase.shift, hname]
  · rw [MutationCase.recorded, MutationCase.shift, hname]
    exact hcompiles.name_ne_nil
  · rw [MutationCase.recorded, MutationCase.shift, hfield, List.getLastD_concat]
    exact hcompiles.table.path_ne_nil hleaf

theorem record_valid_iff {path : SessionPath (EdgeCallback ω)} {case : MutationCase}
    {result : CaseResult} {paths : List (SessionPath (EdgeCallback ω))}
    {settings : Settings ω} (hgiven : Given paths settings path case)
    (hrequests : path.requests ≠ []) (hcompiles : path.target.Compiles)
    (hsound : Settings.Sound path case.recorded result) :
    (settings.record result).Valid ↔ 0 ≤ wrap32 case.ordinal := by
  constructor
  · intro hvalid
    have hordinal := hvalid.ordinal
    rwa [Settings.record, hsound.case] at hordinal
  · intro hordinal
    exact Settings.record_valid hsound (hgiven.belongs hrequests hcompiles hordinal) settings

/-- Each result is recordable exactly when the ordinal of its case, of 32 bits, is not
negative; the record is then well formed. -/
theorem results_recordable {paths : List (SessionPath (EdgeCallback ω))}
    {settings : Settings ω} {runner last : Runner ω} {world after : ω}
    {results : List CaseResult} (hnew : withDialer paths settings = .ok runner)
    (hpaths : ∀ path ∈ paths, path.requests ≠ [] ∧ path.target.Compiles)
    (hcounted : Counted settings.mode settings.start.toInt
      (candidatesOf settings.mode paths))
    (hruns : Runs Ample runner world results last after) :
    ∃ executed state,
      Reference.process settings (processOf settings paths)
          (results.map fun result => isFailure result.outcome) = some (executed, state) ∧
        List.Forall₂ (fun result taken =>
          ((settings.record result).validate = .ok () ↔ 0 ≤ wrap32 taken.2.ordinal) ∧
            (0 ≤ wrap32 taken.2.ordinal → (settings.record result).Valid))
          results executed := by
  obtain ⟨executed, state, hran⟩ := withDialer_runs hnew hcounted hruns
  have hsettings : runner.settings = settings := by rw [withDialer_eq_ok hnew]
  have hshown : runner.paths = paths := by rw [withDialer_eq_ok hnew]
  have hprocess := hran.process
  have hgiven := hran.given
  rw [hsettings] at hprocess hgiven
  rw [hshown] at hgiven
  refine ⟨executed, state, hprocess, ?_⟩
  have hboth := (List.forall₂_and_left executed results).mpr ⟨hgiven, hran.sound.flip⟩
  refine hboth.flip.imp fun result taken htaken => ?_
  obtain ⟨hcase, hsound⟩ := htaken
  obtain ⟨hrequests, hcompiles⟩ := hpaths taken.1 hcase.mem
  have hvalid := record_valid_iff hcase hrequests hcompiles hsound
  exact ⟨CaseRecord.validate_ok.trans hvalid, hvalid.mpr⟩

theorem linerPath_compiles :
    Settings.linerPath.requests ≠ [] ∧ Settings.linerPath.target.Compiles :=
  ⟨by decide, CompiledRequest.pairedRoot, 64, 4, CompiledRequest.pairedRoot_compiles⟩

/-- The results of two cases that the monitor has not accepted. -/
theorem rejectedResults_recordable :
    ∃ executed state,
      Reference.process rejectingSettings (processOf rejectingSettings [Settings.linerPath])
          [true, true] = some (executed, state) ∧
      List.Forall₂ (fun result taken =>
        ((rejectingSettings.record result).validate = .ok () ↔
            0 ≤ wrap32 taken.2.ordinal) ∧
          (0 ≤ wrap32 taken.2.ordinal → (rejectingSettings.record result).Valid))
        rejectedResults executed :=
  results_recordable rejectingRunner_new (List.forall_mem_singleton.mpr linerPath_compiles)
    linerPath_counted rejectingRunner_runs

/-- A result past the ordinals of 32 bits is refused. -/
theorem farResults_refused :
    withDialer farPaths (acceptingSettings 2147483647) = .ok farRunner ∧
      (∀ path ∈ farPaths, path.requests ≠ [] ∧ path.target.Compiles) ∧
      Runs Ample farRunner [] farResults (afterSecond farRunner).1
        (afterSecond farRunner).2 ∧
      ∃ result ∈ farResults,
        ((acceptingSettings 2147483647).record result).validate ≠ .ok () := by
  refine ⟨farPaths_new, ?_, farPaths_runs, _,
    List.mem_cons_of_mem _ List.mem_cons_self, fun hvalidate => ?_⟩
  · refine List.forall_mem_cons.mpr ⟨⟨by decide, CompiledRequest.longRoot, 64, 6,
      CompiledRequest.longRoot_compiles⟩, List.forall_mem_singleton.mpr linerPath_compiles⟩
  · have hordinal := (CaseRecord.validate_ok.mp hvalidate).ordinal
    exact absurd hordinal (by decide)

end Runner

end MoonBoofuzz
