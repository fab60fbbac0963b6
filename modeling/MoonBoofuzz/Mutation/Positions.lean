import MoonBoofuzz.Data.Slots
import MoonBoofuzz.Mutation.Emission

namespace MoonBoofuzz

namespace CompiledRequest

/-! What lies at the raw positions of an enumeration. -/

open Classical in
/-- A candidate is a case, is too large to be one, or stops the stream. -/
noncomputable def slotAt (request : CompiledRequest) (vars : Option Vars)
    (position : Nat) (parts : Parts) : Slot MutationCase :=
  if h : ∃ case, Eval.Returns (request.buildCase vars position parts) case then
    .keep h.choose
  else if ∃ message, Eval.Raises (request.buildCase vars position parts)
      (.limit message) then .pass
  else .stuck

noncomputable def slotsFrom (request : CompiledRequest) (vars : Option Vars) :
    Nat → List Parts → List (Slot MutationCase)
  | _, [] => []
  | position, parts :: rest =>
      request.slotAt vars position parts :: slotsFrom request vars (position + 1) rest

section

variable {request : CompiledRequest} {vars : Option Vars}

theorem slotAt_eq_keep {position : Nat} {parts : Parts} {case : MutationCase} :
    request.slotAt vars position parts = .keep case ↔
      Eval.Returns (request.buildCase vars position parts) case := by
  unfold slotAt
  split
  · rename_i h
    constructor
    · intro hkeep
      cases hkeep
      exact h.choose_spec
    · intro hreturns
      rw [h.choose_spec.unique (buildCase_mono _ _ _ _) hreturns]
  · rename_i h
    constructor
    · intro hkeep
      split at hkeep <;> cases hkeep
    · intro hreturns
      exact absurd ⟨case, hreturns⟩ h

theorem slotAt_eq_pass {position : Nat} {parts : Parts} :
    request.slotAt vars position parts = .pass ↔
      ∃ message, Eval.Raises (request.buildCase vars position parts)
        (.limit message) := by
  unfold slotAt
  split
  · rename_i h
    obtain ⟨case, hreturns⟩ := h
    constructor
    · intro hpass
      cases hpass
    · rintro ⟨message, hraises⟩
      exact absurd hraises (hreturns.not_raises (buildCase_mono _ _ _ _))
  · split
    · rename_i h
      exact ⟨fun _ => h, fun _ => rfl⟩
    · rename_i h
      constructor
      · intro hpass
        cases hpass
      · intro hraises
        exact absurd hraises h

theorem length_slotsFrom (position : Nat) (raw : List Parts) :
    (request.slotsFrom vars position raw).length = raw.length := by
  induction raw generalizing position with
  | nil => rfl
  | cons parts rest ih => simp [slotsFrom, ih]

theorem drop_slotsFrom (count position : Nat) (raw : List Parts) :
    (request.slotsFrom vars position raw).drop count =
      request.slotsFrom vars (position + count) (raw.drop count) := by
  induction raw generalizing count position with
  | nil => simp [slotsFrom]
  | cons parts rest ih =>
      cases count with
      | zero => rfl
      | succ count =>
          rw [slotsFrom, List.drop_succ_cons, ih, List.drop_succ_cons]
          congr 1
          omega

theorem getElem?_slotsFrom (position : Nat) (raw : List Parts) (i : Nat) :
    (request.slotsFrom vars position raw)[i]? =
      raw[i]?.map (request.slotAt vars (position + i)) := by
  induction raw generalizing position i with
  | nil => simp [slotsFrom]
  | cons parts rest ih =>
      cases i with
      | zero => rfl
      | succ i =>
          have hsum : position + 1 + i = position + (i + 1) := by omega
          rw [slotsFrom, List.getElem?_cons_succ, ih, List.getElem?_cons_succ, hsum]

theorem mem_slotsFrom {slot : Slot MutationCase} {position i : Nat} {raw : List Parts}
    (hslot : (request.slotsFrom vars position raw)[i]? = some slot) :
    ∃ position parts, parts ∈ raw ∧ request.slotAt vars position parts = slot := by
  rw [getElem?_slotsFrom] at hslot
  obtain ⟨parts, hparts, hat⟩ := Option.map_eq_some_iff.mp hslot
  exact ⟨position + i, parts, List.mem_of_getElem? hparts, hat⟩

theorem slotsFrom_numbered (position : Nat) (raw : List Parts) :
    Slot.Numbered (·.ordinal) position (request.slotsFrom vars position raw) := by
  intro i case hslot
  rw [getElem?_slotsFrom] at hslot
  obtain ⟨parts, -, hkeep⟩ := Option.map_eq_some_iff.mp hslot
  obtain ⟨fuel, hbuild⟩ := slotAt_eq_keep.mp hkeep
  exact CaseStream.buildCase_ordinal hbuild

end

end CompiledRequest

namespace CaseStream

/-- A running stream with the given candidates left to its walker. -/
structure Stands (request : CompiledRequest) (vars : Option Vars) (raw : List Parts)
    (stream : CaseStream) : Prop where
  sameRequest : stream.request = request
  sameVars : stream.vars = vars
  running : stream.state = .running
  drains : Walker.Drains request.cursorTurn stream.cursor raw
  skipped : stream.skip ≤ stream.ordinal
  small : stream.ordinal ≤ 2147483647
  limit : stream.limit = 2147483647
  emitted : stream.emitted + stream.skip ≤ stream.ordinal

section

variable {request : CompiledRequest} {vars : Option Vars}

theorem drains_cons {cursor : Cursor} {parts : Parts} {raw : List Parts}
    (hdrains : Walker.Drains request.cursorTurn cursor (parts :: raw)) :
    ∃ next, Walker.Gives request.cursorTurn cursor (some parts) next ∧
      Walker.Drains request.cursorTurn next raw := by
  obtain ⟨last, final, htakes, hnone⟩ := hdrains
  cases htakes with
  | cons hfirst hrest => exact ⟨_, hfirst, last, final, hrest, hnone⟩

theorem drains_nil {cursor : Cursor}
    (hdrains : Walker.Drains request.cursorTurn cursor []) :
    ∃ next, Walker.Gives request.cursorTurn cursor none next := by
  obtain ⟨last, final, htakes, hnone⟩ := hdrains
  cases htakes with
  | nil _ => exact ⟨final, hnone⟩

theorem Stands.advance {stream : CaseStream} {next : Cursor} {parts : Parts}
    {raw : List Parts} (hstands : Stands request vars (parts :: raw) stream)
    (hskip : stream.skip = 0) (hordinal : stream.ordinal < 2147483647)
    (hdrains : Walker.Drains request.cursorTurn next raw)
    {emitted : Nat} (hemitted : emitted ≤ stream.emitted + 1) :
    Stands request vars raw
      { stream with
        cursor := next
        ordinal := stream.ordinal + 1
        emitted := emitted } := by
  have hcount := hstands.emitted
  exact { hstands with
    drains := hdrains
    skipped := by dsimp only; omega
    small := hordinal
    emitted := by dsimp only; omega }

/-- An answer of the emitting loop is the next case of the positions ahead. -/
theorem Emits.ahead {stream after : CaseStream} {answer : Answer}
    (hemits : Emits stream answer after) : ∀ {raw : List Parts}
    {found : Option MutationCase}, Stands request vars raw stream → stream.skip = 0 →
    answer = .done found →
    ∃ count, Slot.ahead (request.slotsFrom vars stream.ordinal raw) =
        some (found, count) ∧
      after.ordinal = stream.ordinal + count ∧ after.skip = 0 ∧
      (found.isSome → Stands request vars (raw.drop count) after) := by
  induction hemits with
  | overflow _ =>
      intro raw found _ _ hanswer
      cases hanswer
  | failed _ _ _ =>
      intro raw found _ _ hanswer
      cases hanswer
  | exhausted hordinal hgives =>
      intro raw found hstands hskip hanswer
      cases hanswer
      rw [hstands.sameRequest] at hgives
      cases raw with
      | nil => exact ⟨0, rfl, rfl, hskip, by simp⟩
      | cons parts rest =>
          obtain ⟨next, hother, -⟩ := drains_cons hstands.drains
          exact absurd (hgives.unique hother).1 (by simp)
  | oversized hordinal hgives hbuild _ ih =>
      intro raw found hstands hskip hanswer
      rw [hstands.sameRequest] at hgives
      rw [hstands.sameRequest, hstands.sameVars] at hbuild
      cases raw with
      | nil =>
          obtain ⟨next, hnone⟩ := drains_nil hstands.drains
          exact absurd (hgives.unique hnone).1 (by simp)
      | cons parts rest =>
          obtain ⟨next, hother, hdrains⟩ := drains_cons hstands.drains
          obtain ⟨hparts, rfl⟩ := hgives.unique hother
          cases hparts
          obtain ⟨count, hahead, hordinal', hskip', hstands'⟩ :=
            ih (hstands.advance hskip hordinal hdrains (Nat.le_succ _)) hskip hanswer
          have hpass := CompiledRequest.slotAt_eq_pass.mpr ⟨_, hbuild⟩
          refine ⟨count + 1, ?_, ?_, hskip', hstands'⟩
          · rw [CompiledRequest.slotsFrom, hpass, Slot.ahead, hahead]
            rfl
          · dsimp only at hordinal'
            omega
  | built hordinal hgives hbuild =>
      intro raw found hstands hskip hanswer
      cases hanswer
      rw [hstands.sameRequest] at hgives
      rw [hstands.sameRequest, hstands.sameVars] at hbuild
      cases raw with
      | nil =>
          obtain ⟨next, hnone⟩ := drains_nil hstands.drains
          exact absurd (hgives.unique hnone).1 (by simp)
      | cons parts rest =>
          obtain ⟨next, hother, hdrains⟩ := drains_cons hstands.drains
          obtain ⟨hparts, rfl⟩ := hgives.unique hother
          cases hparts
          have hkeep := CompiledRequest.slotAt_eq_keep.mpr hbuild
          refine ⟨1, ?_, rfl, hskip, fun _ => ?_⟩
          · rw [CompiledRequest.slotsFrom, hkeep, Slot.ahead]
          · exact hstands.advance hskip hordinal hdrains (le_refl _)

/-- Where the positions ahead hold a case or end, the emitting loop answers. -/
theorem emits_of_ahead {raw : List Parts} : ∀ {stream : CaseStream}
    {found : Option MutationCase} {count : Nat}, Stands request vars raw stream →
    stream.skip = 0 → stream.ordinal + count ≤ 2147483647 →
    (found = none → stream.ordinal + count < 2147483647) →
    Slot.ahead (request.slotsFrom vars stream.ordinal raw) = some (found, count) →
    ∃ after, Emits stream (.done found) after := by
  induction raw with
  | nil =>
      intro stream found count hstands hskip _ hend hahead
      cases hahead
      obtain ⟨next, hnone⟩ := drains_nil hstands.drains
      rw [← hstands.sameRequest] at hnone
      exact ⟨_, .exhausted (hend rfl) hnone⟩
  | cons parts rest ih =>
      intro stream found count hstands hskip hroom hend hahead
      obtain ⟨next, hgives, hdrains⟩ := drains_cons hstands.drains
      rw [← hstands.sameRequest] at hgives
      rw [CompiledRequest.slotsFrom] at hahead
      cases hslot : request.slotAt vars stream.ordinal parts with
      | stuck => simp [hslot, Slot.ahead] at hahead
      | keep case =>
          simp only [hslot, Slot.ahead, Option.some.injEq, Prod.mk.injEq] at hahead
          obtain ⟨rfl, rfl⟩ := hahead
          have hbuild := CompiledRequest.slotAt_eq_keep.mp hslot
          rw [← hstands.sameRequest, ← hstands.sameVars] at hbuild
          exact ⟨_, .built hroom hgives hbuild⟩
      | pass =>
          simp only [hslot, Slot.ahead, Option.map_eq_some_iff, Prod.mk.injEq] at hahead
          obtain ⟨⟨_, steps⟩, hrest, rfl, rfl⟩ := hahead
          obtain ⟨message, hbuild⟩ := CompiledRequest.slotAt_eq_pass.mp hslot
          rw [← hstands.sameRequest, ← hstands.sameVars] at hbuild
          have hordinal : stream.ordinal < 2147483647 := by omega
          obtain ⟨after, hemits⟩ := ih
            (hstands.advance hskip hordinal hdrains (Nat.le_succ stream.emitted)) hskip
            (by dsimp only; omega) (fun hnone => by have := hend hnone; dsimp only; omega)
            hrest
          exact ⟨after, .oversized hordinal hgives hbuild hemits⟩

theorem Emits.ended_lt {stream after : CaseStream} {answer : Answer}
    (hemits : Emits stream answer after) (hnone : answer = .done none) :
    after.ordinal < 2147483647 := by
  induction hemits with
  | exhausted hordinal _ => exact hordinal
  | oversized _ _ _ _ ih => exact ih hnone
  | _ => cases hnone

theorem lands_of_le {raw : List Parts} : ∀ {skip : Nat} {cursor : Cursor},
    Walker.Drains request.cursorTurn cursor raw → skip ≤ raw.length →
    ∃ after, Lands request skip cursor 0 after ∧
      Walker.Drains request.cursorTurn after (raw.drop skip) := by
  induction raw with
  | nil =>
      intro skip cursor hdrains hskip
      obtain rfl : skip = 0 := by simpa using hskip
      exact ⟨cursor, .zero cursor, hdrains⟩
  | cons parts rest ih =>
      intro skip cursor hdrains hskip
      cases skip with
      | zero => exact ⟨cursor, .zero cursor, hdrains⟩
      | succ skip =>
          obtain ⟨next, hgives, hrest⟩ := drains_cons hdrains
          obtain ⟨after, hlands, hafter⟩ := ih hrest (by simpa using hskip)
          exact ⟨after, .passed hgives hlands, hafter⟩

theorem lands_of_lt {raw : List Parts} : ∀ {skip : Nat} {cursor : Cursor},
    Walker.Drains request.cursorTurn cursor raw → raw.length < skip →
    ∃ after, Lands request skip cursor (skip - raw.length) after := by
  induction raw with
  | nil =>
      intro skip cursor hdrains hskip
      obtain ⟨next, hnone⟩ := drains_nil hdrains
      obtain ⟨skip, rfl⟩ := Nat.exists_eq_add_of_lt hskip
      exact ⟨next, by simpa using Lands.ended hnone⟩
  | cons parts rest ih =>
      intro skip cursor hdrains hskip
      cases skip with
      | zero => simp at hskip
      | succ skip =>
          obtain ⟨next, hgives, hrest⟩ := drains_cons hdrains
          obtain ⟨after, hlands⟩ := ih hrest (by simpa using hskip)
          refine ⟨after, .passed hgives ?_⟩
          rw [List.length_cons, Nat.succ_sub_succ]
          exact hlands

theorem Stands.landed {stream : CaseStream} {raw : List Parts} {cursor : Cursor}
    (hstands : Stands request vars raw stream)
    (hdrains : Walker.Drains request.cursorTurn cursor (raw.drop stream.skip)) :
    Stands request vars (raw.drop stream.skip)
      { stream with skip := 0, cursor := cursor } := by
  have hcount := hstands.emitted
  exact { hstands with
    drains := hdrains
    skipped := Nat.zero_le _
    emitted := by dsimp only; omega }

theorem answers_landed {stream after : CaseStream} {raw : List Parts}
    {answer : Answer} (hstands : Stands request vars raw stream)
    (hskip : stream.skip ≤ raw.length) (hample : stream.emitted < 2147483647) :
    Answers stream answer after ↔
      ∃ cursor, Lands request stream.skip stream.cursor 0 cursor ∧
        Stands request vars (raw.drop stream.skip)
          { stream with skip := 0, cursor := cursor } ∧
        Emits { stream with skip := 0, cursor := cursor } answer after := by
  obtain ⟨cursor, hlands, hdrains⟩ := lands_of_le hstands.drains hskip
  have hlanded := hstands.landed hdrains
  have hmax := hstands.limit
  rw [answers_running hstands.running]
  constructor
  · rintro ⟨left, cursor', hlands', hproceeds⟩
    rw [hstands.sameRequest] at hlands'
    obtain ⟨rfl, rfl⟩ := hlands'.unique hlands
    refine ⟨cursor', hlands, hlanded, ?_⟩
    cases hproceeds with
    | ended hleft => omega
    | limited _ hlimit => omega
    | emits _ _ hemits => exact hemits
  · rintro ⟨cursor', hlands', -, hemits⟩
    rw [← hstands.sameRequest] at hlands'
    exact ⟨0, cursor', hlands', .emits rfl (by omega) hemits⟩

theorem Answers.emitted_lt {stream after : CaseStream} {case : MutationCase}
    (hanswers : Answers stream (.done (some case)) after)
    (hrunning : stream.state = .running) : stream.emitted < stream.limit := by
  obtain ⟨left, cursor, -, hproceeds⟩ := (answers_running hrunning).mp hanswers
  cases hproceeds with
  | emits _ hroom _ => exact hroom

theorem Answers.ahead {stream after : CaseStream} {raw : List Parts}
    {found : Option MutationCase} (hanswers : Answers stream (.done found) after)
    (hstands : Stands request vars raw stream) (hskip : stream.skip ≤ raw.length)
    (hample : found = none → stream.emitted < 2147483647) :
    ∃ count,
      Slot.ahead (request.slotsFrom vars stream.ordinal (raw.drop stream.skip)) =
          some (found, count) ∧
        after.ordinal = stream.ordinal + count ∧ after.skip = 0 ∧
        (found.isSome →
          Stands request vars ((raw.drop stream.skip).drop count) after) := by
  have hemitted : stream.emitted < 2147483647 := by
    cases found with
    | none => exact hample rfl
    | some case =>
        rw [← hstands.limit]
        exact hanswers.emitted_lt hstands.running
  obtain ⟨cursor, -, hlanded, hemits⟩ :=
    (answers_landed hstands hskip hemitted).mp hanswers
  exact hemits.ahead hlanded rfl rfl

theorem answers_of_ahead {stream : CaseStream} {raw : List Parts}
    {found : Option MutationCase} {count : Nat}
    (hstands : Stands request vars raw stream) (hskip : stream.skip ≤ raw.length)
    (hample : stream.emitted < 2147483647) (hroom : stream.ordinal + count ≤ 2147483647)
    (hend : found = none → stream.ordinal + count < 2147483647)
    (hahead : Slot.ahead
      (request.slotsFrom vars stream.ordinal (raw.drop stream.skip)) =
        some (found, count)) :
    ∃ after, Answers stream (.done found) after := by
  obtain ⟨cursor, hlands, hdrains⟩ := lands_of_le hstands.drains hskip
  have hlanded := hstands.landed hdrains
  obtain ⟨after, hemits⟩ := emits_of_ahead hlanded rfl hroom hend hahead
  exact ⟨after, (answers_landed hstands hskip hample).mpr ⟨cursor, hlands, hlanded, hemits⟩⟩

theorem answers_beyond {stream after : CaseStream} {raw : List Parts}
    {answer : Answer} (hstands : Stands request vars raw stream)
    (hskip : raw.length < stream.skip) (hanswers : Answers stream answer after) :
    answer = .done none ∧ after.ordinal = stream.ordinal ∧
      after.skip = stream.skip - raw.length := by
  obtain ⟨cursor, hlands⟩ := lands_of_lt hstands.drains hskip
  rw [answers_running hstands.running, hstands.sameRequest] at hanswers
  obtain ⟨left, cursor', hlands', hproceeds⟩ := hanswers
  obtain ⟨rfl, rfl⟩ := hlands'.unique hlands
  cases hproceeds with
  | ended _ => exact ⟨rfl, rfl, rfl⟩
  | limited hleft _ => omega
  | emits hleft _ _ => omega

theorem enumerate_stands {mode : CompiledRequest.Mode} {start : Int32}
    {stream : CaseStream} {raw : List Parts}
    (hdrains : Walker.Drains request.cursorTurn (request.initialCursor mode) raw)
    (hstream : request.enumerate mode vars start 2147483647 = .ok stream) :
    Stands request vars raw stream ∧ stream.ordinal = start.toInt.toNat ∧
      stream.skip = start.toInt.toNat := by
  obtain ⟨-, rfl⟩ := enumerate_eq_ok hstream
  have hupper := start.toInt_lt
  refine ⟨?_, rfl, rfl⟩
  exact {
    sameRequest := rfl
    sameVars := rfl
    running := rfl
    drains := hdrains
    skipped := le_refl _
    small := by dsimp only; omega
    limit := rfl
    emitted := by simp }

end

end CaseStream

end MoonBoofuzz
