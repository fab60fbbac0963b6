import MoonBoofuzz.Definition.Assemble
import MoonBoofuzz.Definition.Coverage
import MoonBoofuzz.Mutation.Resume

namespace MoonBoofuzz

namespace CompiledRequest

/-- The candidate at a position, if there is one, is refused as too long. -/
def TooLong (request : CompiledRequest) (position : Nat) : Prop :=
  ∀ parts, (denote request request.seq)[position]? = some parts →
    ∃ message, Eval.Raises (request.buildCase none position parts) (.limit message)

def AllTooLong (request : CompiledRequest) (offset : Nat) : Prop :=
  ∀ position, offset ≤ position → request.TooLong position

/-- The first candidate from the offset on that is not too long is at this position, and it
renders. -/
structure FirstShort (request : CompiledRequest) (offset position : Nat) : Prop where
  after : offset ≤ position
  before : ∀ earlier, offset ≤ earlier → earlier < position → request.TooLong earlier
  renders : ∃ parts case, (denote request request.seq)[position]? = some parts ∧
    Eval.Returns (request.buildCase none position parts) case

section

variable {request : CompiledRequest} {offset position : Nat}

theorem tooLong_iff : request.TooLong position ↔ ∀ slot,
    (request.slotsFrom none 0 (denote request request.seq))[position]? = some slot →
      slot = .pass := by
  rw [getElem?_slotsFrom, Nat.zero_add]
  constructor
  · intro hlong slot hslot
    obtain ⟨parts, hparts, rfl⟩ := Option.map_eq_some_iff.mp hslot
    exact slotAt_eq_pass.mpr (hlong parts hparts)
  · intro hpass parts hparts
    exact slotAt_eq_pass.mp (hpass _ (Option.map_eq_some_iff.mpr ⟨parts, hparts, rfl⟩))

theorem passed_of_tooLong {count : Nat}
    (hlong : ∀ earlier, offset ≤ earlier → earlier < offset + count →
      request.TooLong earlier) :
    Slot.Passed (((request.slotsFrom none 0 (denote request request.seq)).drop offset).take
      count) := by
  intro slot hmem
  obtain ⟨i, hslot⟩ := List.getElem?_of_mem hmem
  rw [List.getElem?_take] at hslot
  split at hslot
  · rename_i hlt
    rw [List.getElem?_drop] at hslot
    exact tooLong_iff.mp (hlong (offset + i) (by omega) (by omega)) slot hslot
  · cases hslot

theorem tooLong_of_passed {count : Nat}
    (hpassed : Slot.Passed
      (((request.slotsFrom none 0 (denote request request.seq)).drop offset).take count))
    {earlier : Nat} (hafter : offset ≤ earlier) (hbefore : earlier < offset + count) :
    request.TooLong earlier := by
  obtain ⟨i, rfl⟩ := Nat.exists_eq_add_of_le hafter
  refine tooLong_iff.mpr fun slot hslot => hpassed slot (List.mem_of_getElem? (i := i) ?_)
  rw [List.getElem?_take, if_pos (by omega), List.getElem?_drop, hslot]

theorem firstShort_of_ahead {case : MutationCase} {count : Nat}
    (hahead : Slot.ahead
      ((request.slotsFrom none 0 (denote request request.seq)).drop offset) =
        some (some case, count)) :
    request.FirstShort offset (offset + count - 1) ∧
      case.ordinal = (offset + count - 1 : Nat) := by
  obtain ⟨hpositive, -, -, hslot, -⟩ := Slot.ahead_some hahead
  rw [List.getElem?_drop, getElem?_slotsFrom, Nat.zero_add] at hslot
  obtain ⟨parts, hparts, hkeep⟩ := Option.map_eq_some_iff.mp hslot
  have hbuild := slotAt_eq_keep.mp hkeep
  have hposition : offset + (count - 1) = offset + count - 1 := by omega
  rw [hposition] at hparts hbuild
  refine ⟨⟨by omega, fun earlier hafter hbefore => ?_, parts, case, hparts, hbuild⟩, ?_⟩
  · exact tooLong_of_passed (Slot.passed_before hahead) hafter (by omega)
  · obtain ⟨fuel, hdone⟩ := hbuild
    exact CaseStream.buildCase_ordinal hdone

theorem FirstShort.ahead (hfirst : request.FirstShort offset position) :
    ∃ case : MutationCase, case.ordinal = position ∧ Slot.ahead
      ((request.slotsFrom none 0 (denote request request.seq)).drop offset) =
        some (some case, position - offset + 1) := by
  obtain ⟨hafter, hbefore, parts, case, hparts, hbuild⟩ := hfirst
  obtain ⟨steps, rfl⟩ := Nat.exists_eq_add_of_le hafter
  have hslot : ((request.slotsFrom none 0 (denote request request.seq)).drop offset)[steps]? =
      some (.keep case) := by
    rw [List.getElem?_drop, getElem?_slotsFrom, hparts, Nat.zero_add, Option.map_some,
      slotAt_eq_keep.mpr hbuild]
  obtain ⟨hlt, hkeep⟩ := List.getElem?_eq_some_iff.mp hslot
  refine ⟨case, ?_, ?_⟩
  · obtain ⟨fuel, hdone⟩ := hbuild
    exact CaseStream.buildCase_ordinal hdone
  · rw [← List.take_append_drop steps
      ((request.slotsFrom none 0 (denote request request.seq)).drop offset),
      Slot.ahead_append (passed_of_tooLong hbefore), List.drop_eq_getElem_cons hlt, hkeep,
      Slot.ahead, List.length_take, Option.map_some, Nat.min_eq_left (Nat.le_of_lt hlt)]
    congr 2
    omega

theorem ahead_none_iff : request.AllTooLong offset ↔ ∃ count, Slot.ahead
    ((request.slotsFrom none 0 (denote request request.seq)).drop offset) =
      some (none, count) := by
  constructor
  · intro hlong
    have hpassed := @passed_of_tooLong request offset
      ((request.slotsFrom none 0 (denote request request.seq)).drop offset).length
      fun earlier hafter _ => hlong earlier hafter
    rw [List.take_length] at hpassed
    have hahead := Slot.ahead_append hpassed []
    rw [List.append_nil] at hahead
    exact ⟨_, hahead⟩
  · rintro ⟨count, hahead⟩ position hafter
    have hpassed := Slot.passed_of_ahead hahead
    refine tooLong_of_passed (hpassed.take (position + 1 - offset)) hafter (by omega)

end

end CompiledRequest

namespace ProtocolDefinition

open CaseStream (Answers)

variable {κ : Type}

/-! The case at a global start position. -/

def caseIdAtPaths (fuel : Nat) :
    List (SessionPath κ) → Int32 → Eval GenerateError (Option Text)
  | [], _ => .done none
  | path :: rest, skip =>
      if skipsPath .sequential path.target skip then
        caseIdAtPaths fuel rest (skip - Int32.ofInt path.target.rawMutationCount)
      else
        match path.target.enumerate .sequential none skip 1 with
        | .error error => .raised (.model error)
        | .ok stream =>
            match (stream.next fuel).1 with
            | .pending => .pending
            | .raised error => .raised (.model error)
            | .done (some case) => .done (some (path.caseId case))
            | .done none => .done none

/-- `case_id_at`. -/
def caseIdAt (definition : ProtocolDefinition κ) (start : Int32) (fuel : Nat) :
    Eval GenerateError (Option Text) :=
  if 0 ≤ start.toInt then caseIdAtPaths fuel definition.paths start
  else .raised (.definition (.invalid (Text.ofAscii "negative start")))

/-! What the first call of a path's stream gives. -/

/-- The stream of the path from the offset on first gives this answer: a case, or none
when all candidates from there on are oversized. -/
def Opens (path : SessionPath κ) (skip : Int32) (answer : Option MutationCase) : Prop :=
  ∃ stream after, path.target.enumerate .sequential none skip 2147483647 = .ok stream ∧
    Answers stream (.done answer) after

theorem Opens.unique {path : SessionPath κ} {skip : Int32}
    {answer answer' : Option MutationCase} (hfirst : Opens path skip answer)
    (hsecond : Opens path skip answer') : answer = answer' := by
  obtain ⟨stream, after, hstream, hanswers⟩ := hfirst
  obtain ⟨stream', after', hstream', hanswers'⟩ := hsecond
  obtain rfl : stream = stream' := Except.ok.inj (hstream.symm.trans hstream')
  exact Eval.done.inj (hanswers.unique hanswers').1

theorem opens_iff {path : SessionPath κ} {skip : Int32} {answer : Option MutationCase}
    {limit : Int32} (hlimit : 0 < limit.toInt) :
    Opens path skip answer ↔
      ∃ stream after, path.target.enumerate .sequential none skip limit = .ok stream ∧
        Answers stream (.done answer) after := by
  have hsame : ∀ {first second : Int32}, 0 < first.toInt → 0 < second.toInt →
      (∃ stream after, path.target.enumerate .sequential none skip first = .ok stream ∧
        Answers stream (.done answer) after) →
      ∃ stream after, path.target.enumerate .sequential none skip second = .ok stream ∧
        Answers stream (.done answer) after := by
    rintro first second hfirst hsecond ⟨stream, after, hstream, hanswers⟩
    simp only [CompiledRequest.enumerate, CompiledRequest.cases, CompiledRequest.stream]
      at hstream ⊢
    split at hstream
    · rename_i hbounds
      cases hstream
      rw [if_pos ⟨hbounds.1, by omega⟩]
      have hstep : CaseStream.InStep
          ⟨path.target, first.toInt.toNat, skip.toInt.toNat, skip.toInt.toNat, 0, .running,
            path.target.sequentialCursor, none⟩
          ⟨path.target, second.toInt.toNat, skip.toInt.toNat, skip.toInt.toNat, 0, .running,
            path.target.sequentialCursor, none⟩ :=
        ⟨rfl, rfl, rfl, rfl, rfl, rfl⟩
      obtain ⟨after', hanswers', -⟩ := hanswers.aligned hstep.aligned
        (by simp only; omega) (by simp only; omega)
      exact ⟨_, after', rfl, hanswers'⟩
    · cases hstream
  exact ⟨hsame (by decide) hlimit, hsame hlimit (by decide)⟩

theorem enumerates_ahead {target : CompiledRequest} {skip : Int32} {stream : CaseStream}
    (hstream : target.enumerate .sequential none skip 2147483647 = .ok stream)
    {found : Option MutationCase} {count : Nat}
    (hle : skip.toInt.toNat ≤ (CompiledRequest.denote target target.seq).length)
    (hahead : Slot.ahead ((target.slotsFrom none 0
      (CompiledRequest.denote target target.seq)).drop skip.toInt.toNat) =
        some (found, count))
    (hroom : skip.toInt.toNat + count ≤ 2147483647)
    (hend : found = none → skip.toInt.toNat + count < 2147483647) :
    ∃ after, Answers stream (.done found) after := by
  obtain ⟨hstands, hordinal, hoffset⟩ :=
    CaseStream.enumerate_stands target.sequentialCursor_drains hstream
  have hemitted := hstands.emitted
  have hupper := skip.toInt_lt
  rw [CompiledRequest.drop_slotsFrom, Nat.zero_add] at hahead
  rw [← hordinal] at hroom hend
  refine CaseStream.answers_of_ahead hstands (by omega) (by omega) hroom hend ?_
  rw [hordinal, hoffset]
  exact hahead

theorem opens_some_iff {path : SessionPath κ} {skip : Int32} {position : Nat} :
    (∃ case, Opens path skip (some case) ∧ case.ordinal = position) ↔
      0 ≤ skip.toInt ∧ path.target.FirstShort skip.toInt.toNat position ∧
        position < 2147483647 := by
  constructor
  · rintro ⟨case, ⟨stream, after, hstream, hanswers⟩, hordinal⟩
    obtain ⟨hat, hstart⟩ := CaseStream.enumerate_at path.target.sequentialCursor_drains hstream
    rcases Nat.lt_or_ge
      (CompiledRequest.denote path.target path.target.seq).length stream.ordinal with hlt | hle
    · cases (hat.answers_beyond hanswers hlt).1
    · obtain ⟨count, hahead, hafter, -, hnext⟩ := hat.answers hanswers hle nofun
      obtain ⟨hfirst, hposition⟩ := CompiledRequest.firstShort_of_ahead hahead
      have hsmall := (hnext rfl).stands.small
      have hpositive := (Slot.ahead_some hahead).1
      obtain rfl : position = stream.ordinal + count - 1 := by omega
      rw [← hstart]
      exact ⟨(CaseStream.enumerate_eq_ok hstream).1, hfirst, by omega⟩
  · rintro ⟨hskip, hfirst, hsmall⟩
    have hlimit : 0 ≤ (2147483647 : Int32).toInt := by decide
    obtain ⟨stream, hstream⟩ :=
      CaseStream.enumerate_of_nonneg path.target .sequential none hskip hlimit
    obtain ⟨case, hcase, hahead⟩ := hfirst.ahead
    have hafter := hfirst.after
    have hlt : position < (CompiledRequest.denote path.target path.target.seq).length := by
      obtain ⟨parts, _, hparts, -⟩ := hfirst.renders
      exact (List.getElem?_eq_some_iff.mp hparts).1
    obtain ⟨after, hanswers⟩ :=
      enumerates_ahead hstream (by omega) hahead (by omega) nofun
    exact ⟨case, ⟨stream, after, hstream, hanswers⟩, hcase⟩

theorem Opens.position {path : SessionPath κ} {skip : Int32} {case : MutationCase}
    (hopens : Opens path skip (some case)) : ∃ position : Nat, case.ordinal = position := by
  obtain ⟨stream, after, hstream, hanswers⟩ := hopens
  obtain ⟨values, _, _, -, hordinal, -⟩ :=
    hanswers.originates (CaseStream.enumerate_progress hstream)
  exact ⟨values.length, hordinal.symm⟩

theorem opens_none_iff {path : SessionPath κ} {skip : Int32} :
    Opens path skip none ↔ 0 ≤ skip.toInt ∧ path.target.AllTooLong skip.toInt.toNat ∧
      (CompiledRequest.denote path.target path.target.seq).length < 2147483647 := by
  have hupper := skip.toInt_lt
  constructor
  · rintro ⟨stream, after, hstream, hanswers⟩
    obtain ⟨hstands, hordinal, hoffset⟩ :=
      CaseStream.enumerate_stands path.target.sequentialCursor_drains hstream
    have hnonneg := (CaseStream.enumerate_eq_ok hstream).1
    have hemitted := hstands.emitted
    rcases Nat.lt_or_ge
      (CompiledRequest.denote path.target path.target.seq).length stream.skip with hlt | hle
    · refine ⟨hnonneg, fun position hafter parts hparts => ?_, by omega⟩
      have hinside := (List.getElem?_eq_some_iff.mp hparts).1
      omega
    · obtain ⟨cursor, -, hlanded, hemits⟩ :=
        (CaseStream.answers_landed hstands hle (by omega)).mp hanswers
      obtain ⟨count, hahead, hafter, -, -⟩ := hemits.ahead hlanded rfl rfl
      have hended := hemits.ended_lt rfl
      have hcount := (Slot.ahead_none hahead).1
      rw [CompiledRequest.length_slotsFrom, List.length_drop] at hcount
      dsimp only at hahead hafter
      rw [hordinal, hoffset] at hahead
      refine ⟨hnonneg, CompiledRequest.ahead_none_iff.mpr ⟨count, ?_⟩, by omega⟩
      rw [CompiledRequest.drop_slotsFrom, Nat.zero_add]
      exact hahead
  · rintro ⟨hskip, hlong, hsmall⟩
    have hlimit : 0 ≤ (2147483647 : Int32).toInt := by decide
    obtain ⟨stream, hstream⟩ :=
      CaseStream.enumerate_of_nonneg path.target .sequential none hskip hlimit
    rcases Nat.lt_or_ge (CompiledRequest.denote path.target path.target.seq).length
      skip.toInt.toNat with hlt | hle
    · obtain ⟨hstands, -, hoffset⟩ :=
        CaseStream.enumerate_stands path.target.sequentialCursor_drains hstream
      obtain ⟨after, hanswers⟩ := CaseStream.answers_past hstands (by omega)
      exact ⟨stream, after, hstream, hanswers⟩
    · obtain ⟨count, hahead⟩ := CompiledRequest.ahead_none_iff.mp hlong
      have hcount := (Slot.ahead_none hahead).1
      rw [List.length_drop, CompiledRequest.length_slotsFrom] at hcount
      obtain ⟨after, hanswers⟩ :=
        enumerates_ahead hstream hle hahead (by omega) (fun _ => by omega)
      exact ⟨stream, after, hstream, hanswers⟩

/-- What `case_id_at` returns, path by path. -/
inductive IdAt : List (SessionPath κ) → Int32 → Option Text → Prop
  | ended (skip : Int32) : IdAt [] skip none
  | skipped {path : SessionPath κ} {rest : List (SessionPath κ)} {skip : Int32}
      {answer : Option Text} (hskips : skipsPath .sequential path.target skip = true)
      (hrest : IdAt rest (skip - Int32.ofInt path.target.rawMutationCount) answer) :
      IdAt (path :: rest) skip answer
  | opened {path : SessionPath κ} {rest : List (SessionPath κ)} {skip : Int32}
      {answer : Option MutationCase}
      (hstays : skipsPath .sequential path.target skip = false)
      (hopens : Opens path skip answer) :
      IdAt (path :: rest) skip (answer.map path.caseId)

theorem caseIdAtPaths_returns_iff {paths : List (SessionPath κ)} {skip : Int32}
    {answer : Option Text} :
    Eval.Returns (fun fuel => caseIdAtPaths fuel paths skip) answer ↔
      IdAt paths skip answer := by
  constructor
  · rintro ⟨fuel, hdone⟩
    induction paths generalizing skip with
    | nil =>
        cases hdone
        exact .ended skip
    | cons path rest ih =>
        simp only [caseIdAtPaths] at hdone
        split at hdone
        · rename_i hskips
          exact .skipped hskips (ih hdone)
        · rename_i hstays
          split at hdone
          · cases hdone
          · rename_i stream hstream
            have hopens : ∀ {found}, (stream.next fuel).1 = .done found →
                Opens path skip found := by
              intro found hfound
              have hone : (0 : Int) < (1 : Int32).toInt := by decide
              exact (opens_iff hone).mpr
                ⟨stream, (stream.next fuel).2, hstream, fuel, Prod.ext hfound rfl, by simp⟩
            split at hdone
            · cases hdone
            · cases hdone
            · rename_i case hfound
              cases hdone
              exact .opened (by simpa using hstays) (hopens hfound)
            · rename_i hfound
              cases hdone
              exact .opened (by simpa using hstays) (hopens hfound)
  · intro hat
    induction hat with
    | ended _ => exact ⟨0, rfl⟩
    | skipped hskips _ ih =>
        obtain ⟨fuel, hdone⟩ := ih
        exact ⟨fuel, by simp only [caseIdAtPaths, hskips, if_true]; exact hdone⟩
    | @opened path rest skip answer hstays hopens =>
        have hone : (0 : Int) < (1 : Int32).toInt := by decide
        obtain ⟨stream, after, hstream, fuel, hnext, -⟩ := (opens_iff hone).mp hopens
        refine ⟨fuel, ?_⟩
        simp only [caseIdAtPaths, hstays, Bool.false_eq_true, if_false, hstream, hnext]
        cases answer <;> rfl

/-! The first case that `generate` emits. -/

inductive FirstCase : List (SessionPath κ) → Int32 → Int → GeneratedCase → Prop
  | skipped {path : SessionPath κ} {rest : List (SessionPath κ)} {skip : Int32} {base : Int}
      {item : GeneratedCase} (hskips : skipsPath .sequential path.target skip = true)
      (hrest : FirstCase rest (skip - Int32.ofInt path.target.rawMutationCount)
        (wrap64 (base + path.target.rawMutationCount)) item) :
      FirstCase (path :: rest) skip base item
  | opened {path : SessionPath κ} {rest : List (SessionPath κ)} {skip : Int32} {base : Int}
      {case : MutationCase} {item : GeneratedCase}
      (hstays : skipsPath .sequential path.target skip = false)
      (hopens : Opens path skip (some case))
      (hitem : Eval.Returns (generatedCase path base case) item) :
      FirstCase (path :: rest) skip base item
  | dry {path : SessionPath κ} {rest : List (SessionPath κ)} {skip : Int32} {base : Int}
      {item : GeneratedCase} (hstays : skipsPath .sequential path.target skip = false)
      (hopens : Opens path skip none)
      (hrest : FirstCase rest 0 (wrap64 (base + path.target.rawMutationCount)) item) :
      FirstCase (path :: rest) skip base item

theorem generatedCase_mono (path : SessionPath κ) (base : Int) (case : MutationCase) :
    Monotone (generatedCase path base case) := by
  intro first second hle
  unfold generatedCase
  rcases Eval.le_iff.mp (path.prefixes_mono hle) with hpending | hsame
  · rw [hpending]
    exact Eval.pending_le _
  · rw [hsame]

section

variable {limit fuel : Nat}

theorem emitCases_keeps {path : SessionPath κ} {base : Int} (loops : Nat)
    (stream : CaseStream) (generated : Nat) (log : List GeneratedCase) :
    ∃ items, (emitCases collect path base limit fuel loops stream generated log).2 =
      log ++ items := by
  induction loops generalizing stream generated log with
  | zero => exact ⟨[], by simp [emitCases]⟩
  | succ loops ih =>
      rw [emitCases]
      split
      · exact ⟨[], by simp⟩
      · split
        · exact ⟨[], by simp⟩
        · exact ⟨[], by simp⟩
        · exact ⟨[], by simp⟩
        · split
          · exact ⟨[], by simp⟩
          · exact ⟨[], by simp⟩
          · rename_i item _
            obtain ⟨items, hitems⟩ := ih _ (generated + 1) (log ++ [item])
            exact ⟨item :: items, by simpa [collect] using hitems⟩

/-- Where the run goes once the stream of a path has been worked off. -/
def afterPath (limit fuel : Nat) (path : SessionPath κ) (rest : List (SessionPath κ))
    (base : Int) : Eval GenerateError PathEnd × List GeneratedCase →
      Eval GenerateError GenerationResult × List GeneratedCase
  | (.pending, log) => (.pending, log)
  | (.raised error, log) => (.raised error, log)
  | (.done (.returned result), log) => (.done result, log)
  | (.done (.exhausted generated after), log) =>
      generatePaths collect .sequential limit fuel rest (skipAfter .sequential after) generated
        (baseAfter .sequential path.target base after) log

theorem generatePaths_opened {path : SessionPath κ} {rest : List (SessionPath κ)}
    {skip : Int32} {base : Int} {stream : CaseStream}
    (hstays : skipsPath .sequential path.target skip = false)
    (hstream : path.target.enumerate .sequential none skip 2147483647 = .ok stream)
    (generated : Nat) (log : List GeneratedCase) :
    generatePaths collect .sequential limit fuel (path :: rest) skip generated base log =
      afterPath limit fuel path rest base
        (emitCases collect path base limit fuel fuel stream generated log) := by
  rw [generatePaths, if_neg (by simp [hstays]), hstream]
  simp only
  generalize emitCases collect path base limit fuel fuel stream generated log = ending
  rcases ending with ⟨(⟨_, _⟩ | _) | _ | _, log⟩ <;> rfl

theorem generatePaths_keeps (paths : List (SessionPath κ)) (skip : Int32) (generated : Nat)
    (base : Int) (log : List GeneratedCase) :
    ∃ items, (generatePaths collect .sequential limit fuel paths skip generated base log).2 =
      log ++ items := by
  induction paths generalizing skip generated base log with
  | nil => exact ⟨[], by simp [generatePaths]⟩
  | cons path rest ih =>
      by_cases hskips : skipsPath .sequential path.target skip = true
      · rw [generatePaths, if_pos hskips]
        exact ih _ _ _ _
      · have hstays : skipsPath .sequential path.target skip = false := by simpa using hskips
        cases hstream : path.target.enumerate .sequential none skip 2147483647 with
        | error error => exact ⟨[], by simp [generatePaths, hstays, hstream]⟩
        | ok stream =>
            rw [generatePaths_opened hstays hstream]
            obtain ⟨items, hitems⟩ :=
              @emitCases_keeps κ limit fuel path base fuel stream generated log
            generalize emitCases collect path base limit fuel fuel stream generated log =
              ending at hitems ⊢
            rcases ending with ⟨(⟨generated', after⟩ | result) | error | _, log'⟩
            · obtain rfl : log' = log ++ items := hitems
              obtain ⟨items', hitems'⟩ := ih (skipAfter .sequential after) generated'
                (baseAfter .sequential path.target base after) (log ++ items)
              exact ⟨items ++ items', by rw [afterPath, hitems', List.append_assoc]⟩
            · exact ⟨items, hitems⟩
            · exact ⟨items, hitems⟩
            · exact ⟨items, hitems⟩

theorem afterPath_keeps (path : SessionPath κ) (rest : List (SessionPath κ)) (base : Int)
    (ending : Eval GenerateError PathEnd × List GeneratedCase) :
    ∃ items, (afterPath limit fuel path rest base ending).2 = ending.2 ++ items := by
  rcases ending with ⟨(⟨generated, after⟩ | result) | error | _, log⟩
  · exact generatePaths_keeps rest _ _ _ _
  · exact ⟨[], by simp [afterPath]⟩
  · exact ⟨[], by simp [afterPath]⟩
  · exact ⟨[], by simp [afterPath]⟩

theorem afterPath_first {path : SessionPath κ} {rest : List (SessionPath κ)} {base : Int}
    {stream after : CaseStream} {case : MutationCase} {item : GeneratedCase}
    (hlimit : 0 < limit) (hnext : stream.next fuel = (.done (some case), after))
    (hitem : generatedCase path base case fuel = .done item) (loops : Nat) :
    ∃ later, (afterPath limit fuel path rest base
      (emitCases collect path base limit fuel (loops + 1) stream 0 [])).2 =
        item :: later := by
  have hroom : ¬ limit ≤ 0 := by omega
  simp only [emitCases, if_neg hroom, hnext, hitem, collect, List.nil_append, Nat.zero_add]
  obtain ⟨items, hitems⟩ := @emitCases_keeps κ limit fuel path base loops after 1 [item]
  obtain ⟨items', hitems'⟩ := @afterPath_keeps κ limit fuel path rest base
    (emitCases collect path base limit fuel loops after 1 [item])
  exact ⟨items ++ items', by rw [hitems', hitems]; simp⟩

theorem afterPath_dry {path : SessionPath κ} {rest : List (SessionPath κ)} {base : Int}
    {stream after : CaseStream} (hlimit : 0 < limit)
    (hnext : stream.next fuel = (.done none, after)) (loops : Nat) :
    afterPath limit fuel path rest base
        (emitCases collect path base limit fuel (loops + 1) stream 0 []) =
      generatePaths collect .sequential limit fuel rest 0 0
        (wrap64 (base + path.target.rawMutationCount)) [] := by
  have hroom : ¬ limit ≤ 0 := by omega
  simp only [emitCases, if_neg hroom, hnext]
  rfl

/-- A run that has emitted a case has found it in a path that opens with it. -/
theorem firstCase_of_emitted (hlimit : 0 < limit) {paths : List (SessionPath κ)}
    {skip : Int32} {base : Int} {item : GeneratedCase} {later : List GeneratedCase}
    (hemitted : (generatePaths collect .sequential limit fuel paths skip 0 base []).2 =
      item :: later) : FirstCase paths skip base item := by
  induction paths generalizing skip base with
  | nil => cases hemitted
  | cons path rest ih =>
      by_cases hskips : skipsPath .sequential path.target skip = true
      · rw [generatePaths, if_pos hskips] at hemitted
        exact .skipped hskips (ih hemitted)
      · have hstays : skipsPath .sequential path.target skip = false := by simpa using hskips
        cases hstream : path.target.enumerate .sequential none skip 2147483647 with
        | error error =>
            simp [generatePaths, hstays, hstream] at hemitted
        | ok stream =>
            rw [generatePaths_opened hstays hstream] at hemitted
            obtain _ | loops := fuel
            · cases hemitted
            have hroom : ¬ limit ≤ 0 := by omega
            cases hnext : stream.next (loops + 1) with
            | mk answer after =>
                have hopens : ∀ {found}, answer = .done found → Opens path skip found := by
                  rintro found rfl
                  exact ⟨stream, after, hstream, loops + 1, hnext, by simp⟩
                cases answer with
                | pending => simp [emitCases, hroom, hnext, afterPath] at hemitted
                | raised error => simp [emitCases, hroom, hnext, afterPath] at hemitted
                | done found =>
                    cases found with
                    | none =>
                        rw [afterPath_dry hlimit hnext] at hemitted
                        exact .dry hstays (hopens rfl) (ih hemitted)
                    | some case =>
                        cases hcase : generatedCase path base case (loops + 1) with
                        | pending =>
                            simp [emitCases, hroom, hnext, hcase, afterPath] at hemitted
                        | raised error =>
                            simp [emitCases, hroom, hnext, hcase, afterPath] at hemitted
                        | done first =>
                            obtain ⟨others, hothers⟩ := @afterPath_first κ limit (loops + 1)
                              path rest base stream after case first hlimit hnext hcase loops
                            rw [hothers] at hemitted
                            cases hemitted
                            exact .opened hstays (hopens rfl) ⟨loops + 1, hcase⟩

theorem FirstCase.emitted (hlimit : 0 < limit) {paths : List (SessionPath κ)} {skip : Int32}
    {base : Int} {item : GeneratedCase} (hfirst : FirstCase paths skip base item) :
    ∃ enough, ∀ fuel, enough ≤ fuel → ∃ later,
      (generatePaths collect .sequential limit fuel paths skip 0 base []).2 =
        item :: later := by
  induction hfirst with
  | skipped hskips _ ih =>
      obtain ⟨enough, hlater⟩ := ih
      refine ⟨enough, fun fuel hfuel => ?_⟩
      rw [generatePaths, if_pos hskips]
      exact hlater fuel hfuel
  | @opened path rest skip base case item hstays hopens hitem =>
      obtain ⟨stream, after, hstream, hanswers⟩ := hopens
      obtain ⟨first, hnext⟩ := hanswers.eventually
      obtain ⟨second, hdone⟩ := hitem.eventually (generatedCase_mono path base case)
      refine ⟨first + second + 1, fun fuel hfuel => ?_⟩
      obtain _ | loops := fuel
      · omega
      rw [generatePaths_opened hstays hstream]
      exact afterPath_first hlimit (hnext _ (by omega)) (hdone _ (by omega)) loops
  | dry hstays hopens _ ih =>
      obtain ⟨stream, after, hstream, hanswers⟩ := hopens
      obtain ⟨first, hnext⟩ := hanswers.eventually
      obtain ⟨enough, hlater⟩ := ih
      refine ⟨first + enough + 1, fun fuel hfuel => ?_⟩
      obtain _ | loops := fuel
      · omega
      rw [generatePaths_opened hstays hstream, afterPath_dry hlimit (hnext _ (by omega))]
      exact hlater _ (by omega)

end

/-! Where the two walks agree. -/

theorem generatedCase_returns_iff {path : SessionPath κ} {base : Int} {case : MutationCase}
    (hprefixes : ∃ bytes, Eval.Returns path.prefixes bytes) :
    (∃ item, Eval.Returns (generatedCase path base case) item) ↔
      ∃ case', globalCase case base = .ok case' := by
  obtain ⟨bytes, fuel, hdone⟩ := hprefixes
  constructor
  · rintro ⟨item, fuel', hitem⟩
    unfold generatedCase at hitem
    split at hitem
    · cases hitem
    · cases hitem
    · split at hitem
      · cases hitem
      · rename_i case' hglobal
        exact ⟨case', hglobal⟩
  · rintro ⟨case', hglobal⟩
    exact ⟨_, fuel, by simp only [generatedCase, hdone, hglobal]; rfl⟩

theorem globalCase_ok_iff {case : MutationCase} {base : Int} :
    (∃ case', globalCase case base = .ok case') ↔ wrap64 (base + case.ordinal) ≤ 2147483647 := by
  unfold globalCase
  dsimp only
  split
  · rename_i hfits
    exact ⟨fun _ => hfits, fun _ => ⟨_, rfl⟩⟩
  · rename_i hlarge
    refine ⟨?_, fun hfits => absurd hfits hlarge⟩
    rintro ⟨case', herror⟩
    cases herror

/-- The first candidate of the path from the offset on that is not too long renders, and its
global position fits 32 bits. -/
def Given (path : SessionPath κ) (skip : Int32) (base : Int) : Prop :=
  0 ≤ skip.toInt ∧ ∃ position, path.target.FirstShort skip.toInt.toNat position ∧
    position < 2147483647 ∧ wrap64 (base + position) ≤ 2147483647

/-- All candidates of the path from the offset on are too long. -/
def Dry (path : SessionPath κ) (skip : Int32) : Prop :=
  0 ≤ skip.toInt ∧ path.target.AllTooLong skip.toInt.toNat ∧
    (CompiledRequest.denote path.target path.target.seq).length < 2147483647

/-- Some path from the one that is reached on gives a case, and all between are dry. -/
def Giving : List (SessionPath κ) → Int32 → Int → Prop
  | [], _, _ => False
  | path :: rest, skip, base =>
      if skipsPath .sequential path.target skip then
        Giving rest (skip - Int32.ofInt path.target.rawMutationCount)
          (wrap64 (base + path.target.rawMutationCount))
      else
        Given path skip base ∨
          (Dry path skip ∧ Giving rest 0 (wrap64 (base + path.target.rawMutationCount)))

/-- No path is reached, or the one that is reached gives a case, or it is dry and no later
path gives one either. -/
def Agreeing : List (SessionPath κ) → Int32 → Int → Prop
  | [], _, _ => True
  | path :: rest, skip, base =>
      if skipsPath .sequential path.target skip then
        Agreeing rest (skip - Int32.ofInt path.target.rawMutationCount)
          (wrap64 (base + path.target.rawMutationCount))
      else
        Given path skip base ∨
          (Dry path skip ∧ ¬ Giving rest 0 (wrap64 (base + path.target.rawMutationCount)))

theorem given_iff {path : SessionPath κ} {skip : Int32} {base : Int} :
    Given path skip base ↔
      ∃ case case', Opens path skip (some case) ∧ globalCase case base = .ok case' := by
  constructor
  · rintro ⟨hskip, position, hfirst, hsmall, hfits⟩
    obtain ⟨case, hopens, hordinal⟩ := opens_some_iff.mpr ⟨hskip, hfirst, hsmall⟩
    rw [← hordinal] at hfits
    obtain ⟨case', hglobal⟩ := globalCase_ok_iff.mpr hfits
    exact ⟨case, case', hopens, hglobal⟩
  · rintro ⟨case, case', hopens, hglobal⟩
    have hfits := globalCase_ok_iff.mp ⟨case', hglobal⟩
    obtain ⟨position, hordinal⟩ := hopens.position
    rw [hordinal] at hfits
    obtain ⟨hskip, hfirst, hsmall⟩ := opens_some_iff.mp ⟨case, hopens, hordinal⟩
    exact ⟨hskip, position, hfirst, hsmall, hfits⟩

theorem dry_iff {path : SessionPath κ} {skip : Int32} : Dry path skip ↔ Opens path skip none :=
  opens_none_iff.symm

/-- Both walks come to the same first case, or both to none. -/
structure Alike (paths : List (SessionPath κ)) (skip : Int32) (base : Int) : Prop where
  found : ∀ id, IdAt paths skip (some id) ↔
    ∃ item, FirstCase paths skip base item ∧ item.caseId = id
  missing : IdAt paths skip none ↔ ∀ item, ¬ FirstCase paths skip base item

theorem idAt_skipped {path : SessionPath κ} {rest : List (SessionPath κ)} {skip : Int32}
    (hskips : skipsPath .sequential path.target skip = true) {answer : Option Text} :
    IdAt (path :: rest) skip answer ↔
      IdAt rest (skip - Int32.ofInt path.target.rawMutationCount) answer := by
  constructor
  · intro hat
    cases hat with
    | skipped _ hrest => exact hrest
    | opened hstays _ => simp [hskips] at hstays
  · exact .skipped hskips

theorem firstCase_skipped {path : SessionPath κ} {rest : List (SessionPath κ)} {skip : Int32}
    {base : Int} (hskips : skipsPath .sequential path.target skip = true)
    {item : GeneratedCase} :
    FirstCase (path :: rest) skip base item ↔
      FirstCase rest (skip - Int32.ofInt path.target.rawMutationCount)
        (wrap64 (base + path.target.rawMutationCount)) item := by
  constructor
  · intro hfirst
    cases hfirst with
    | skipped _ hrest => exact hrest
    | opened hstays _ _ => simp [hskips] at hstays
    | dry hstays _ _ => simp [hskips] at hstays
  · exact .skipped hskips

theorem idAt_stays {path : SessionPath κ} {rest : List (SessionPath κ)} {skip : Int32}
    (hstays : skipsPath .sequential path.target skip = false) {answer : Option Text} :
    IdAt (path :: rest) skip answer ↔
      ∃ found, Opens path skip found ∧ answer = found.map path.caseId := by
  constructor
  · intro hat
    cases hat with
    | skipped hskips _ => simp [hskips] at hstays
    | opened _ hopens => exact ⟨_, hopens, rfl⟩
  · rintro ⟨found, hopens, rfl⟩
    exact .opened hstays hopens

theorem firstCase_stays {path : SessionPath κ} {rest : List (SessionPath κ)} {skip : Int32}
    {base : Int} (hstays : skipsPath .sequential path.target skip = false)
    {item : GeneratedCase} :
    FirstCase (path :: rest) skip base item ↔
      (∃ case, Opens path skip (some case) ∧
        Eval.Returns (generatedCase path base case) item) ∨
      (Opens path skip none ∧
        FirstCase rest 0 (wrap64 (base + path.target.rawMutationCount)) item) := by
  constructor
  · intro hfirst
    cases hfirst with
    | skipped hskips _ => simp [hskips] at hstays
    | opened _ hopens hitem => exact Or.inl ⟨_, hopens, hitem⟩
    | dry _ hopens hrest => exact Or.inr ⟨hopens, hrest⟩
  · rintro (⟨case, hopens, hitem⟩ | ⟨hopens, hrest⟩)
    · exact .opened hstays hopens hitem
    · exact .dry hstays hopens hrest

theorem giving_iff {paths : List (SessionPath κ)}
    (hprefixes : ∀ path ∈ paths, ∃ bytes, Eval.Returns path.prefixes bytes) {skip : Int32}
    {base : Int} : Giving paths skip base ↔ ∃ item, FirstCase paths skip base item := by
  induction paths generalizing skip base with
  | nil =>
      refine ⟨False.elim, ?_⟩
      rintro ⟨item, hfirst⟩
      cases hfirst
  | cons path rest ih =>
      obtain ⟨hpath, hrest⟩ := List.forall_mem_cons.mp hprefixes
      by_cases hskips : skipsPath .sequential path.target skip = true
      · rw [Giving, if_pos hskips, ih hrest]
        simp only [firstCase_skipped hskips]
      · have hstays : skipsPath .sequential path.target skip = false := by simpa using hskips
        rw [Giving, if_neg hskips, given_iff, dry_iff, ih hrest]
        simp only [firstCase_stays hstays]
        constructor
        · rintro (⟨case, case', hopens, hglobal⟩ | ⟨hopens, item, hlater⟩)
          · obtain ⟨item, hitem⟩ := (generatedCase_returns_iff hpath).mpr ⟨case', hglobal⟩
            exact ⟨item, Or.inl ⟨case, hopens, hitem⟩⟩
          · exact ⟨item, Or.inr ⟨hopens, hlater⟩⟩
        · rintro ⟨item, ⟨case, hopens, hitem⟩ | ⟨hopens, hlater⟩⟩
          · obtain ⟨case', hglobal⟩ := (generatedCase_returns_iff hpath).mp ⟨item, hitem⟩
            exact Or.inl ⟨case, case', hopens, hglobal⟩
          · exact Or.inr ⟨hopens, item, hlater⟩

theorem alike_iff {paths : List (SessionPath κ)}
    (hprefixes : ∀ path ∈ paths, ∃ bytes, Eval.Returns path.prefixes bytes) {skip : Int32}
    {base : Int} : Alike paths skip base ↔ Agreeing paths skip base := by
  induction paths generalizing skip base with
  | nil =>
      refine ⟨fun _ => trivial, fun _ => ⟨fun id => ⟨fun hat => ?_, ?_⟩, ?_⟩⟩
      · cases hat
      · rintro ⟨item, hfirst, -⟩
        cases hfirst
      · refine ⟨fun _ item hfirst => ?_, fun _ => .ended skip⟩
        cases hfirst
  | cons path rest ih =>
      obtain ⟨hpath, hrest⟩ := List.forall_mem_cons.mp hprefixes
      by_cases hskips : skipsPath .sequential path.target skip = true
      · rw [Agreeing, if_pos hskips, ← ih hrest]
        constructor
        · intro halike
          refine ⟨fun id => ?_, ?_⟩
          · simpa only [idAt_skipped hskips, firstCase_skipped hskips] using halike.found id
          · simpa only [idAt_skipped hskips, firstCase_skipped hskips] using halike.missing
        · intro halike
          refine ⟨fun id => ?_, ?_⟩
          · simpa only [idAt_skipped hskips, firstCase_skipped hskips] using halike.found id
          · simpa only [idAt_skipped hskips, firstCase_skipped hskips] using halike.missing
      · have hstays : skipsPath .sequential path.target skip = false := by simpa using hskips
        rw [Agreeing, if_neg hskips, given_iff, dry_iff, giving_iff hrest, not_exists]
        constructor
        · intro halike
          by_cases hemits : ∃ item, FirstCase (path :: rest) skip base item
          · obtain ⟨item, hfirst⟩ := hemits
            rcases (firstCase_stays hstays).mp hfirst with ⟨case, hopens, hitem⟩ | ⟨hopens, -⟩
            · obtain ⟨case', hglobal⟩ := (generatedCase_returns_iff hpath).mp ⟨item, hitem⟩
              exact Or.inl ⟨case, case', hopens, hglobal⟩
            · -- Opened without a case, the walk answers none although a case comes later.
              exact absurd hfirst (halike.missing.mp
                ((idAt_stays hstays).mpr ⟨none, hopens, rfl⟩) item)
          · rw [not_exists] at hemits
            obtain ⟨found, hopens, hnone⟩ :=
              (idAt_stays hstays).mp (halike.missing.mpr hemits)
            obtain rfl : found = none := Option.map_eq_none_iff.mp hnone.symm
            exact Or.inr ⟨hopens, fun item hlater =>
              hemits item ((firstCase_stays hstays).mpr (Or.inr ⟨hopens, hlater⟩))⟩
        · rintro (⟨case, case', hopens, hglobal⟩ | ⟨hopens, hlater⟩)
          · obtain ⟨item, hitem⟩ := (generatedCase_returns_iff hpath).mpr ⟨case', hglobal⟩
            have hfirst : FirstCase (path :: rest) skip base item := .opened hstays hopens hitem
            refine ⟨fun id => ⟨fun hat => ?_, ?_⟩, fun hat => ?_, fun hnone => ?_⟩
            · obtain ⟨found, hfound, hid⟩ := (idAt_stays hstays).mp hat
              rw [hfound.unique hopens] at hid
              obtain ⟨fuel, hdone⟩ := hitem
              refine ⟨item, hfirst, ?_⟩
              rw [generatedCase_caseId hdone]
              exact (Option.some.inj hid).symm
            · rintro ⟨other, hother, rfl⟩
              rcases (firstCase_stays hstays).mp hother with ⟨case'', hopens'', hitem''⟩ | hdry
              · obtain ⟨fuel, hdone⟩ := hitem''
                rw [generatedCase_caseId hdone]
                exact (idAt_stays hstays).mpr ⟨some case'', hopens'', rfl⟩
              · cases hdry.1.unique hopens
            · obtain ⟨found, hfound, hid⟩ := (idAt_stays hstays).mp hat
              rw [hfound.unique hopens] at hid
              cases hid
            · exact absurd hfirst (hnone item)
          · have hnone : ∀ item, ¬ FirstCase (path :: rest) skip base item := by
              intro item hfirst
              rcases (firstCase_stays hstays).mp hfirst with ⟨case, hfound, -⟩ | ⟨-, hrest⟩
              · cases hfound.unique hopens
              · exact hlater item hrest
            refine ⟨fun id => ⟨fun hat => ?_, ?_⟩, fun _ => hnone, fun _ =>
              (idAt_stays hstays).mpr ⟨none, hopens, rfl⟩⟩
            · obtain ⟨found, hfound, hid⟩ := (idAt_stays hstays).mp hat
              rw [hfound.unique hopens] at hid
              cases hid
            · rintro ⟨item, hfirst, -⟩
              exact absurd hfirst (hnone item)

/-- The case that `generate` emits first. -/
def EmitsFirst (definition : ProtocolDefinition κ) (start : Int32) (item : GeneratedCase) :
    Prop :=
  ∃ fuel later, (definition.generate collect start 2147483647 .sequential fuel []).2 =
    item :: later

/-- `case_id_at` names the case that `generate` emits first, and answers none exactly when
`generate` emits none. -/
structure NamesFirst (definition : ProtocolDefinition κ) (start : Int32) : Prop where
  found : ∀ id, Eval.Returns (definition.caseIdAt start) (some id) ↔
    ∃ item, definition.EmitsFirst start item ∧ item.caseId = id
  missing : Eval.Returns (definition.caseIdAt start) none ↔
    ∀ fuel, (definition.generate collect start 2147483647 .sequential fuel []).2 = []

theorem emitsFirst_iff {definition : ProtocolDefinition κ} {start : Int32}
    (hstart : 0 ≤ start.toInt) {item : GeneratedCase} :
    definition.EmitsFirst start item ↔ FirstCase definition.paths start 0 item := by
  have hpositive : 0 < (2147483647 : Int32).toInt.toNat := by decide
  have hgenerate : ∀ fuel, definition.generate collect start 2147483647 .sequential fuel [] =
      generatePaths collect .sequential (2147483647 : Int32).toInt.toNat fuel definition.paths
        start 0 0 [] :=
    fun fuel => if_pos ⟨hstart, by decide⟩
  constructor
  · rintro ⟨fuel, later, hemitted⟩
    rw [hgenerate] at hemitted
    exact firstCase_of_emitted hpositive hemitted
  · intro hfirst
    obtain ⟨enough, hemitted⟩ := hfirst.emitted hpositive
    obtain ⟨later, hlater⟩ := hemitted enough (le_refl _)
    exact ⟨enough, later, by rw [hgenerate]; exact hlater⟩

theorem namesFirst_iff {definition : ProtocolDefinition κ} {start : Int32}
    (hstart : 0 ≤ start.toInt) :
    definition.NamesFirst start ↔ Alike definition.paths start 0 := by
  have hreturns : ∀ answer, Eval.Returns (definition.caseIdAt start) answer ↔
      IdAt definition.paths start answer := by
    intro answer
    rw [← caseIdAtPaths_returns_iff]
    have hcase : definition.caseIdAt start =
        fun fuel => caseIdAtPaths fuel definition.paths start :=
      funext fun fuel => if_pos hstart
    rw [hcase]
  have hnone : (∀ fuel, (definition.generate collect start 2147483647 .sequential fuel []).2 =
      []) ↔ ∀ item, ¬ FirstCase definition.paths start 0 item := by
    constructor
    · intro hempty item hfirst
      obtain ⟨fuel, later, hemitted⟩ := (emitsFirst_iff hstart).mpr hfirst
      rw [hempty] at hemitted
      cases hemitted
    · intro hfirst fuel
      cases hemitted : (definition.generate collect start 2147483647 .sequential fuel []).2 with
      | nil => rfl
      | cons item later =>
          exact absurd ((emitsFirst_iff hstart).mp ⟨fuel, later, hemitted⟩) (hfirst item)
  constructor
  · intro hnames
    refine ⟨fun id => ?_, ?_⟩
    · simpa only [hreturns, emitsFirst_iff hstart] using hnames.found id
    · simpa only [hreturns, hnone] using hnames.missing
  · intro halike
    refine ⟨fun id => ?_, ?_⟩
    · simpa only [hreturns, emitsFirst_iff hstart] using halike.found id
    · simpa only [hreturns, hnone] using halike.missing

/-- `case_id_at` walks like `generate` exactly when the path it reaches opens with a case,
or opens with none and nothing is emitted later either. -/
theorem caseIdAt_names_first_iff {description : Description}
    {definition : ProtocolDefinition κ}
    (hparse : Eval.Returns (assemble description) definition) {start : Int32}
    (hstart : 0 ≤ start.toInt) :
    definition.NamesFirst start ↔ Agreeing definition.paths start 0 := by
  have hparsed := assemble_parsed hparse
  rw [namesFirst_iff hstart]
  refine alike_iff fun path hmem => SessionPath.prefixes_returns fun request hrequest => ?_
  exact hparsed.compiled request ((hparsed.requests path hmem).2 request hrequest)

/-! A first path whose only candidate is oversized, and a second one with a case. -/

def oversizedRoot (name : Text) (candidate : Bytes) : Block :=
  Block.new name [.leaf (Text.ofAscii "x") (Field.simple [0x30] [candidate])]

def oversizedDescription : Description where
  roots := [oversizedRoot (Text.ofAscii "a") [0x31, 0x31, 0x31],
    oversizedRoot (Text.ofAscii "b") [0x31]]
  maxBytes := 2
  edges := []
  targets := none
  maxPaths := 10000

def oversizedRequest (name path : Text) (candidate : Bytes) : CompiledRequest where
  name := name
  entries :=
    [⟨name, none, .container [1], none, none, none⟩,
     ⟨path, some 0, .atom (Field.simple [0x30] [candidate]), none, none, none⟩]
  paths := [(name, 0), (path, 1)]
  maxBytes := 2
  seq := .sequence [.plain 1]

def firstRequest : CompiledRequest :=
  oversizedRequest (Text.ofAscii "a") (Text.ofAscii "a.x") [0x31, 0x31, 0x31]

def secondRequest : CompiledRequest :=
  oversizedRequest (Text.ofAscii "b") (Text.ofAscii "b.x") [0x31]

def oversizedDefinition : ProtocolDefinition Unit where
  requests := [firstRequest, secondRequest]
  paths := [⟨[firstRequest], [none]⟩, ⟨[secondRequest], [none]⟩]

theorem oversizedDescription_assembles :
    Eval.Returns (assemble oversizedDescription) oversizedDefinition := ⟨8, rfl⟩

/-- `generate` goes on from the first path to the second, `case_id_at` does not. -/
theorem oversizedDefinition_unnamed :
    Eval.Returns (assemble oversizedDescription) oversizedDefinition ∧
      Eval.Returns (oversizedDefinition.caseIdAt 0) none ∧
      (oversizedDefinition.generate collect 0 2147483647 .sequential 30 []).2.map (·.caseId) =
        [Json.stringify [Text.ofAscii "b"] ++ Text.ofAscii "/v1:b.x:0"] ∧
      ¬ oversizedDefinition.NamesFirst 0 := by
  have hnone : Eval.Returns (oversizedDefinition.caseIdAt 0) none := ⟨20, by decide +kernel⟩
  have hemits : (oversizedDefinition.generate collect 0 2147483647 .sequential 30 []).2.map
      (·.caseId) = [Json.stringify [Text.ofAscii "b"] ++ Text.ofAscii "/v1:b.x:0"] := by
    decide +kernel
  refine ⟨oversizedDescription_assembles, hnone, hemits, fun hnames => ?_⟩
  rw [hnames.missing.mp hnone 30] at hemits
  cases hemits

/-- From the second path on they agree. -/
theorem oversizedDefinition_named : oversizedDefinition.NamesFirst 1 := by
  have hfirst : secondRequest.FirstShort 0 0 := {
    after := le_refl 0
    before := fun earlier _ hbefore => absurd hbefore (Nat.not_lt_zero earlier)
    renders := ⟨[(1, 0)], ⟨Text.ofAscii "v1:b.x:0", Text.ofAscii "b", Text.ofAscii "b.x", 0, 0,
      [0x31], []⟩, rfl, 8, rfl⟩ }
  refine (caseIdAt_names_first_iff oversizedDescription_assembles (by decide)).mpr ?_
  exact Or.inl ⟨by decide, 0, hfirst, by decide, by decide⟩

end ProtocolDefinition

end MoonBoofuzz
