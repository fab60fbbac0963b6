import MoonBoofuzz.Mutation.Positions
import MoonBoofuzz.Mutation.Unique

namespace MoonBoofuzz

/-- The field whose generator makes the candidates of an entry. -/
def EntryKind.field? : EntryKind → Option Field
  | .atom field => some field
  | .dynamic field _ => some field
  | _ => none

namespace CompiledRequest

def Overlong (request : CompiledRequest) (part : Nat × Nat) : Prop :=
  ∃ field ∈ (request.kind part.1).field?, (request.maxBytes.val : Int) <
    field.candidateLength part.2

/-- The generators that `build_case` calls, in the order of the parts. -/
def buildCalls (request : CompiledRequest) (parts : Parts) : Parts :=
  match checkLeaf request (parts.getLastD (0, 0)) with
  | .done _ => parts.filter fun part => (request.kind part.1).field?.isSome
  | _ => []

/-- The check of the last part lets the list pass, and a generator is called for a
candidate that is too long. -/
def Exposed (request : CompiledRequest) (parts : Parts) : Prop :=
  checkLeaf request (parts.getLastD (0, 0)) = .done () ∧ ∃ part ∈ parts, Overlong request part

theorem exposed_iff {request : CompiledRequest} {parts : Parts} :
    Exposed request parts ↔ ∃ part ∈ request.buildCalls parts, Overlong request part := by
  cases hleaf : checkLeaf request (parts.getLastD (0, 0)) with
  | done _ =>
      simp only [Exposed, buildCalls, hleaf, List.mem_filter, true_and]
      constructor
      · rintro ⟨part, hmem, field, hfield, hlong⟩
        exact ⟨part, ⟨hmem, Option.isSome_of_mem hfield⟩, field, hfield, hlong⟩
      · rintro ⟨part, ⟨hmem, -⟩, hlong⟩
        exact ⟨part, hmem, hlong⟩
  | raised error => simp only [Exposed, buildCalls, hleaf, List.not_mem_nil, false_and,
      exists_false, reduceCtorEq]
  | pending => simp only [Exposed, buildCalls, hleaf, List.not_mem_nil, false_and,
      exists_false, reduceCtorEq]

theorem checkLeaf_cases (request : CompiledRequest) (leaf : Nat × Nat) :
    checkLeaf request leaf = .done () ∨ checkLeaf request leaf = .raised
      (.limitText "field mutation exceeds request byte limit before allocation") := by
  rw [checkLeaf]
  split
  · unfold Eval.check
    split
    · exact Or.inl rfl
    · exact Or.inr rfl
  · exact Or.inl rfl

/-- A list that is too long but not exposed is refused before a generator is called. -/
theorem refused_of_not_exposed {request : CompiledRequest} {parts : Parts}
    (hexposed : ¬ Exposed request parts) {part : Nat × Nat} (hmem : part ∈ parts)
    (hlong : Overlong request part) (vars : Option Vars) (position : Nat) :
    ∃ message, Eval.Raises (request.buildCase vars position parts) (.limit message) := by
  rcases checkLeaf_cases request (parts.getLastD (0, 0)) with hdone | hraised
  · exact absurd ⟨hdone, part, hmem, hlong⟩ hexposed
  · have hbuild : request.buildCase vars position parts 0 = .raised
        (.limitText "field mutation exceeds request byte limit before allocation") := by
      rw [buildCase, hraised, Eval.raised_bind]
    exact ⟨_, 0, hbuild⟩

/-! The exposed part lists of the sequential enumeration. -/

/-- A dynamic field has a candidate that is too long, or a group has one and is combined
with a leaf that passes the check. -/
def Unguarded (request : CompiledRequest) : Prop :=
  (∃ entry field variableName i, request.kind entry = .dynamic field variableName ∧
    i < field.count ∧ (request.maxBytes.val : Int) < field.candidateLength i) ∨
  ∃ block group leaf i j, request.Encloses block leaf ∧
    (request.entry block).group = some (request.entry group).path ∧
    i < (request.kind group).count ∧ j < (request.kind leaf).count ∧
    Overlong request (group, i) ∧ checkLeaf request (leaf, j) = .done ()

theorem dynamic_of_overlong {request : CompiledRequest} {leaf : Nat × Nat}
    (hlong : Overlong request leaf) (hleaf : checkLeaf request leaf = .done ()) :
    ∃ field variableName, request.kind leaf.1 = .dynamic field variableName ∧
      (request.maxBytes.val : Int) < field.candidateLength leaf.2 := by
  obtain ⟨field, hfield, hlength⟩ := hlong
  cases hkind : request.kind leaf.1 with
  | atom other =>
      rw [hkind] at hfield
      obtain rfl := Option.some.inj hfield
      rw [checkLeaf, hkind, Eval.check_eq_done_iff] at hleaf
      omega
  | dynamic other variableName =>
      rw [hkind] at hfield
      obtain rfl := Option.some.inj hfield
      exact ⟨other, variableName, rfl, hlength⟩
  | _ =>
      rw [hkind] at hfield
      cases hfield

theorem Assembled.exposed_iff {root : Block} {maxBytes : Int32} {fuel : Nat}
    {request : CompiledRequest} (hassembled : Assembled root maxBytes fuel request) :
    (∃ parts ∈ denote request request.seq, Exposed request parts) ↔ Unguarded request := by
  constructor
  · rintro ⟨parts, hmem, hleaf, part, hpart, hlong⟩
    obtain ⟨groups, front, leaf, hgroups, rfl, hchain⟩ := hassembled.chain hmem
    rw [List.getLastD_concat] at hleaf
    have hcount := hchain.count
    rcases List.mem_append.mp hpart with hfront | hlast
    · obtain ⟨block, -, hinside, hfound⟩ := hchain.block hfront
      exact Or.inr ⟨block, part.1, leaf.1, part.2, leaf.2, hinside,
        hassembled.group hgroups hfound, hcount part hpart, hcount leaf (by simp), hlong,
        hleaf⟩
    · obtain rfl := List.mem_singleton.mp hlast
      obtain ⟨field, variableName, hkind, hlength⟩ := dynamic_of_overlong hlong hleaf
      have hindex := hcount part hpart
      rw [hkind] at hindex
      exact Or.inl ⟨part.1, field, variableName, part.2, hkind, hindex, hlength⟩
  · obtain ⟨groups, hgroups, hseq⟩ := hassembled.sequenced
    have htable := hassembled.table
    rintro (⟨entry, field, variableName, i, hkind, hindex, hlength⟩ |
      ⟨block, group, leaf, i, j, hinside, hgroup, hi, hj, hlong, hleaf⟩)
    · have hcount : i < (request.kind entry).count := by
        rw [hkind]
        exact hindex
      have hchain : Chain request groups entry [] (entry, i) := .leaf hcount
      refine ⟨_, (hchain.outward (htable.inside_root _ (lt_of_count hcount))).listed htable
        hseq, ?_, (entry, i), by simp, field, ?_, hlength⟩
      · rw [List.nil_append, List.getLastD_cons, List.getLastD_nil, checkLeaf, hkind]
      · rw [hkind]
        rfl
    · have hlookup := hassembled.lookup_group hgroups (lt_of_count hi) hgroup
      have hroot : Relation.ReflTransGen request.Parent block 0 := by
        apply htable.inside_root
        by_contra hlarge
        rw [entry_of_le (Nat.not_lt.mp hlarge)] at hgroup
        cases hgroup
      have hchain : Chain request groups block [(group, i)] (leaf, j) :=
        (Chain.leaf hj).grouped hinside hlookup hi
      refine ⟨_, (hchain.outward hroot).listed htable hseq, ?_, (group, i), by simp, hlong⟩
      rw [List.getLastD_concat]
      exact hleaf

end CompiledRequest

namespace CaseStream

open CompiledRequest

abbrev Logged := Parts × Run (Option MutationCase) × CaseStream

def loggedEmit (fuel : Nat) : Nat → CaseStream → Logged
  | 0, stream => ([], .pending, stream)
  | loops + 1, stream =>
      if stream.ordinal < 2147483647 then
        match Walker.seek stream.request.cursorTurn fuel stream.cursor with
        | .pending => ([], .pending, stream)
        | .raised error => ([], .raised error, { stream with state := .stopped })
        | .done (none, next) =>
            ([], .done none, { stream with cursor := next, state := .exhausted })
        | .done (some parts, next) =>
            let calls := stream.request.buildCalls parts
            match stream.request.buildCase stream.vars stream.ordinal parts fuel with
            | .pending => (calls, .pending, stream)
            | .raised (.limit _) =>
                let later := loggedEmit fuel loops
                  { stream with cursor := next, ordinal := stream.ordinal + 1 }
                (calls ++ later.1, later.2)
            | .raised (.invalid message) =>
                (calls, .raised (.invalid message),
                  { stream with cursor := next, state := .stopped })
            | .done case =>
                (calls, .done (some case),
                  { stream with
                    cursor := next
                    ordinal := stream.ordinal + 1
                    emitted := stream.emitted + 1 })
      else
        ([], .raised (.limitText "case ordinal overflow"),
          { stream with state := .stopped })

def loggedNext (fuel : Nat) (stream : CaseStream) : Logged :=
  if stream.state = .running then
    match skipAhead stream.request fuel stream.skip stream.cursor with
    | .pending => ([], .pending, stream)
    | .raised error => ([], .raised error, { stream with state := .stopped })
    | .done (left, cursor) =>
        let moved := { stream with skip := left, cursor := cursor }
        if 0 < left then ([], .done none, { moved with state := .exhausted })
        else if moved.emitted < moved.limit then loggedEmit fuel fuel moved
        else ([], .done none, { moved with state := .limited })
  else ([], .done none, stream)

theorem loggedEmit_erase (fuel loops : Nat) (stream : CaseStream) :
    (loggedEmit fuel loops stream).2 = emitNext fuel loops stream := by
  induction loops generalizing stream with
  | zero => rfl
  | succ loops ih =>
      rw [loggedEmit, emitNext]
      by_cases hordinal : stream.ordinal < 2147483647
      · rw [if_pos hordinal, if_pos hordinal]
        cases Walker.seek stream.request.cursorTurn fuel stream.cursor with
        | pending => rfl
        | raised error => rfl
        | done found =>
            obtain ⟨parts, next⟩ := found
            cases parts with
            | none => rfl
            | some parts =>
                simp only
                cases stream.request.buildCase stream.vars stream.ordinal parts fuel with
                | pending => rfl
                | raised error =>
                    cases error with
                    | limit message => exact ih _
                    | invalid message => rfl
                | done case => rfl
      · rw [if_neg hordinal, if_neg hordinal]

/-- Without its log it is `next`. -/
theorem loggedNext_erase (fuel : Nat) (stream : CaseStream) :
    (loggedNext fuel stream).2 = next fuel stream := by
  rw [loggedNext, next]
  by_cases hrunning : stream.state = .running
  · rw [if_pos hrunning, if_pos hrunning]
    cases skipAhead stream.request fuel stream.skip stream.cursor with
    | pending => rfl
    | raised error => rfl
    | done reached =>
        obtain ⟨left, cursor⟩ := reached
        simp only
        split
        · rfl
        · split
          · exact loggedEmit_erase fuel fuel _
          · rfl
  · rw [if_neg hrunning, if_neg hrunning]

section

variable {request : CompiledRequest} {vars : Option Vars} {first : Cursor}

/-- The call is made for the parts at some position below the last one. -/
def Arises (request : CompiledRequest) (first : Cursor) (call : Nat × Nat) : Prop :=
  ∃ values parts last,
    Walker.Takes request.cursorTurn first (values ++ [parts]) last ∧
      values.length < 2147483647 ∧ call ∈ request.buildCalls parts

theorem loggedEmit_arises {fuel loops : Nat} {stream : CaseStream}
    (hprogress : Progress request vars first stream) (hrunning : stream.state = .running)
    (hskip : stream.skip = 0) {call : Nat × Nat}
    (hcall : call ∈ (loggedEmit fuel loops stream).1) : Arises request first call := by
  induction loops generalizing stream with
  | zero => cases hcall
  | succ loops ih =>
      rw [loggedEmit] at hcall
      split at hcall
      · rename_i hordinal
        split at hcall
        · cases hcall
        · cases hcall
        · cases hcall
        · rename_i parts next hseek
          have hgives := Walker.gives_of_seek hseek
          have hhere : call ∈ stream.request.buildCalls parts → Arises request first call := by
            intro hmem
            obtain ⟨values, htakes, hlength⟩ := hprogress.gives hrunning hskip hgives
            rw [hprogress.sameRequest] at hmem
            exact ⟨values, parts, next, htakes, by omega, hmem⟩
          split at hcall
          · exact hhere hcall
          · rcases List.mem_append.mp hcall with hmem | hlater
            · exact hhere hmem
            · exact ih (hprogress.advance hrunning hskip hgives stream.emitted) hrunning hskip
                hlater
          · exact hhere hcall
          · exact hhere hcall
      · cases hcall

theorem loggedNext_arises {fuel : Nat} {stream : CaseStream}
    (hprogress : Progress request vars first stream) {call : Nat × Nat}
    (hcall : call ∈ (loggedNext fuel stream).1) : Arises request first call := by
  rw [loggedNext] at hcall
  split at hcall
  · rename_i hrunning
    split at hcall
    · cases hcall
    · cases hcall
    · rename_i left cursor hskip
      simp only at hcall
      split at hcall
      · cases hcall
      · rename_i hleft
        obtain rfl : left = 0 := by omega
        have hlands := lands_of_skipAhead hskip
        rw [hprogress.sameRequest] at hlands
        split at hcall
        · exact loggedEmit_arises (hprogress.landed hrunning hlands) hrunning rfl hcall
        · cases hcall
  · cases hcall

theorem Arises.listed {mode : Mode} {call : Nat × Nat}
    (harises : Arises request (request.initialCursor mode) call) :
    ∃ (position : Nat) (parts : Parts), position < 2147483647 ∧
      (request.candidates mode)[position]? = some parts ∧ call ∈ request.buildCalls parts := by
  obtain ⟨values, parts, last, htakes, hposition, hcall⟩ := harises
  exact ⟨values.length, parts, hposition,
    htakes.getElem?_of_drains (request.candidates_drains mode), hcall⟩

theorem loggedNext_start {mode : Mode} {start limit : Int32} {stream : CaseStream}
    (hstream : request.enumerate mode vars start limit = .ok stream) (hlimit : 0 < limit.toInt)
    {parts : Parts} (hparts : (request.candidates mode)[start.toInt.toNat]? = some parts)
    (hroom : start.toInt < 2147483647) :
    ∃ fuel, ∀ call ∈ request.buildCalls parts, call ∈ (loggedNext fuel stream).1 := by
  obtain ⟨hstart, rfl⟩ := enumerate_eq_ok hstream
  have hinside := (List.getElem?_eq_some_iff.mp hparts).1
  obtain ⟨cursor, hlands, hafter⟩ :=
    lands_of_le (request.candidates_drains mode) (Nat.le_of_lt hinside)
  rw [List.drop_eq_getElem_cons hinside,
    (List.getElem?_eq_some_iff.mp hparts).2] at hafter
  obtain ⟨next, hgives, -⟩ := drains_cons hafter
  obtain ⟨first, hskip⟩ := hlands.skipAhead.eventually (skipAhead_mono _ _ _)
  obtain ⟨second, hseek⟩ := (hgives.seek (ε := ModelError)).eventually (Walker.seek_mono _ _)
  refine ⟨first + second + 1, fun call hcall => ?_⟩
  rw [loggedNext, if_pos rfl]
  simp only [hskip _ (show first ≤ first + second + 1 by omega), Nat.lt_irrefl, if_false]
  rw [if_pos (by omega), loggedEmit]
  simp only [hseek _ (show second ≤ first + second + 1 by omega)]
  rw [if_pos (by omega)]
  split
  · exact hcall
  · exact List.mem_append_left _ hcall
  · exact hcall
  · exact hcall

theorem Emits.ordinal_le {stream after : CaseStream} {answer : Answer}
    (hemits : Emits stream answer after) (hle : stream.ordinal ≤ 2147483647) :
    after.ordinal ≤ 2147483647 := by
  induction hemits with
  | oversized hordinal _ _ _ ih => exact ih hordinal
  | built hordinal _ _ => exact hordinal
  | _ => exact hle

theorem Calls.ordinal_le {stream after : CaseStream} {answers : List Answer}
    (hcalls : Calls stream answers after) (hle : stream.ordinal ≤ 2147483647) :
    after.ordinal ≤ 2147483647 := by
  induction hcalls with
  | nil _ => exact hle
  | @cons stream middle _ _ _ hanswer _ ih =>
      apply ih
      by_cases hrunning : stream.state = .running
      · obtain ⟨left, cursor, -, hproceeds⟩ := (answers_running hrunning).mp hanswer
        cases hproceeds with
        | ended _ => exact hle
        | limited _ _ => exact hle
        | emits _ _ hemits => exact hemits.ordinal_le hle
      · obtain ⟨-, rfl⟩ := (answers_idle hrunning).mp hanswer
        exact hle

def Fails (request : CompiledRequest) (vars : Option Vars) (first : Cursor)
    (position : Nat) : Prop :=
  ∃ values parts last message,
    Walker.Takes request.cursorTurn first (values ++ [parts]) last ∧
      values.length = position ∧
      Eval.Raises (request.buildCase vars position parts) (.invalid message)

theorem Emits.stopped {stream after : CaseStream} {answer : Answer}
    (hemits : Emits stream answer after) (hprogress : Progress request vars first stream)
    (hrunning : stream.state = .running) (hskip : stream.skip = 0)
    (hstopped : after.state = .stopped) :
    2147483647 ≤ after.ordinal ∨ Fails request vars first after.ordinal := by
  induction hemits with
  | overflow hordinal => exact Or.inl hordinal
  | exhausted _ _ => cases hstopped
  | @failed stream next parts message _ hgives hbuild =>
      obtain ⟨values, htakes, hlength⟩ := hprogress.gives hrunning hskip hgives
      rw [hprogress.sameRequest, hprogress.sameVars] at hbuild
      exact Or.inr ⟨values, parts, next, message, htakes, hlength, hbuild⟩
  | @oversized stream _ _ _ _ _ _ hgives _ _ ih =>
      exact ih (hprogress.advance hrunning hskip hgives stream.emitted) hrunning hskip hstopped
  | built _ _ _ =>
      rw [hrunning] at hstopped
      cases hstopped

theorem Answers.stopped {stream after : CaseStream} {answer : Answer}
    (hanswers : Answers stream answer after) (hprogress : Progress request vars first stream)
    (hkept : stream.state = .stopped →
      2147483647 ≤ stream.ordinal ∨ Fails request vars first stream.ordinal)
    (hstopped : after.state = .stopped) :
    2147483647 ≤ after.ordinal ∨ Fails request vars first after.ordinal := by
  by_cases hrunning : stream.state = .running
  · rw [answers_running hrunning, hprogress.sameRequest] at hanswers
    obtain ⟨left, cursor, hlands, hproceeds⟩ := hanswers
    cases hproceeds with
    | ended _ => cases hstopped
    | limited _ _ => cases hstopped
    | emits hleft _ hemits =>
        subst hleft
        exact hemits.stopped (hprogress.landed hrunning hlands) hrunning rfl hstopped
  · obtain ⟨-, rfl⟩ := (answers_idle hrunning).mp hanswers
    exact hkept hstopped

theorem Calls.stopped {stream after : CaseStream} {answers : List Answer}
    (hcalls : Calls stream answers after) (hprogress : Progress request vars first stream)
    (hkept : stream.state = .stopped →
      2147483647 ≤ stream.ordinal ∨ Fails request vars first stream.ordinal)
    (hstopped : after.state = .stopped) :
    2147483647 ≤ after.ordinal ∨ Fails request vars first after.ordinal := by
  induction hcalls with
  | nil _ => exact hkept hstopped
  | cons hanswer _ ih =>
      exact ih (hanswer.progress hprogress) (hanswer.stopped hprogress hkept) hstopped

theorem Fails.listed {mode : Mode} {position : Nat}
    (hfails : Fails request vars (request.initialCursor mode) position) :
    ∃ parts message, (request.candidates mode)[position]? = some parts ∧
      Eval.Raises (request.buildCase vars position parts) (.invalid message) := by
  obtain ⟨values, parts, last, message, htakes, rfl, hraises⟩ := hfails
  exact ⟨parts, message, htakes.getElem?_of_drains (request.candidates_drains mode), hraises⟩

/-- What a stream that has come to `after` does about candidates that are too long. -/
structure Spares (request : CompiledRequest) (mode : Mode) (vars : Option Vars)
    (start : Int32) (answers : List Answer) (after : CaseStream) : Prop where
  uncalled : ∀ fuel, ∀ call ∈ (loggedNext fuel after).1, ¬ Overlong request call
  skipped : ∀ (position : Nat) parts, (request.candidates mode)[position]? = some parts →
    (∃ part ∈ parts, Overlong request part) → start.toInt ≤ position →
    position < after.position →
    ¬ ∃ case : MutationCase, .done (some case) ∈ answers ∧ case.ordinal = position
  counted : ∀ (position : Nat) parts, (request.candidates mode)[position]? = some parts →
    (∃ part ∈ parts, Overlong request part) → position < 2147483647 →
    after.position = position → after.state ≠ .stopped

theorem Spares.of_not_exposed {mode : Mode}
    (hexposed : ∀ (position : Nat) parts, position < 2147483647 →
      (request.candidates mode)[position]? = some parts → ¬ Exposed request parts)
    {start limit : Int32} {stream after : CaseStream} {answers : List Answer}
    (hstream : request.enumerate mode vars start limit = .ok stream)
    (hcalls : Calls stream answers after) :
    Spares request mode vars start answers after where
  uncalled := by
    intro fuel call hcall hlong
    obtain ⟨position, parts, hposition, hparts, hmem⟩ :=
      (loggedNext_arises (hcalls.progress (enumerate_progress hstream)) hcall).listed
    exact hexposed position parts hposition hparts (exposed_iff.mpr ⟨call, hmem, hlong⟩)
  skipped := by
    rintro position parts hparts ⟨part, hmem, hlong⟩ - hpassed ⟨case, hcase, hordinal⟩
    obtain ⟨position', parts', hordinal', hparts', hbuild⟩ :=
      (enumerate_originates hstream hcalls hcase).listed
    obtain rfl : position' = position := by omega
    obtain rfl := Option.some.inj (hparts.symm.trans hparts')
    have hbound : after.ordinal ≤ 2147483647 := by
      apply hcalls.ordinal_le
      obtain ⟨-, rfl⟩ := enumerate_eq_ok hstream
      have := start.toInt_lt
      simp only
      omega
    rw [CaseStream.position] at hpassed
    obtain ⟨message, hlimit⟩ := refused_of_not_exposed
      (hexposed position' parts (by omega) hparts) hmem hlong vars position'
    exact hbuild.not_raises (buildCase_mono _ _ _ _) hlimit
  counted := by
    rintro position parts hparts ⟨part, hmem, hlong⟩ hposition hafter hstopped
    have hinitial : stream.state ≠ .stopped := by
      obtain ⟨-, rfl⟩ := enumerate_eq_ok hstream
      simp
    rw [CaseStream.position] at hafter
    rcases hcalls.stopped (enumerate_progress hstream) (fun h => absurd h hinitial) hstopped
      with hlast | hfails
    · omega
    · rw [hafter] at hfails
      obtain ⟨parts', message, hparts', hraises⟩ := hfails.listed
      obtain rfl := Option.some.inj (hparts.symm.trans hparts')
      obtain ⟨message', hlimit⟩ := refused_of_not_exposed
        (hexposed position parts hposition hparts) hmem hlong vars position
      cases hraises.unique (buildCase_mono _ _ _ _) hlimit

/-- A stream calls no generator for a candidate that is too long exactly when none of the
part lists it can come to is exposed; in the sequential enumeration these are the mutations
of a dynamic field and of a group around a leaf that passes the check. -/
theorem spares_iff {root : Block} {maxBytes : Int32} {request : CompiledRequest}
    (hcompile : Eval.Returns (compile root maxBytes) request) :
    (∀ mode vars,
      (∀ (start limit : Int32) (stream after : CaseStream) (answers : List Answer),
        request.enumerate mode vars start limit = .ok stream → Calls stream answers after →
          Spares request mode vars start answers after) ↔
      ∀ (position : Nat) parts, position < 2147483647 →
        (request.candidates mode)[position]? = some parts → ¬ Exposed request parts) ∧
      ((∃ parts ∈ request.candidates .sequential, Exposed request parts) ↔
        Unguarded request) := by
  obtain ⟨fuel, hdone⟩ := hcompile
  have hassembled := (compile_eq_done hdone).assembled
  constructor
  · intro mode vars
    constructor
    · intro hspares position parts hposition hparts hexposed
      obtain ⟨call, hcall, hlong⟩ := exposed_iff.mp hexposed
      have hstart : (Int32.ofNat position).toInt = position :=
        Int32.toInt_ofNat_of_lt (by omega)
      obtain ⟨stream, hstream⟩ := enumerate_of_nonneg request mode vars
        (show 0 ≤ (Int32.ofNat position).toInt by omega) (show 0 ≤ (1 : Int32).toInt by decide)
      obtain ⟨fuel, hlogged⟩ := loggedNext_start hstream (by decide)
        (by rw [hstart]; exact hparts) (by omega)
      exact (hspares _ _ stream stream [] hstream (.nil stream)).uncalled fuel call
        (hlogged call hcall) hlong
    · intro hexposed start limit stream after answers hstream hcalls
      exact .of_not_exposed hexposed hstream hcalls
  · rw [(request.candidates_drains .sequential).unique request.sequentialCursor_drains]
    exact hassembled.exposed_iff

end

def oversizedField : Field := Field.simple [0x41] [[0x42, 0x43, 0x44]]

def oversizedRoot : Block :=
  Block.new (Text.ofAscii "r")
    [.dynamic (Text.ofAscii "d") (Text.ofAscii "token") oversizedField]

def oversizedRequest : CompiledRequest where
  name := Text.ofAscii "r"
  entries :=
    [⟨Text.ofAscii "r", none, .container [1], none, none, none⟩,
     ⟨Text.ofAscii "r.d", some 0, .dynamic oversizedField (Text.ofAscii "token"), none, none,
       none⟩]
  paths := [(Text.ofAscii "r", 0), (Text.ofAscii "r.d", 1)]
  maxBytes := 2
  seq := .sequence [.plain 1]

theorem oversizedRoot_compiles : compile oversizedRoot 2 4 = .done oversizedRequest := rfl

def oversizedStream : CaseStream where
  request := oversizedRequest
  limit := 1
  skip := 0
  ordinal := 0
  emitted := 0
  state := .running
  cursor := oversizedRequest.sequentialCursor
  vars := none

theorem oversizedRequest_overlong : Overlong oversizedRequest (1, 0) :=
  ⟨oversizedField, rfl, by decide⟩

/-- The generator makes three bytes where two are allowed. -/
theorem oversizedRequest_called :
    Eval.Returns (compile oversizedRoot 2) oversizedRequest ∧
      oversizedRequest.enumerate .sequential none 0 1 = .ok oversizedStream ∧
      (1, 0) ∈ (loggedNext 10 oversizedStream).1 ∧
      Overlong oversizedRequest (1, 0) :=
  ⟨⟨4, oversizedRoot_compiles⟩, rfl, by decide, oversizedRequest_overlong⟩

theorem oversizedRequest_exposed :
    ∃ parts ∈ oversizedRequest.candidates .sequential, Exposed oversizedRequest parts :=
  (spares_iff ⟨4, oversizedRoot_compiles⟩).2.mpr
    (Or.inl ⟨1, oversizedField, Text.ofAscii "token", 0, rfl, by decide, by decide⟩)

end CaseStream

end MoonBoofuzz
