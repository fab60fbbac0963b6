import MoonBoofuzz.Data.Attempts
import MoonBoofuzz.Results.Throttled

namespace MoonBoofuzz

/-! The throttled writer over a file whose writes may fail.  A flush writes one record after
the other and clears its buffer at the end. -/

structure FailingWriter where
  writer : ThrottledWriter
  /-- The calls of `Writer::append` so far. -/
  attempts : Nat

inductive ThrottleCall where
  | append (record : CaseRecord)
  | closeTest

def ThrottleCall.record? : ThrottleCall → Option CaseRecord
  | .append record => some record
  | .closeTest => none

def appendedRecords (calls : List ThrottleCall) : List CaseRecord :=
  calls.filterMap ThrottleCall.record?

namespace FailingWriter

def new (keep : Int) : FailingWriter := { writer := .new keep, attempts := 0 }

def writes (writer : ThrottledWriter) (force : Bool) : Prop :=
  writer.buffer ≠ [] ∧
    (force = true ∨ writer.keep ≤ 0 ∨ writer.failDetected = true ∨ writer.firstCase = true)

instance (writer : ThrottledWriter) (force : Bool) : Decidable (writes writer force) :=
  inferInstanceAs (Decidable (_ ∧ _))

/-- `flush`, with the pattern of the writes that fail; a write that fails raises. -/
def flush (fails : Nat → Bool) (force : Bool) (failing : FailingWriter) :
    FailingWriter × Bool :=
  let writer := failing.writer
  if writes writer force then
    let tried := attemptAll fails failing.attempts writer.retained
    let wrote := { writer with
      written := writer.written ++ tried.done
      buffer := writer.retained }
    ({ writer := if tried.raised then wrote
        else { wrote with buffer := [], failDetected := false, firstCase := false }
       attempts := tried.attempts }, tried.raised)
  else if writer.buffer = [] then (failing, false)
  else ({ failing with writer := { writer with buffer := writer.retained } }, false)

/-- A call up to its flush, and whether it forces that. -/
def prepare (failing : FailingWriter) : ThrottleCall → FailingWriter × Bool
  | .append record => ({ failing with writer := failing.writer.push record }, false)
  | .closeTest => (failing, true)

def call (fails : Nat → Bool) (failing : FailingWriter) (throttleCall : ThrottleCall) :
    FailingWriter × Bool :=
  let prepared := failing.prepare throttleCall
  prepared.1.flush fails prepared.2

/-- Calls go on after a raise. -/
def run (fails : Nat → Bool) (keep : Int) (calls : List ThrottleCall) : FailingWriter :=
  calls.foldl (fun failing throttleCall => (failing.call fails throttleCall).1) (new keep)

/-- The call does not write a record that an earlier flush has left in the buffer after
writing it: the oldest record that stays after the trim is new, or its write fails. -/
def StartsFresh (fails : Nat → Bool) (failing : FailingWriter)
    (throttleCall : ThrottleCall) : Prop :=
  let prepared := failing.prepare throttleCall
  writes prepared.1.writer prepared.2 →
    ∀ oldest, prepared.1.writer.retained.head? = some oldest →
      oldest ∈ prepared.1.writer.written → fails prepared.1.attempts = true

/-- The buffer: records a failed flush has written, then records not in the file. -/
def Buffered (records : List CaseRecord) (writer : ThrottledWriter) : Prop :=
  ∃ stale fresh, writer.buffer = stale ++ fresh ∧ (∀ record ∈ stale, record ∈ writer.written) ∧
    (writer.written ++ fresh).Sublist records

variable {fails : Nat → Bool} {failing : FailingWriter} {force : Bool}
  {records : List CaseRecord} {throttleCall : ThrottleCall} {keep : Int}

theorem Buffered.retained {writer : ThrottledWriter} (hbuffered : Buffered records writer) :
    Buffered records { writer with buffer := writer.retained } := by
  obtain ⟨stale, fresh, hbuffer, hstale, hsublist⟩ := hbuffered
  have hretained := writer.retained_sublist
  rw [hbuffer, List.sublist_append_iff] at hretained
  obtain ⟨stale', fresh', hsplit, hstale', hfresh'⟩ := hretained
  exact ⟨stale', fresh', hsplit, fun record hrecord => hstale record (hstale'.subset hrecord),
    ((List.Sublist.refl _).append hfresh').trans hsublist⟩

theorem Buffered.prepare (hbuffered : Buffered records failing.writer)
    (throttleCall : ThrottleCall) :
    Buffered (records ++ throttleCall.record?.toList) (failing.prepare throttleCall).1.writer := by
  obtain ⟨stale, fresh, hbuffer, hstale, hsublist⟩ := hbuffered
  cases throttleCall with
  | append record =>
      refine ⟨stale, fresh ++ [record], ?_, hstale, ?_⟩
      · change failing.writer.buffer ++ [record] = _
        rw [hbuffer, List.append_assoc]
      · rw [← List.append_assoc]
        exact hsublist.append (List.Sublist.refl _)
  | closeTest =>
      refine ⟨stale, fresh, hbuffer, hstale, ?_⟩
      change List.Sublist _ (records ++ [])
      rw [List.append_nil]
      exact hsublist

theorem Buffered.flush (hbuffered : Buffered records failing.writer)
    (hfresh : writes failing.writer force → ∀ oldest,
      failing.writer.retained.head? = some oldest → oldest ∈ failing.writer.written →
        fails failing.attempts = true) :
    Buffered records (failing.flush fails force).1.writer := by
  rw [FailingWriter.flush]
  obtain ⟨stale, fresh, hbuffer, hstale, hsublist⟩ := hbuffered.retained
  change failing.writer.retained = stale ++ fresh at hbuffer
  change ∀ record ∈ stale, record ∈ failing.writer.written at hstale
  change (failing.writer.written ++ fresh).Sublist records at hsublist
  split
  · rename_i hwrites
    cases stale with
    | cons oldest others =>
        -- The oldest record is in the file, so its write fails and nothing is written.
        have hfails := hfresh hwrites oldest (by rw [hbuffer]; rfl)
          (hstale oldest List.mem_cons_self)
        rw [hbuffer, List.cons_append, attemptAll_cons_of_fails hfails]
        simp only [if_true, List.append_nil]
        exact ⟨oldest :: others, fresh, rfl, hstale, hsublist⟩
    | nil =>
        rw [List.nil_append] at hbuffer
        rw [hbuffer]
        obtain ⟨later, hlater⟩ := attemptAll_beginning fails fresh failing.attempts
        cases hraised : (attemptAll fails failing.attempts fresh).raised with
        | true =>
            simp only [hraised, if_true]
            refine ⟨(attemptAll fails failing.attempts fresh).done, later, hlater.symm,
              fun record hrecord => List.mem_append_right _ hrecord, ?_⟩
            rw [List.append_assoc, hlater]
            exact hsublist
        | false =>
            simp only [hraised, Bool.false_eq_true, if_false]
            refine ⟨[], [], rfl, List.forall_mem_nil _, ?_⟩
            rw [List.append_nil, attemptAll_done hraised]
            exact hsublist
  · split
    · exact hbuffered
    · exact ⟨stale, fresh, hbuffer, hstale, hsublist⟩

theorem run_append (calls : List ThrottleCall) (throttleCall : ThrottleCall) :
    run fails keep (calls ++ [throttleCall]) =
      ((run fails keep calls).call fails throttleCall).1 := by
  rw [run, List.foldl_append, List.foldl_cons, List.foldl_nil]
  rfl

theorem appendedRecords_append (calls : List ThrottleCall) (throttleCall : ThrottleCall) :
    appendedRecords (calls ++ [throttleCall]) =
      appendedRecords calls ++ throttleCall.record?.toList := by
  rw [appendedRecords, List.filterMap_append]
  cases throttleCall with
  | append record => rfl
  | closeTest => rfl

theorem buffered_run {calls : List ThrottleCall}
    (hfresh : ∀ made throttleCall, made ++ [throttleCall] <+: calls →
      StartsFresh fails (run fails keep made) throttleCall) :
    Buffered (appendedRecords calls) (run fails keep calls).writer := by
  induction calls using List.reverseRecOn with
  | nil => exact ⟨[], [], rfl, List.forall_mem_nil _, List.Sublist.refl _⟩
  | append_singleton calls throttleCall ih =>
      have hbuffered := ih fun made other hbeginning =>
        hfresh made other (hbeginning.trans (List.prefix_append _ _))
      rw [run_append, appendedRecords_append]
      exact (hbuffered.prepare throttleCall).flush
        (hfresh calls throttleCall (List.prefix_refl _))

theorem Buffered.written_sublist {writer : ThrottledWriter}
    (hbuffered : Buffered records writer) : writer.written.Sublist records := by
  obtain ⟨_, fresh, -, -, hsublist⟩ := hbuffered
  exact (List.sublist_append_left _ _).trans hsublist

/-- A call that does not start fresh writes a record again. -/
theorem not_nodup_of_not_startsFresh
    (hstale : ¬ StartsFresh fails failing throttleCall) :
    ¬ (failing.call fails throttleCall).1.writer.written.Nodup := by
  simp only [StartsFresh, not_forall] at hstale
  obtain ⟨hwrites, oldest, holdest, hwritten, hsucceeds⟩ := hstale
  have hsucceeds : fails (failing.prepare throttleCall).1.attempts = false := by
    simpa using hsucceeds
  obtain ⟨others, hretained⟩ := List.head?_eq_some_iff.mp holdest
  obtain ⟨later, hdone⟩ := attemptAll_cons_done oldest others hsucceeds
  have hfile : (failing.call fails throttleCall).1.writer.written =
      (failing.prepare throttleCall).1.writer.written ++ oldest :: later := by
    rw [call, flush, if_pos hwrites, hretained]
    simp only [hdone]
    split
    · rfl
    · rfl
  rw [hfile]
  intro hnodup
  exact (List.nodup_append.mp hnodup).2.2 oldest hwritten oldest List.mem_cons_self rfl

/-- No record is written twice and the file keeps the append order, throughout a run, exactly
when every call starts fresh. -/
theorem written_once_iff (fails : Nat → Bool) (keep : Int) (calls : List ThrottleCall)
    (hdistinct : (appendedRecords calls).Nodup) :
    (∀ made, made <+: calls →
      (run fails keep made).writer.written.Nodup ∧
        (run fails keep made).writer.written.Sublist (appendedRecords made)) ↔
    ∀ made throttleCall, made ++ [throttleCall] <+: calls →
      StartsFresh fails (run fails keep made) throttleCall := by
  constructor
  · intro honce made throttleCall hbeginning
    by_contra hstale
    have hnodup := (honce _ hbeginning).1
    rw [run_append] at hnodup
    exact not_nodup_of_not_startsFresh hstale hnodup
  · intro hfresh made hmade
    have hsublist := (buffered_run fun earlier throttleCall hbeginning =>
      hfresh earlier throttleCall (hbeginning.trans hmade)).written_sublist
    have hrecords : (appendedRecords made).Sublist (appendedRecords calls) :=
      hmade.sublist.filterMap _
    exact ⟨(hdistinct.sublist hrecords).sublist hsublist, hsublist⟩

def retriedRecord (fieldPath : Text) (ordinal : Int) : CaseRecord where
  formatVersion := 1
  caseId := Text.ofAscii "case"
  generatorVersion := Text.ofAscii "v1"
  requestName := Text.ofAscii "r"
  fieldPath := fieldPath
  mutationIndex := 0
  ordinal := ordinal
  path := [Text.ofAscii "r"]
  config := .object [(Text.ofAscii "transport", .string (Text.ofAscii "custom"))]
  steps := [⟨Text.ofAscii "r", [0x00], [0x00], true⟩]
  outcome := passedName
  detail := []
  failedStep := none

def retriedRecords : List CaseRecord :=
  [retriedRecord (Text.ofAscii "r.x") 0, retriedRecord (Text.ofAscii "r.x") 1,
    retriedRecord [] 2]

def retriedCalls : List ThrottleCall :=
  retriedRecords.map .append ++ [.closeTest, .closeTest]

/-- The records given to `Writer::append` one after the other. -/
def retriedAttempts : List CaseRecord :=
  retriedRecords ++ retriedRecords.drop 1

/-- An attempt fails where the record is not valid. -/
def retriedFails (attempt : Nat) : Bool :=
  retriedAttempts[attempt]?.any fun record => !record.validate.isOk

theorem retriedCalls_distinct : (appendedRecords retriedCalls).Nodup := by
  have hordinals : ((appendedRecords retriedCalls).map (·.ordinal)).Nodup := by decide
  exact List.Pairwise.of_map CaseRecord.ordinal
    (fun _ _ hne hsame => hne (congrArg CaseRecord.ordinal hsame)) hordinals

/-- The second record is valid and the last is not: each of the closing calls writes the
second and raises at the last. -/
theorem written_twice : (appendedRecords retriedCalls).Nodup ∧
    (retriedRecords.map fun record => record.validate.isOk) = [true, true, false] ∧
    (run retriedFails 3 retriedCalls).writer.written.map (·.ordinal) = [0, 1, 1] ∧
    (run retriedFails 3 retriedCalls).writer.buffer.map (·.ordinal) = [1, 2] ∧
    (run retriedFails 3 retriedCalls).attempts = 5 ∧
    ¬ (run retriedFails 3 retriedCalls).writer.written.Nodup := by
  have hordinals : (run retriedFails 3 retriedCalls).writer.written.map (·.ordinal) =
      [0, 1, 1] := rfl
  refine ⟨retriedCalls_distinct, rfl, hordinals, rfl, rfl, fun hnodup => ?_⟩
  have hwritten : (run retriedFails 3 retriedCalls).writer.written =
      [retriedRecord (Text.ofAscii "r.x") 0, retriedRecord (Text.ofAscii "r.x") 1,
        retriedRecord (Text.ofAscii "r.x") 1] := rfl
  rw [hwritten] at hnodup
  simp at hnodup

theorem written_once_iff_retried :
    ¬ ∀ made throttleCall, made ++ [throttleCall] <+: retriedCalls →
      StartsFresh retriedFails (run retriedFails 3 made) throttleCall := by
  rw [← written_once_iff retriedFails 3 retriedCalls retriedCalls_distinct]
  intro honce
  have hnodup := (honce retriedCalls (List.prefix_refl _)).1
  have hwritten : (run retriedFails 3 retriedCalls).writer.written =
      [retriedRecord (Text.ofAscii "r.x") 0, retriedRecord (Text.ofAscii "r.x") 1,
        retriedRecord (Text.ofAscii "r.x") 1] := rfl
  rw [hwritten] at hnodup
  simp at hnodup

end FailingWriter

end MoonBoofuzz
