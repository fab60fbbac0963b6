import MoonBoofuzz.Records.Codec
import MoonBoofuzz.Results.Throttled

namespace MoonBoofuzz

/-! Which records a throttled file holds when its run is over. -/

theorem dropWhile_eq_filter {α : Type*} {drops : α → Bool} : ∀ {items : List α},
    items.Pairwise (fun first second => drops second = true → drops first = true) →
      items.dropWhile drops = items.filter fun item => !drops item := by
  intro items hordered
  induction items with
  | nil => rfl
  | cons item rest ih =>
      rw [List.pairwise_cons] at hordered
      cases hdrops : drops item with
      | true =>
          rw [List.dropWhile_cons_of_pos hdrops, List.filter_cons_of_neg (by simp [hdrops])]
          exact ih hordered.2
      | false =>
          have hrest : ∀ other ∈ rest, (!drops other) = true := by
            intro other hother
            cases hother' : drops other with
            | false => rfl
            | true => exact absurd (hordered.1 other hother hother') (by simp [hdrops])
          rw [List.dropWhile_cons_of_neg (by simp [hdrops]),
            List.filter_cons_of_pos (by simp [hdrops]), List.filter_eq_self.mpr hrest]

namespace CaseRecord

/-- An ordinal as the code has it: no negative number, and a 32-bit one. -/
def InRange (record : CaseRecord) : Prop := 0 ≤ record.ordinal ∧ record.ordinal < 2147483648

theorem Valid.inRange {record : CaseRecord} (hvalid : record.Valid) (hfits : record.Fits) :
    record.InRange := ⟨hvalid.ordinal, hfits.ordinal⟩

end CaseRecord

def Ascending (records : List CaseRecord) : Prop :=
  records.Pairwise fun first second => first.ordinal < second.ordinal

namespace Ascending

variable {records : List CaseRecord} {record last : CaseRecord}

theorem le_last (hordered : Ascending records) (hlast : records.getLast? = some last) :
    ∀ other ∈ records, other.ordinal ≤ last.ordinal := by
  obtain ⟨earlier, rfl⟩ := List.getLast?_eq_some_iff.mp hlast
  intro other hother
  rcases List.mem_append.mp hother with hearlier | hmem
  · exact Int.le_of_lt ((List.pairwise_append.mp hordered).2.2 other hearlier last
      List.mem_cons_self)
  · rw [List.mem_singleton.mp hmem]

theorem ordinal_le_iff (hordered : Ascending records) {i j : Nat}
    (hi : records[i]? = some record) (hj : records[j]? = some last) :
    record.ordinal ≤ last.ordinal ↔ i ≤ j := by
  have hlt : ∀ {i j : Nat} {first second : CaseRecord}, records[i]? = some first →
      records[j]? = some second → i < j → first.ordinal < second.ordinal := by
    intro i j first second hfirst hsecond hij
    obtain ⟨hin, rfl⟩ := List.getElem?_eq_some_iff.mp hfirst
    obtain ⟨hin', rfl⟩ := List.getElem?_eq_some_iff.mp hsecond
    exact List.pairwise_iff_getElem.mp hordered i j hin hin' hij
  rcases Nat.lt_trichotomy i j with hbefore | rfl | hafter
  · exact iff_of_true (Int.le_of_lt (hlt hi hj hbefore)) (Nat.le_of_lt hbefore)
  · rw [hi] at hj
    rw [Option.some.inj hj]
    exact iff_of_true (Int.le_refl _) (Nat.le_refl _)
  · exact iff_of_false (Int.not_le.mpr (hlt hj hi hafter)) (Nat.not_le.mpr hafter)

theorem eq_of_getElem? (hordered : Ascending records) {i j : Nat}
    (hi : records[i]? = some record) (hj : records[j]? = some record) : i = j :=
  Nat.le_antisymm ((hordered.ordinal_le_iff hi hj).mp (Int.le_refl _))
    ((hordered.ordinal_le_iff hj hi).mp (Int.le_refl _))

theorem nodup (hordered : Ascending records) : records.Nodup :=
  hordered.imp fun hlt heq => by
    rw [heq] at hlt
    exact Int.lt_irrefl _ hlt

end Ascending

namespace ThrottledWriter

variable {keep : Int} {writer : ThrottledWriter} {records finished rest : List CaseRecord}
  {record last : CaseRecord}

def inWindow (keep current : Int) (record : CaseRecord) : Bool :=
  decide (current - record.ordinal < keep)

theorem retained_eq_filter (hkeep : 0 < writer.keep) (hordered : Ascending writer.buffer)
    (hrange : ∀ record ∈ writer.buffer, record.InRange)
    (hcurrent : 0 ≤ writer.currentOrdinal ∧ writer.currentOrdinal < 2147483648) :
    writer.retained = writer.buffer.filter (inWindow writer.keep writer.currentOrdinal) := by
  have hwrap : ∀ record ∈ writer.buffer,
      wrap32 (writer.currentOrdinal - record.ordinal) =
        writer.currentOrdinal - record.ordinal := by
    intro record hrecord
    obtain ⟨hlower, hupper⟩ := hrange record hrecord
    exact wrap32_eq_self (by omega) (by omega)
  rw [retained, if_pos hkeep, dropWhile_eq_filter]
  · apply List.filter_congr
    intro record hrecord
    rw [hwrap record hrecord, inWindow, ← decide_not]
    exact decide_eq_decide.mpr Int.not_le
  · apply hordered.imp_of_mem
    intro first second hfirst hsecond hlt hdrops
    rw [decide_eq_true_eq, hwrap second hsecond] at hdrops
    rw [decide_eq_true_eq, hwrap first hfirst]
    omega

/-- The records of the finished part that a failure of that part has kept. -/
def KeptBy (keep : Int) (finished : List CaseRecord) (record : CaseRecord) : Prop :=
  finished.head? = some record ∨ ∃ failed ∈ finished, failed.outcome ≠ passedName ∧
    record.ordinal ≤ failed.ordinal ∧ failed.ordinal - record.ordinal < keep

/-- The run so far: a finished part that ends at the last flush, and the records that have
passed since, of which the buffer holds those in the window of the last. -/
structure Retaining (keep : Int) (finished rest : List CaseRecord) (last : CaseRecord)
    (writer : ThrottledWriter) : Prop where
  keep_eq : writer.keep = keep
  failDetected : writer.failDetected = false
  firstCase : writer.firstCase = false
  started : finished ≠ []
  currentOrdinal : writer.currentOrdinal = last.ordinal
  getLast : (finished ++ rest).getLast? = some last
  passed : ∀ record ∈ rest, record.outcome = passedName
  buffer : writer.buffer = rest.filter (inWindow keep last.ordinal)
  written_sublist : writer.written.Sublist finished
  written : ∀ record ∈ finished, record ∈ writer.written ↔ KeptBy keep finished record
  ended : ∀ record ∈ finished, finished.head? = some record ∨
    ∃ failed ∈ finished, failed.outcome ≠ passedName ∧ record.ordinal ≤ failed.ordinal

theorem retaining_new (hkeep : 0 < keep) (record : CaseRecord) :
    Retaining keep [record] [] record ((new keep).append record) := by
  have hretained : ((new keep).push record).retained = [record] := by
    rw [retained, if_pos (show 0 < ((new keep).push record).keep from hkeep)]
    apply List.dropWhile_cons_of_neg
    change ¬ decide (keep ≤ wrap32 (record.ordinal - record.ordinal)) = true
    rw [Int.sub_self, decide_eq_true_eq]
    exact Int.not_le.mpr hkeep
  have happend : (new keep).append record =
      { (new keep).push record with
        written := [record], buffer := [], failDetected := false, firstCase := false } := by
    rw [append, flush, if_neg (show ¬ ((new keep).push record).buffer = [] by
      simp [push, new]), if_pos (.inr (.inr (.inr rfl))), hretained]
    rfl
  rw [happend]
  exact {
    keep_eq := rfl
    failDetected := rfl
    firstCase := rfl
    started := List.cons_ne_nil _ _
    currentOrdinal := rfl
    getLast := rfl
    passed := fun record hrecord => by cases hrecord
    buffer := rfl
    written_sublist := List.Sublist.refl _
    written := fun other hother => iff_of_true hother
      (.inl (congrArg some (List.mem_singleton.mp hother).symm))
    ended := fun other hother => .inl (congrArg some (List.mem_singleton.mp hother).symm) }

theorem Retaining.retained_push (hkeep : 0 < keep)
    (hretaining : Retaining keep finished rest last writer)
    (hordered : Ascending (finished ++ rest ++ [record]))
    (hrange : ∀ other ∈ finished ++ rest ++ [record], other.InRange) :
    (writer.push record).retained = (rest ++ [record]).filter (inWindow keep record.ordinal) := by
  have hbuffer : (writer.push record).buffer =
      rest.filter (inWindow keep last.ordinal) ++ [record] := by
    rw [push, hretaining.buffer]
  have hkept : Ascending (rest ++ [record]) := by
    rw [List.append_assoc] at hordered
    exact (List.pairwise_append.mp hordered).2.1
  have hsublist : (writer.push record).buffer.Sublist (rest ++ [record]) := by
    rw [hbuffer]
    exact List.filter_sublist.append (List.Sublist.refl _)
  have hlast : last.ordinal < record.ordinal := by
    have hmem := List.mem_of_getLast? hretaining.getLast
    exact (List.pairwise_append.mp hordered).2.2 last hmem record List.mem_cons_self
  have hpushed : record.InRange := hrange record (by simp)
  rw [retained_eq_filter (by rw [push, hretaining.keep_eq]; exact hkeep)
    (hkept.sublist hsublist)
    (fun other hother => hrange other (by
      rw [List.append_assoc]
      exact List.mem_append_right _ (hsublist.subset hother)))
    hpushed, hbuffer, List.filter_append, List.filter_append, List.filter_filter]
  have hkeepEq : (writer.push record).keep = keep := hretaining.keep_eq
  have hcurrent : (writer.push record).currentOrdinal = record.ordinal := rfl
  rw [hkeepEq, hcurrent]
  congr 1
  apply List.filter_congr
  intro other _
  cases hwindow : inWindow keep record.ordinal other with
  | false => rfl
  | true =>
      rw [inWindow, decide_eq_true_eq] at hwindow
      rw [Bool.true_and, inWindow, decide_eq_true_eq]
      omega

theorem push_buffer_ne_nil (writer : ThrottledWriter) (record : CaseRecord) :
    ¬ (writer.push record).buffer = [] := by
  simp [push]

theorem Retaining.append_passed (hkeep : 0 < keep)
    (hretaining : Retaining keep finished rest last writer)
    (hordered : Ascending (finished ++ rest ++ [record]))
    (hrange : ∀ other ∈ finished ++ rest ++ [record], other.InRange)
    (hpassed : record.outcome = passedName) :
    Retaining keep finished (rest ++ [record]) record (writer.append record) := by
  have hdetected : (writer.push record).failDetected = false := by
    simp [push, hretaining.failDetected, hpassed]
  have hkeeps : ¬ (false = true ∨ (writer.push record).keep ≤ 0 ∨
      (writer.push record).failDetected = true ∨ (writer.push record).firstCase = true) := by
    have hkeepEq : (writer.push record).keep = keep := hretaining.keep_eq
    have hfirst : (writer.push record).firstCase = false := hretaining.firstCase
    rw [hkeepEq, hdetected, hfirst]
    simp only [Bool.false_eq_true, or_false, false_or, not_le]
    exact hkeep
  have happend : writer.append record =
      { writer.push record with
        buffer := (rest ++ [record]).filter (inWindow keep record.ordinal) } := by
    rw [append, flush, if_neg (push_buffer_ne_nil writer record), if_neg hkeeps,
      hretaining.retained_push hkeep hordered hrange]
  rw [happend]
  exact {
    keep_eq := hretaining.keep_eq
    failDetected := hdetected
    firstCase := hretaining.firstCase
    started := hretaining.started
    currentOrdinal := rfl
    getLast := by rw [← List.append_assoc, List.getLast?_append_cons]; rfl
    passed := List.forall_mem_append.mpr ⟨hretaining.passed, fun other hother => by
      rw [List.mem_singleton.mp hother]
      exact hpassed⟩
    buffer := rfl
    written_sublist := hretaining.written_sublist
    written := hretaining.written
    ended := hretaining.ended }

theorem head?_append_of_ne_nil (hstarted : finished ≠ []) (others : List CaseRecord) :
    (finished ++ others).head? = finished.head? := by
  obtain ⟨first, later, rfl⟩ := List.exists_cons_of_ne_nil hstarted
  rfl

theorem Retaining.written_failed (hretaining : Retaining keep finished rest last writer)
    (hordered : Ascending (finished ++ (rest ++ [record])))
    (hfailed : record.outcome ≠ passedName) :
    ∀ other ∈ finished ++ (rest ++ [record]),
      other ∈ writer.written ++ (rest ++ [record]).filter (inWindow keep record.ordinal) ↔
        KeptBy keep (finished ++ (rest ++ [record])) other := by
  have hacross : ∀ first ∈ finished, ∀ second ∈ rest ++ [record],
      first.ordinal < second.ordinal := (List.pairwise_append.mp hordered).2.2
  have hrecord : record ∈ rest ++ [record] := List.mem_append_right _ List.mem_cons_self
  have hfailure : ∀ failed ∈ finished ++ (rest ++ [record]), failed.outcome ≠ passedName →
      failed ∈ finished ∨ failed = record := by
    intro failed hmem houtcome
    rcases List.mem_append.mp hmem with hold | hnew
    · exact .inl hold
    · rcases List.mem_append.mp hnew with hrest | hlast
      · exact absurd (hretaining.passed failed hrest) houtcome
      · exact .inr (List.mem_singleton.mp hlast)
  intro other hother
  rw [List.mem_append, List.mem_filter, KeptBy, head?_append_of_ne_nil hretaining.started]
  rcases List.mem_append.mp hother with hold | hnew
  · have hnot : ¬ (other ∈ rest ++ [record] ∧ inWindow keep record.ordinal other = true) := by
      intro hmem
      exact absurd (hacross other hold other hmem.1) (Int.lt_irrefl _)
    rw [or_iff_left hnot, hretaining.written other hold, KeptBy]
    constructor
    · rintro (hhead | ⟨failed, hmem, hkept⟩)
      · exact .inl hhead
      · exact .inr ⟨failed, List.mem_append_left _ hmem, hkept⟩
    · rintro (hhead | ⟨failed, hmem, houtcome, hle, hlt⟩)
      · exact .inl hhead
      · rcases hfailure failed hmem houtcome with hin | rfl
        · exact .inr ⟨failed, hin, houtcome, hle, hlt⟩
        · -- The failure that ended the part is nearer than the new one.
          rcases hretaining.ended other hold with hhead | ⟨failed', hmem', houtcome', hle'⟩
          · exact .inl hhead
          · have hnearer := hacross failed' hmem' failed hrecord
            exact .inr ⟨failed', hmem', houtcome', hle', by omega⟩
  · have hnot : ¬ other ∈ writer.written := fun hmem =>
      absurd (hacross other (hretaining.written_sublist.subset hmem) other hnew)
        (Int.lt_irrefl _)
    rw [or_iff_right hnot, inWindow, decide_eq_true_eq]
    constructor
    · rintro ⟨-, hlt⟩
      refine .inr ⟨record, List.mem_append_right _ hrecord, hfailed, ?_, hlt⟩
      rcases List.mem_append.mp hnew with hrest | hlast
      · have hnewer : Ascending (rest ++ [record]) := (List.pairwise_append.mp hordered).2.1
        exact Int.le_of_lt ((List.pairwise_append.mp hnewer).2.2 other hrest record
          List.mem_cons_self)
      · rw [List.mem_singleton.mp hlast]
    · rintro (hhead | ⟨failed, hmem, houtcome, hle, hlt⟩)
      · have hin : other ∈ finished := List.mem_of_mem_head? hhead
        exact absurd (hacross other hin other hnew) (Int.lt_irrefl _)
      · rcases hfailure failed hmem houtcome with hin | rfl
        · exact absurd (hacross failed hin other hnew) (Int.not_lt.mpr hle)
        · exact ⟨hnew, hlt⟩

theorem Retaining.append_failed (hkeep : 0 < keep)
    (hretaining : Retaining keep finished rest last writer)
    (hordered : Ascending (finished ++ rest ++ [record]))
    (hrange : ∀ other ∈ finished ++ rest ++ [record], other.InRange)
    (hfailed : record.outcome ≠ passedName) :
    Retaining keep (finished ++ (rest ++ [record])) [] record (writer.append record) := by
  have hdetected : (writer.push record).failDetected = true := by
    simp [push, hfailed]
  have happend : writer.append record =
      { writer.push record with
        written := writer.written ++ (rest ++ [record]).filter (inWindow keep record.ordinal)
        buffer := []
        failDetected := false
        firstCase := false } := by
    rw [append, flush, if_neg (push_buffer_ne_nil writer record),
      if_pos (.inr (.inr (.inl hdetected))),
      hretaining.retained_push hkeep hordered hrange]
    rfl
  have hbefore : ∀ other ∈ finished ++ rest, other.ordinal < record.ordinal :=
    fun other hother => (List.pairwise_append.mp hordered).2.2 other hother record
      List.mem_cons_self
  rw [List.append_assoc] at hordered
  have hwritten := hretaining.written_failed hordered hfailed
  rw [happend]
  exact {
    keep_eq := hretaining.keep_eq
    failDetected := rfl
    firstCase := rfl
    started := by simp
    currentOrdinal := rfl
    getLast := by rw [List.append_nil, ← List.append_assoc, List.getLast?_append_cons]; rfl
    passed := fun other hother => by cases hother
    buffer := rfl
    written_sublist := hretaining.written_sublist.append List.filter_sublist
    written := hwritten
    ended := by
      intro other hother
      refine .inr ⟨record, by simp, hfailed, ?_⟩
      rw [← List.append_assoc] at hother
      rcases List.mem_append.mp hother with hold | hlast
      · exact Int.le_of_lt (hbefore other hold)
      · rw [List.mem_singleton.mp hlast] }

theorem exists_retaining (hkeep : 0 < keep) : ∀ (records : List CaseRecord), records ≠ [] →
    Ascending records → (∀ record ∈ records, record.InRange) →
      ∃ finished rest last, records = finished ++ rest ∧
        Retaining keep finished rest last (run keep records) := by
  intro records
  induction records using List.reverseRecOn with
  | nil => exact fun hne => absurd rfl hne
  | append_singleton records record ih =>
      intro _ hordered hrange
      rw [run, List.foldl_append, List.foldl_cons, List.foldl_nil]
      by_cases hempty : records = []
      · subst hempty
        exact ⟨[record], [], record, rfl, retaining_new hkeep record⟩
      · obtain ⟨finished, rest, last, rfl, hretaining⟩ := ih hempty
          (List.pairwise_append.mp hordered).1
          fun other hother => hrange other (List.mem_append_left _ hother)
        by_cases houtcome : record.outcome = passedName
        · exact ⟨finished, rest ++ [record], record, List.append_assoc _ _ _,
            hretaining.append_passed hkeep hordered hrange houtcome⟩
        · exact ⟨finished ++ (rest ++ [record]), [], record, by simp,
            hretaining.append_failed hkeep hordered hrange houtcome⟩

/-- The last flush writes the buffer, which is inside the window already. -/
theorem Retaining.closeTest_written (hkeep : 0 < keep)
    (hretaining : Retaining keep finished rest last writer)
    (hordered : Ascending (finished ++ rest))
    (hrange : ∀ other ∈ finished ++ rest, other.InRange) :
    writer.closeTest.written =
      writer.written ++ rest.filter (inWindow keep last.ordinal) := by
  have hsublist : writer.buffer.Sublist rest := by
    rw [hretaining.buffer]
    exact List.filter_sublist
  have hlast := hrange last (List.mem_of_getLast? hretaining.getLast)
  have hretained : writer.retained = writer.buffer := by
    rw [retained_eq_filter (by rw [hretaining.keep_eq]; exact hkeep)
      ((List.pairwise_append.mp hordered).2.1.sublist hsublist)
      (fun other hother => hrange other (List.mem_append_right _ (hsublist.subset hother)))
      (by rw [hretaining.currentOrdinal]; exact hlast), hretaining.keep_eq,
      hretaining.currentOrdinal, hretaining.buffer, List.filter_filter]
    simp only [Bool.and_self]
  rw [← hretaining.buffer, closeTest, flush]
  split
  · rename_i hempty
    rw [hempty, List.append_nil]
  · rw [if_pos (.inl rfl), hretained]

theorem Retaining.mem_closeTest (hkeep : 0 < keep)
    (hretaining : Retaining keep finished rest last writer)
    (hordered : Ascending (finished ++ rest))
    (hrange : ∀ other ∈ finished ++ rest, other.InRange) :
    ∀ other ∈ finished ++ rest, other ∈ writer.closeTest.written ↔
      (finished ++ rest).head? = some other ∨ ∃ cause ∈ finished ++ rest,
        other.ordinal ≤ cause.ordinal ∧
        (cause.outcome ≠ passedName ∨ (finished ++ rest).getLast? = some cause) ∧
        cause.ordinal - other.ordinal < keep := by
  have hacross : ∀ first ∈ finished, ∀ second ∈ rest, first.ordinal < second.ordinal :=
    (List.pairwise_append.mp hordered).2.2
  have hle := hordered.le_last hretaining.getLast
  have hlastMem := List.mem_of_getLast? hretaining.getLast
  have hcause : ∀ cause ∈ finished ++ rest,
      cause.outcome ≠ passedName ∨ (finished ++ rest).getLast? = some cause →
        (cause ∈ finished ∧ cause.outcome ≠ passedName) ∨ cause = last := by
    rintro cause hmem (houtcome | hlast)
    · rcases List.mem_append.mp hmem with hin | hrest
      · exact .inl ⟨hin, houtcome⟩
      · exact absurd (hretaining.passed cause hrest) houtcome
    · rw [hretaining.getLast] at hlast
      exact .inr (Option.some.inj hlast).symm
  intro other hother
  rw [hretaining.closeTest_written hkeep hordered hrange, List.mem_append, List.mem_filter,
    head?_append_of_ne_nil hretaining.started]
  rcases List.mem_append.mp hother with hold | hnew
  · have hnot : ¬ (other ∈ rest ∧ inWindow keep last.ordinal other = true) := fun hmem =>
      absurd (hacross other hold other hmem.1) (Int.lt_irrefl _)
    rw [or_iff_left hnot, hretaining.written other hold, KeptBy]
    constructor
    · rintro (hhead | ⟨failed, hmem, houtcome, hbefore, hlt⟩)
      · exact .inl hhead
      · exact .inr ⟨failed, List.mem_append_left _ hmem, hbefore, .inl houtcome, hlt⟩
    · rintro (hhead | ⟨cause, hmem, hbefore, hwhy, hlt⟩)
      · exact .inl hhead
      · rcases hcause cause hmem hwhy with ⟨hin, houtcome⟩ | rfl
        · exact .inr ⟨cause, hin, houtcome, hbefore, hlt⟩
        · rcases hretaining.ended other hold with hhead | ⟨failed, hfailed, houtcome, hbefore'⟩
          · exact .inl hhead
          · have hnearer := hle failed (List.mem_append_left _ hfailed)
            exact .inr ⟨failed, hfailed, houtcome, hbefore', by omega⟩
  · have hnot : ¬ other ∈ writer.written := fun hmem =>
      absurd (hacross other (hretaining.written_sublist.subset hmem) other hnew)
        (Int.lt_irrefl _)
    rw [or_iff_right hnot, inWindow, decide_eq_true_eq]
    constructor
    · rintro ⟨-, hlt⟩
      exact .inr ⟨last, hlastMem, hle other hother, .inr hretaining.getLast, hlt⟩
    · rintro (hhead | ⟨cause, hmem, hbefore, hwhy, hlt⟩)
      · have hin : other ∈ finished := List.mem_of_mem_head? hhead
        exact absurd (hacross other hin other hnew) (Int.lt_irrefl _)
      · rcases hcause cause hmem hwhy with ⟨hin, -⟩ | rfl
        · exact absurd (hacross cause hin other hnew) (Int.not_lt.mpr hbefore)
        · exact ⟨hnew, hlt⟩

theorem run_of_nonpos (hkeep : keep ≤ 0) (records : List CaseRecord) :
    (run keep records).keep = keep ∧ (run keep records).buffer = [] ∧
      (run keep records).written = records := by
  induction records using List.reverseRecOn with
  | nil => exact ⟨rfl, rfl, rfl⟩
  | append_singleton records record ih =>
      obtain ⟨hkeepEq, hbuffer, hwritten⟩ := ih
      have hpushed : ((run keep records).push record).keep ≤ 0 := by
        rw [push, hkeepEq]
        exact hkeep
      have hretained : ((run keep records).push record).retained = [record] := by
        rw [retained, if_neg (Int.not_lt.mpr hpushed), push, hbuffer]
        rfl
      have happend : (run keep records).append record =
          { (run keep records).push record with
            written := records ++ [record]
            buffer := []
            failDetected := false
            firstCase := false } := by
        rw [append, flush, if_neg (push_buffer_ne_nil _ record), if_pos (.inr (.inl hpushed)),
          hretained]
        change ({ (run keep records).push record with
          written := (run keep records).written ++ [record]
          buffer := []
          failDetected := false
          firstCase := false } : ThrottledWriter) = _
        rw [hwritten]
      have hrun : run keep (records ++ [record]) = (run keep records).append record := by
        rw [run, List.foldl_append, List.foldl_cons, List.foldl_nil]
        rfl
      rw [hrun, happend]
      exact ⟨hkeepEq, rfl, rfl⟩

theorem retention_exact (keep : Int) (records : List CaseRecord)
    (hvalid : ∀ record ∈ records, record.Valid) (hfits : ∀ record ∈ records, record.Fits)
    (hordinals : records.Pairwise fun first second => first.ordinal < second.ordinal) :
    (0 < keep →
      (run keep records).closeTest.written.Sublist records ∧
      (run keep records).closeTest.written.Nodup ∧
      ∀ (i : Nat) (record : CaseRecord), records[i]? = some record →
        (record ∈ (run keep records).closeTest.written ↔ i = 0 ∨
          ∃ (j : Nat) (cause : CaseRecord), i ≤ j ∧ records[j]? = some cause ∧
            (cause.outcome ≠ passedName ∨ j + 1 = records.length) ∧
            cause.ordinal - record.ordinal < keep)) ∧
    (keep ≤ 0 →
      (∀ fed, fed <+: records → (run keep fed).written = fed) ∧
      (run keep records).closeTest.written = records) := by
  have hordered : Ascending records := hordinals
  have hrange : ∀ record ∈ records, record.InRange :=
    fun record hrecord => (hvalid record hrecord).inRange (hfits record hrecord)
  constructor
  · intro hkeep
    by_cases hempty : records = []
    · subst hempty
      exact ⟨List.Sublist.refl _, List.nodup_nil, fun i record hi => by simp at hi⟩
    obtain ⟨finished, rest, last, rfl, hretaining⟩ :=
      exists_retaining hkeep records hempty hordered hrange
    have hsublist : (run keep (finished ++ rest)).closeTest.written.Sublist
        (finished ++ rest) := by
      rw [hretaining.closeTest_written hkeep hordered hrange]
      exact hretaining.written_sublist.append List.filter_sublist
    refine ⟨hsublist, hordered.nodup.sublist hsublist, fun i record hi => ?_⟩
    rw [hretaining.mem_closeTest hkeep hordered hrange record (List.mem_of_getElem? hi)]
    apply or_congr
    · rw [List.head?_eq_getElem?]
      constructor
      · exact fun hhead => hordered.eq_of_getElem? hi hhead
      · rintro rfl
        exact hi
    · constructor
      · rintro ⟨cause, hmem, hle, hwhy, hlt⟩
        obtain ⟨j, hj⟩ := List.mem_iff_getElem?.mp hmem
        refine ⟨j, cause, (hordered.ordinal_le_iff hi hj).mp hle, hj, ?_, hlt⟩
        refine hwhy.imp_right fun hlast => ?_
        rw [List.getLast?_eq_getElem?] at hlast
        have hplace := hordered.eq_of_getElem? hj hlast
        have hin := (List.getElem?_eq_some_iff.mp hj).1
        omega
      · rintro ⟨j, cause, hij, hj, hwhy, hlt⟩
        refine ⟨cause, List.mem_of_getElem? hj, (hordered.ordinal_le_iff hi hj).mpr hij, ?_,
          hlt⟩
        refine hwhy.imp_right fun hlast => ?_
        rw [List.getLast?_eq_getElem?, ← hlast, Nat.add_sub_cancel]
        exact hj
  · intro hkeep
    refine ⟨fun fed _ => (run_of_nonpos hkeep fed).2.2, ?_⟩
    obtain ⟨-, hbuffer, hwritten⟩ := run_of_nonpos hkeep records
    rw [closeTest, flush, if_pos hbuffer]
    exact hwritten

theorem sampleRun_valid : ∀ record ∈ sampleRun, record.Valid ∧ record.Fits := by
  have hvalid : ∀ record ∈ sampleRun, record.validate = .ok () := by decide
  have hfits : ∀ record ∈ sampleRun, record.mutationIndex < 2147483648 ∧
      record.ordinal < 2147483648 ∧ ∀ index ∈ record.failedStep, index < 2147483648 := by
    decide
  intro record hrecord
  obtain ⟨hmutation, hordinal, hfailed⟩ := hfits record hrecord
  exact ⟨CaseRecord.validate_ok.mp (hvalid record hrecord),
    ⟨hmutation, hordinal, fun index hindex => hfailed index hindex⟩⟩

theorem retention_exact_sample :
    (run 1 sampleRun).closeTest.written.Sublist sampleRun ∧
      (run 1 sampleRun).closeTest.written.Nodup ∧
      (run 0 sampleRun).closeTest.written = sampleRun := by
  have hvalid : ∀ record ∈ sampleRun, record.Valid :=
    fun record hrecord => (sampleRun_valid record hrecord).1
  have hfits : ∀ record ∈ sampleRun, record.Fits :=
    fun record hrecord => (sampleRun_valid record hrecord).2
  obtain ⟨hsublist, hnodup, -⟩ :=
    (retention_exact 1 sampleRun hvalid hfits sampleRun_increasing).1 (by decide)
  exact ⟨hsublist, hnodup,
    ((retention_exact 0 sampleRun hvalid hfits sampleRun_increasing).2 (by decide)).2⟩

end ThrottledWriter

end MoonBoofuzz
