import MoonBoofuzz.Data.Mapped
import MoonBoofuzz.Data.Pieces
import MoonBoofuzz.Httpd.Request

namespace MoonBoofuzz

open Text

namespace Httpd

/-! What an accepted head is made of. -/

theorem stripCr_sublist (line : Text) : (stripCr line).Sublist line := by
  rw [stripCr]
  split
  · exact List.dropLast_sublist line
  · exact List.Sublist.refl line

theorem trimOws_sublist (text : Text) : (trimOws text).Sublist text :=
  (List.rdropWhile_prefix _ _).sublist.trans (List.dropWhile_sublist _)

theorem unbroken_of_headLines {head line : Text} (hline : line ∈ headLines head) : 10 ∉ line := by
  have hmem := (List.rdropWhile_prefix _ _).subset hline
  obtain ⟨raw, hraw, rfl⟩ := List.mem_map.mp hmem
  exact fun hfeed => notMem_of_mem_splitOn hraw ((stripCr_sublist raw).subset hfeed)

theorem headerLine_eq_ok {line : Text} {header : Text × Text} :
    headerLine line = .ok header ↔
      ∃ index, line.idxOf? colon = some index ∧ isToken (line.take index) = true ∧
        toLower (line.take index) ≠ ofAscii "transfer-encoding" ∧
        header = (toLower (line.take index), trimOws (line.drop (index + 1))) := by
  unfold headerLine
  constructor
  · intro hok
    split at hok
    · cases hok
    · rename_i index hindex
      dsimp only at hok
      split at hok
      · cases hok
      · rename_i htoken
        split at hok
        · cases hok
        · rename_i hplain
          exact ⟨index, hindex, Bool.not_eq_false _ ▸ htoken, hplain, (Except.ok.inj hok).symm⟩
  · rintro ⟨index, hindex, htoken, hplain, rfl⟩
    rw [hindex]
    dsimp only
    rw [htoken, if_neg (by decide), if_neg hplain]

theorem unbroken_of_parseHead {buffer : Bytes} {headEnd : Nat} {maxBody : Int32}
    {fields : HeadFields} (hhead : parseHead buffer headEnd maxBody = .ok fields) :
    ∀ header ∈ fields.headers, 10 ∉ header.2 := by
  obtain ⟨first, rest, hreads⟩ := parseHead_eq_ok.mp hhead
  intro header hheader hfeed
  obtain ⟨line, hline, hread⟩ := forall₂_of_mem_right
    (exceptMapM_eq_ok_iff.mp hreads.headers) hheader
  obtain ⟨index, -, -, -, rfl⟩ := headerLine_eq_ok.mp hread
  have hlines : line ∈ headLines (decodeLossy (buffer.take headEnd)) := by
    rw [hreads.lines]
    exact List.mem_cons_of_mem first hline
  exact unbroken_of_headLines hlines
    (List.mem_of_mem_drop ((trimOws_sublist _).subset hfeed))

/-- A line as it stands in a head, with a carriage return at its end or without one. -/
def Stands (line piece : Text) : Prop :=
  piece = line ++ [13] ∨ piece = line ∧ line.getLast? ≠ some 13

theorem stripCr_eq_iff {line piece : Text} : stripCr piece = line ↔ Stands line piece := by
  rw [stripCr, Stands]
  constructor
  · rintro rfl
    split
    · rename_i hlast
      exact Or.inl (List.dropLast_append_getLast? 13 hlast).symm
    · rename_i hplain
      exact Or.inr ⟨rfl, hplain⟩
  · rintro (rfl | ⟨rfl, hplain⟩)
    · rw [List.getLast?_append, List.getLast?_singleton, Option.some_or, if_pos rfl,
        List.dropLast_concat]
    · rw [if_neg hplain]

/-- Lines that stand in a head, with empty ones at its end. -/
structure Lined (head : Text) (lines : List Text) : Prop where
  last : lines.getLast? ≠ some []
  pieces : ∃ count pieces, pieces ≠ [] ∧ (∀ piece ∈ pieces, 10 ∉ piece) ∧
    head = [10].intercalate pieces ∧ List.Forall₂ Stands (lines ++ List.replicate count []) pieces

theorem headLines_eq_iff {head : Text} {lines : List Text} :
    headLines head = lines ↔ Lined head lines := by
  rw [headLines, rdropWhile_eq_iff]
  constructor
  · rintro ⟨hlast, back, hback, hlines⟩
    have hempty : back = List.replicate back.length [] :=
      List.eq_replicate_iff.mpr ⟨rfl, fun line hline => of_decide_eq_true (hback line hline)⟩
    refine ⟨fun hend => of_decide_eq_false (hlast [] hend) rfl, back.length, head.splitOn 10, ?_⟩
    obtain ⟨hne, hpieces, hhead⟩ := splitOn_eq_iff.mp (Eq.refl (head.splitOn 10))
    refine ⟨hne, hpieces, hhead, ?_⟩
    rw [← hempty, ← hlines, List.forall₂_map_left_iff, List.forall₂_same]
    exact fun piece _ => stripCr_eq_iff.mp rfl
  · rintro ⟨hlast, count, pieces, hne, hpieces, hhead, hstand⟩
    rw [splitOn_eq_iff.mpr ⟨hne, hpieces, hhead⟩, ← eq_map_of_forall₂ hstand.flip
      fun piece _ line hline => (stripCr_eq_iff.mpr hline).symm]
    refine ⟨fun line hline => decide_eq_false fun hempty => ?_, List.replicate count [], ?_, rfl⟩
    · exact hlast (hempty ▸ hline)
    · exact fun line hline => decide_eq_true (List.eq_of_mem_replicate hline)

theorem notMem_of_isToken {text : Text} {unit : UInt16} (htoken : isToken text = true)
    (hunit : isTokenUnit unit = false) : unit ∉ text := by
  rw [isToken, Bool.and_eq_true, List.all_eq_true] at htoken
  intro hmem
  have hplain := htoken.2 unit hmem
  rw [hunit] at hplain
  cases hplain

theorem requestLine_eq_ok {line verb target version : Text} :
    requestLine line = .ok (verb, target, version) ↔
      line = [32].intercalate [verb, target, version] ∧
        isToken verb = true ∧ 32 ∉ target ∧ 32 ∉ version ∧
        (target.head? = some slash ∨ target = ofAscii "*") ∧ ofAscii "HTTP/" <+: version := by
  unfold requestLine
  constructor
  · intro hok
    split at hok
    · rename_i first second third hsplit
      obtain ⟨-, hpieces, hline⟩ := splitOn_eq_iff.mp hsplit
      split at hok
      · cases hok
      rename_i htoken
      split at hok
      · cases hok
      rename_i htarget
      split at hok
      · cases hok
      rename_i hversion
      cases hok
      simp only [List.mem_cons, List.not_mem_nil, or_false, forall_eq_or_imp, forall_eq]
        at hpieces
      rw [Bool.not_eq_false] at htoken hversion
      exact ⟨hline, htoken, hpieces.2.1, hpieces.2.2, by tauto, hasPrefix_iff.mp hversion⟩
    · cases hok
  · rintro ⟨hline, htoken, htarget, hversion, hroute, hprefix⟩
    have hsplit : line.splitOn 32 = [verb, target, version] := by
      refine splitOn_eq_iff.mpr ⟨List.cons_ne_nil _ _, ?_, hline⟩
      simp only [List.mem_cons, List.not_mem_nil, or_false, forall_eq_or_imp, forall_eq]
      exact ⟨notMem_of_isToken htoken (by decide), htarget, hversion⟩
    rw [hsplit]
    dsimp only
    rw [htoken, if_neg (by decide), if_neg (by tauto), hasPrefix_iff.mpr hprefix,
      if_neg (by decide)]

structure SpellsHeader (line : Text) (header : Text × Text) : Prop where
  name : ∃ name, isToken name = true ∧ toLower name ≠ ofAscii "transfer-encoding" ∧
    header.1 = toLower name ∧
      ∃ front back, (∀ unit ∈ front, isOws unit = true) ∧ (∀ unit ∈ back, isOws unit = true) ∧
        line = name ++ colon :: (front ++ header.2 ++ back)
  value : Pared isOws header.2

theorem headerLine_spells {line : Text} {header : Text × Text} :
    headerLine line = .ok header ↔ SpellsHeader line header := by
  rw [headerLine_eq_ok]
  constructor
  · rintro ⟨index, hindex, htoken, hplain, rfl⟩
    obtain ⟨hpared, front, back, hfront, hback, hrest⟩ :=
      trim_eq_iff.mp (Eq.refl (trimOws (line.drop (index + 1))))
    refine ⟨⟨line.take index, htoken, hplain, rfl, front, back, hfront, hback, ?_⟩, hpared⟩
    obtain ⟨hlt, hcolon, -⟩ := List.idxOf?_eq_some_iff.mp hindex
    rw [← hrest, ← hcolon, ← List.drop_eq_getElem_cons hlt, List.take_append_drop]
  · rintro ⟨⟨name, htoken, hplain, hname, front, back, hfront, hback, rfl⟩, hpared⟩
    have hindex : (name ++ colon :: (front ++ header.2 ++ back)).idxOf? colon =
        some name.length := by
      refine List.idxOf?_eq_some_iff.mpr ⟨by simp, by simp, fun j hj => ?_⟩
      rw [List.getElem_append_left hj]
      exact fun hsame => notMem_of_isToken htoken (by decide) (hsame ▸ List.getElem_mem hj)
    refine ⟨name.length, hindex, ?_⟩
    rw [List.take_left, ← List.drop_drop, List.drop_left]
    refine ⟨htoken, hplain, Prod.ext hname ?_⟩
    exact (trim_eq_iff.mpr ⟨hpared, front, back, hfront, hback, rfl⟩).symm

theorem foldlM_agreeingLength_eq_ok {maxBody value number : Int32} (hvalue : ¬value < 0)
    (texts : List Text) :
    texts.foldlM (agreeingLength maxBody) value = .ok number ↔
      number = value ∧ ∀ text ∈ texts, parseContentLength text maxBody = .ok value := by
  induction texts with
  | nil =>
      constructor
      · intro hok
        exact ⟨(Except.ok.inj hok).symm, fun text htext => absurd htext List.not_mem_nil⟩
      · rintro ⟨rfl, -⟩
        rfl
  | cons text rest ih =>
      rw [List.foldlM_cons, List.forall_mem_cons]
      constructor
      · intro hok
        obtain ⟨next, hstep, hrest⟩ := exceptBind_eq_ok_iff.mp hok
        rw [agreeingLength] at hstep
        obtain ⟨parsed, hparsed, hkept⟩ := exceptBind_eq_ok_iff.mp hstep
        rw [if_neg hvalue, ite_not] at hkept
        split at hkept
        · rename_i hsame
          obtain rfl := Except.ok.inj hkept
          obtain ⟨hnumber, hall⟩ := ih.mp hrest
          exact ⟨hnumber, hsame ▸ hparsed, hall⟩
        · cases hkept
      · rintro ⟨hnumber, htext, hrest⟩
        have hstep : agreeingLength maxBody value text = .ok value := by
          rw [agreeingLength, htext]
          change (if value < 0 then _ else if value ≠ value then _ else _) = _
          rw [if_neg hvalue, if_neg (not_not.mpr rfl)]
        rw [hstep]
        exact ih.mpr ⟨hnumber, hrest⟩

theorem agreeingLength_first (text : Text) (maxBody : Int32) :
    agreeingLength maxBody (-1) text = parseContentLength text maxBody := by
  rw [agreeingLength]
  cases parseContentLength text maxBody <;> rfl

theorem not_neg_of_toInt {value : Int32} (hvalue : 0 ≤ value.toInt) : ¬value < 0 :=
  Int32.not_lt.mpr (Int32.le_iff_toInt_le.mpr hvalue)

theorem contentLengthFrom_eq_ok {seen : List Text} {maxBody number : Int32} (hcap : 0 ≤ maxBody)
    (hlarge : maxBody ≤ flagCap) :
    contentLengthFrom seen maxBody = .ok number ↔
      0 ≤ number.toInt ∧ number ≤ maxBody ∧ (seen = [] → number = 0) ∧
        ∀ text ∈ seen, readNatural text = some number.toInt.toNat := by
  rw [contentLengthFrom]
  cases seen with
  | nil =>
      rw [if_pos rfl]
      constructor
      · intro hok
        obtain rfl := Except.ok.inj hok
        exact ⟨Int.le_refl 0, hcap, fun _ => rfl, fun text htext => absurd htext List.not_mem_nil⟩
      · rintro ⟨-, -, hnumber, -⟩
        rw [hnumber rfl]
  | cons text rest =>
      rw [if_neg (List.cons_ne_nil _ _), List.foldlM_cons, List.forall_mem_cons,
        agreeingLength_first]
      constructor
      · intro hok
        obtain ⟨value, hvalue, hrest⟩ := exceptBind_eq_ok_iff.mp hok
        obtain ⟨hpositive, hle, hread⟩ := (parseContentLength_eq_ok hcap hlarge).mp hvalue
        obtain ⟨rfl, hall⟩ :=
          (foldlM_agreeingLength_eq_ok (not_neg_of_toInt hpositive) rest).mp hrest
        exact ⟨hpositive, hle, fun hnil => absurd hnil (List.cons_ne_nil _ _), hread,
          fun other hother => ((parseContentLength_eq_ok hcap hlarge).mp (hall other hother)).2.2⟩
      · rintro ⟨hpositive, hle, -, hread, hall⟩
        have hparse : ∀ {other : Text}, readNatural other = some number.toInt.toNat →
            parseContentLength other maxBody = .ok number := fun hother =>
          (parseContentLength_eq_ok hcap hlarge).mpr ⟨hpositive, hle, hother⟩
        rw [hparse hread]
        exact (foldlM_agreeingLength_eq_ok (not_neg_of_toInt hpositive) rest).mpr
          ⟨rfl, fun other hother => hparse (hall other hother)⟩

/-- What a head is read as: its lines are the request line and the header lines, and all lengths
that are declared are the same one. -/
structure Spells (head : Text) (maxBody : Int32) (fields : HeadFields) : Prop where
  verb : isToken fields.verb = true
  target : 32 ∉ fields.target ∧
    (fields.target.head? = some slash ∨ fields.target = ofAscii "*")
  version : 32 ∉ fields.version ∧ ofAscii "HTTP/" <+: fields.version
  lines : ∃ lines, Lined head ([32].intercalate [fields.verb, fields.target, fields.version] ::
    lines) ∧ List.Forall₂ SpellsHeader lines fields.headers
  bounds : 0 ≤ fields.contentLength.toInt ∧ fields.contentLength ≤ maxBody
  declared : ∀ header ∈ fields.headers, header.1 = ofAscii "content-length" →
    readNatural header.2 = some fields.contentLength.toInt.toNat
  undeclared : (∀ header ∈ fields.headers, header.1 ≠ ofAscii "content-length") →
    fields.contentLength = 0

theorem mem_contentLengths {headers : List (Text × Text)} {text : Text} :
    text ∈ contentLengths headers ↔
      ∃ header ∈ headers, header.1 = ofAscii "content-length" ∧ header.2 = text := by
  rw [contentLengths, List.mem_map]
  simp only [List.mem_filter, decide_eq_true_eq, and_assoc]

theorem SpellsHeader.filled {line : Text} {header : Text × Text}
    (hspells : SpellsHeader line header) : line ≠ [] := by
  obtain ⟨name, -, -, -, front, back, -, -, rfl⟩ := hspells.name
  exact List.append_ne_nil_of_right_ne_nil name (List.cons_ne_nil _ _)

/-- The heads that are accepted are those that spell something, and they are read as what they
spell. -/
theorem parseHead_eq_ok_iff_spells {buffer : Bytes} {headEnd : Nat} {maxBody : Int32}
    {fields : HeadFields} (hcap : 0 ≤ maxBody) (hlarge : maxBody ≤ flagCap) :
    parseHead buffer headEnd maxBody = .ok fields ↔
      Spells (decodeLossy (buffer.take headEnd)) maxBody fields ∧
        fields.bodyStart = bodyStart buffer headEnd := by
  rw [parseHead_eq_ok]
  constructor
  · rintro ⟨first, rest, hreads⟩
    obtain ⟨hfirst, hverb, htarget, hversion, hroute, hprefix⟩ :=
      requestLine_eq_ok.mp hreads.request
    have hlines := headLines_eq_iff.mp hreads.lines
    rw [hfirst] at hlines
    have hheaders := (exceptMapM_eq_ok_iff.mp hreads.headers).imp
      fun line header => headerLine_spells.mp
    obtain ⟨hpositive, hle, hnone, hall⟩ :=
      (contentLengthFrom_eq_ok hcap hlarge).mp hreads.contentLength
    refine ⟨⟨hverb, ⟨htarget, hroute⟩, ⟨hversion, hprefix⟩, ⟨rest, hlines, hheaders⟩,
      ⟨hpositive, hle⟩, fun header hmem hname => ?_, fun hother => hnone ?_⟩, hreads.bodyStart⟩
    · exact hall header.2 (mem_contentLengths.mpr ⟨header, hmem, hname, rfl⟩)
    · refine List.eq_nil_iff_forall_not_mem.mpr fun text htext => ?_
      obtain ⟨header, hmem, hname, -⟩ := mem_contentLengths.mp htext
      exact hother header hmem hname
  · rintro ⟨hspells, hstart⟩
    obtain ⟨rest, hlines, hheaders⟩ := hspells.lines
    refine ⟨_, rest, headLines_eq_iff.mpr hlines, ?_, ?_, ?_, ?_, hstart⟩
    · intro hempty
      rcases List.mem_cons.mp hempty with hfirst | hrest
      · have hblank : (32 : UInt16) ∈
            [32].intercalate [fields.verb, fields.target, fields.version] := by
          simp [List.intercalate]
        rw [← hfirst] at hblank
        cases hblank
      · obtain ⟨header, -, hspelled⟩ := forall₂_of_mem_left hheaders hrest
        exact hspelled.filled rfl
    · exact requestLine_eq_ok.mpr ⟨rfl, hspells.verb, hspells.target.1, hspells.version.1,
        hspells.target.2, hspells.version.2⟩
    · exact exceptMapM_eq_ok_iff.mpr (hheaders.imp fun line header => headerLine_spells.mpr)
    · refine (contentLengthFrom_eq_ok hcap hlarge).mpr ⟨hspells.bounds.1, hspells.bounds.2, ?_, ?_⟩
      · intro hnone
        refine hspells.undeclared fun header hmem hname => ?_
        have hmember := mem_contentLengths.mpr ⟨header, hmem, hname, rfl⟩
        rw [hnone] at hmember
        cases hmember
      · intro text htext
        obtain ⟨header, hmem, hname, rfl⟩ := mem_contentLengths.mp htext
        exact hspells.declared header hmem hname

end Httpd

end MoonBoofuzz
