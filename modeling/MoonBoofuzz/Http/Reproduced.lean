import MoonBoofuzz.Data.Unicode
import MoonBoofuzz.Http.Convert
import MoonBoofuzz.Http.Lines

namespace MoonBoofuzz

open CompiledRequest

namespace HttpMessage

theorem take_indexed {name : String} (hname : 4 ≤ (Text.ofAscii name).length) (i : Nat) :
    (Text.indexed name i).take 4 = (Text.ofAscii name).take 4 :=
  List.take_append_of_le_length hname

theorem indexed_ne {name name' : String} (hname : 4 ≤ (Text.ofAscii name).length)
    (hname' : 4 ≤ (Text.ofAscii name').length)
    (htake : (Text.ofAscii name).take 4 ≠ (Text.ofAscii name').take 4) (i j : Nat) :
    Text.indexed name i ≠ Text.indexed name' j := by
  intro hequal
  apply htake
  rw [← take_indexed hname i, hequal, take_indexed hname' j]

theorem validName_indexed {name : String} (hname : validName (Text.ofAscii name) = true)
    (i : Nat) : validName (Text.indexed name i) = true := by
  rw [validName, decide_eq_true_eq] at hname ⊢
  obtain ⟨hne, hdot, hslash, hplus⟩ := hname
  have hdigits : ∀ unit : UInt16, unit.toNat < 48 → unit ∉ Text.ofAscii name →
      unit ∉ Text.indexed name i := by
    intro unit hunit hnotMem hmem
    rcases List.mem_append.mp hmem with hmem | hmem
    · exact hnotMem hmem
    · exact Text.notMem_decimal (Or.inl hunit) i hmem
  exact ⟨List.append_ne_nil_of_left_ne_nil hne _, hdigits _ (by decide) hdot,
    hdigits _ (by decide) hslash, hdigits _ (by decide) hplus⟩

def NameFrom (i : Nat) (name : Text) : Prop :=
  ∃ j, i ≤ j ∧ (name = Text.indexed "name_" j ∨ name = Text.indexed "hdr_" j ∨
    name = Text.indexed "crlf" (j + 1))

theorem NameFrom.mono {i j : Nat} {name : Text} (hle : i ≤ j) (hname : NameFrom j name) :
    NameFrom i name := by
  obtain ⟨k, hk, hname⟩ := hname
  exact ⟨k, hle.trans hk, hname⟩

theorem NameFrom.valid {i : Nat} {name : Text} (hname : NameFrom i name) :
    validName name = true := by
  obtain ⟨j, -, rfl | rfl | rfl⟩ := hname
  · exact validName_indexed (by decide) j
  · exact validName_indexed (by decide) j
  · exact validName_indexed (by decide) (j + 1)

theorem NameFrom.take {i : Nat} {name : Text} (hname : NameFrom i name) :
    name.take 4 ∈ [Text.ofAscii "name", Text.ofAscii "hdr_", Text.ofAscii "crlf"] := by
  obtain ⟨j, -, rfl | rfl | rfl⟩ := hname
  · rw [take_indexed (by decide)]
    decide
  · rw [take_indexed (by decide)]
    decide
  · rw [take_indexed (by decide)]
    decide

theorem NameFrom.ne {i : Nat} {name : Text} (hname : NameFrom (i + 1) name) :
    name ≠ Text.indexed "name_" i ∧ name ≠ Text.indexed "hdr_" i ∧
      ∀ j ≤ i + 1, name ≠ Text.indexed "crlf" j := by
  obtain ⟨k, hk, rfl | rfl | rfl⟩ := hname
  · refine ⟨fun hequal => ?_, indexed_ne (by decide) (by decide) (by decide) k i,
      fun j _ => indexed_ne (by decide) (by decide) (by decide) k j⟩
    have := indexed_inj hequal
    omega
  · refine ⟨indexed_ne (by decide) (by decide) (by decide) k i, fun hequal => ?_,
      fun j _ => indexed_ne (by decide) (by decide) (by decide) k j⟩
    have := indexed_inj hequal
    omega
  · refine ⟨indexed_ne (by decide) (by decide) (by decide) (k + 1) i,
      indexed_ne (by decide) (by decide) (by decide) (k + 1) i, fun j hj hequal => ?_⟩
    have := indexed_inj hequal
    omega

theorem names_eolSlots (message : HttpMessage) (i : Nat) (present : Bool) :
    (message.eolSlots i present).map HttpSlot.name =
      if present then [Text.indexed "crlf" i] else [] := by
  cases present <;> rfl

theorem names_headers (message : HttpMessage) (headers : List HttpHeader) (i : Nat) :
    (((headers.zipIdx i).flatMap message.headerSlots).map HttpSlot.name).Nodup ∧
      ∀ name ∈ ((headers.zipIdx i).flatMap message.headerSlots).map HttpSlot.name,
        NameFrom i name := by
  induction headers generalizing i with
  | nil => exact ⟨List.nodup_nil, fun name hname => (List.not_mem_nil hname).elim⟩
  | cons header rest ih =>
      obtain ⟨hnodup, hlater⟩ := ih (i + 1)
      rw [List.zipIdx_cons, List.flatMap_cons, headerSlots, List.map_append, List.map_append,
        names_eolSlots]
      generalize ((rest.zipIdx (i + 1)).flatMap message.headerSlots).map HttpSlot.name = others
        at hnodup hlater
      have hhere : NameFrom i (Text.indexed "name_" i) ∧ NameFrom i (Text.indexed "hdr_" i) ∧
          NameFrom i (Text.indexed "crlf" (i + 1)) :=
        ⟨⟨i, le_rfl, Or.inl rfl⟩, ⟨i, le_rfl, Or.inr (Or.inl rfl)⟩,
          ⟨i, le_rfl, Or.inr (Or.inr rfl)⟩⟩
      have hname : Text.indexed "name_" i ≠ Text.indexed "hdr_" i :=
        indexed_ne (by decide) (by decide) (by decide) i i
      have hnameEol : Text.indexed "name_" i ≠ Text.indexed "crlf" (i + 1) :=
        indexed_ne (by decide) (by decide) (by decide) i (i + 1)
      have hvalueEol : Text.indexed "hdr_" i ≠ Text.indexed "crlf" (i + 1) :=
        indexed_ne (by decide) (by decide) (by decide) i (i + 1)
      have hnames : Text.indexed "name_" i ∉ others :=
        fun hmem => (hlater _ hmem).ne.1 rfl
      have hvalues : Text.indexed "hdr_" i ∉ others :=
        fun hmem => (hlater _ hmem).ne.2.1 rfl
      have heols : Text.indexed "crlf" (i + 1) ∉ others :=
        fun hmem => (hlater _ hmem).ne.2.2 (i + 1) le_rfl rfl
      have hothers : ∀ name ∈ others, NameFrom i name :=
        fun name hmem => (hlater name hmem).mono (Nat.le_succ i)
      simp only [List.map_cons, List.map_nil, HttpSlot.name]
      split
      · simp only [List.cons_append, List.nil_append, List.nodup_cons, List.mem_cons,
          forall_eq_or_imp, not_or]
        exact ⟨⟨⟨hname, hnameEol, hnames⟩, ⟨hvalueEol, hvalues⟩, heols, hnodup⟩, hhere.1,
          hhere.2.1, hhere.2.2, hothers⟩
      · simp only [List.cons_append, List.nil_append, List.nodup_cons, List.mem_cons,
          forall_eq_or_imp, not_or]
        exact ⟨⟨⟨hname, hnames⟩, hvalues, hnodup⟩, hhere.1, hhere.2.1, hothers⟩

theorem names_bodySlots (message : HttpMessage) :
    message.bodySlots.map HttpSlot.name =
      if message.terminator.isSome then [Text.ofAscii "head_end", Text.ofAscii "body"] else [] := by
  rw [bodySlots]
  cases message.terminator <;> rfl

theorem ite_sublist {α : Type} (present : Bool) (names : List α) :
    List.Sublist (if present then names else []) names := by
  cases present
  · exact List.nil_sublist names
  · exact List.Sublist.refl names

def firstNames : List Text :=
  [Text.ofAscii "method", Text.ofAscii "sp1", Text.ofAscii "uri", Text.ofAscii "sp2",
    Text.ofAscii "version"]

def lastNames : List Text := [Text.ofAscii "head_end", Text.ofAscii "body"]

theorem names_slots (message : HttpMessage) :
    (message.slots.map HttpSlot.name).Sublist (firstNames ++ ((Text.indexed "crlf" 0 ::
      (message.headers.zipIdx.flatMap message.headerSlots).map HttpSlot.name) ++ lastNames)) := by
  rw [slots, List.map_append, List.map_append, List.map_append, names_eolSlots,
    names_bodySlots, List.append_assoc, List.append_assoc]
  refine (List.Sublist.refl firstNames).append ?_
  exact (ite_sublist _ [Text.indexed "crlf" 0]).append
    ((List.Sublist.refl _).append (ite_sublist _ lastNames))

/-- The slots have names that can be registered. -/
theorem slots_named (message : HttpMessage) {requestName : Text}
    (hrequest : validName requestName = true) : Named message.slots requestName := by
  obtain ⟨hheaders, hfrom⟩ := names_headers message message.headers 0
  have hsublist := message.names_slots
  generalize (message.headers.zipIdx.flatMap message.headerSlots).map HttpSlot.name = headers
    at hheaders hfrom hsublist
  have hfirst : ∀ name ∈ firstNames ++ lastNames, validName name = true ∧ name.take 4 ∉
      [Text.ofAscii "name", Text.ofAscii "hdr_", Text.ofAscii "crlf"] := by decide
  have hmiddle : ∀ name ∈ Text.indexed "crlf" 0 :: headers, validName name = true ∧
      name.take 4 ∈ [Text.ofAscii "name", Text.ofAscii "hdr_", Text.ofAscii "crlf"] := by
    rw [List.forall_mem_cons]
    refine ⟨⟨validName_indexed (by decide) 0, ?_⟩, fun name hname =>
      ⟨(hfrom name hname).valid, (hfrom name hname).take⟩⟩
    rw [take_indexed (by decide)]
    decide
  have hfresh : Text.indexed "crlf" 0 ∉ headers := by
    intro hmem
    obtain ⟨j, -, hequal | hequal | hequal⟩ := hfrom _ hmem
    · exact indexed_ne (by decide) (by decide) (by decide) 0 j hequal
    · exact indexed_ne (by decide) (by decide) (by decide) 0 j hequal
    · have := indexed_inj hequal
      omega
  constructor
  · exact hrequest
  · intro slot hslot
    have hmem := hsublist.subset (List.mem_map_of_mem hslot)
    rcases List.mem_append.mp hmem with hmem | hmem
    · exact (hfirst _ (List.mem_append_left _ hmem)).1
    · rcases List.mem_append.mp hmem with hmem | hmem
      · exact (hmiddle _ hmem).1
      · exact (hfirst _ (List.mem_append_right _ hmem)).1
  · refine hsublist.nodup ?_
    rw [List.nodup_append, List.nodup_append]
    refine ⟨by decide, ⟨List.nodup_cons.mpr ⟨hfresh, hheaders⟩, by decide, ?_⟩, ?_⟩
    · rintro name hname other hother rfl
      exact (hfirst name (List.mem_append_right _ hother)).2 (hmiddle name hname).2
    · rintro name hname other hother rfl
      rcases List.mem_append.mp hother with hother | hother
      · exact (hfirst name (List.mem_append_left _ hname)).2 (hmiddle name hother).2
      · have hdisjoint : ∀ name ∈ firstNames, name ∉ lastNames := by decide
        exact hdisjoint name hname hother

/-- No slot and the text behind it meet within a surrogate pair. -/
inductive Clean : List HttpSlot → Prop
  | nil : Clean []
  | cons {slot : HttpSlot} {rest : List HttpSlot}
      (hmeets : Text.Closes slot.content ∨ Text.Opens (contents rest)) (hrest : Clean rest) :
      Clean (slot :: rest)

theorem Clean.bytes {slots : List HttpSlot} (hclean : Clean slots) :
    slots.flatMap (fun slot => slot.content.encodeUtf8) = (contents slots).encodeUtf8 := by
  induction hclean with
  | nil => rfl
  | cons hmeets _ ih => rw [List.flatMap_cons, contents_cons, ih, Text.encodeUtf8_append hmeets]

theorem closes_append {front back : Text} (hback : back ≠ [])
    (hplain : ∀ unit ∈ back, Text.isLeading unit = false) : Text.Closes (front ++ back) := by
  intro unit hunit
  rw [List.getLast?_append_of_ne_nil _ hback] at hunit
  exact hplain unit (List.mem_of_getLast? hunit)

theorem isLeading_ows {unit : UInt16} (hows : isOws unit = true) :
    Text.isLeading unit = false := by
  rw [isOws, decide_eq_true_eq] at hows
  rcases hows with rfl | rfl <;> decide

theorem splitHeader_gap {line : Text} {header : HttpHeader}
    (hsplit : splitHeader line = .ok header) : ∀ unit ∈ header.gap, isOws unit = true := by
  rw [splitHeader] at hsplit
  split at hsplit
  · cases hsplit
  · dsimp only at hsplit
    split at hsplit
    · cases hsplit
    · split at hsplit
      · cases hsplit
      · cases hsplit
        exact fun unit hunit => List.mem_takeWhile_imp hunit

theorem splitHeaders_gap {lines : List Text} {headers : List HttpHeader}
    (hsplit : splitHeaders lines = .ok headers) :
    ∀ header ∈ headers, ∀ unit ∈ header.gap, isOws unit = true := by
  induction lines generalizing headers with
  | nil =>
      cases hsplit
      exact fun header hheader => (List.not_mem_nil hheader).elim
  | cons line rest ih =>
      obtain ⟨header, hheader, hsplit⟩ := exceptBind_eq_ok_iff.mp hsplit
      obtain ⟨others, hothers, hdone⟩ := exceptBind_eq_ok_iff.mp hsplit
      cases hdone
      exact List.forall_mem_cons.mpr ⟨splitHeader_gap hheader, ih hothers⟩

section

variable {message : HttpMessage}

theorem opens_eol (heol : message.eol = crlf ∨ message.eol = lineFeed) (text : Text) :
    Text.Opens (message.eol ++ text) := by
  rcases heol with heol | heol
  · rw [heol]
    exact fun unit hunit => by cases hunit; decide
  · rw [heol]
    exact fun unit hunit => by cases hunit; decide

theorem closes_eol {eol : Text} (heol : eol = crlf ∨ eol = lineFeed) : Text.Closes eol := by
  rcases heol with rfl | rfl
  · exact fun unit hunit => by cases hunit; decide
  · exact fun unit hunit => by cases hunit; decide

theorem Clean.eolSlots (heol : message.eol = crlf ∨ message.eol = lineFeed) (i : Nat)
    (present : Bool) {rest : List HttpSlot} (hrest : Clean rest) :
    Clean (message.eolSlots i present ++ rest) := by
  cases present with
  | false => exact hrest
  | true => exact .cons (Or.inl (closes_eol heol)) hrest

theorem opens_eolSlots (heol : message.eol = crlf ∨ message.eol = lineFeed) (i : Nat)
    {present : Bool} {rest : List HttpSlot} (hrest : present = false → rest = []) :
    Text.Opens (contents (message.eolSlots i present ++ rest)) := by
  rw [contents_append, contents_eolSlots]
  cases present with
  | false =>
      rw [hrest rfl]
      exact fun unit hunit => by cases hunit
  | true => exact opens_eol heol _

theorem clean_headers (heol : message.eol = crlf ∨ message.eol = lineFeed)
    (hbody : Clean message.bodySlots) (headers : List HttpHeader) (i : Nat)
    (hcount : i + headers.length = message.headers.length)
    (hgaps : ∀ header ∈ headers, ∀ unit ∈ header.gap, isOws unit = true) :
    Clean ((headers.zipIdx i).flatMap message.headerSlots ++ message.bodySlots) := by
  induction headers generalizing i with
  | nil => exact hbody
  | cons header rest ih =>
      obtain ⟨hgap, hothers⟩ := List.forall_mem_cons.mp hgaps
      rw [List.length_cons] at hcount
      have hrest := ih (i + 1) (by omega) hothers
      rw [List.zipIdx_cons, List.flatMap_cons, List.append_assoc, headerSlots, List.append_assoc]
      refine .cons (Or.inl ?_) (.cons (Or.inr (opens_eolSlots heol (i + 1) fun habsent => ?_))
        (hrest.eolSlots heol (i + 1) _))
      · rw [HttpSlot.content, List.append_assoc]
        refine closes_append (List.cons_ne_nil _ _) fun unit hunit => ?_
        rcases List.mem_cons.mp hunit with rfl | hunit
        · decide
        · exact isLeading_ows (hgap unit hunit)
      · rw [Bool.or_eq_false_iff, Bool.or_eq_false_iff, decide_eq_false_iff_not] at habsent
        obtain ⟨⟨hterminator, hlast⟩, -⟩ := habsent
        have hnone : rest = [] := List.length_eq_zero_iff.mp (by omega)
        rw [hnone, bodySlots,
          Option.isNone_iff_eq_none.mp (Option.isSome_eq_false_iff.mp hterminator)]
        rfl

theorem opens_space (text : Text) : Text.Opens (Text.ofAscii " " ++ text) :=
  fun unit hunit => by cases hunit; decide

theorem closes_space : Text.Closes (Text.ofAscii " ") :=
  fun unit hunit => by cases hunit; decide

variable {source head first eol last : Text} {rest front : List Text}

theorem Reads.clean (hreads : Reads source head first rest message)
    (huniform : Uniform source eol front last) : Clean message.slots := by
  have heol : message.eol = crlf ∨ message.eol = lineFeed := by
    rw [hreads.eol]
    split
    · exact Or.inl rfl
    · exact Or.inr rfl
  have hbody : Clean message.bodySlots := by
    rw [bodySlots]
    cases hterminator : message.terminator with
    | none => exact .nil
    | some terminator =>
        have hremainder : terminatorRemainder terminator = eol := by
          rw [hreads.double huniform terminator hterminator]
          rcases huniform.ending with rfl | rfl <;> decide
        refine .cons (Or.inl ?_) (.cons (Or.inr ?_) .nil)
        · rw [HttpSlot.content, hremainder]
          exact closes_eol huniform.ending
        · exact fun unit hunit => by cases hunit
  have hheaders := clean_headers heol hbody message.headers 0 (Nat.zero_add _)
    (splitHeaders_gap hreads.headers)
  rw [slots, List.append_assoc, List.append_assoc]
  refine .cons (Or.inr ?_) (.cons (Or.inl closes_space) (.cons (Or.inr ?_)
    (.cons (Or.inl closes_space) (.cons (Or.inr (opens_eolSlots heol 0 ?_))
      (hheaders.eolSlots heol 0 _)))))
  · exact opens_space _
  · exact opens_space _
  · intro habsent
    rw [Bool.or_eq_false_iff, Bool.or_eq_false_iff, decide_eq_false_iff_not, not_not] at habsent
    obtain ⟨⟨hnone, hterminator⟩, -⟩ := habsent
    rw [hnone, bodySlots,
      Option.isNone_iff_eq_none.mp (Option.isSome_eq_false_iff.mp hterminator)]
    rfl

end

/-- The only content length of a message with a body is the length of the body. -/
def StatesLength (message : HttpMessage) : Prop :=
  ∀ i header, message.DeclaresLength i → message.terminator.isSome →
    message.headers[i]? = some header →
      header.value = Text.decimal message.body.encodeUtf8.length

theorem header_slot {message : HttpMessage} {i : Nat} {value : Text}
    (hslot : .segment (Text.indexed "hdr_" i) value ∈ message.slots) :
    ∃ header, message.headers[i]? = some header ∧ header.value = value := by
  have hnames : ∀ name ∈ firstNames ++ lastNames, name ≠ Text.indexed "hdr_" i := by
    rintro name hname rfl
    have htake := List.mem_map_of_mem (f := List.take 4) hname
    rw [take_indexed (by decide)] at htake
    exact absurd htake (by decide)
  have heols : ∀ j present,
      .segment (Text.indexed "hdr_" i) value ∉ message.eolSlots j present := by
    intro j present
    cases present <;> simp [eolSlots]
  rw [slots, List.mem_append, List.mem_append, List.mem_append] at hslot
  rcases hslot with ((hfirst | heol) | hheader) | hlast
  · refine absurd rfl (hnames _ (List.mem_append_left _ ?_))
    exact List.mem_map_of_mem (f := HttpSlot.name) hfirst
  · exact absurd heol (heols _ _)
  · obtain ⟨⟨header, j⟩, hitem, hmem⟩ := List.mem_flatMap.mp hheader
    rw [headerSlots, List.mem_append] at hmem
    rcases hmem with hmem | heol
    · simp only [List.mem_cons, reduceCtorEq, HttpSlot.segment.injEq, List.not_mem_nil, or_false,
        false_or] at hmem
      obtain ⟨hindex, rfl⟩ := hmem
      rw [indexed_inj hindex]
      exact ⟨header, List.mem_zipIdx_iff_getElem?.mp hitem, rfl⟩
    · exact absurd heol (heols _ _)
  · refine absurd rfl (hnames _ (List.mem_append_right _ ?_))
    have hmem := List.mem_map_of_mem (f := HttpSlot.name) hlast
    rw [names_bodySlots] at hmem
    exact (ite_sublist _ lastNames).subset hmem

section

variable {context : FieldContext} {message : HttpMessage} {requestName : Text}
  {nodes : List Node} {request : CompiledRequest}

theorem Converted.sends
    (hconverted : Converted context message (message.choiceOf [] requestName) nodes request)
    (hstates : message.StatesLength) {slot : HttpSlot} (hslot : slot ∈ message.slots) :
    SlotSends request [] slot slot.content.encodeUtf8 := by
  by_cases hfrozen : message.Frozen [] slot
  · exact hconverted.keeps hslot (hfrozen.untouched rfl)
  · cases slot with
    | structural name content => exact absurd True.intro hfrozen
    | segment id value =>
        have hfollows : ∃ i, message.FollowsBody [] i ∧ id = Text.indexed "hdr_" i := by
          by_contra hnone
          refine hfrozen ⟨fun selection hmem => (List.not_mem_nil hmem).elim, ?_⟩
          exact fun i hfollows hid => hnone ⟨i, hfollows, hid⟩
        obtain ⟨i, hfollows, rfl⟩ := hfollows
        obtain ⟨pieces, -, hrender⟩ := hconverted.default
        have hbody := body_slot hfollows.terminated
        obtain ⟨bytes, hsends, hlength⟩ := hconverted.laid.measures
          (candidates_none request) (replacements_none request) hrender
          (hfollows.length rfl) hslot hbody
        have hkeeps := hconverted.keeps hbody
          ⟨rfl, length_ne (by decide)⟩
        obtain rfl := hsends.unique hkeeps
        obtain ⟨header, hheader, rfl⟩ := header_slot hslot
        rw [HttpSlot.content, hstates i header hfollows.declares hfollows.terminated hheader,
          Text.encodeUtf8_decimal]
        exact hlength

theorem Converted.reproduces
    (hconverted : Converted context message (message.choiceOf [] requestName) nodes request)
    (hstates : message.StatesLength) : Eval.Returns request.render
      (message.slots.flatMap fun slot => slot.content.encodeUtf8) := by
  obtain ⟨pieces, hpieces, hrender⟩ := hconverted.default
  rwa [eq_map_of_forall₂ hpieces fun slot hslot piece hpiece =>
    hpiece.unique (hconverted.sends hstates hslot), ← List.flatMap_def] at hrender

end

/-- The conversion without selections has a definition whose default rendering is the text. -/
def Reproduces (converter : Converter) (message : HttpMessage) (options : ConvertOptions)
    (source : Text) : Prop :=
  ∃ fuel result request, toDefinition converter message [] options fuel = .done result ∧
    result.Defines converter fuel request ∧ Eval.Returns request.render source.encodeUtf8

theorem defines_unique {converter : Converter} {result : ConvertResult} {fuel : Nat}
    {request request' : CompiledRequest} (hfirst : result.Defines converter fuel request)
    (hsecond : result.Defines converter fuel request') : request = request' := by
  have hsame := hfirst.symm.trans hsecond
  rw [Eval.done.injEq] at hsame
  exact (List.cons.inj (congrArg ProtocolDefinition.requests hsame)).1

theorem encodeUtf8_bare (line rest : Text) :
    Text.encodeUtf8 (line ++ (crlf ++ rest)) ≠ Text.encodeUtf8 (line ++ (lineFeed ++ rest)) := by
  intro hequal
  have hreturn : Text.Opens (crlf ++ rest) := fun unit hunit => by cases hunit; decide
  have hfeed : Text.Opens (lineFeed ++ rest) := fun unit hunit => by cases hunit; decide
  rw [Text.encodeUtf8_append (Or.inr hreturn), Text.encodeUtf8_append (Or.inr hfeed),
    List.append_cancel_left_eq] at hequal
  have hhead := congrArg List.head? hequal
  change (Text.encodeUtf8 (13 :: 10 :: rest)).head? = (Text.encodeUtf8 (10 :: rest)).head?
    at hhead
  rw [Text.encodeUtf8_unit (by decide), Text.encodeUtf8_unit (by decide)] at hhead
  exact absurd (Option.some.inj (show some (13 : UInt8) = some 10 from hhead)) (by decide)

/-- What is rendered for a text that is converted without selections: the text itself, unless
its request line is bare. -/
theorem toDefinition_reproduces_iff {converter : Converter} {source eol last : Text}
    {front : List Text} {message : HttpMessage} {options : ConvertOptions}
    (hparse : parse source = .ok message) (huniform : Uniform source eol front last)
    (htrim : ∀ line ∈ (readLines front last).tail, Trim line)
    (hstates : message.StatesLength) (hname : validName (requestNameOf options) = true)
    (hadmits : Admits options)
    (hkept : ∀ json, message.emit [] options = .ok json →
      converter.json.parse (converter.json.stringify json) = .ok json) :
    Reproduces converter message options source ↔ ¬ BareRequest source := by
  obtain ⟨head, first, rest, hreads⟩ := parse_reads hparse
  have hbytes := (hreads.clean huniform).bytes
  have hrenders : ∀ {fuel : Nat} {result : ConvertResult},
      toDefinition converter message [] options fuel = .done result →
        ∃ request, result.Defines converter fuel request ∧
          Eval.Returns request.render (contents message.slots).encodeUtf8 := by
    intro fuel result hconvert
    obtain ⟨chosen, nodes, request, haccepted⟩ := toDefinition_accepted hkept hconvert
    have hconverted := haccepted.converted
    rw [chosen_eq haccepted.selected] at hconverted
    have hrender := hconverted.reproduces hstates
    rw [hbytes] at hrender
    exact ⟨request, haccepted.parsed, hrender⟩
  rw [← hreads.bareCrlf_iff huniform htrim]
  constructor
  · rintro ⟨fuel, result, request, hconvert, hdefines, hrender⟩ hbare
    obtain ⟨request', hdefines', hrender'⟩ := hrenders hconvert
    obtain rfl := defines_unique hdefines hdefines'
    have hequal := hrender.unique (render_mono request) hrender'
    obtain ⟨-, hsource, hcontents⟩ := hreads.contents_bare huniform htrim hbare
    rw [hsource, hcontents] at hequal
    exact encodeUtf8_bare _ _ hequal
  · intro hbare
    obtain ⟨result, fuel, hconvert⟩ :=
      toDefinition_plain hparse (slots_named message hname) hadmits hkept
    obtain ⟨request, hdefines, hrender⟩ := hrenders hconvert
    rw [hreads.contents_eq huniform htrim hbare] at hrender
    exact ⟨fuel, result, request, hconvert, hdefines, hrender⟩

theorem lengthSource_uniform : Uniform lengthSource lineFeed [Text.ofAscii "P / H"]
    (Text.ofAscii "Content-Length: 1") where
  ending := Or.inr rfl
  plain := by
    rw [List.forall_mem_singleton]
    exact ⟨by decide, by decide⟩
  whole := ⟨by decide, by decide⟩
  head := by decide
  terminator := by
    rw [show (sections lengthSource).2.1 = some (lineFeed ++ lineFeed) by decide]
    exact fun terminator hterminator => (Option.some.inj hterminator).symm

/-- The message with a body comes back as it was. -/
theorem lengthSource_reproduces :
    Reproduces lengthConverter lengthMessage localOptions lengthSource := by
  have hbare : ¬ BareRequest lengthSource := by
    rintro ⟨line, body, -, hsource⟩
    have hreturn : (13 : UInt16) ∈ lengthSource := by
      rw [hsource]
      exact List.mem_append_right _ (List.mem_append_left _ (by decide))
    exact absurd hreturn (by decide)
  refine (toDefinition_reproduces_iff lengthSource_parses lengthSource_uniform ?_ ?_ (by decide)
    ⟨⟨_, rfl⟩, by decide, by decide⟩ ?_).mpr hbare
  · rw [show (readLines [Text.ofAscii "P / H"] (Text.ofAscii "Content-Length: 1")).tail =
      [Text.ofAscii "Content-Length: 1"] from rfl, List.forall_mem_singleton]
    exact ⟨by decide, by decide⟩
  · intro i header _ _ hheader
    cases i with
    | zero =>
        cases hheader
        decide
    | succ i => cases hheader
  · exact fun json hemit => emit_kept hemit

end HttpMessage

end MoonBoofuzz
