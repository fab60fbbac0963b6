import MoonBoofuzz.Definition.Decimal
import MoonBoofuzz.Definition.Placed
import MoonBoofuzz.Model.Listing
import MoonBoofuzz.Mutation.Singles

namespace MoonBoofuzz

namespace ProtocolDefinition

open CompiledRequest (candidatesIn groupedRequest)

variable {κ σ : Type}

/-! The position that belongs to an identity. -/

def parseCaseIndex (text : Text) : Except DefinitionError Int32 :=
  match decimalU64 text with
  | .error error => .error error
  | .ok value =>
      if value.toNat ≤ 2147483647 then .ok (Int32.ofNat value.toNat)
      else .error (.invalid (Text.ofAscii "case index too large"))

/-- The loop that goes back to the last colon; it ends at the first unit at the latest. -/
def lastColon (body : Text) : Nat → Nat
  | 0 => 0
  | cut + 1 => if body[cut + 1]? = some Text.colon then cut + 1 else lastColon body cut

def lists (request : CompiledRequest) (field : Text) : Bool :=
  request.entries.any fun entry => decide (entry.path = field)

def positionRange : GenerateError :=
  .definition
    (.invalid (Text.ofAscii "request case count exceeds the 32-bit position range"))

def seekField (field : Text) (index : Int32) :
    List CompiledRequest → Int32 → Except GenerateError Int32
  | [], _ => .error (.definition (.invalid (Text.ofAscii "unknown case field path: " ++ field)))
  | request :: rest, offset =>
      if lists request field then
        match request.rawPrefixBefore field with
        | .error error => .error (.model error)
        | .ok before =>
            if before < 0 then
              .error (.definition
                (.invalid (Text.ofAscii "case field path has no resumable cases: " ++ field)))
            else if wrap64 (before + index.toInt) ≤ 2147483647 then
              .ok (offset + Int32.ofInt (wrap64 (before + index.toInt)))
            else .error positionRange
      else if request.rawMutationCount ≤ 2147483647 then
        seekField field index rest (offset + Int32.ofInt request.rawMutationCount)
      else .error positionRange

/-- `position_of_id`. -/
def positionOfId (definition : ProtocolDefinition κ) (id : Text) : Except GenerateError Int32 :=
  if id.hasPrefix (Text.ofAscii "v1:") then
    let body := id.drop 3
    if ¬ body.contains Text.colon then
      .error (.definition (.invalid (Text.ofAscii "case id missing field index")))
    else if body.contains Text.plus then
      .error (.definition (.invalid (Text.ofAscii
        "group product case ids cannot be resumed by id; use --start with the case ordinal")))
    else
      let cut := lastColon body (body.length - 1)
      match parseCaseIndex (body.drop (cut + 1)) with
      | .error error => .error (.definition error)
      | .ok index => seekField (body.take cut) index definition.requests 0
  else .error (.definition (.invalid (Text.ofAscii "case id must start with v1:")))

theorem parseCaseIndex_decimal {index : Nat} (hindex : index ≤ 2147483647) :
    parseCaseIndex (Text.decimal index) = .ok (Int32.ofNat index) := by
  have hvalue : (UInt64.ofNat index).toNat = index := by
    rw [UInt64.toNat_ofNat', Nat.mod_eq_of_lt (by omega)]
  have hread : decimalU64 (Text.decimal index) = .ok (UInt64.ofNat index) := by
    rw [decimalU64_eq_ok, Text.readNatural_decimal, hvalue]
  rw [parseCaseIndex, hread]
  simp only [hvalue]
  exact if_pos hindex

theorem lastColon_append {field digits : Text} (hdigits : Text.colon ∉ digits) :
    ∀ {cut : Nat}, field.length ≤ cut →
      lastColon (field ++ Text.colon :: digits) cut = field.length := by
  intro cut
  induction cut with
  | zero =>
      intro hle
      rw [lastColon, Nat.le_zero.mp hle]
  | succ cut ih =>
      intro hle
      rw [lastColon]
      by_cases hhere : field.length = cut + 1
      · rw [← hhere, List.getElem?_append_right (le_refl _), Nat.sub_self, List.getElem?_cons_zero,
          if_pos rfl]
      · have hbehind : (field ++ Text.colon :: digits)[cut + 1]? ≠ some Text.colon := by
          obtain ⟨rest, hrest⟩ : ∃ rest, cut + 1 - field.length = rest + 1 :=
            ⟨cut - field.length, by omega⟩
          rw [List.getElem?_append_right hle, hrest, List.getElem?_cons_succ]
          exact fun hcolon => hdigits (List.mem_of_getElem? hcolon)
        rw [if_neg hbehind]
        exact ih (by omega)

theorem positionOfId_single {definition : ProtocolDefinition κ} {field : Text} {index : Nat}
    (hfield : Text.plus ∉ field) (hindex : index ≤ 2147483647) :
    definition.positionOfId
        (Text.ofAscii "v1:" ++ (field ++ Text.colon :: Text.decimal index)) =
      seekField field (Int32.ofNat index) definition.requests 0 := by
  have hprefix : (Text.ofAscii "v1:" ++ (field ++ Text.colon :: Text.decimal index)).hasPrefix
      (Text.ofAscii "v1:") = true := Text.hasPrefix_iff.mpr (List.prefix_append _ _)
  have hbody : (Text.ofAscii "v1:" ++ (field ++ Text.colon :: Text.decimal index)).drop 3 =
      field ++ Text.colon :: Text.decimal index := rfl
  have hplus : Text.plus ∉ field ++ Text.colon :: Text.decimal index := by
    rw [List.mem_append, List.mem_cons, not_or, not_or]
    exact ⟨hfield, by decide, Text.notMem_decimal (Or.inl (by decide)) _⟩
  have hcut := @lastColon_append field (Text.decimal index)
    (Text.notMem_decimal (Or.inr (by decide)) _)
    ((field ++ Text.colon :: Text.decimal index).length - 1)
    (by rw [List.length_append, List.length_cons]; omega)
  rw [positionOfId, if_pos hprefix]
  simp only [hbody]
  rw [if_neg (by simp), if_neg (by simpa using hplus)]
  simp only [hcut, List.take_left]
  have hdigits : (field ++ Text.colon :: Text.decimal index).drop (field.length + 1) =
      Text.decimal index := by
    rw [← List.drop_drop, List.drop_left]
    rfl
  rw [hdigits, parseCaseIndex_decimal hindex]

theorem lists_iff {request : CompiledRequest} (htable : CompiledRequest.Table request)
    {field : Text} : lists request field = true ↔ ∃ index, request.resolve field = .ok index := by
  simp only [lists, List.any_eq_true, decide_eq_true_eq, htable.resolve]
  constructor
  · rintro ⟨entry, hmem, hpath⟩
    obtain ⟨index, hindex⟩ := List.mem_iff_getElem?.mp hmem
    obtain ⟨hentry, hlt⟩ := CompiledRequest.entry_eq_of_getElem? hindex
    exact ⟨index, hlt, by rw [hentry, hpath]⟩
  · rintro ⟨index, hlt, hpath⟩
    exact ⟨request.entries[index], List.getElem_mem hlt, by
      rw [← hpath, (CompiledRequest.entry_eq_of_getElem? (List.getElem?_eq_getElem hlt)).1]⟩

def beforeDot (path : Text) : Text := path.takeWhile fun unit => decide (unit ≠ Text.dot)

theorem beforeDot_append {name rest : Text} (hname : Text.dot ∉ name)
    (hrest : beforeDot rest = []) : beforeDot (name ++ rest) = name := by
  have hfree : ∀ unit ∈ name, decide (unit ≠ Text.dot) = true := by
    intro unit hmem
    rw [decide_eq_true_eq]
    rintro rfl
    exact hname hmem
  rw [beforeDot, List.takeWhile_append_of_pos hfree]
  exact (congrArg (name ++ ·) hrest).trans (List.append_nil name)

theorem beforeDot_extend {rest : Text} (hrest : beforeDot rest = []) (name : Text) :
    beforeDot (rest ++ Text.dot :: name) = [] := by
  cases rest with
  | nil => simp [beforeDot]
  | cons unit rest =>
      rw [beforeDot, List.takeWhile_cons] at hrest
      rw [List.cons_append, beforeDot, List.takeWhile_cons]
      split at hrest
      · cases hrest
      · rename_i hdot
        rw [if_neg hdot]

theorem path_root {request : CompiledRequest} (htable : CompiledRequest.Table request)
    (index : Nat) (hindex : index < request.entries.length) :
    ∃ rest, (request.entry index).path = (request.entry 0).path ++ rest ∧
      beforeDot rest = [] := by
  have hinside := htable.inside_root index hindex
  induction hinside using Relation.ReflTransGen.head_induction_on with
  | refl => exact ⟨[], (List.append_nil _).symm, rfl⟩
  | @head index owner hparent howner ih =>
      obtain ⟨rest, hpath, hrest⟩ := ih (htable.owner_lt hparent)
      obtain ⟨name, -, hchild⟩ := (htable.childOf hparent).path
      exact ⟨rest ++ Text.dot :: name, by rw [hchild, hpath, List.append_assoc],
        beforeDot_extend hrest name⟩

theorem beforeDot_path {request : CompiledRequest} (hcompiles : request.Compiles) {index : Nat}
    (hindex : index < request.entries.length) :
    beforeDot (request.entry index).path = request.name := by
  obtain ⟨root, maxBytes, fuel, hdone⟩ := hcompiles
  have hassembled := (CompiledRequest.compile_eq_done hdone).assembled
  have htable := hassembled.table
  obtain ⟨rest, hpath, hrest⟩ := path_root htable index hindex
  have hroot : (request.entry 0).path = request.name := by
    have hentries := hassembled.preordered.entries
    obtain ⟨name, children, condition, alignment, group⟩ := root
    rw [Node.preorder, List.forall₂_cons_right_iff] at hentries
    obtain ⟨first, others, hrecorded, -, hsame⟩ := hentries
    have hfirst : request.entry 0 = first := by
      rw [CompiledRequest.entry, hsame]
      rfl
    rw [hfirst, hrecorded.path, hassembled.name]
    rfl
  have hname : Text.dot ∉ (request.entry 0).path := (of_decide_eq_true htable.rootName).2.1
  rw [hpath, beforeDot_append hname hrest, hroot]

theorem listing_unique {requests : List CompiledRequest}
    (hcompiles : ∀ request ∈ requests, request.Compiles)
    (hnames : (requests.map (·.name)).Nodup) {first second : CompiledRequest}
    (hfirst : first ∈ requests) (hsecond : second ∈ requests) {field : Text}
    (hlists : lists first field = true) (hlists' : lists second field = true) :
    first = second := by
  have hname : ∀ {request}, request ∈ requests → lists request field = true →
      beforeDot field = request.name := by
    intro request hmem hlisted
    obtain ⟨root, maxBytes, fuel, hdone⟩ := hcompiles request hmem
    have htable := (CompiledRequest.compile_eq_done hdone).assembled.table
    obtain ⟨index, hresolve⟩ := (lists_iff htable).mp hlisted
    obtain ⟨hlt, rfl⟩ := (htable.resolve _ _).mp hresolve
    exact beforeDot_path ⟨root, maxBytes, fuel, hdone⟩ hlt
  exact List.inj_on_of_nodup_map hnames hfirst hsecond
    ((hname hfirst hlists).symm.trans (hname hsecond hlists'))

theorem toInt_offset_add {offset : Int32} {count : Int} (hcount : 0 ≤ count)
    (hoffset : 0 ≤ offset.toInt) (hsmall : offset.toInt + count < 2147483648) :
    (offset + Int32.ofInt count).toInt = offset.toInt + count := by
  rw [toInt_add_ofInt (wrap32_eq_self (by omega) (by omega)).symm, wrap32_eq_self] <;> omega

theorem seekField_found {field : Text} {index before : Nat} {request : CompiledRequest}
    (hlists : lists request field = true)
    (hbefore : request.rawPrefixBefore field = .ok (before : Int))
    (later : List CompiledRequest) :
    ∀ {earlier : List CompiledRequest} {offset : Int32},
      (∀ other ∈ earlier, lists other field = false) → 0 ≤ offset.toInt →
      offset.toInt + candidatesIn earlier + before + index < 2147483648 →
      ∃ position, seekField field (Int32.ofNat index) (earlier ++ request :: later) offset =
          .ok position ∧
        position.toInt = offset.toInt + candidatesIn earlier + before + index := by
  intro earlier
  induction earlier with
  | nil =>
      intro offset _ hoffset hsmall
      have hindex : (Int32.ofNat index).toInt = index := by
        rw [Int32.toInt_ofNat_of_lt (by omega)]
      have hsum : wrap64 ((before : Int) + index) = before + index := by
        rw [wrap64_eq_self] <;> omega
      rw [candidatesIn, Nat.cast_zero, add_zero] at hsmall
      rw [List.nil_append, seekField, if_pos hlists, hbefore]
      simp only [hindex, hsum]
      rw [if_neg (by omega), if_pos (by omega)]
      refine ⟨_, rfl, ?_⟩
      rw [toInt_offset_add (by omega) hoffset (by omega), candidatesIn, Nat.cast_zero]
      omega
  | cons other earlier ih =>
      intro offset hfree hoffset hsmall
      obtain ⟨hother, hrest⟩ := List.forall_mem_cons.mp hfree
      rw [candidatesIn] at hsmall ⊢
      have hcount := CompiledRequest.rawMutationCount_candidates
        (show (other.candidates .sequential).length < 9223372036854775808 by omega)
      have hmoved := @toInt_offset_add offset (other.candidates .sequential).length (by omega)
        hoffset (by omega)
      rw [List.cons_append, seekField, hother, if_neg Bool.false_ne_true, hcount,
        if_pos (by omega)]
      obtain ⟨position, hfound, hposition⟩ :=
        @ih (offset + Int32.ofInt (other.candidates .sequential).length) hrest (by omega)
          (by omega)
      exact ⟨position, hfound, by omega⟩

theorem parts_single {request : CompiledRequest} {parts : Parts} (hne : parts ≠ [])
    (hplus : Text.plus ∉ request.caseId parts) : ∃ entry index, parts = [(entry, index)] := by
  match parts, hne, hplus with
  | [part], _, _ => exact ⟨part.1, part.2, rfl⟩
  | first :: second :: rest, _, hplus =>
      refine absurd ?_ hplus
      rw [CompiledRequest.caseId, List.map_cons, List.map_cons, Text.join]
      · simp
      · simp

theorem caseId_single (request : CompiledRequest) (entry index : Nat) :
    request.caseId [(entry, index)] =
      Text.ofAscii "v1:" ++ ((request.entry entry).path ++ Text.colon :: Text.decimal index) := by
  rw [CompiledRequest.caseId, List.map_singleton, Text.join, CompiledRequest.partKey,
    List.append_assoc, List.singleton_append]

theorem candidates_ne_nil {request : CompiledRequest} {parts : Parts}
    (hmem : parts ∈ request.candidates .sequential) : parts ≠ [] := by
  have hdenote := (request.candidates_drains .sequential).unique request.sequentialCursor_drains
  rw [hdenote] at hmem
  exact CompiledRequest.denote_ne_nil request.seq parts hmem

/-- What an identity of one part says: the request, and the position of the case among its
candidates. -/
structure Names (definition : ProtocolDefinition κ) (id : Text) (request : CompiledRequest)
    (entry index before : Nat) : Prop where
  declared : request ∈ definition.requests
  id : id = request.caseId [(entry, index)]
  lists : lists request (request.entry entry).path = true
  plain : Text.plus ∉ (request.entry entry).path
  prior : request.rawPrefixBefore (request.entry entry).path = .ok (before : Int)
  candidate : (request.candidates .sequential)[before + index]? = some [(entry, index)]

section

variable {definition : ProtocolDefinition κ}

theorem Sits.naming {base : Nat} {front : List (SessionPath κ)} {path : SessionPath κ}
    {position : Nat} {parts : Parts} {item : GeneratedCase} (hparsed : Parsed definition)
    (hsmall : candidatesIn definition.requests < 2147483647)
    (hpath : path ∈ definition.paths) (hsits : Sits base front path position parts item)
    (hsingle : Text.plus ∉ item.case.id) :
    ∃ entry index before, Names definition item.case.id path.target entry index before ∧
      position = before + index := by
  have hdeclared := (hparsed.requests path hpath).2 _ (target_mem (hparsed.requests path hpath).1)
  obtain ⟨root, maxBytes, fuel, hdone⟩ := hparsed.compiled _ hdeclared
  have htable := (CompiledRequest.compile_eq_done hdone).assembled.table
  have hmem := List.mem_of_getElem? hsits.candidate
  obtain ⟨entry, index, rfl⟩ := parts_single (candidates_ne_nil hmem) (hsits.id ▸ hsingle)
  have hentry : entry < path.target.entries.length := by
    have hdenote := (path.target.candidates_drains .sequential).unique
      path.target.sequentialCursor_drains
    rw [hdenote] at hmem
    have hcount : index < (path.target.kind entry).count :=
      CompiledRequest.single_count path.target.seq hmem
    by_contra hlarge
    rw [CompiledRequest.kind, CompiledRequest.entry_of_le (Nat.not_lt.mp hlarge)] at hcount
    exact absurd hcount (Nat.not_lt_zero index)
  have hresolve := htable.resolve_self hentry
  have hfew := CompiledRequest.length_le_candidatesIn hdeclared
  obtain ⟨before, hbefore, rfl⟩ := CompiledRequest.rawPrefixBefore_single ⟨fuel, hdone⟩ hresolve
    (by omega) hsits.candidate
  exact ⟨entry, index, before, {
    declared := hdeclared
    id := hsits.id
    lists := (lists_iff htable).mpr ⟨entry, hresolve⟩
    plain := htable.plus_notMem entry hentry
    prior := hbefore
    candidate := hsits.candidate }, rfl⟩

/-- An identity names one candidate of one request. -/
theorem Names.unique {id : Text} {request request' : CompiledRequest}
    {entry entry' index index' before before' : Nat} (hparsed : Parsed definition)
    (hnames : (definition.requests.map (·.name)).Nodup)
    (hfirst : Names definition id request entry index before)
    (hsecond : Names definition id request' entry' index' before') :
    request = request' ∧ before + index = before' + index' := by
  have hequal := hfirst.id.symm.trans hsecond.id
  rw [caseId_single, caseId_single] at hequal
  have hfree : ∀ value, Text.colon ∉ Text.decimal value :=
    Text.notMem_decimal (Or.inr (by decide))
  obtain ⟨hpath, hdecimal⟩ :=
    Text.append_separator_inj (hfree _) (hfree _) (List.append_cancel_left hequal)
  obtain rfl := Text.decimal_inj hdecimal
  have hlists := hsecond.lists
  rw [← hpath] at hlists
  obtain rfl := listing_unique hparsed.compiled hnames hfirst.declared hsecond.declared
    hfirst.lists hlists
  have hsame := hfirst.prior
  rw [hpath, hsecond.prior] at hsame
  have hbefore : (before' : Int) = before := Except.ok.inj hsame
  exact ⟨rfl, by omega⟩

theorem Names.position {id : Text} {request : CompiledRequest} {entry index before : Nat}
    (hparsed : Parsed definition) (hdistinct : (definition.requests.map (·.name)).Nodup)
    (hsmall : candidatesIn definition.requests < 2147483647)
    (hnames : Names definition id request entry index before)
    {earlier later : List CompiledRequest}
    (hrequests : definition.requests = earlier ++ request :: later) :
    ∃ position, definition.positionOfId id = .ok position ∧
      position.toInt = (candidatesIn earlier + (before + index) : Nat) := by
  have hlt := (List.getElem?_eq_some_iff.mp hnames.candidate).1
  have hsum : candidatesIn earlier + (request.candidates .sequential).length < 2147483647 := by
    rw [hrequests, CompiledRequest.candidatesIn_append, candidatesIn] at hsmall
    omega
  have hfree : ∀ other ∈ earlier,
      ProtocolDefinition.lists other (request.entry entry).path = false := by
    intro other hother
    by_contra hlisted
    have hmem : other ∈ definition.requests := hrequests ▸ List.mem_append_left _ hother
    obtain rfl := listing_unique hparsed.compiled hdistinct hmem hnames.declared
      (Bool.eq_true_of_not_eq_false hlisted) hnames.lists
    rw [hrequests, List.map_append, List.nodup_append] at hdistinct
    exact hdistinct.2.2 _ (List.mem_map.mpr ⟨other, hother, rfl⟩) _
      (List.mem_map.mpr ⟨other, List.mem_cons_self, rfl⟩) rfl
  obtain ⟨position, hfound, hposition⟩ := @seekField_found _ index _ _ hnames.lists hnames.prior
    later earlier 0 hfree (le_refl 0) (by rw [Int32.toInt_zero]; omega)
  rw [Int32.toInt_zero] at hposition
  refine ⟨position, ?_, by omega⟩
  rw [hnames.id, caseId_single, positionOfId_single hnames.plain (by omega), hrequests, hfound]

end

/-- Resuming by an identity of one part leads to a position at which a case with that identity is
emitted, exactly when some path to its request has as many candidates before it as the requests
declared before that one. -/
theorem positionOfId_finds_iff {description : Description} {definition : ProtocolDefinition κ}
    (hparse : Eval.Returns (assemble description) definition)
    (hsmall : candidatesIn definition.requests < 2147483647)
    (emit : σ → GeneratedCase → Except GenerateError Bool × σ) (start limit : Int32)
    (fuel : Nat) (state : σ) {item : GeneratedCase}
    (hitem : item ∈ (definition.generate (logging emit) start limit .sequential fuel
      (state, [])).2.2)
    (hsingle : Text.plus ∉ item.case.id) :
    ∃ earlier request later position,
      definition.requests = earlier ++ request :: later ∧
      item.case.requestName = request.name ∧
      definition.positionOfId item.case.id = .ok position ∧
      ((∃ found, definition.EmitsFirst position found ∧ found.case.id = item.case.id ∧
          found.case.ordinal = position.toInt) ↔
        ∃ front path back, definition.paths = front ++ path :: back ∧ path.target = request ∧
          candidatesIn (front.map (·.target)) = candidatesIn earlier) := by
  have hparsed := assemble_parsed hparse
  have hdistinct := (assemble_counts hparse).1
  have hpaths := candidatesIn_paths_lt hparse hsmall
  obtain ⟨front₀, path₀, back₀, position₀, parts, hsplit, hsits⟩ :=
    (generate_places hpaths hitem).sits (by omega)
  have hmem₀ : path₀ ∈ definition.paths := by rw [hsplit]; simp
  obtain ⟨entry, index, before, hnames, rfl⟩ := hsits.naming hparsed hsmall hmem₀ hsingle
  obtain ⟨earlier, later, hrequests⟩ := List.append_of_mem hnames.declared
  obtain ⟨position, hfound, hposition⟩ := hnames.position hparsed hdistinct hsmall hrequests
  refine ⟨earlier, path₀.target, later, position, hrequests, hsits.request, hfound, ?_, ?_⟩
  · rintro ⟨found, hfirst, hid, hordinal⟩
    have hplaced : Placed 0 definition.paths found :=
      ((emitsFirst_iff (by omega)).mp hfirst).placed rfl (by omega)
    obtain ⟨front, path, back, other, parts', hsplit', hsits'⟩ := hplaced.sits (by omega)
    have hmem : path ∈ definition.paths := by rw [hsplit']; simp
    obtain ⟨entry', index', before', hnames', rfl⟩ :=
      hsits'.naming hparsed hsmall hmem (hid ▸ hsingle)
    rw [hid] at hnames'
    obtain ⟨htarget, hsame⟩ := hnames'.unique hparsed hdistinct hnames
    have hplace := hsits'.ordinal
    exact ⟨front, path, back, hsplit', htarget, by omega⟩
  · rintro ⟨front, path, back, hsplit', htarget, hsame⟩
    obtain rfl : parts = [(entry, index)] :=
      Option.some.inj (hsits.candidate.symm.trans hnames.candidate)
    obtain ⟨case, hbuild⟩ := hsits.built
    have hcandidate := hnames.candidate
    rw [← htarget] at hbuild hcandidate
    have hmem : path ∈ definition.paths := by rw [hsplit']; simp
    have hroom := CompiledRequest.length_le_candidatesIn (htarget ▸ hnames.declared)
    have hlt := (List.getElem?_eq_some_iff.mp hcandidate).1
    obtain ⟨prefixes, hprefixes⟩ := SessionPath.prefixes_returns fun request hrequest =>
      hparsed.compiled request ((hparsed.requests path hmem).2 request hrequest)
    obtain ⟨enough, hdone⟩ := hprefixes
    have hordinal : case.ordinal = (before + index : Nat) := by
      obtain ⟨steps, hsteps⟩ := hbuild
      exact CaseStream.buildCase_ordinal hsteps
    have hplace : candidatesIn (front.map (·.target)) + (before + index) < 2147483647 := by
      rw [hrequests, CompiledRequest.candidatesIn_append, candidatesIn, ← htarget] at hsmall
      omega
    have hhere := generatedCase_of_done hdone hordinal
      (show candidatesIn (front.map (·.target)) + (before + index) ≤ 2147483647 by omega)
    have hid : case.id = item.case.id := by
      rw [hnames.id, ← htarget]
      exact CaseStream.buildCase_id hbuild
    have hfirst := (@found_at κ front back path _ position _ _ (by omega) hcandidate hbuild
      (by omega)).2 ⟨enough, hhere⟩
    refine ⟨_, (emitsFirst_iff (by omega)).mpr (hsplit' ▸ hfirst), hid, ?_⟩
    rw [SessionPath.delivered, MutationCase.shift]
    simp only [hordinal]
    omega

def innerItem : GeneratedCase where
  caseId := Json.stringify [Text.ofAscii "r"] ++ Text.ofAscii "/v1:r.a.x:0"
  path := [Text.ofAscii "r"]
  prefixes := []
  case := {
    id := Text.ofAscii "v1:r.a.x:0"
    requestName := Text.ofAscii "r"
    fieldPath := Text.ofAscii "r.a.x"
    mutationIndex := 0
    ordinal := 1
    payload := [0x30, 0x31]
    extra := [] }

theorem groupedRequest_candidates : candidatesIn groupedDefinition.requests < 2147483647 := by
  have hdenote := (groupedRequest.candidates_drains .sequential).unique
    groupedRequest.sequentialCursor_drains
  have hlength : (CompiledRequest.denote groupedRequest groupedRequest.seq).length = 3 := by
    decide +kernel
  change candidatesIn [groupedRequest] < 2147483647
  rw [candidatesIn, candidatesIn, hdenote, hlength]
  decide

theorem positionOfId_finds_inner :
    ∃ position found, groupedDefinition.positionOfId (Text.ofAscii "v1:r.a.x:0") = .ok position ∧
      groupedDefinition.EmitsFirst position found ∧
      found.case.id = Text.ofAscii "v1:r.a.x:0" := by
  have hassembles : Eval.Returns (assemble groupedDescription) groupedDefinition := ⟨8, rfl⟩
  have hitem : innerItem ∈ (groupedDefinition.generate
      (logging fun state _ => (.ok true, state)) 1 1 .sequential 60 ((), [])).2.2 := by
    decide +kernel
  obtain ⟨earlier, request, later, position, hrequests, -, hfound, hfinds⟩ :=
    positionOfId_finds_iff hassembles groupedRequest_candidates _ 1 1 60 () hitem (by decide)
  have hsingle : earlier = [] ∧ request = groupedRequest := by
    cases earlier with
    | nil => exact ⟨rfl, (List.cons.inj hrequests).1.symm⟩
    | cons first rest => exact absurd (congrArg List.length hrequests) (by simp [groupedDefinition])
  obtain ⟨rfl, rfl⟩ := hsingle
  obtain ⟨found, hfirst, hid, -⟩ :=
    hfinds.mpr ⟨[], ⟨[groupedRequest], [none]⟩, [], rfl, rfl, rfl⟩
  exact ⟨position, found, hfound, hfirst, hid⟩

/-- Two requests whose edge runs against the order of their declaration. -/
def reversedDescription : Description where
  roots := [oversizedRoot (Text.ofAscii "a") [0x31], oversizedRoot (Text.ofAscii "b") [0x31]]
  maxBytes := 2
  edges := [(Text.ofAscii "b", Text.ofAscii "a")]
  targets := none
  maxPaths := 10000

def reversedFirst : CompiledRequest :=
  oversizedRequest (Text.ofAscii "a") (Text.ofAscii "a.x") [0x31]

def reversedDefinition : ProtocolDefinition Unit where
  requests := [reversedFirst, secondRequest]
  paths := [⟨[secondRequest], [none]⟩, ⟨[secondRequest, reversedFirst], [none, none]⟩]

example : Eval.Returns (assemble reversedDescription) reversedDefinition ∧
    reversedDefinition.positionOfId (Text.ofAscii "v1:a.x:0") = .ok 0 ∧
    (reversedDefinition.generate collect 0 2147483647 .sequential 30 []).2.map
      (fun item => (item.case.id, item.case.ordinal)) =
        [(Text.ofAscii "v1:b.x:0", 0), (Text.ofAscii "v1:a.x:0", 1)] :=
  ⟨⟨8, rfl⟩, by decide +kernel, by decide +kernel⟩

end ProtocolDefinition

end MoonBoofuzz
