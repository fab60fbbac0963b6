import MoonBoofuzz.Data.Utf8
import MoonBoofuzz.Http.Slots

namespace MoonBoofuzz

theorem Text.length_splitOn (text : Text) (separator : UInt16) :
    ((text.splitOn separator).map List.length).sum + (text.splitOn separator).length =
      text.length + 1 := by
  induction text with
  | nil => rfl
  | cons unit rest ih =>
      rw [List.splitOn_cons_eq_if_modifyHead]
      split
      · simp only [List.map_cons, List.sum_cons, List.length_cons, List.length_nil]
        omega
      · obtain ⟨first, others, hsplit⟩ :=
          List.exists_cons_of_ne_nil (List.splitOn_ne_nil separator rest)
        rw [hsplit] at ih ⊢
        simp only [List.modifyHead_cons, List.map_cons, List.sum_cons, List.length_cons]
          at ih ⊢
        omega

/-! How long the texts of a message are. -/

def HttpHeader.length (header : HttpHeader) : Nat :=
  header.name.length + 1 + header.gap.length + header.value.length

namespace HttpMessage

structure Held (limit : Nat) (message : HttpMessage) : Prop where
  head : message.verb.length + message.uri.length + message.version.length +
    (message.headers.map HttpHeader.length).sum ≤ limit
  headers : message.headers.length ≤ limit
  eol : message.eol.length ≤ 2
  terminator : ∀ terminator, message.terminator = some terminator → terminator.length ≤ limit
  body : message.body.length ≤ limit

theorem length_stripCr_le (line : Text) : (stripCr line).length ≤ line.length := by
  rw [stripCr]
  split
  · rw [List.length_dropLast]
    exact Nat.sub_le _ _
  · exact Nat.le_refl _

theorem length_stripTrailingOws_le (text : Text) :
    (stripTrailingOws text).length ≤ text.length :=
  (List.rdropWhile_prefix isOws text).length_le

theorem splitHeader_length {line : Text} {header : HttpHeader}
    (hsplit : splitHeader line = .ok header) : header.length ≤ line.length := by
  rw [splitHeader] at hsplit
  split at hsplit
  · cases hsplit
  · rename_i colon hcolon
    have hbelow : colon < line.length := (List.idxOf?_eq_some_iff.mp hcolon).1
    dsimp only at hsplit
    split at hsplit
    · cases hsplit
    · split at hsplit
      · cases hsplit
      · cases hsplit
        have hname := length_stripTrailingOws_le (line.take colon)
        have hvalue :=
          length_stripTrailingOws_le ((line.drop (colon + 1)).dropWhile isOws)
        have hrest : ((line.drop (colon + 1)).takeWhile isOws).length +
            ((line.drop (colon + 1)).dropWhile isOws).length =
              (line.drop (colon + 1)).length := by
          rw [← List.length_append, List.takeWhile_append_dropWhile]
        rw [List.length_take] at hname
        rw [List.length_drop] at hrest
        simp only [HttpHeader.length]
        omega

theorem splitHeaders_length {lines : List Text} {headers : List HttpHeader}
    (hsplit : splitHeaders lines = .ok headers) :
    headers.length = lines.length ∧
      (headers.map HttpHeader.length).sum ≤ (lines.map List.length).sum := by
  induction lines generalizing headers with
  | nil =>
      cases hsplit
      exact ⟨rfl, Nat.le_refl _⟩
  | cons line rest ih =>
      obtain ⟨header, hheader, hsplit⟩ := exceptBind_eq_ok_iff.mp hsplit
      obtain ⟨others, hothers, hdone⟩ := exceptBind_eq_ok_iff.mp hsplit
      cases hdone
      obtain ⟨hlength, hsum⟩ := ih hothers
      have hfirst := splitHeader_length hheader
      have hline := length_stripCr_le line
      simp only [List.length_cons, List.map_cons, List.sum_cons]
      omega

theorem requestLine_length {line verb uri version : Text}
    (hline : requestLine line = .ok (verb, uri, version)) :
    verb.length + uri.length + version.length ≤ line.length := by
  rw [requestLine] at hline
  split at hline
  · rename_i hsplit
    split at hline
    · cases hline
      have hlength := Text.length_splitOn line 32
      rw [hsplit] at hlength
      simp only [List.map_cons, List.map_nil, List.sum_cons, List.sum_nil, List.length_cons,
        List.length_nil] at hlength
      omega
    · cases hline
  · cases hline

theorem sections_length {source head body : Text} {terminator : Option Text}
    (hsections : sections source = (head, terminator, body)) :
    head.length ≤ source.length ∧ body.length ≤ source.length ∧
      ∀ text, terminator = some text → text.length ≤ source.length := by
  rw [sections] at hsections
  split at hsections
  · cases hsections
    refine ⟨List.length_take_le' _ _, (List.drop_sublist _ _).length_le, ?_⟩
    intro text htext
    cases htext
    exact ((List.take_sublist _ _).trans (List.drop_sublist _ _)).length_le
  · cases hsections
    refine ⟨Nat.le_refl _, Nat.zero_le _, ?_⟩
    intro text htext
    cases htext

theorem lines_length (head : Text) {lines : List Text}
    (hlines : lines = if decide ((head.splitOn 10).getLast? = some []) then
      (head.splitOn 10).dropLast else head.splitOn 10) :
    (lines.map List.length).sum + lines.length ≤ head.length + 1 := by
  have hall := Text.length_splitOn head 10
  have hsublist : lines.Sublist (head.splitOn 10) := by
    rw [hlines]
    split
    · exact List.dropLast_sublist _
    · exact List.Sublist.refl _
  have hlength := hsublist.length_le
  have hsum := (hsublist.map List.length).sum_le_sum fun _ _ => Nat.zero_le _
  omega

structure Reads (source head first : Text) (rest : List Text) (message : HttpMessage) :
    Prop where
  limit : source.length ≤ httpgenLimit
  parts : sections source = (head, message.terminator, message.body)
  finalEol : message.finalEol = decide ((head.splitOn 10).getLast? = some [])
  lines : (if message.finalEol then (head.splitOn 10).dropLast else head.splitOn 10) =
    first :: rest
  request : requestLine (stripCr first) = .ok (message.verb, message.uri, message.version)
  headers : splitHeaders rest = .ok message.headers
  eol : message.eol =
    Text.ofAscii (if head.contains (Text.ofAscii "\r") then "\r\n" else "\n")

theorem parse_reads {source : Text} {message : HttpMessage}
    (hparse : parse source = .ok message) :
    ∃ head first rest, Reads source head first rest message := by
  rw [parse] at hparse
  split at hparse
  · rename_i hlimit
    cases hsections : sections source with
    | mk head others =>
        obtain ⟨terminator, body⟩ := others
        rw [hsections] at hparse
        dsimp only at hparse
        generalize hlines : (if decide ((head.splitOn 10).getLast? = some []) then
          (head.splitOn 10).dropLast else head.splitOn 10) = lines at hparse
        cases lines with
        | nil => cases hparse
        | cons first rest =>
            obtain ⟨⟨verb, uri, version⟩, hline, hparse⟩ := exceptBind_eq_ok_iff.mp hparse
            obtain ⟨headers, hheaders, hdone⟩ := exceptBind_eq_ok_iff.mp hparse
            cases hdone
            exact ⟨head, first, rest, hlimit, hsections, rfl, hlines, hline, hheaders, rfl⟩
  · cases hparse

theorem parse_held {source : Text} {message : HttpMessage}
    (hparse : parse source = .ok message) : message.Held httpgenLimit := by
  obtain ⟨head, first, rest, hreads⟩ := parse_reads hparse
  have hlimit := hreads.limit
  obtain ⟨hhead, hbody, hterminator⟩ := sections_length hreads.parts
  have hwithin := lines_length head
    (show first :: rest = _ by rw [← hreads.finalEol]; exact hreads.lines.symm)
  have hfirst := requestLine_length hreads.request
  have hstripped := length_stripCr_le first
  obtain ⟨hcount, hsum⟩ := splitHeaders_length hreads.headers
  simp only [List.map_cons, List.sum_cons, List.length_cons] at hwithin
  constructor
  · omega
  · omega
  · rw [hreads.eol]
    split
    · exact Nat.le_refl _
    · exact Nat.le_succ _
  · intro text htext
    have := hterminator text htext
    omega
  · omega

def weight (slots : List HttpSlot) : Nat := (slots.map fun slot => slot.content.length).sum

theorem weight_append (front back : List HttpSlot) :
    weight (front ++ back) = weight front + weight back := by
  rw [weight, List.map_append, List.sum_append]
  rfl

theorem weight_cons (slot : HttpSlot) (rest : List HttpSlot) :
    weight (slot :: rest) = slot.content.length + weight rest := rfl

section

variable {message : HttpMessage} {limit : Nat}

theorem Held.eolSlots (hheld : message.Held limit) (i : Nat) (present : Bool) :
    weight (message.eolSlots i present) ≤ 2 := by
  cases present with
  | false => exact Nat.zero_le _
  | true => exact hheld.eol

theorem Held.headerSlots (hheld : message.Held limit) (items : List (HttpHeader × Nat)) :
    weight (items.flatMap message.headerSlots) ≤
      (items.map fun item => item.1.length).sum + 2 * items.length := by
  induction items with
  | nil => exact Nat.le_refl _
  | cons item rest ih =>
      have heol := hheld.eolSlots (item.2 + 1)
        (message.terminator.isSome || item.2 + 1 < message.headers.length || message.finalEol)
      have hcolon : (Text.ofAscii ":").length = 1 := rfl
      have hheader : item.1.length =
          item.1.name.length + 1 + item.1.gap.length + item.1.value.length := rfl
      rw [List.flatMap_cons, weight_append, HttpMessage.headerSlots, weight_append, weight_cons,
        weight_cons, List.map_cons, List.sum_cons, List.length_cons]
      simp only [HttpSlot.content, List.length_append, hcolon]
      have hnone : weight [] = 0 := rfl
      omega

theorem Held.bodySlots (hheld : message.Held limit) :
    weight message.bodySlots ≤ 2 * limit := by
  rw [HttpMessage.bodySlots]
  split
  · exact Nat.zero_le _
  · rename_i terminator hterminator
    have hwhole := hheld.terminator terminator hterminator
    have hbody := hheld.body
    have hrest : (terminatorRemainder terminator).length ≤ terminator.length := by
      rw [terminatorRemainder]
      split
      · exact (List.drop_sublist _ _).length_le
      · exact (List.drop_sublist _ _).length_le
    have hnone : weight [] = 0 := rfl
    rw [weight_cons, weight_cons, hnone]
    simp only [HttpSlot.content]
    omega

theorem Held.slots (hheld : message.Held limit) :
    weight message.slots ≤ 5 * limit + 4 := by
  have hhead := hheld.head
  have hcount := hheld.headers
  have heol := hheld.eolSlots 0
    (message.headers ≠ [] || message.terminator.isSome || message.finalEol)
  have hheaders := hheld.headerSlots message.headers.zipIdx
  have hbody := hheld.bodySlots
  have hlengths : (message.headers.zipIdx.map fun item => item.1.length) =
      message.headers.map HttpHeader.length := by
    have hfst : message.headers.zipIdx.map Prod.fst = message.headers :=
      List.zipIdx_map_fst 0 _
    conv_rhs => rw [← hfst, List.map_map]
    rfl
  have hspace : (Text.ofAscii " ").length = 1 := rfl
  have hnone : weight [] = 0 := rfl
  rw [hlengths, List.length_zipIdx] at hheaders
  rw [HttpMessage.slots]
  simp only [weight_append, weight_cons, hnone, HttpSlot.content, hspace]
  omega

end

end HttpMessage

end MoonBoofuzz
