import MoonBoofuzz.Http.Emit

namespace MoonBoofuzz

/-! The slots of a message: what each of its texts becomes. -/

/-- A text that is only structure, or a segment that may be selected. -/
inductive HttpSlot where
  | structural (name content : Text)
  | segment (id value : Text)
  deriving Repr, DecidableEq

namespace HttpSlot

def name : HttpSlot → Text
  | structural name _ => name
  | segment id _ => id

def content : HttpSlot → Text
  | structural _ content => content
  | segment _ value => value

end HttpSlot

namespace HttpMessage

def eolSlots (message : HttpMessage) (i : Nat) (present : Bool) : List HttpSlot :=
  if present then [.structural (Text.indexed "crlf" i) message.eol] else []

def headerSlots (message : HttpMessage) (item : HttpHeader × Nat) : List HttpSlot :=
  [.structural (Text.indexed "name_" item.2) (item.1.name ++ Text.ofAscii ":" ++ item.1.gap),
    .segment (Text.indexed "hdr_" item.2) item.1.value] ++
  message.eolSlots (item.2 + 1)
    (message.terminator.isSome || item.2 + 1 < message.headers.length || message.finalEol)

def bodySlots (message : HttpMessage) : List HttpSlot :=
  match message.terminator with
  | none => []
  | some terminator =>
      [.structural (Text.ofAscii "head_end") (terminatorRemainder terminator),
        .segment (Text.ofAscii "body") message.body]

def slots (message : HttpMessage) : List HttpSlot :=
  let space (name : String) := HttpSlot.structural (Text.ofAscii name) (Text.ofAscii " ")
  [.segment (Text.ofAscii "method") message.verb, space "sp1",
    .segment (Text.ofAscii "uri") message.uri, space "sp2",
    .segment (Text.ofAscii "version") message.version] ++
  message.eolSlots 0
    (message.headers ≠ [] || message.terminator.isSome || message.finalEol) ++
  message.headers.zipIdx.flatMap message.headerSlots ++ message.bodySlots

/-- What is chosen for the slots: the selections, and the header that follows the body. -/
structure Choice where
  chosen : Chosen
  auto : Option Nat
  requestName : Text

def Choice.length (choice : Choice) : Option Text := choice.auto.map (Text.indexed "hdr_")

def slotNode (choice : Choice) : HttpSlot → Except HttpGenError Json
  | .structural name content => .ok (staticNode name content)
  | .segment id value =>
      if choice.length = some id then .ok (lengthNode choice.requestName id)
      else do
        let field ← fieldNode id value (choice.chosen.lookup id)
        .ok (if choice.auto.isSome ∧ id = Text.ofAscii "body" then bodyBlock field else field)

def choiceOf (message : HttpMessage) (chosen : Chosen) (requestName : Text) : Choice :=
  ⟨chosen, message.autoLength chosen, requestName⟩

theorem indexed_inj {name : String} {i j : Nat}
    (hequal : Text.indexed name i = Text.indexed name j) : i = j :=
  Text.decimal_inj (List.append_cancel_left hequal)

theorem slotNode_plain {choice : Choice} {id value : Text} (hlength : choice.length ≠ some id)
    (hbody : id ≠ Text.ofAscii "body") :
    slotNode choice (.segment id value) = fieldNode id value (choice.chosen.lookup id) := by
  rw [slotNode, if_neg hlength]
  simp only [hbody, and_false, if_false]
  exact bind_pure (fieldNode id value (choice.chosen.lookup id))

theorem length_ne {choice : Choice} {id : Text} (hid : id.take 4 ≠ Text.ofAscii "hdr_") :
    choice.length ≠ some id := by
  intro hlength
  obtain ⟨i, -, hequal⟩ := Option.map_eq_some_iff.mp hlength
  apply hid
  rw [← hequal]
  rfl

theorem indexed_ne_body (i : Nat) : Text.indexed "hdr_" i ≠ Text.ofAscii "body" := by
  intro hequal
  have hhead : (Text.indexed "hdr_" i).head? = (Text.ofAscii "body").head? := by rw [hequal]
  exact absurd hhead (by simp [Text.indexed, Text.ofAscii])

theorem slotNode_length_iff {choice : Choice} {i : Nat} :
    choice.length = some (Text.indexed "hdr_" i) ↔ choice.auto = some i := by
  rw [Choice.length, Option.map_eq_some_iff]
  constructor
  · rintro ⟨j, hauto, hequal⟩
    rw [hauto, indexed_inj hequal]
  · intro hauto
    exact ⟨i, hauto, rfl⟩

theorem mapM_eolSlots (message : HttpMessage) (choice : Choice) (i : Nat) (present : Bool) :
    (message.eolSlots i present).mapM (slotNode choice) =
      .ok (message.eolNodes i present) := by
  cases present <;> rfl

theorem mapM_headerSlots (message : HttpMessage) (chosen : Chosen) (requestName : Text) :
    ∀ items : List (HttpHeader × Nat),
      (items.flatMap message.headerSlots).mapM (slotNode (message.choiceOf chosen requestName)) =
        headerNodes message chosen (message.autoLength chosen) requestName items := by
  intro items
  induction items with
  | nil => rfl
  | cons item rest ih =>
      obtain ⟨header, i⟩ := item
      have hvalue : slotNode (message.choiceOf chosen requestName)
          (.segment (Text.indexed "hdr_" i) header.value) =
            headerValue chosen (message.autoLength chosen) requestName (header, i) := by
        rw [headerValue]
        by_cases hauto : message.autoLength chosen = some i
        · rw [slotNode, if_pos (slotNode_length_iff.mpr hauto), if_pos hauto]
          rfl
        · rw [slotNode_plain (fun h => hauto (slotNode_length_iff.mp h)) (indexed_ne_body i),
            if_neg hauto]
          rfl
      rw [List.flatMap_cons, headerSlots, List.mapM_append, ih, headerNodes, List.mapM_append,
        mapM_eolSlots, List.mapM_cons, List.mapM_cons, hvalue]
      generalize headerValue chosen (message.autoLength chosen) requestName (header, i) = value
      generalize headerNodes message chosen (message.autoLength chosen) requestName rest = others
      cases value with
      | error error => rfl
      | ok node =>
          cases others with
          | error error => rfl
          | ok nodes => simp [slotNode, bind, Except.bind, pure, Except.pure]

theorem mapM_bodySlots (message : HttpMessage) (chosen : Chosen) (requestName : Text) :
    message.bodySlots.mapM (slotNode (message.choiceOf chosen requestName)) =
      bodyNodes message chosen (message.autoLength chosen) := by
  have hlength : (message.choiceOf chosen requestName).length ≠ some (Text.ofAscii "body") :=
    length_ne (by decide)
  rw [bodySlots, bodyNodes]
  cases message.terminator with
  | none => rfl
  | some terminator =>
      dsimp only
      rw [List.mapM_cons, List.mapM_cons, slotNode, slotNode, if_neg hlength]
      generalize hfield : fieldNode (Text.ofAscii "body") message.body
        (List.lookup (Text.ofAscii "body")
          (message.choiceOf chosen requestName).chosen) = field
      have hbody : fieldNode (Text.ofAscii "body") message.body
          (List.lookup (Text.ofAscii "body") chosen) = field := hfield
      rw [hbody]
      cases field with
      | error error => rfl
      | ok node =>
          simp only [bind, Except.bind, List.mapM_nil, pure, Except.pure, and_true]
          rfl

theorem children_eq (message : HttpMessage) (chosen : Chosen) (requestName : Text) :
    message.children chosen requestName =
      message.slots.mapM (slotNode (message.choiceOf chosen requestName)) := by
  have htoken : ∀ (id value : Text), id.take 4 ≠ Text.ofAscii "hdr_" →
      id ≠ Text.ofAscii "body" →
      slotNode (message.choiceOf chosen requestName) (.segment id value) =
        fieldNode id value (chosen.lookup id) :=
    fun id value hid hbody => slotNode_plain (length_ne hid) hbody
  rw [slots, List.mapM_append, List.mapM_append, List.mapM_append, mapM_headerSlots,
    mapM_bodySlots, mapM_eolSlots]
  simp only [List.mapM_cons, List.mapM_nil, htoken (Text.ofAscii "method") message.verb
    (by decide) (by decide), htoken (Text.ofAscii "uri") message.uri (by decide) (by decide),
    htoken (Text.ofAscii "version") message.version (by decide) (by decide)]
  simp only [children, slotNode]
  generalize fieldNode (Text.ofAscii "method") message.verb
    (List.lookup (Text.ofAscii "method") chosen) = method
  generalize fieldNode (Text.ofAscii "uri") message.uri
    (List.lookup (Text.ofAscii "uri") chosen) = uri
  generalize fieldNode (Text.ofAscii "version") message.version
    (List.lookup (Text.ofAscii "version") chosen) = version
  generalize headerNodes message chosen (message.autoLength chosen) requestName
    message.headers.zipIdx = headers
  generalize bodyNodes message chosen (message.autoLength chosen) = body
  cases method with
  | error error => rfl
  | ok method =>
      cases uri with
      | error error => rfl
      | ok uri =>
          cases version with
          | error error => rfl
          | ok version =>
              cases headers with
              | error error => rfl
              | ok headers =>
                  cases body with
                  | error error => rfl
                  | ok body => rfl

end HttpMessage

end MoonBoofuzz
