import MoonBoofuzz.Http.Rendered

namespace MoonBoofuzz

/-- The selection as it is stored: empty candidates are dropped. -/
def FieldSelection.kept (selection : FieldSelection) : FieldSelection :=
  { selection with candidates := selection.candidates.filter fun candidate => candidate ≠ [] }

namespace HttpMessage

/-! What the loop over the selections leaves. -/

section

variable {message : HttpMessage} {selections : List FieldSelection} {chosen chosen' : Chosen}

theorem choose_fold (hchosen : selections.foldlM message.choose chosen = .ok chosen') :
    chosen' = chosen ++ selections.map fun selection => (selection.id, selection.kept) := by
  induction selections generalizing chosen with
  | nil =>
      cases hchosen
      rw [List.map_nil, List.append_nil]
  | cons selection rest ih =>
      rw [List.foldlM_cons] at hchosen
      obtain ⟨next, hnext, hrest⟩ := exceptBind_eq_ok_iff.mp hchosen
      rw [choose] at hnext
      split at hnext
      · split at hnext
        · cases hnext
        · cases hnext
          rw [ih hrest, List.append_assoc]
          rfl
      · cases hnext

theorem chosen_eq (hchosen : selections.foldlM message.choose [] = .ok chosen) :
    chosen = selections.map fun selection => (selection.id, selection.kept) :=
  choose_fold hchosen

theorem lookup_none_iff (hchosen : selections.foldlM message.choose [] = .ok chosen)
    {id : Text} :
    chosen.lookup id = none ↔ ∀ selection ∈ selections, selection.id ≠ id := by
  rw [chosen_eq hchosen, List.lookup_eq_none_iff]
  simp only [List.forall_mem_map, bne_iff_ne, ne_eq]
  exact forall₂_congr fun selection _ => not_congr eq_comm

theorem lookup_some (hchosen : selections.foldlM message.choose [] = .ok chosen) {id : Text}
    {kept : FieldSelection} (hlookup : chosen.lookup id = some kept) :
    ∃ selection ∈ selections, selection.id = id ∧ selection.kept = kept := by
  rw [chosen_eq hchosen] at hlookup
  obtain ⟨before, after, hsplit, -⟩ := List.lookup_eq_some_iff.mp hlookup
  have hmem : (id, kept) ∈
      selections.map fun selection => (selection.id, selection.kept) := by
    rw [hsplit]
    exact List.mem_append_right _ List.mem_cons_self
  obtain ⟨selection, hselection, hequal⟩ := List.mem_map.mp hmem
  cases hequal
  exact ⟨selection, hselection, rfl, rfl⟩

end

/-- The message declares its length once, in this header. -/
structure DeclaresLength (message : HttpMessage) (i : Nat) : Prop where
  declared : ∃ header, message.headers[i]? = some header ∧ isContentLength header = true
  once : ∀ j header, message.headers[j]? = some header → isContentLength header = true → j = i

theorem declarations_iff {message : HttpMessage} {i : Nat} :
    (∃ header, (message.headers.zipIdx.filter fun item => isContentLength item.1) =
        [(header, i)]) ↔ message.DeclaresLength i := by
  have hitem : ∀ header j, (header, j) ∈
      (message.headers.zipIdx.filter fun item => isContentLength item.1) ↔
        message.headers[j]? = some header ∧ isContentLength header = true := by
    intro header j
    rw [List.mem_filter, List.mem_zipIdx_iff_getElem?]
  constructor
  · rintro ⟨header, hfilter⟩
    rw [hfilter] at hitem
    refine ⟨⟨header, (hitem header i).mp (List.mem_singleton.mpr rfl)⟩, ?_⟩
    intro j other hother hlength
    have hmem := (hitem other j).mpr ⟨hother, hlength⟩
    cases List.mem_singleton.mp hmem
    rfl
  · rintro ⟨⟨header, hheader, hlength⟩, honce⟩
    have hnodup : (message.headers.zipIdx.filter fun item => isContentLength item.1).Nodup := by
      apply List.Nodup.filter
      apply List.Nodup.of_map Prod.snd
      rw [List.zipIdx_map_snd]
      exact List.nodup_range'
    refine ⟨header, ?_⟩
    by_contra hmore
    rcases (hnodup.ne_singleton_iff (header, i)).mp hmore with hnone | ⟨⟨other, j⟩, hmem, hne⟩
    · have hmem := (hitem header i).mpr ⟨hheader, hlength⟩
      rw [hnone] at hmem
      cases hmem
    · obtain ⟨hother, hlength'⟩ := (hitem other j).mp hmem
      obtain rfl := honce j other hother hlength'
      rw [hheader] at hother
      cases hother
      exact hne rfl

theorem autoLength_iff {message : HttpMessage} {chosen : Chosen} {i : Nat} :
    message.autoLength chosen = some i ↔ message.DeclaresLength i ∧
      message.terminator.isSome ∧ chosen.lookup (Text.indexed "hdr_" i) = none := by
  rw [← declarations_iff, autoLength]
  constructor
  · intro hauto
    split at hauto
    · rename_i header j hfilter
      split at hauto
      · rename_i hfollows
        cases hauto
        exact ⟨⟨header, hfilter⟩, hfollows.1, Option.isNone_iff_eq_none.mp hfollows.2⟩
      · cases hauto
    · cases hauto
  · rintro ⟨⟨header, hfilter⟩, hterminator, hnone⟩
    rw [hfilter]
    exact if_pos ⟨hterminator, Option.isNone_iff_eq_none.mpr hnone⟩

theorem length_choiceOf {message : HttpMessage} {chosen : Chosen} {requestName id : Text} :
    (message.choiceOf chosen requestName).length = some id ↔
      ∃ i, id = Text.indexed "hdr_" i ∧ message.DeclaresLength i ∧
        message.terminator.isSome ∧ chosen.lookup id = none := by
  rw [Choice.length, Option.map_eq_some_iff]
  constructor
  · rintro ⟨i, hauto, rfl⟩
    exact ⟨i, rfl, autoLength_iff.mp hauto⟩
  · rintro ⟨i, rfl, hauto⟩
    exact ⟨i, autoLength_iff.mpr hauto, rfl⟩

section

variable {message : HttpMessage} {i : Nat}

theorem DeclaresLength.slot (hdeclares : message.DeclaresLength i) :
    ∃ value, .segment (Text.indexed "hdr_" i) value ∈ message.slots := by
  obtain ⟨header, hheader, -⟩ := hdeclares.declared
  refine ⟨header.value, List.mem_append_left _ (List.mem_append_right _ ?_)⟩
  refine List.mem_flatMap.mpr ⟨(header, i), List.mem_zipIdx_iff_getElem?.mpr hheader, ?_⟩
  exact List.mem_append_left _ (List.mem_cons_of_mem _ List.mem_cons_self)

theorem body_slot (hterminator : message.terminator.isSome) :
    .segment (Text.ofAscii "body") message.body ∈ message.slots := by
  refine List.mem_append_right _ ?_
  obtain ⟨terminator, hterminator⟩ := Option.isSome_iff_exists.mp hterminator
  rw [bodySlots, hterminator]
  exact List.mem_cons_of_mem _ List.mem_cons_self

end

end HttpMessage

end MoonBoofuzz
