import MoonBoofuzz.Termination.Render

namespace MoonBoofuzz

namespace CompiledRequest

section

variable {request : CompiledRequest}

/-- Every size field can be computed with `enough` fuel. -/
def SizesSettle (request : CompiledRequest) (enough : Nat) : Prop :=
  ∀ index spec, request.kind index = .computedSize spec →
    (sizeValue request [] none enough spec).Settled

theorem render_terminates (htable : Table request)
    (hreferences : checkReferences request request.entries = .ok ()) {enough : Nat}
    (hsizes : SizesSettle request enough) : Eval.Terminates (render request) := by
  obtain ⟨stop, hstop, hspans⟩ := htable.spans htable.root
  exact renderNode_terminates htable hreferences hsizes rfl hspans hstop

theorem validateSizes_mono : Monotone (validateSizes request) := by
  intro first second hle
  apply Eval.bind_le_bind (sizeEdges_mono request _ _ hle)
  intro edges
  exact Eval.bind_le_bind (le_refl _) fun _ => measureSizes_mono _ hle

/-- The size fields of the request name blocks and depend on each other without a
cycle, as far as the compiler follows their dependencies. -/
def SizesOrdered (request : CompiledRequest) : Prop :=
  ∃ edges states,
    Eval.Returns (fun fuel => sizeEdges request fuel request.entries 0) edges ∧
      visitAll edges request.entries.length = .ok states

theorem validateSizes_terminates_iff :
    Eval.Terminates (validateSizes request) ↔
      (SizesOrdered request → request.MeasuresOnce) := by
  have hedges : Eval.Terminates fun fuel => sizeEdges request fuel request.entries 0 :=
    ⟨_, sizeEdges_settled request (Nat.lt_succ_self _) _ _⟩
  have hmeasure : Monotone fun fuel (_ : List VisitState) =>
      measureSizes request fuel request.entries :=
    fun _ _ hle _ => measureSizes_mono _ hle
  have hvisit : Monotone fun fuel (edges : List (List Nat)) =>
      (liftM (visitAll edges request.entries.length) >>= fun _ =>
        measureSizes request fuel request.entries : Run Unit) :=
    fun _ _ hle _ => Eval.bind_le_bind (le_refl _) fun states => hmeasure hle states
  have hstages : Eval.Terminates (validateSizes request) ↔ _ ∧ _ :=
    Eval.terminates_bind_iff (sizeEdges_mono request request.entries 0) hvisit
  rw [hstages, and_iff_right hedges, ← measureSizes_terminates_iff]
  constructor
  · rintro hall ⟨edges, states, hreturns, hstates⟩
    obtain ⟨fuel, hsettled⟩ := hall edges hreturns
    exact ⟨fuel, by simpa [hstates] using hsettled⟩
  · intro hordered edges hreturns
    cases hstates : visitAll edges request.entries.length with
    | error error => exact ⟨0, by simp⟩
    | ok states =>
        obtain ⟨fuel, hsettled⟩ := hordered ⟨edges, states, hreturns, hstates⟩
        exact ⟨fuel, by simpa [hstates] using hsettled⟩

theorem sizesSettle_of_validated {fuel : Nat}
    (hvalid : validateSizes request fuel = .done ()) : SizesSettle request fuel := by
  simp only [validateSizes, Eval.bind_eq_done_iff] at hvalid
  obtain ⟨_, -, _, -, hmeasured⟩ := hvalid
  intro index spec hkind
  rw [measureSizes_eq] at hmeasured
  exact sizesWith_done hmeasured
    (entry_mem_of_not_container (by simp [hkind, EntryKind.isContainer])) hkind

/-- The stages of `compile` after the sizes. -/
def finish (request : CompiledRequest) (fuel : Nat) : Run CompiledRequest := do
  validateChecksums request fuel
  let _ ← render request fuel
  .done request

theorem finish_mono (request : CompiledRequest) : Monotone (finish request) := by
  intro first second hle
  apply Eval.bind_le_bind (validateChecksums_mono request hle)
  intro _
  exact Eval.bind_le_bind (renderNode_mono hle _) fun _ => le_refl _

theorem finish_terminates (htable : Table request)
    (hreferences : checkReferences request request.entries = .ok ())
    (hvalid : Eval.Returns (validateSizes request) ()) :
    Eval.Terminates (finish request) := by
  obtain ⟨enough, hdone⟩ := hvalid
  obtain ⟨first, hchecksums⟩ := validateChecksums_terminates request
  obtain ⟨second, hrender⟩ :=
    render_terminates htable hreferences (sizesSettle_of_validated hdone)
  have hrenderMono : Monotone (render request) :=
    fun _ _ hle => renderNode_mono hle _
  refine ⟨first + second, ?_⟩
  simp only [finish, Eval.bind_settled_iff, Eval.done_settled, implies_true, and_true]
  exact ⟨hchecksums.mono (validateChecksums_mono request (Nat.le_add_right _ _)),
    fun _ _ => hrender.mono (hrenderMono (Nat.le_add_left _ _))⟩

/-- Compilation stops when and only when the validation of the sizes does. -/
theorem compile_terminates_iff_sizes (root : Block) (maxBytes : Int32) :
    Eval.Terminates (compile root maxBytes) ↔
      ∀ request, Eval.Returns (assemble root maxBytes) request →
        Eval.Terminates (validateSizes request) := by
  have hfinish : ∀ request : CompiledRequest, Monotone fun fuel (_ : Unit) =>
      finish request fuel := fun request _ _ hle _ => finish_mono request hle
  have hvalidate : Monotone fun fuel (request : CompiledRequest) =>
      (validateSizes request fuel >>= fun _ => finish request fuel) :=
    fun _ _ hle request => Eval.bind_le_bind (validateSizes_mono hle)
      fun token => hfinish request hle token
  have hstages : Eval.Terminates (compile root maxBytes) ↔ _ ∧ _ :=
    Eval.terminates_bind_iff (assemble_mono root maxBytes) hvalidate
  rw [hstages, and_iff_right (assemble_terminates root maxBytes)]
  refine forall_congr' fun request => imp_congr_right fun hreturns => ?_
  refine (Eval.terminates_bind_iff validateSizes_mono (hfinish request)).trans ?_
  refine ⟨And.left, fun hsizes => ⟨hsizes, fun _ hvalid => ?_⟩⟩
  obtain ⟨fuel, hassemble⟩ := hreturns
  have hassembled := assemble_eq_done hassemble
  exact finish_terminates hassembled.table hassembled.references hvalid

/-- Compilation stops exactly when the sizes of a tree that passes the earlier
checks are measured without coming back to an entry under way. -/
theorem compile_terminates_iff (root : Block) (maxBytes : Int32) :
    Eval.Terminates (compile root maxBytes) ↔
      ∀ request, Eval.Returns (assemble root maxBytes) request →
        SizesOrdered request → request.MeasuresOnce := by
  rw [compile_terminates_iff_sizes]
  exact forall_congr' fun request =>
    imp_congr_right fun _ => validateSizes_terminates_iff

end

theorem one_width : 1 = 1 ∨ 1 = 2 ∨ 1 = 4 ∨ 1 = 8 := Or.inl rfl

theorem neither_set : ¬ (false = true ∧ false = true) := by decide

theorem no_mutations : false = false → ∀ value ∈ ([] : List Bytes), value.length = 1 := by
  simp

def crossedSpec : SizeSpec where
  target := Text.ofAscii "r.a"
  length := 1
  endian := .big
  offset := 0
  inclusive := false
  ascii := false
  mutations := []
  length_mem := one_width
  ascii_exclusive := neither_set
  mutations_length := no_mutations

def crossedRoot : Block :=
  Block.new (Text.ofAscii "r")
    [.sized (Text.ofAscii "s") crossedSpec,
     .nested (Block.new (Text.ofAscii "a")
       [.mirrored (Text.ofAscii "m") (Text.ofAscii "r.b")]),
     .nested (Block.new (Text.ofAscii "b")
       [.mirrored (Text.ofAscii "n") (Text.ofAscii "r.a")])]

def crossedRequest : CompiledRequest where
  name := Text.ofAscii "r"
  entries :=
    [⟨Text.ofAscii "r", none, .container [1, 2, 4], none, none, none⟩,
     ⟨Text.ofAscii "r.s", some 0, .computedSize crossedSpec, none, none, none⟩,
     ⟨Text.ofAscii "r.a", some 0, .container [3], none, none, none⟩,
     ⟨Text.ofAscii "r.a.m", some 2, .mirror (Text.ofAscii "r.b"), none, none, none⟩,
     ⟨Text.ofAscii "r.b", some 0, .container [5], none, none, none⟩,
     ⟨Text.ofAscii "r.b.n", some 4, .mirror (Text.ofAscii "r.a"), none, none, none⟩]
  paths :=
    [(Text.ofAscii "r", 0), (Text.ofAscii "r.s", 1), (Text.ofAscii "r.a", 2),
     (Text.ofAscii "r.a.m", 3), (Text.ofAscii "r.b", 4), (Text.ofAscii "r.b.n", 5)]
  maxBytes := 64
  seq := .sequence [.sequence [], .sequence [.sequence []], .sequence [.sequence []]]

theorem crossedRoot_assembles : assemble crossedRoot 64 4 = .done crossedRequest := rfl

/-- The size of `r.a` is never found: each of the two blocks waits for the other. -/
theorem crossedRoot_diverges : ¬ Eval.Terminates (compile crossedRoot 64) := by
  rw [compile_terminates_iff_sizes]
  intro hall
  have hsizes := hall crossedRequest ⟨4, crossedRoot_assembles⟩
  rw [validateSizes_terminates_iff] at hsizes
  have hordered : SizesOrdered crossedRequest :=
    ⟨[[], [], [], [], [], []], _, ⟨9, rfl⟩, rfl⟩
  exact absurd (hsizes hordered) (by decide)

end CompiledRequest

end MoonBoofuzz
