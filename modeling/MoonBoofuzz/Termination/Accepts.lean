import MoonBoofuzz.Data.Mapped
import MoonBoofuzz.Model.Accepts
import MoonBoofuzz.Model.Bare
import MoonBoofuzz.Model.Still
import MoonBoofuzz.Termination.Compile

namespace MoonBoofuzz

def Node.still : Node → Bool
  | .repeated _ _ _ _ _ _ => false
  | .checksummed _ _ => false
  | .mirrored _ _ => false
  | _ => true

theorem Recorded.still {entry : Entry} {item : Text × Node} (hrecorded : Recorded entry item)
    (hopen : entry.Open) (hstill : item.2.still = true) : entry.Still := by
  have hplain : ∀ kind, item.2.isNested = false → item.2.entryKind = .ok kind →
      entry.kind = kind := by
    intro kind hnested hkind
    have hentry := hrecorded.plain hnested
    rw [hkind] at hentry
    exact (Except.ok.inj hentry).symm
  obtain ⟨path, node⟩ := item
  cases node with
  | nested block =>
      have hblock := hrecorded.block rfl
      cases hkind : entry.kind with
      | container children =>
          exact ⟨hopen.condition, by rw [hkind]; rfl, by rw [hkind]; rfl, by rw [hkind]; rfl⟩
      | _ =>
          rw [hkind] at hblock
          cases hblock
  | leaf name field =>
      have hkind := hplain _ rfl rfl
      exact ⟨hopen.condition, by rw [hkind]; rfl, by rw [hkind]; rfl, by rw [hkind]; rfl⟩
  | sized name spec =>
      have hkind := hplain _ rfl rfl
      exact ⟨hopen.condition, by rw [hkind]; rfl, by rw [hkind]; rfl, by rw [hkind]; rfl⟩
  | dynamic name variableName field =>
      have hkind := hplain _ rfl rfl
      exact ⟨hopen.condition, by rw [hkind]; rfl, by rw [hkind]; rfl, by rw [hkind]; rfl⟩
  | repeated => cases hstill
  | checksummed => cases hstill
  | mirrored => cases hstill

namespace CompiledRequest

/-! Stages that accept whatever they are given. -/

theorem buildCaseSeq_ne_raised (entries : List Entry) (groups : List (Nat × Nat)) (fuel : Nat) :
    ∀ (index : Nat) (error : ModelError),
      buildCaseSeq entries groups fuel index ≠ .raised error := by
  induction fuel with
  | zero =>
      intro index error hraised
      cases hraised
  | succ fuel ih =>
      intro index error hraised
      rw [buildCaseSeq] at hraised
      split at hraised
      · rcases Eval.bind_eq_raised_iff.mp hraised with hchildren | ⟨parts, -, hseq⟩
        · obtain ⟨child, -, hchild⟩ := Eval.mapM_eq_raised hchildren
          exact ih child error hchild
        · dsimp only at hseq
          split at hseq
          · cases hseq
          · cases hseq
      · cases hraised
      · split at hraised
        · cases hraised
        · cases hraised

/-- A tree whose nodes refer to no others and that can be added is assembled. -/
structure Acceptable (root : Block) : Prop where
  free : (Node.nested root).free = true
  height : (Node.nested root).height ≤ 256
  nodes : ∀ item ∈ Node.preorder [] (.nested root), item.2.Sound ∧ item.2.still = true
  paths : (pathsOf (Node.preorder [] (.nested root))).Nodup

theorem addNode_still {root : Block} (hacceptable : Acceptable root) {index : Nat}
    {draft : Draft} (hadd : addNode [] none 0 ⟨[], []⟩ (.nested root) = .ok (index, draft)) :
    ∀ entry ∈ draft.entries, entry.Open ∧ entry.Still := by
  have hopen := @addNode_open [] none 0 index ⟨[], []⟩ draft (fun _ hmem => by cases hmem) _
    hacceptable.free hadd
  obtain ⟨added, hentries, hrecorded⟩ := addNode_recorded hadd
  rw [List.nil_append] at hentries
  intro entry hmem
  obtain ⟨item, hitem, hentry⟩ := forall₂_of_mem_left hrecorded (hentries ▸ hmem)
  exact ⟨hopen entry hmem, hentry.still (hopen entry hmem) (hacceptable.nodes item hitem).2⟩

theorem Assembled.still {root : Block} {maxBytes : Int32} {fuel : Nat}
    {request : CompiledRequest} (hassembled : Assembled root maxBytes fuel request)
    (hacceptable : Acceptable root) : ∀ entry ∈ request.entries, entry.Still := by
  obtain ⟨index, hadd⟩ := hassembled.added
  exact fun entry hmem => (addNode_still hacceptable hadd entry hmem).2

theorem assemble_accepts {root : Block} {maxBytes : Int32} (hbytes : 0 ≤ maxBytes.toInt)
    (hacceptable : Acceptable root) :
    ∃ request, Eval.Returns (assemble root maxBytes) request := by
  obtain ⟨index, draft, hadd, -⟩ := @addNode_accepts [] none 0 ⟨[], []⟩ (.nested root)
    (by simpa using hacceptable.height) (fun item hitem => (hacceptable.nodes item hitem).1)
    hacceptable.paths
  have hstill := addNode_still hacceptable hadd
  have hgroups : resolveGroups draft draft.entries 0 = .ok [] :=
    resolveGroups_free (fun entry hmem => (hstill entry hmem).1.group) 0
  obtain ⟨fuel, hsettled⟩ := assemble_terminates root maxBytes
  cases hassemble : assemble root maxBytes fuel with
  | pending =>
      rw [hassemble] at hsettled
      exact absurd rfl hsettled
  | done request => exact ⟨request, fuel, hassemble⟩
  | raised error =>
      simp only [assemble, dif_pos hbytes, hadd, Eval.liftM_eq, Eval.ofExcept_ok,
        Eval.done_bind, hgroups] at hassemble
      rcases Eval.bind_eq_raised_iff.mp hassemble with hseq | ⟨seq, -, hlater⟩
      · exact absurd hseq (buildCaseSeq_ne_raised _ _ _ _ _)
      · rw [checkReferences_still fun entry hmem => (hstill entry hmem).2] at hlater
        cases hlater

end CompiledRequest

end MoonBoofuzz
