import MoonBoofuzz.Checksum.Residue
import MoonBoofuzz.Data.Bursts

namespace MoonBoofuzz

/-! Errors in a message that carries its own checksum. -/

def bitsOf (bytes : Bytes) : List Bool := messageBits (bytes.map UInt8.toBitVec)

/-- What was received differs from what was sent, but only within a window of so many bits. -/
structure Burst (size : Nat) (sent received : Bytes) : Prop where
  length : received.length = sent.length
  changed : received ≠ sent
  window : ∃ start, ∀ i, (bitsOf received)[i]? ≠ (bitsOf sent)[i]? →
    start ≤ i ∧ i < start + size

theorem bitsOf_injective : Function.Injective bitsOf := by
  intro first second hequal
  have hinjective : Function.Injective UInt8.toBitVec := fun _ _ hsame =>
    UInt8.toBitVec_inj.mp hsame
  exact List.map_injective_iff.mpr hinjective (messageBits_injective hequal)

theorem length_bitsOf (bytes : Bytes) : (bitsOf bytes).length = 8 * bytes.length := by
  rw [bitsOf, length_messageBits, List.length_map]

theorem bitsOf_append (first second : Bytes) :
    bitsOf (first ++ second) = bitsOf first ++ bitsOf second := by
  rw [bitsOf, List.map_append, messageBits, List.flatMap_append]
  rfl

theorem Burst.of_bytes {front back burst burst' : Bytes} (hlength : burst'.length = burst.length)
    (hne : burst' ≠ burst) :
    Burst (8 * burst.length) (front ++ (burst ++ back)) (front ++ (burst' ++ back)) where
  length := by simp [hlength]
  changed := fun hequal => hne (List.append_inj_left (List.append_cancel_left hequal) hlength)
  window := by
    refine ⟨(bitsOf front).length, fun i hdiffer => ?_⟩
    rw [bitsOf_append, bitsOf_append, bitsOf_append, bitsOf_append] at hdiffer
    have hburst := length_bitsOf burst
    have hburst' := length_bitsOf burst'
    rw [hlength] at hburst'
    constructor
    · by_contra hbefore
      rw [List.getElem?_append_left (by omega), List.getElem?_append_left (by omega)] at hdiffer
      exact hdiffer rfl
    · by_contra hbehind
      rw [List.getElem?_append_right (by omega), List.getElem?_append_right (by omega),
        List.getElem?_append_right (by omega), List.getElem?_append_right (by omega), hburst,
        hburst'] at hdiffer
      exact hdiffer rfl

theorem reflectedCrc_burst {polynomial : UInt32} (htop : polynomial.toBitVec.getLsbD 31 = true)
    {sent received : Bytes} (hburst : Burst 32 sent received) :
    reflectedCrc polynomial received ≠ reflectedCrc polynomial sent := by
  obtain ⟨start, hwindow⟩ := hburst.window
  intro hequal
  have hregisters := congrArg UInt32.toBitVec hequal
  rw [reflectedCrc_eq_not, reflectedCrc_eq_not, BitVec.not_inj, crcRegister, crcRegister,
    foldl_crcByte_toBitVec, foldl_crcByte_toBitVec, foldl_registerByte_eq _ (by decide),
    foldl_registerByte_eq _ (by decide)] at hregisters
  refine foldl_registerBit_window htop ?_ ?_ hwindow hregisters
  · exact (length_bitsOf received).trans (hburst.length ▸ (length_bitsOf sent).symm)
  · exact fun hbits => hburst.changed (bitsOf_injective hbits)

/-- The receiver of a message with its checksum refuses it after every burst of at most 32 bits,
wherever it lies. -/
theorem burst_refused (message received : Bytes) :
    (Burst 32 (message ++ ChecksumAlgorithm.crc32.render message .little) received →
        acceptsResidue crc32 received = false) ∧
      (Burst 32 (message ++ ChecksumAlgorithm.crc32c.render message .little) received →
        acceptsResidue crc32c received = false) := by
  have hrefused : ∀ {polynomial : UInt32}, polynomial.toBitVec.getLsbD 31 = true →
      Burst 32 (message ++ encodeInteger (reflectedCrc polynomial message).toNat 32 .little)
        received →
      acceptsResidue (reflectedCrc polynomial) received = false := by
    intro polynomial htop hburst
    rw [acceptsResidue, beq_eq_false_iff_ne, ← reflectedCrc_append_checksum polynomial message]
    exact reflectedCrc_burst htop hburst
  rw [render_little, render_little]
  exact ⟨hrefused (by decide), hrefused (by decide)⟩

theorem burst_refused_sample :
    acceptsResidue crc32 [0x41, 0, 0, 0, 0] = false ∧
      acceptsResidue crc32c [0x41, 0, 0, 0, 0] = false := by
  have hieee : ChecksumAlgorithm.crc32.render [0x41] .little = [0x8b, 0x9e, 0xd9, 0xd3] := by
    decide +kernel
  have hcastagnoli : ChecksumAlgorithm.crc32c.render [0x41] .little =
      [0xee, 0xcd, 0x6d, 0xe1] := by decide +kernel
  have hrefused := burst_refused [0x41] [0x41, 0, 0, 0, 0]
  rw [hieee, hcastagnoli] at hrefused
  have hburst : ∀ {checksum : Bytes}, checksum.length = 4 → [0, 0, 0, 0] ≠ checksum →
      Burst 32 ([0x41] ++ checksum) [0x41, 0, 0, 0, 0] := by
    intro checksum hlength hne
    have hbytes := @Burst.of_bytes [0x41] [] checksum [0, 0, 0, 0] hlength.symm hne
    rwa [hlength, List.append_nil] at hbytes
  exact ⟨hrefused.1 (hburst rfl (by decide)), hrefused.2 (hburst rfl (by decide))⟩

end MoonBoofuzz
