import MoonBoofuzz.Data.ShiftRegister
import MoonBoofuzz.Model.Digest

namespace MoonBoofuzz

/-! A message followed by its own checksum.  The reflected CRC is a shift register that
starts and ends complemented, so the checksum's bytes are the complement of the register
that has taken the message in. -/

theorem crcShift_toBitVec (polynomial crc : UInt32) :
    (crcShift polynomial crc).toBitVec =
      registerShift polynomial.toBitVec crc.toBitVec := by
  have hlow : (crc &&& 1 ≠ 0) ↔ crc.toBitVec.getLsbD 0 = true := by
    rw [Ne, ← UInt32.toBitVec_inj, UInt32.toBitVec_and]
    change ¬ crc.toBitVec &&& 1#32 = 0#32 ↔ _
    rw [BitVec.and_one_eq_setWidth_ofBool_getLsbD]
    cases crc.toBitVec.getLsbD 0 with
    | false => decide
    | true => decide
  rw [crcShift, registerShift]
  by_cases hbit : crc.toBitVec.getLsbD 0 = true
  · rw [if_pos (hlow.mpr hbit), if_pos hbit, UInt32.toBitVec_xor,
      UInt32.toBitVec_shiftRight]
    rfl
  · rw [if_neg (fun h => hbit (hlow.mp h)), if_neg hbit, UInt32.toBitVec_shiftRight]
    rfl

theorem crcByte_toBitVec (polynomial crc : UInt32) (byte : UInt8) :
    (crcByte polynomial crc byte).toBitVec =
      registerByte polynomial.toBitVec crc.toBitVec byte.toBitVec := by
  have hiterate : ∀ (count : Nat) (register : UInt32),
      ((crcShift polynomial)^[count] register).toBitVec =
        (registerShift polynomial.toBitVec)^[count] register.toBitVec := by
    intro count
    induction count with
    | zero => exact fun _ => rfl
    | succ count ih =>
        intro register
        rw [Function.iterate_succ_apply, Function.iterate_succ_apply, ih,
          crcShift_toBitVec]
  rw [crcByte, hiterate, UInt32.toBitVec_xor]
  rfl

theorem foldl_crcByte_toBitVec (polynomial : UInt32) (bytes : Bytes) :
    ∀ crc : UInt32, (bytes.foldl (crcByte polynomial) crc).toBitVec =
      (bytes.map UInt8.toBitVec).foldl (registerByte polynomial.toBitVec)
        crc.toBitVec := by
  induction bytes with
  | nil => exact fun _ => rfl
  | cons byte bytes ih =>
      intro crc
      rw [List.foldl_cons, ih, crcByte_toBitVec]
      rfl

theorem map_encodeInteger_little (word : UInt32) :
    (encodeInteger word.toNat 32 .little).map UInt8.toBitVec =
      littleBytes 4 word.toBitVec := by
  rw [encodeInteger, List.map_map, littleBytes]
  apply List.map_congr_left
  intro i _
  apply BitVec.eq_of_toNat_eq
  rw [BitVec.toNat_setWidth, BitVec.toNat_ushiftRight]
  rfl

/-- The register a message leaves, before the last complement. -/
def crcRegister (polynomial : UInt32) (bytes : Bytes) : UInt32 :=
  bytes.foldl (crcByte polynomial) 0xffffffff

theorem reflectedCrc_eq_not (polynomial : UInt32) (bytes : Bytes) :
    (reflectedCrc polynomial bytes).toBitVec = ~~~(crcRegister polynomial bytes).toBitVec := by
  change (crcRegister polynomial bytes ^^^ 0xffffffff).toBitVec = _
  rw [UInt32.toBitVec_xor]
  exact BitVec.xor_allOnes

/-- Whatever the message, the register after message and checksum is the same. -/
theorem crcRegister_append_checksum (polynomial : UInt32) (message : Bytes) :
    (crcRegister polynomial
        (message ++ encodeInteger (reflectedCrc polynomial message).toNat 32 .little)).toBitVec =
      (registerShift polynomial.toBitVec)^[32] (BitVec.allOnes 32) := by
  rw [crcRegister, List.foldl_append, foldl_crcByte_toBitVec, map_encodeInteger_little,
    reflectedCrc_eq_not]
  exact foldl_registerByte_not 4 polynomial.toBitVec
    (crcRegister polynomial message).toBitVec

theorem reflectedCrc_append_checksum (polynomial : UInt32) (message : Bytes) :
    reflectedCrc polynomial
        (message ++ encodeInteger (reflectedCrc polynomial message).toNat 32 .little) =
      reflectedCrc polynomial
        (encodeInteger (reflectedCrc polynomial []).toNat 32 .little) := by
  have hempty := crcRegister_append_checksum polynomial []
  rw [List.nil_append] at hempty
  apply UInt32.toBitVec_inj.mp
  rw [reflectedCrc_eq_not, reflectedCrc_eq_not, crcRegister_append_checksum, hempty]

/-- A receiver that runs its CRC over all it got and looks for the residue of the empty
message. -/
def acceptsResidue (crc : Bytes → UInt32) (received : Bytes) : Bool :=
  crc received == crc (encodeInteger (crc []).toNat 32 .little)

example : crc32 (encodeInteger (crc32 []).toNat 32 .little) = 0x2144df1c := by
  decide +kernel

theorem render_little (algorithm : ChecksumAlgorithm) (message : Bytes) :
    algorithm.render message .little = algorithm.digest message := by
  change (algorithm.digest message).take algorithm.length = _
  apply List.take_of_length_le
  rw [ChecksumAlgorithm.length_digest]

theorem appended_checksum_residue (message : Bytes) :
    crc32 (message ++ encodeInteger (crc32 message).toNat 32 .little) =
        crc32 (encodeInteger (crc32 []).toNat 32 .little) ∧
      crc32c (message ++ encodeInteger (crc32c message).toNat 32 .little) =
        crc32c (encodeInteger (crc32c []).toNat 32 .little) ∧
      acceptsResidue crc32
        (message ++ ChecksumAlgorithm.crc32.render message .little) = true ∧
      acceptsResidue crc32c
        (message ++ ChecksumAlgorithm.crc32c.render message .little) = true := by
  have hieee := reflectedCrc_append_checksum 0xedb88320 message
  have hcastagnoli := reflectedCrc_append_checksum 0x82f63b78 message
  refine ⟨hieee, hcastagnoli, ?_, ?_⟩
  · rw [render_little]
    exact beq_iff_eq.mpr hieee
  · rw [render_little]
    exact beq_iff_eq.mpr hcastagnoli

end MoonBoofuzz
