import Mathlib.Algebra.Group.Nat.Defs
import MoonBoofuzz.Data.EndAround
import MoonBoofuzz.Model.Integer

namespace MoonBoofuzz

/-! The internet checksums. -/

/-- The loop over the 16-bit big-endian words; an odd trailing byte is padded with zero. -/
def wordTotal (total : UInt64) : Bytes → UInt64
  | high :: low :: rest =>
      wordTotal (total + ((high.toUInt64 <<< 8) ||| low.toUInt64)) rest
  | [last] => total + (last.toUInt64 <<< 8)
  | [] => total

theorem one_lt_base : 1 < 65536 := by decide

theorem carry_fold_lt {total : UInt64} (htotal : total >>> 16 ≠ 0) :
    ((total &&& (0xffff : UInt64)) + (total >>> 16)).toNat =
        total.toNat % 65536 + total.toNat / 65536 ∧
      65536 ≤ total.toNat := by
  have hbound := total.toNat_lt
  have hshift : (total >>> 16).toNat = total.toNat / 65536 := by
    rw [UInt64.toNat_shiftRight]
    exact Nat.shiftRight_eq_div_pow total.toNat 16
  have hmask : (total &&& (0xffff : UInt64)).toNat = total.toNat % 65536 := by
    rw [UInt64.toNat_and]
    exact Nat.and_two_pow_sub_one_eq_mod total.toNat 16
  constructor
  · rw [UInt64.toNat_add, hshift, hmask]
    exact Nat.mod_eq_of_lt (by omega)
  · rcases Nat.lt_or_ge total.toNat 65536 with hlow | hhigh
    · refine absurd (UInt64.toNat_inj.mp ?_) htotal
      rw [hshift, Nat.div_eq_of_lt hlow]
      rfl
    · exact hhigh

def foldCarries (total : UInt64) : UInt64 :=
  if _h : total >>> 16 ≠ 0 then foldCarries ((total &&& (0xffff : UInt64)) + (total >>> 16))
  else total
termination_by total.toNat
decreasing_by
  rw [(carry_fold_lt _h).1]
  exact fold_lt (by omega) (carry_fold_lt _h).2

def onesComplementSum (bytes : Bytes) : UInt32 := (foldCarries (wordTotal 0 bytes)).toUInt32

/-- The checksum of a header whose checksum field is zero. -/
def ipv4Checksum (header : Bytes) : UInt32 := ~~~onesComplementSum header &&& 0xffff

def pseudoHeader (source destination : Bytes) (udpLength : Nat) : Bytes :=
  source ++ destination ++
    [0, 17, UInt8.ofNat ((udpLength >>> 8) &&& 255), UInt8.ofNat (udpLength &&& 255)]

/-- The pseudo header and the datagram, padded to whole words. -/
def udpBuffer (source destination udpBytes : Bytes) : Bytes :=
  let buffer := pseudoHeader source destination udpBytes.length ++ udpBytes
  if buffer.length % 2 = 1 then buffer ++ [0] else buffer

def udpChecksum (source destination udpBytes : Bytes) : UInt32 :=
  let complement := ~~~onesComplementSum (udpBuffer source destination udpBytes) &&& 0xffff
  if complement = 0 then 0xffff else complement

/-- Stores a checksum as a 16-bit big-endian word. -/
def storeWord (bytes : Bytes) (offset : Nat) (checksum : UInt32) : Bytes :=
  bytes.take offset ++ encodeInteger checksum.toNat 16 .big ++ bytes.drop (offset + 2)

def zeroField (bytes : Bytes) (offset : Nat) : Prop :=
  bytes[offset]? = some 0 ∧ bytes[offset + 1]? = some 0

def wordSum : Bytes → Nat
  | high :: low :: rest => high.toNat * 256 + low.toNat + wordSum rest
  | [last] => last.toNat * 256
  | [] => 0

theorem wordSum_le : ∀ bytes : Bytes, wordSum bytes ≤ 65535 * bytes.length
  | high :: low :: rest => by
      have hrest := wordSum_le rest
      have hhigh := high.toNat_lt
      have hlow := low.toNat_lt
      simp only [wordSum, List.length_cons]
      omega
  | [last] => by
      have hlast := last.toNat_lt
      simp only [wordSum, List.length_singleton]
      omega
  | [] => Nat.zero_le _

theorem word_toNat (high low : UInt8) :
    ((high.toUInt64 <<< 8) ||| low.toUInt64).toNat = high.toNat * 256 + low.toNat := by
  have hhigh := high.toNat_lt
  have hlow := low.toNat_lt
  have hshift : (high.toUInt64 <<< 8).toNat = high.toNat * 2 ^ 8 := by
    rw [UInt64.toNat_shiftLeft, UInt8.toNat_toUInt64]
    change high.toNat <<< 8 % 2 ^ 64 = _
    rw [Nat.shiftLeft_eq]
    omega
  rw [UInt64.toNat_or, hshift, UInt8.toNat_toUInt64, Nat.mul_comm,
    ← Nat.two_pow_add_eq_or_of_lt hlow]
  omega

theorem last_toNat (last : UInt8) : (last.toUInt64 <<< 8).toNat = last.toNat * 256 := by
  simpa using word_toNat last 0

theorem wordTotal_toNat : ∀ (total : UInt64) (bytes : Bytes),
    total.toNat + wordSum bytes < 2 ^ 64 →
      (wordTotal total bytes).toNat = total.toNat + wordSum bytes
  | total, high :: low :: rest => by
      intro hbound
      simp only [wordSum, ← word_toNat] at hbound ⊢
      have hadd : (total + ((high.toUInt64 <<< 8) ||| low.toUInt64)).toNat =
          total.toNat + ((high.toUInt64 <<< 8) ||| low.toUInt64).toNat := by
        rw [UInt64.toNat_add, Nat.mod_eq_of_lt (by omega)]
      rw [wordTotal, wordTotal_toNat _ rest (by rw [hadd]; omega), hadd]
      omega
  | total, [last] => by
      intro hbound
      simp only [wordSum] at hbound ⊢
      rw [wordTotal, UInt64.toNat_add, last_toNat, Nat.mod_eq_of_lt hbound]
  | total, [] => fun _ => rfl

theorem foldCarries_toNat (total : UInt64) :
    (foldCarries total).toNat = endAround 65536 total.toNat := by
  induction total using foldCarries.induct with
  | case1 total hcarry ih =>
      obtain ⟨hstep, hlarge⟩ := carry_fold_lt hcarry
      rw [foldCarries, dif_pos hcarry, ih, hstep, ← endAround_of_le (by omega) hlarge]
  | case2 total hdone =>
      have hsmall : total.toNat < 65536 := by
        by_contra hlarge
        have hshift : (total >>> 16).toNat = 0 := by rw [Decidable.not_not.mp hdone]; rfl
        rw [UInt64.toNat_shiftRight] at hshift
        change total.toNat >>> 16 = 0 at hshift
        rw [Nat.shiftRight_eq_div_pow] at hshift
        omega
      rw [foldCarries, dif_neg hdone, endAround_of_lt hsmall]

theorem onesComplementSum_toNat {bytes : Bytes} (hlength : bytes.length < 2 ^ 31) :
    (onesComplementSum bytes).toNat = endAround 65536 (wordSum bytes) := by
  have hsum := wordSum_le bytes
  have hbound := (endAround_spec one_lt_base (wordSum bytes)).1
  have htotal : (wordTotal 0 bytes).toNat = wordSum bytes := by
    rw [wordTotal_toNat 0 bytes (by change 0 + _ < _; omega)]
    exact Nat.zero_add _
  rw [onesComplementSum, UInt64.toNat_toUInt32, foldCarries_toNat, htotal]
  exact Nat.mod_eq_of_lt (by omega)

theorem complement_toNat {sum : UInt32} (hsum : sum.toNat < 65536) :
    (~~~sum &&& 0xffff).toNat = 65535 - sum.toNat := by
  rw [UInt32.toNat_and, UInt32.toNat_not]
  change (2 ^ 32 - 1 - sum.toNat) &&& (2 ^ 16 - 1) = _
  rw [Nat.and_two_pow_sub_one_eq_mod]
  omega

theorem wordSum_append : ∀ {left right : Bytes}, left.length % 2 = 0 →
    wordSum (left ++ right) = wordSum left + wordSum right
  | high :: low :: rest, right => by
      intro heven
      have hrest : rest.length % 2 = 0 := by
        simp only [List.length_cons] at heven
        omega
      simp only [List.cons_append, wordSum]
      rw [wordSum_append hrest]
      exact (Nat.add_assoc _ _ _).symm
  | [last], _ => by
      intro heven
      simp at heven
  | [], right => fun _ => (Nat.zero_add _).symm

theorem wordSum_encodeInteger {value : Nat} (hvalue : value < 65536) :
    wordSum (encodeInteger value 16 .big) = value := by
  change (UInt8.ofNat (value >>> 8)).toNat * 256 + (UInt8.ofNat (value >>> 0)).toNat + 0 = value
  rw [UInt8.toNat_ofNat', UInt8.toNat_ofNat', Nat.shiftRight_eq_div_pow, Nat.shiftRight_zero]
  omega

theorem zeroField_split {bytes : Bytes} {offset : Nat} (hzero : zeroField bytes offset) :
    offset < bytes.length ∧ bytes = bytes.take offset ++ [0, 0] ++ bytes.drop (offset + 2) := by
  obtain ⟨hhigh, hlow⟩ := hzero
  obtain ⟨hoffset, hhigh⟩ := List.getElem?_eq_some_iff.mp hhigh
  obtain ⟨hnext, hlow⟩ := List.getElem?_eq_some_iff.mp hlow
  refine ⟨hoffset, ?_⟩
  conv_lhs => rw [← List.take_append_drop offset bytes]
  rw [List.drop_eq_getElem_cons hoffset, List.drop_eq_getElem_cons hnext, hhigh, hlow,
    List.append_assoc]
  rfl

theorem length_storeWord {bytes : Bytes} {offset : Nat} (hzero : zeroField bytes offset)
    (checksum : UInt32) : (storeWord bytes offset checksum).length = bytes.length := by
  have hlength := congrArg List.length (zeroField_split hzero).2
  rw [hlength, storeWord]
  simp only [List.length_append]
  rfl

theorem wordSum_storeWord {bytes : Bytes} {offset : Nat} {checksum : UInt32}
    (heven : offset % 2 = 0) (hzero : zeroField bytes offset)
    (hchecksum : checksum.toNat < 65536) :
    wordSum (storeWord bytes offset checksum) = wordSum bytes + checksum.toNat := by
  obtain ⟨hoffset, hsplit⟩ := zeroField_split hzero
  have hbeginning : (bytes.take offset).length % 2 = 0 := by
    rw [List.length_take_of_le (Nat.le_of_lt hoffset)]
    exact heven
  have hfield : (encodeInteger checksum.toNat 16 .big).length % 2 = 0 := by
    simp [encodeInteger]
  conv_rhs => rw [hsplit]
  rw [storeWord, List.append_assoc, List.append_assoc, wordSum_append hbeginning,
    wordSum_append hbeginning, wordSum_append hfield, wordSum_encodeInteger hchecksum,
    wordSum_append rfl]
  change _ = _ + (0 + wordSum _) + _
  omega

theorem onesComplementSum_storeWord {bytes : Bytes} {offset : Nat} {checksum : UInt32}
    (hlength : bytes.length < 2 ^ 31) (heven : offset % 2 = 0)
    (hzero : zeroField bytes offset) (hchecksum : checksum.toNat < 65536)
    (hpositive : 0 < wordSum bytes + checksum.toNat)
    (hresidue : checksum.toNat ≡ 65535 - (onesComplementSum bytes).toNat [MOD 65535]) :
    onesComplementSum (storeWord bytes offset checksum) = 0xffff := by
  apply UInt32.toNat_inj.mp
  rw [onesComplementSum_toNat (by rw [length_storeWord hzero]; exact hlength),
    wordSum_storeWord heven hzero hchecksum]
  rw [onesComplementSum_toNat hlength] at hresidue
  exact endAround_add_complement one_lt_base hpositive hresidue

theorem onesComplementSum_lt {bytes : Bytes} (hlength : bytes.length < 2 ^ 31) :
    (onesComplementSum bytes).toNat < 65536 := by
  rw [onesComplementSum_toNat hlength]
  exact (endAround_spec (by omega) _).1

theorem ipv4_verifies {header : Bytes} {offset : Nat} (hlength : header.length < 2 ^ 31)
    (heven : offset % 2 = 0) (hzero : zeroField header offset) :
    onesComplementSum (storeWord header offset (ipv4Checksum header)) = 0xffff := by
  have hbound := onesComplementSum_lt hlength
  have hchecksum : (ipv4Checksum header).toNat = 65535 - (onesComplementSum header).toNat :=
    complement_toNat hbound
  apply onesComplementSum_storeWord hlength heven hzero
  · omega
  · -- An empty sum is complemented to all ones.
    have hempty := (endAround_spec one_lt_base (wordSum header)).2.2
    rw [← onesComplementSum_toNat hlength] at hempty
    omega
  · rw [hchecksum]

theorem zeroField_append (left right : Bytes) {bytes : Bytes} {offset : Nat}
    (hzero : zeroField bytes offset) :
    zeroField (left ++ bytes ++ right) (left.length + offset) := by
  have hget : ∀ {i : Nat}, bytes[i]? = some 0 →
      (left ++ bytes ++ right)[left.length + i]? = some 0 := by
    intro i hi
    have hin := (List.getElem?_eq_some_iff.mp hi).1
    rw [List.append_assoc, List.getElem?_append_right (Nat.le_add_right _ _),
      Nat.add_sub_cancel_left, List.getElem?_append_left hin]
    exact hi
  exact ⟨hget hzero.1, hget hzero.2⟩

theorem storeWord_append {left bytes right : Bytes} {offset : Nat}
    (hzero : zeroField bytes offset) (checksum : UInt32) :
    storeWord (left ++ bytes ++ right) (left.length + offset) checksum =
      left ++ storeWord bytes offset checksum ++ right := by
  have hoffset : offset ≤ bytes.length := Nat.le_of_lt (zeroField_split hzero).1
  have hend : offset + 2 ≤ bytes.length :=
    (List.getElem?_eq_some_iff.mp hzero.2).1
  rw [storeWord, storeWord, List.append_assoc left bytes right, Nat.add_assoc,
    List.take_length_add_append, List.drop_length_add_append,
    List.take_append_of_le_length hoffset, List.drop_append_of_le_length hend]
  simp only [List.append_assoc]

theorem exists_udpBuffer (source destination : Bytes) (udpLength : Nat) :
    ∃ padding : Bytes, padding.length ≤ 1 ∧
      ∀ udpBytes : Bytes, udpBytes.length = udpLength →
        udpBuffer source destination udpBytes =
          pseudoHeader source destination udpLength ++ udpBytes ++ padding := by
  by_cases hodd : ((pseudoHeader source destination udpLength).length + udpLength) % 2 = 1
  · refine ⟨[0], Nat.le_refl 1, fun udpBytes hlength => ?_⟩
    rw [udpBuffer, hlength, if_pos (by rw [List.length_append, hlength]; exact hodd)]
  · refine ⟨[], Nat.zero_le 1, fun udpBytes hlength => ?_⟩
    rw [udpBuffer, hlength, if_neg (by rw [List.length_append, hlength]; exact hodd),
      List.append_nil]

theorem udp_verifies {source destination datagram : Bytes} (hsource : source.length = 4)
    (hdestination : destination.length = 4) (hlong : datagram.length ≤ 65535)
    (hzero : zeroField datagram 6) :
    onesComplementSum (udpBuffer source destination
      (storeWord datagram 6 (udpChecksum source destination datagram))) = 0xffff := by
  obtain ⟨padding, hpadding, hbuffer⟩ :=
    exists_udpBuffer source destination datagram.length
  have hheader : (pseudoHeader source destination datagram.length).length = 12 := by
    simp [pseudoHeader, hsource, hdestination]
  have hlength : (udpBuffer source destination datagram).length < 2 ^ 31 := by
    rw [hbuffer datagram rfl, List.length_append, List.length_append, hheader]
    omega
  have hfield := zeroField_append (pseudoHeader source destination datagram.length) padding
    hzero
  have hstored : udpBuffer source destination
        (storeWord datagram 6 (udpChecksum source destination datagram)) =
      storeWord (udpBuffer source destination datagram) (12 + 6)
        (udpChecksum source destination datagram) := by
    rw [hbuffer datagram rfl, hbuffer _ (length_storeWord hzero _), ← hheader,
      storeWord_append hzero]
  rw [← hbuffer datagram rfl, hheader] at hfield
  have hbound := onesComplementSum_lt hlength
  have hcomplement := complement_toNat hbound
  rw [hstored]
  have hempty := (endAround_spec one_lt_base
    (wordSum (udpBuffer source destination datagram))).2.2
  rw [← onesComplementSum_toNat hlength] at hempty
  by_cases hzero' : ~~~onesComplementSum (udpBuffer source destination datagram) &&& 0xffff = 0
  · -- The other zero is stored: the residue is the same.
    have hvalue : (udpChecksum source destination datagram).toNat = 65535 := by
      simp only [udpChecksum, hzero', if_true]
      rfl
    rw [hzero'] at hcomplement
    change 0 = _ at hcomplement
    apply onesComplementSum_storeWord hlength (by decide) hfield
    · omega
    · omega
    · rw [hvalue, ← hcomplement]
      rfl
  · have hvalue : udpChecksum source destination datagram =
        ~~~onesComplementSum (udpBuffer source destination datagram) &&& 0xffff := by
      simp only [udpChecksum, hzero', if_false]
    rw [hvalue]
    apply onesComplementSum_storeWord hlength (by decide) hfield
    · omega
    · omega
    · rw [hcomplement]

theorem internet_checksums_verify :
    (∀ (header : Bytes) (offset : Nat), header.length < 2 ^ 31 →
      header.length % 2 = 0 → offset % 2 = 0 → zeroField header offset →
      onesComplementSum (storeWord header offset (ipv4Checksum header)) = 0xffff) ∧
    (∀ source destination datagram : Bytes, source.length = 4 → destination.length = 4 →
      8 ≤ datagram.length → datagram.length ≤ 65535 → zeroField datagram 6 →
      onesComplementSum (udpBuffer source destination
        (storeWord datagram 6 (udpChecksum source destination datagram))) = 0xffff) := by
  constructor
  · intro header offset hlength _ heven hzero
    exact ipv4_verifies hlength heven hzero
  · intro source destination datagram hsource hdestination _ hlong hzero
    exact udp_verifies hsource hdestination hlong hzero

def sampleHeader : Bytes :=
  [0x45, 0x00, 0x00, 0x73, 0x00, 0x00, 0x40, 0x00, 0x40, 0x11, 0x00, 0x00,
   0xc0, 0xa8, 0x00, 0x01, 0xc0, 0xa8, 0x00, 0xc7]

/-- Its sum with the pseudo header of zero addresses is all ones. -/
def sampleDatagram : Bytes := [0xff, 0xde, 0x00, 0x00, 0x00, 0x08, 0x00, 0x00]

example : ipv4Checksum sampleHeader = 0xb861 := by decide +kernel
example : udpChecksum [0, 0, 0, 0] [0, 0, 0, 0] sampleDatagram = 0xffff := by decide +kernel

theorem internet_checksums_verify_samples :
    onesComplementSum (storeWord sampleHeader 10 (ipv4Checksum sampleHeader)) = 0xffff ∧
      onesComplementSum (udpBuffer [0, 0, 0, 0] [0, 0, 0, 0]
        (storeWord sampleDatagram 6
          (udpChecksum [0, 0, 0, 0] [0, 0, 0, 0] sampleDatagram))) = 0xffff :=
  ⟨internet_checksums_verify.1 sampleHeader 10 (by decide) rfl rfl ⟨rfl, rfl⟩,
    internet_checksums_verify.2 [0, 0, 0, 0] [0, 0, 0, 0] sampleDatagram rfl rfl
      (by decide) (by decide) ⟨rfl, rfl⟩⟩

end MoonBoofuzz
