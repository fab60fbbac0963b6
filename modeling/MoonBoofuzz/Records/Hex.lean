import MoonBoofuzz.Records.Record

namespace MoonBoofuzz

def digit (unit : UInt16) : Except RecordError Nat :=
  if 48 ≤ unit ∧ unit ≤ 57 then .ok (unit.toNat - 48)
  else if 97 ≤ unit ∧ unit ≤ 102 then .ok (unit.toNat - 97 + 10)
  else if 65 ≤ unit ∧ unit ≤ 70 then .ok (unit.toNat - 65 + 10)
  else .error (.invalid (Text.ofAscii "invalid hexadecimal byte"))

namespace Bytes

def decodePairs : Text → Except RecordError Bytes
  | high :: low :: rest => do
      let upper ← digit high
      let lower ← digit low
      let bytes ← decodePairs rest
      .ok (UInt8.ofNat (upper * 16 + lower) :: bytes)
  | _ => .ok []

/-- `hex_decode`. -/
def hexDecode (text : Text) : Except RecordError Bytes :=
  if text.length % 2 = 0 then decodePairs text
  else .error (.invalid (Text.ofAscii "odd hexadecimal length"))

theorem digit_hexDigit {value : Nat} (hvalue : value < 16) :
    digit (Json.hexDigit value) = .ok value := by
  interval_cases value <;> rfl

theorem length_hexEncode (bytes : Bytes) : bytes.hexEncode.length = 2 * bytes.length := by
  induction bytes with
  | nil => rfl
  | cons byte rest ih =>
      simp only [hexEncode, List.flatMap_cons, List.length_append, List.length_cons,
        List.length_nil] at ih ⊢
      omega

theorem decodePairs_hexEncode (bytes : Bytes) :
    decodePairs bytes.hexEncode = .ok bytes := by
  induction bytes with
  | nil => rfl
  | cons byte rest ih =>
      have hbyte : byte.toNat < 256 := byte.toNat_lt
      have hhalves : byte.toNat / 16 * 16 + byte.toNat % 16 = byte.toNat := by omega
      change decodePairs (Json.hexDigit (byte.toNat / 16) ::
        Json.hexDigit (byte.toNat % 16) :: hexEncode rest) = _
      rw [decodePairs, digit_hexDigit (by omega), digit_hexDigit (by omega), ih]
      change Except.ok (UInt8.ofNat (byte.toNat / 16 * 16 + byte.toNat % 16) :: rest) = _
      rw [hhalves, UInt8.ofNat_toNat]

theorem hexDecode_hexEncode (bytes : Bytes) : hexDecode bytes.hexEncode = .ok bytes := by
  rw [hexDecode, if_pos (by rw [length_hexEncode]; omega), decodePairs_hexEncode]

end Bytes

end MoonBoofuzz
