import Mathlib.Algebra.Order.Group.Nat
import MoonBoofuzz.Data.Machine
import MoonBoofuzz.Model.Field

namespace MoonBoofuzz

inductive Endian where
  | little
  | big
  deriving Repr, DecidableEq

/-- `integer_max`: the largest value of an unsigned width in bits. -/
def integerMax (width : Nat) : Except ModelError Nat :=
  if width = 8 ∨ width = 16 ∨ width = 32 ∨ width = 64 then
    .ok (2 ^ width - 1)
  else
    .error (.invalidText "integer width must be 8, 16, 32 or 64")

def encodeInteger (value width : Nat) (endian : Endian) : Bytes :=
  (List.range (width / 8)).map fun i =>
    let shift := match endian with
      | .little => i * 8
      | .big => width - 8 - i * 8
    UInt8.ofNat (value >>> shift)

def decodeInteger (endian : Endian) (bytes : Bytes) : Nat :=
  let digits := match endian with
    | .little => bytes
    | .big => bytes.reverse
  digits.foldr (fun byte value => byte.toNat + 256 * value) 0

@[simp] theorem length_encodeInteger (value count : Nat) (endian : Endian) :
    (encodeInteger value (count * 8) endian).length = count := by
  simp [encodeInteger]

private theorem foldr_little (count : Nat) :
    ∀ value : Nat,
      ((List.range count).map fun i => UInt8.ofNat (value >>> (i * 8))).foldr
          (fun byte total => byte.toNat + 256 * total) 0 =
        value % 256 ^ count := by
  induction count with
  | zero => intro value; simp [Nat.mod_one]
  | succ count ih =>
      intro value
      have hshift : ∀ i : Nat,
          value >>> ((i + 1) * 8) = (value / 256) >>> (i * 8) := by
        intro i
        rw [show (i + 1) * 8 = 8 + i * 8 by omega, Nat.shiftRight_add,
          Nat.shiftRight_eq_div_pow value 8]
      have htail := ih (value / 256)
      simp only [List.range_succ_eq_map, List.map_cons, List.map_map,
        List.foldr_cons, Function.comp_def, Nat.succ_eq_add_one, hshift]
      rw [htail, pow_succ', Nat.mod_mul]
      simp

private theorem encodeInteger_big (value count : Nat) :
    encodeInteger value (count * 8) .big =
      (encodeInteger value (count * 8) .little).reverse := by
  apply List.ext_getElem
  · simp
  · intro position hleft hright
    have hposition : position < count := by simpa using hleft
    simp only [encodeInteger, List.getElem_map, List.getElem_range,
      List.getElem_reverse, List.length_map, List.length_range]
    congr 2
    omega

theorem decodeInteger_encodeInteger (value count : Nat) (endian : Endian) :
    decodeInteger endian (encodeInteger value (count * 8) endian) =
      value % 256 ^ count := by
  have hlittle :
      decodeInteger .little (encodeInteger value (count * 8) .little) =
        value % 256 ^ count := by
    simpa [decodeInteger, encodeInteger] using foldr_little count value
  cases endian with
  | little => exact hlittle
  | big =>
      rw [encodeInteger_big]
      simpa [decodeInteger] using hlittle

def pushAbove (candidates : List Nat) (candidate : Nat) : List Nat :=
  match candidates.getLast? with
  | some last => if candidate > last then candidates ++ [candidate] else candidates
  | none => candidates ++ [candidate]

def boundaryNeighbours (maximum boundary : Nat) : List Nat :=
  (List.range 20).filterMap fun step =>
    if step < 10 then
      let magnitude := 10 - step
      if boundary < magnitude then none else some (boundary - magnitude)
    else
      let magnitude := step - 10
      if maximum - boundary < magnitude then none else some (boundary + magnitude)

/-- `integer_boundaries`, for the full range up to `maximum`. -/
def integerBoundaries (maximum : Nat) : List Nat :=
  let fractions := [32, 16, 8, 4, 3, 2].map fun divisor =>
    let carry := if maximum % divisor = divisor - 1 then 1 else 0
    maximum / divisor + carry
  let inner := (0 :: fractions).flatMap (boundaryNeighbours maximum)
  let last := (List.range 10).map fun delta => maximum - (9 - delta)
  (inner ++ last).foldl pushAbove []

end MoonBoofuzz
