import MoonBoofuzz.Data.Machine
import MoonBoofuzz.Float.Double
import MoonBoofuzz.Random.Mt19937

namespace MoonBoofuzz

/-- The floating-point unit and the printing of its numbers, as the constructors use them. -/
structure DoubleArithmetic where
  le : Double → Double → Bool
  add : Double → Double → Double
  sub : Double → Double → Double
  mul : Double → Double → Double
  div : Double → Double → Double
  ofUInt32 : UInt32 → Double
  ofInt64 : Int → Double
  toText : Double → Text

namespace Mt19937

/-- The words of a seed, least significant first. -/
def seedKey (remaining : Nat) : List UInt32 :=
  if remaining = 0 then []
  else UInt32.ofNat remaining :: seedKey (remaining >>> 32)
termination_by remaining
decreasing_by
  rw [Nat.shiftRight_eq_div_pow]
  omega

def fromSeed (seed : Int) : Except ModelError Mt19937 :=
  if seed < 0 then .error (.invalidText "random seed must be non-negative")
  else
    let key := seedKey seed.toNat
    .ok (make (if key.isEmpty then [0] else key))

structure Joining where
  generator : Mt19937
  result : UInt64
  remaining : Int

def joinWord (joining : Joining) (i : Nat) : Joining :=
  let (word, generator) := joining.generator.next
  let word :=
    if joining.remaining < 32 then word >>> UInt32.ofNat (32 - joining.remaining).toNat else word
  { generator := generator
    result := joining.result ||| (word.toUInt64 <<< UInt64.ofNat (32 * i))
    remaining := joining.remaining - 32 }

def getrandbits (generator : Mt19937) (k : Int) : Except ModelError (UInt64 × Mt19937) :=
  if 0 < k ∧ k ≤ 64 then
    let words := ((k - 1) / 32 + 1).toNat
    let joined := (List.range words).foldl joinWord
      { generator := generator, result := 0, remaining := k }
    .ok (joined.result, joined.generator)
  else .error (.invalidText "getrandbits width out of range")

def random (arithmetic : DoubleArithmetic) (generator : Mt19937) : Double × Mt19937 :=
  let (high, generator) := generator.next
  let (low, generator) := generator.next
  let a := arithmetic.ofUInt32 (high >>> 5)
  let b := arithmetic.ofUInt32 (low >>> 6)
  -- The literals 67108864.0 and 9007199254740992.0.
  (arithmetic.div (arithmetic.add (arithmetic.mul a 0x4190000000000000) b) 0x4340000000000000,
    generator)

def uniform (arithmetic : DoubleArithmetic) (low high : Double) (generator : Mt19937) :
    Double × Mt19937 :=
  let (draw, generator) := generator.random arithmetic
  (arithmetic.add low (arithmetic.mul (arithmetic.sub high low) draw), generator)

def bitLengthLoop (remaining bits : Nat) : Nat :=
  if 0 < remaining then bitLengthLoop (remaining >>> 1) (bits + 1) else bits
termination_by remaining
decreasing_by
  rw [Nat.shiftRight_eq_div_pow]
  omega

/-- `int_bit_length`; a negative number has no bits. -/
def intBitLength (value : Int) : Int := bitLengthLoop value.toNat 0

def rejectLoop (width k : Int) : Nat → Mt19937 → Run (Int × Mt19937)
  | 0, _ => .pending
  | fuel + 1, generator => do
      let (bits, generator) ← liftM (generator.getrandbits k)
      let value := wrap32 bits.toNat
      if value ≥ width then rejectLoop width k fuel generator
      else pure (value, generator)

def randint (low high : Int) (generator : Mt19937) (fuel : Nat) : Run (Int × Mt19937) := do
  Eval.check (low ≤ high) (.invalidText "empty randint range")
  let width := wrap32 (wrap32 (high - low) + 1)
  let (value, generator) ← rejectLoop width (intBitLength width) fuel generator
  pure (wrap32 (low + value), generator)

end Mt19937

end MoonBoofuzz
