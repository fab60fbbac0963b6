import MoonBoofuzz.Model.Digest

namespace MoonBoofuzz

/-! Block visibility conditions.  The ordering variants compare the configured
threshold on the left with the current field value on the right. -/

inductive Condition where
  | equal (path : Text) (expected : Bytes)
  | notEqual (path : Text) (expected : Bytes)
  | oneOf (path : Text) (expected : List Bytes)
  | notOneOf (path : Text) (expected : List Bytes)
  | greater (path : Text) (expected : Bytes)
  | greaterEqual (path : Text) (expected : Bytes)
  | less (path : Text) (expected : Bytes)
  | lessEqual (path : Text) (expected : Bytes)
  deriving Repr, DecidableEq

/-- `bytes_lexicographic`: lexicographic over unsigned byte values. -/
def bytesLexicographic : Bytes → Bytes → Int
  | [], [] => 0
  | [], _ :: _ => -1
  | _ :: _, [] => 1
  | x :: left, y :: right =>
      if x ≠ y then (if x < y then -1 else 1) else bytesLexicographic left right

namespace Condition

def path : Condition → Text
  | .equal path _ | .notEqual path _ | .oneOf path _ | .notOneOf path _
  | .greater path _ | .greaterEqual path _ | .less path _ | .lessEqual path _ =>
      path

def holds (condition : Condition) (value : Bytes) : Bool :=
  match condition with
  | .equal _ expected => value = expected
  | .notEqual _ expected => value ≠ expected
  | .oneOf _ expected => expected.contains value
  | .notOneOf _ expected => !expected.contains value
  | .greater _ expected => bytesLexicographic expected value > 0
  | .greaterEqual _ expected => bytesLexicographic expected value ≥ 0
  | .less _ expected => bytesLexicographic expected value < 0
  | .lessEqual _ expected => bytesLexicographic expected value ≤ 0

end Condition

structure Alignment where
  modulus : Nat
  pattern : Bytes
  modulus_pos : 0 < modulus
  modulus_lt : modulus < 2147483648
  pattern_ne : pattern ≠ []

structure SizeSpec where
  target : Text
  length : Nat
  endian : Endian
  offset : Int32
  inclusive : Bool
  ascii : Bool
  mutations : List Bytes
  length_mem : length = 1 ∨ length = 2 ∨ length = 4 ∨ length = 8
  ascii_exclusive : ¬ (ascii = true ∧ inclusive = true)
  mutations_length : ascii = false → ∀ value ∈ mutations, value.length = length

structure ChecksumSpec where
  target : Text
  endian : Endian
  mutations : List Bytes
  algorithm : ChecksumAlgorithm
  mutations_length : ∀ value ∈ mutations, value.length = algorithm.length

/-- Bounds of a repeat that passed the checks of `add_node`. -/
structure RepeatRange where
  min : Nat
  max : Nat
  step : Nat
  min_le : min ≤ max
  max_lt : max < 2147483648
  step_pos : 0 < step
  step_lt : step < 2147483648
  count_lt : (max - min) / step < 2147483647

mutual
inductive Node where
  | leaf (name : Text) (field : Field)
  | nested (block : Block)
  | repeated (name target : Text) (min max step : Int32)
      (variableName : Option Text)
  | sized (name : Text) (spec : SizeSpec)
  | checksummed (name : Text) (spec : ChecksumSpec)
  | mirrored (name target : Text)
  | dynamic (name variableName : Text) (field : Field)

inductive Block where
  | mk (name : Text) (children : List Node) (condition : Option Condition)
      (alignment : Option Alignment) (group : Option Text)
end

namespace Block

def name : Block → Text
  | .mk name _ _ _ _ => name

def children : Block → List Node
  | .mk _ children _ _ _ => children

def condition : Block → Option Condition
  | .mk _ _ condition _ _ => condition

def alignment : Block → Option Alignment
  | .mk _ _ _ alignment _ => alignment

def group : Block → Option Text
  | .mk _ _ _ _ group => group

/-- `Block::new`. -/
def new (name : Text) (children : List Node) : Block :=
  .mk name children none none none

def withGroup (block : Block) (target : Text) : Block :=
  .mk block.name block.children block.condition block.alignment (some target)

def when (block : Block) (condition : Condition) : Block :=
  .mk block.name block.children (some condition) block.alignment block.group

def aligned (block : Block) (modulus : Int32) (pattern : Bytes := [0]) :
    Except ModelError Block :=
  if h : 0 < modulus.toInt ∧ pattern ≠ [] then
    .ok (.mk block.name block.children block.condition
      (some {
        modulus := modulus.toInt.toNat
        pattern := pattern
        modulus_pos := by omega
        modulus_lt := by have := modulus.toInt_lt; omega
        pattern_ne := h.2 })
      block.group)
  else
    .error (.invalidText
      "alignment requires positive modulus and nonempty pattern")

end Block

namespace Node

/-- The name a node is registered under: its own, or its block's. -/
def name : Node → Text
  | .leaf name _ | .repeated name _ _ _ _ _ | .sized name _
  | .checksummed name _ | .mirrored name _ | .dynamic name _ _ => name
  | .nested block => block.name

def sizeValues (selected : List Nat) (length : Nat) (endian : Endian)
    (ascii : Bool) : List Bytes :=
  selected.map fun value =>
    if ascii then Bytes.decimal value
    else encodeInteger value (length * 8) endian

/-- With no explicit values the mutations are the boundary values of the width. -/
def selectSizes (maximum : Nat) (mutations : List UInt64) (fuzzable : Bool) :
    Except ModelError (List Nat) :=
  if !fuzzable then .ok []
  else if mutations.isEmpty then .ok (integerBoundaries maximum)
  else if mutations.all (fun value => value.toNat ≤ maximum) then
    .ok (mutations.map (·.toNat))
  else .error (.invalidText "explicit size mutation overflow")

/-- `Node::size`. -/
def size (name target : Text) (length : Nat := 4) (endian : Endian := .little)
    (offset : Int32 := 0) (inclusive : Bool := false) (ascii : Bool := false)
    (mutations : List UInt64 := []) (fuzzable : Bool := true) :
    Except ModelError Node :=
  if hlength : length = 1 ∨ length = 2 ∨ length = 4 ∨ length = 8 then
    if hascii : ¬ (ascii = true ∧ inclusive = true) then do
      let maximum ← integerMax (length * 8)
      let selected ← selectSizes maximum mutations fuzzable
      return .sized name {
        target := target
        length := length
        endian := endian
        offset := offset
        inclusive := inclusive
        ascii := ascii
        mutations := sizeValues selected length endian ascii
        length_mem := hlength
        ascii_exclusive := hascii
        mutations_length := by
          intro hbinary value hmem
          obtain ⟨number, -, rfl⟩ := List.mem_map.mp hmem
          simp [hbinary] }
    else .error (.invalidText "ascii size cannot be inclusive")
  else .error (.invalidText "size length must be 1, 2, 4 or 8 bytes")

/-- The six fixed byte boundaries of a checksum's length. -/
def checksumBoundaries (length : Nat) : List Bytes :=
  [List.replicate length 0x00,
   List.replicate length 0x11,
   List.replicate length 0xee,
   List.replicate length 0xff,
   (List.range length).map fun i => if i = length - 1 then 0xfe else 0xff,
   (List.range length).map fun i => if i = length - 1 then 0x01 else 0x00]

theorem length_of_mem_checksumBoundaries {length : Nat} {value : Bytes}
    (hmem : value ∈ checksumBoundaries length) : value.length = length := by
  simp only [checksumBoundaries, List.mem_cons, List.not_mem_nil, or_false] at hmem
  rcases hmem with rfl | rfl | rfl | rfl | rfl | rfl <;> simp

/-- `Node::checksum`. -/
def checksum (name target : Text) (endian : Endian := .little)
    (mutations : List UInt32 := []) (fuzzable : Bool := true)
    (algorithm : ChecksumAlgorithm := .crc32) : Except ModelError Node :=
  if hexplicit : 4 < algorithm.length ∧ mutations ≠ [] then
    .error (.invalidText "explicit mutations are not supported for md5/sha1")
  else
    .ok (.checksummed name {
      target := target
      endian := endian
      mutations :=
        if !fuzzable then []
        else if mutations = [] then checksumBoundaries algorithm.length
        else mutations.map fun value => encodeInteger value.toNat (4 * 8) endian
      algorithm := algorithm
      mutations_length := by
        intro value hmem
        split at hmem
        · simp at hmem
        · split at hmem
          · exact length_of_mem_checksumBoundaries hmem
          · rename_i hmutations
            obtain ⟨number, -, rfl⟩ := List.mem_map.mp hmem
            have hshort : ¬ 4 < algorithm.length :=
              fun hlong => hexplicit ⟨hlong, hmutations⟩
            have hlong : 4 ≤ algorithm.length := by cases algorithm <;> decide
            rw [length_encodeInteger]
            omega })

end Node

end MoonBoofuzz
