import MoonBoofuzz.Model.Integer

namespace MoonBoofuzz

/-! The checksum algorithms a checksum node can name, and how a node renders
their digests. -/

def crcShift (polynomial crc : UInt32) : UInt32 :=
  if crc &&& 1 ≠ 0 then (crc >>> 1) ^^^ polynomial else crc >>> 1

def crcByte (polynomial crc : UInt32) (byte : UInt8) : UInt32 :=
  (crcShift polynomial)^[8] (crc ^^^ byte.toUInt32)

def reflectedCrc (polynomial : UInt32) (bytes : Bytes) : UInt32 :=
  bytes.foldl (crcByte polynomial) 0xffffffff ^^^ 0xffffffff

def crc32 (bytes : Bytes) : UInt32 := reflectedCrc 0xedb88320 bytes

def crc32c (bytes : Bytes) : UInt32 := reflectedCrc 0x82f63b78 bytes

def adler32 (bytes : Bytes) : UInt32 :=
  let (a, b) := bytes.foldl
    (fun (a, b) byte =>
      let a := (a + byte.toUInt32) % 65521
      (a, (b + a) % 65521))
    ((1 : UInt32), (0 : UInt32))
  (b <<< 16) ||| a

inductive WordOrder where
  | little
  | big
  deriving Repr, DecidableEq

/-- The message, a `0x80` byte, and zeros up to 56 bytes modulo 64. -/
def digestPadding (message : Bytes) : Bytes :=
  message ++ 0x80 :: Bytes.zeros ((119 - message.length % 64) % 64)

def digestBytes (words : List UInt32) (order : WordOrder) : Bytes :=
  words.flatMap fun word =>
    (List.range 4).map fun i =>
      let shift := match order with
        | .little => i * 8
        | .big => 24 - i * 8
      (word >>> UInt32.ofNat shift).toUInt8

def rotateLeft (word : UInt32) (shift : Nat) : UInt32 :=
  (word <<< UInt32.ofNat shift) ||| (word >>> UInt32.ofNat (32 - shift))

def md5Shifts : List Nat :=
  [7, 12, 17, 22, 7, 12, 17, 22, 7, 12, 17, 22, 7, 12, 17, 22,
   5, 9, 14, 20, 5, 9, 14, 20, 5, 9, 14, 20, 5, 9, 14, 20,
   4, 11, 16, 23, 4, 11, 16, 23, 4, 11, 16, 23, 4, 11, 16, 23,
   6, 10, 15, 21, 6, 10, 15, 21, 6, 10, 15, 21, 6, 10, 15, 21]

def md5Constants : List UInt32 :=
  [0xd76aa478, 0xe8c7b756, 0x242070db, 0xc1bdceee, 0xf57c0faf, 0x4787c62a,
   0xa8304613, 0xfd469501, 0x698098d8, 0x8b44f7af, 0xffff5bb1, 0x895cd7be,
   0x6b901122, 0xfd987193, 0xa679438e, 0x49b40821, 0xf61e2562, 0xc040b340,
   0x265e5a51, 0xe9b6c7aa, 0xd62f105d, 0x02441453, 0xd8a1e681, 0xe7d3fbc8,
   0x21e1cde6, 0xc33707d6, 0xf4d50d87, 0x455a14ed, 0xa9e3e905, 0xfcefa3f8,
   0x676f02d9, 0x8d2a4c8a, 0xfffa3942, 0x8771f681, 0x6d9d6122, 0xfde5380c,
   0xa4beea44, 0x4bdecfa9, 0xf6bb4b60, 0xbebfbc70, 0x289b7ec6, 0xeaa127fa,
   0xd4ef3085, 0x04881d05, 0xd9d4d039, 0xe6db99e5, 0x1fa27cf8, 0xc4ac5665,
   0xf4292244, 0x432aff97, 0xab9423a7, 0xfc93a039, 0x655b59c3, 0x8f0ccc92,
   0xffeff47d, 0x85845dd1, 0x6fa87e4f, 0xfe2ce6e0, 0xa3014314, 0x4e0811a1,
   0xf7537e82, 0xbd3af235, 0x2ad7d2bb, 0xeb86d391]

structure Md5State where
  a : UInt32
  b : UInt32
  c : UInt32
  d : UInt32

def md5Word (buffer : Bytes) (chunk w : Nat) : UInt32 :=
  (List.range 4).foldl
    (fun value b =>
      value ||| ((buffer.getD (chunk * 64 + w * 4 + b) 0).toUInt32 <<<
        UInt32.ofNat (b * 8)))
    0

def md5Round (words : List UInt32) (state : Md5State) (i : Nat) : Md5State :=
  let (f, g) :=
    if i < 16 then ((state.b &&& state.c) ||| (~~~state.b &&& state.d), i)
    else if i < 32 then
      ((state.d &&& state.b) ||| (~~~state.d &&& state.c), (5 * i + 1) % 16)
    else if i < 48 then (state.b ^^^ state.c ^^^ state.d, (3 * i + 5) % 16)
    else (state.c ^^^ (state.b ||| ~~~state.d), 7 * i % 16)
  let mixed := f + state.a + md5Constants.getD i 0 + words.getD g 0
  { a := state.d
    b := state.b + rotateLeft mixed (md5Shifts.getD i 0)
    c := state.b
    d := state.c }

def md5Chunk (buffer : Bytes) (state : Md5State) (chunk : Nat) : Md5State :=
  let words := (List.range 16).map (md5Word buffer chunk)
  let final := (List.range 64).foldl (md5Round words) state
  { a := state.a + final.a
    b := state.b + final.b
    c := state.c + final.c
    d := state.d + final.d }

def md5 (message : Bytes) : Bytes :=
  let buffer := digestPadding message ++
    encodeInteger (message.length * 8) 64 .little
  let final := (List.range (buffer.length / 64)).foldl (md5Chunk buffer)
    { a := 0x67452301, b := 0xefcdab89, c := 0x98badcfe, d := 0x10325476 }
  digestBytes [final.a, final.b, final.c, final.d] .little

structure Sha1State where
  a : UInt32
  b : UInt32
  c : UInt32
  d : UInt32
  e : UInt32

def sha1Word (buffer : Bytes) (chunk w : Nat) : UInt32 :=
  (List.range 4).foldl
    (fun value b =>
      (value <<< 8) ||| (buffer.getD (chunk * 64 + w * 4 + b) 0).toUInt32)
    0

def sha1Extend (words : List UInt32) (w : Nat) : List UInt32 :=
  let mixed := words.getD (w - 3) 0 ^^^ words.getD (w - 8) 0 ^^^
    words.getD (w - 14) 0 ^^^ words.getD (w - 16) 0
  words ++ [rotateLeft mixed 1]

def sha1Round (words : List UInt32) (state : Sha1State) (i : Nat) : Sha1State :=
  let (f, k) :=
    if i < 20 then
      ((state.b &&& state.c) ||| (~~~state.b &&& state.d), (0x5a827999 : UInt32))
    else if i < 40 then (state.b ^^^ state.c ^^^ state.d, 0x6ed9eba1)
    else if i < 60 then
      ((state.b &&& state.c) ||| (state.b &&& state.d) |||
        (state.c &&& state.d), 0x8f1bbcdc)
    else (state.b ^^^ state.c ^^^ state.d, 0xca62c1d6)
  { a := rotateLeft state.a 5 + f + state.e + k + words.getD i 0
    b := state.a
    c := rotateLeft state.b 30
    d := state.c
    e := state.d }

def sha1Chunk (buffer : Bytes) (state : Sha1State) (chunk : Nat) : Sha1State :=
  let first := (List.range 16).map (sha1Word buffer chunk)
  let words := (List.range' 16 64).foldl sha1Extend first
  let final := (List.range 80).foldl (sha1Round words) state
  { a := state.a + final.a
    b := state.b + final.b
    c := state.c + final.c
    d := state.d + final.d
    e := state.e + final.e }

def sha1 (message : Bytes) : Bytes :=
  let buffer := digestPadding message ++
    encodeInteger (message.length * 8) 64 .big
  let final := (List.range (buffer.length / 64)).foldl (sha1Chunk buffer)
    { a := 0x67452301, b := 0xefcdab89, c := 0x98badcfe, d := 0x10325476,
      e := 0xc3d2e1f0 }
  digestBytes [final.a, final.b, final.c, final.d, final.e] .big

inductive ChecksumAlgorithm where
  | crc32
  | crc32c
  | adler32
  | md5
  | sha1
  deriving Repr, DecidableEq

namespace ChecksumAlgorithm

def length : ChecksumAlgorithm → Nat
  | .crc32 | .crc32c | .adler32 => 4
  | .md5 => 16
  | .sha1 => 20

def digest (algorithm : ChecksumAlgorithm) (bytes : Bytes) : Bytes :=
  match algorithm with
  | .crc32 => encodeInteger (MoonBoofuzz.crc32 bytes).toNat 32 .little
  | .crc32c => encodeInteger (MoonBoofuzz.crc32c bytes).toNat 32 .little
  | .adler32 => encodeInteger (MoonBoofuzz.adler32 bytes).toNat 32 .little
  | .md5 => MoonBoofuzz.md5 bytes
  | .sha1 => MoonBoofuzz.sha1 bytes

/-- Reverses the bytes of every complete 32-bit word. -/
def swapWords (standard : Bytes) : Bytes :=
  (List.range (standard.length / 4)).flatMap fun w =>
    (List.range 4).map fun b => standard.getD (w * 4 + (3 - b)) 0

/-- A big-endian node swaps each 32-bit word of the standard digest. -/
def render (algorithm : ChecksumAlgorithm) (bytes : Bytes) (endian : Endian) :
    Bytes :=
  let standard := algorithm.digest bytes
  let digest := match endian with
    | .big => swapWords standard
    | .little => standard
  digest.take algorithm.length

theorem length_digest (algorithm : ChecksumAlgorithm) (bytes : Bytes) :
    (algorithm.digest bytes).length = algorithm.length := by
  cases algorithm with
  | crc32 => simp [digest, length, encodeInteger]
  | crc32c => simp [digest, length, encodeInteger]
  | adler32 => simp [digest, length, encodeInteger]
  | md5 => rfl
  | sha1 => rfl

theorem length_swapWords (standard : Bytes) :
    (swapWords standard).length = standard.length / 4 * 4 := by
  simp [swapWords, List.length_flatMap]

@[simp] theorem length_render (algorithm : ChecksumAlgorithm) (bytes : Bytes)
    (endian : Endian) :
    (algorithm.render bytes endian).length = algorithm.length := by
  have hwords : algorithm.length / 4 * 4 = algorithm.length := by
    cases algorithm <;> rfl
  cases endian with
  | little => simp [render, length_digest]
  | big => simp [render, length_swapWords, length_digest, hwords]

end ChecksumAlgorithm

end MoonBoofuzz
