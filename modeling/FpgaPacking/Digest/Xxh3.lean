/-
The 128-bit XXH3 hash with seed 0.

The function treats inputs of up to 16 bytes, up to 128, up to 240 and beyond 240
bytes by four methods, which all mix 64-bit words of the input with words of a
fixed secret.  Arithmetic is modulo `2 ^ 64` except for the full products of
`product`.
-/
namespace FpgaPacking
namespace Xxh3

/-! ## Words -/

/-- The secret that inputs are mixed with. -/
def secret : ByteArray := ⟨#[
  0xb8, 0xfe, 0x6c, 0x39, 0x23, 0xa4, 0x4b, 0xbe, 0x7c, 0x01, 0x81, 0x2c, 0xf7, 0x21, 0xad, 0x1c,
  0xde, 0xd4, 0x6d, 0xe9, 0x83, 0x90, 0x97, 0xdb, 0x72, 0x40, 0xa4, 0xa4, 0xb7, 0xb3, 0x67, 0x1f,
  0xcb, 0x79, 0xe6, 0x4e, 0xcc, 0xc0, 0xe5, 0x78, 0x82, 0x5a, 0xd0, 0x7d, 0xcc, 0xff, 0x72, 0x21,
  0xb8, 0x08, 0x46, 0x74, 0xf7, 0x43, 0x24, 0x8e, 0xe0, 0x35, 0x90, 0xe6, 0x81, 0x3a, 0x26, 0x4c,
  0x3c, 0x28, 0x52, 0xbb, 0x91, 0xc3, 0x00, 0xcb, 0x88, 0xd0, 0x65, 0x8b, 0x1b, 0x53, 0x2e, 0xa3,
  0x71, 0x64, 0x48, 0x97, 0xa2, 0x0d, 0xf9, 0x4e, 0x38, 0x19, 0xef, 0x46, 0xa9, 0xde, 0xac, 0xd8,
  0xa8, 0xfa, 0x76, 0x3f, 0xe3, 0x9c, 0x34, 0x3f, 0xf9, 0xdc, 0xbb, 0xc7, 0xc7, 0x0b, 0x4f, 0x1d,
  0x8a, 0x51, 0xe0, 0x4b, 0xcd, 0xb4, 0x59, 0x31, 0xc8, 0x9f, 0x7e, 0xc9, 0xd9, 0x78, 0x73, 0x64,
  0xea, 0xc5, 0xac, 0x83, 0x34, 0xd3, 0xeb, 0xc3, 0xc5, 0x81, 0xa0, 0xff, 0xfa, 0x13, 0x63, 0xeb,
  0x17, 0x0d, 0xdd, 0x51, 0xb7, 0xf0, 0xda, 0x49, 0xd3, 0x16, 0x55, 0x26, 0x29, 0xd4, 0x68, 0x9e,
  0x2b, 0x16, 0xbe, 0x58, 0x7d, 0x47, 0xa1, 0xfc, 0x8f, 0xf8, 0xb8, 0xd1, 0x7a, 0xd0, 0x31, 0xce,
  0x45, 0xcb, 0x3a, 0x8f, 0x95, 0x16, 0x04, 0x28, 0xaf, 0xd7, 0xfb, 0xca, 0xbb, 0x4b, 0x40, 0x7e]⟩

/-- The byte at a position; positions outside read as zero. -/
def byte (data : ByteArray) (i : Nat) : UInt8 := if h : i < data.size then data[i] else 0

/-- The little-endian number in the `count` bytes from a position. -/
def littleEndian (data : ByteArray) (start count : Nat) : UInt64 :=
  (List.range count).foldr (fun i n => (n <<< 8) ||| (byte data (start + i)).toUInt64) 0

/-- The little-endian 32-bit word at a position. -/
def word32 (data : ByteArray) (start : Nat) : UInt64 := littleEndian data start 4

/-- The little-endian 64-bit word at a position. -/
def word64 (data : ByteArray) (start : Nat) : UInt64 := littleEndian data start 8

/-- The low 32 bits of a word. -/
def low32 (w : UInt64) : UInt64 := w &&& 0xffffffff

/-- The `count` low bytes of a word in the opposite order. -/
def swapBytes (count : Nat) (w : UInt64) : UInt64 :=
  (List.range count).foldl
    (fun n i => (n <<< 8) ||| ((w >>> UInt64.ofNat (8 * i)) &&& 0xff)) 0

/-- A 32-bit word rotated to the left. -/
def rotate32 (w count : UInt64) : UInt64 := low32 (w <<< count) ||| (w >>> (32 - count))

/-- A word combined with itself shifted to the right. -/
def xorShift (w count : UInt64) : UInt64 := w ^^^ (w >>> count)

/-- The low and the high half of the full product. -/
def product (a b : UInt64) : UInt64 × UInt64 :=
  let full := a.toNat * b.toNat
  (UInt64.ofNat full, UInt64.ofNat (full >>> 64))

/-- The two halves of the full product combined. -/
def fold (a b : UInt64) : UInt64 :=
  let (low, high) := product a b
  low ^^^ high

/-- The first 32-bit multiplier. -/
def prime32a : UInt64 := 0x9E3779B1

/-- The second 32-bit multiplier. -/
def prime32b : UInt64 := 0x85EBCA77

/-- The third 32-bit multiplier. -/
def prime32c : UInt64 := 0xC2B2AE3D

/-- The first 64-bit multiplier. -/
def prime64a : UInt64 := 0x9E3779B185EBCA87

/-- The second 64-bit multiplier. -/
def prime64b : UInt64 := 0xC2B2AE3D27D4EB4F

/-- The third 64-bit multiplier. -/
def prime64c : UInt64 := 0x165667B19E3779F9

/-- The fourth 64-bit multiplier. -/
def prime64d : UInt64 := 0x85EBCA77C2B2AE63

/-- The fifth 64-bit multiplier. -/
def prime64e : UInt64 := 0x27D4EB2F165667C5

/-- Spreads every bit of a word over the whole word. -/
def avalanche (w : UInt64) : UInt64 := xorShift (xorShift w 37 * 0x165667919E3779F9) 32

/-- The stronger spreading that the shortest inputs need. -/
def longAvalanche (w : UInt64) : UInt64 :=
  xorShift (xorShift (xorShift w 33 * prime64b) 29 * prime64c) 32

/-! ## Inputs of at most 16 bytes -/

/-- The hash of the empty input. -/
def hashEmpty : UInt64 × UInt64 :=
  (longAvalanche (word64 secret 64 ^^^ word64 secret 72),
    longAvalanche (word64 secret 80 ^^^ word64 secret 88))

/-- The hash of one to three bytes. -/
def hashUpTo3 (data : ByteArray) : UInt64 × UInt64 :=
  let first := (byte data 0).toUInt64
  let middle := (byte data (data.size / 2)).toUInt64
  let last := (byte data (data.size - 1)).toUInt64
  let low := (first <<< 16) ||| (middle <<< 24) ||| last ||| (UInt64.ofNat data.size <<< 8)
  let high := rotate32 (swapBytes 4 low) 13
  (longAvalanche (low ^^^ (word32 secret 0 ^^^ word32 secret 4)),
    longAvalanche (high ^^^ (word32 secret 8 ^^^ word32 secret 12)))

/-- The hash of four to eight bytes. -/
def hashUpTo8 (data : ByteArray) : UInt64 × UInt64 :=
  let input := word32 data 0 + (word32 data (data.size - 4) <<< 32)
  let keyed := input ^^^ (word64 secret 16 ^^^ word64 secret 24)
  let (low, high) := product keyed (prime64a + (UInt64.ofNat data.size <<< 2))
  let high := high + (low <<< 1)
  let low := low ^^^ (high >>> 3)
  (xorShift (xorShift low 35 * 0x9FB21C651E98DF25) 28, avalanche high)

/-- The hash of nine to sixteen bytes. -/
def hashUpTo16 (data : ByteArray) : UInt64 × UInt64 :=
  let first := word64 data 0
  let last := word64 data (data.size - 8)
  let (low, high) :=
    product (first ^^^ last ^^^ (word64 secret 32 ^^^ word64 secret 40)) prime64a
  let low := low + (UInt64.ofNat (data.size - 1) <<< 54)
  let last := last ^^^ (word64 secret 48 ^^^ word64 secret 56)
  let high := high + (last + low32 last * (prime32b - 1))
  let low := low ^^^ swapBytes 8 high
  let (mixedLow, mixedHigh) := product low prime64b
  (avalanche mixedLow, avalanche (mixedHigh + high * prime64b))

/-! ## Inputs of 17 to 240 bytes -/

/-- Sixteen input bytes mixed with sixteen bytes of the secret. -/
def mix16 (data : ByteArray) (start key : Nat) : UInt64 :=
  fold (word64 data start ^^^ word64 secret key)
    (word64 data (start + 8) ^^^ word64 secret (key + 8))

/-- Mixes two pieces of sixteen bytes into the pair of accumulators. -/
def mix32 (data : ByteArray) (first second key : Nat) (acc : UInt64 × UInt64) : UInt64 × UInt64 :=
  ((acc.1 + mix16 data first key) ^^^ (word64 data second + word64 data (second + 8)),
    (acc.2 + mix16 data second (key + 16)) ^^^ (word64 data first + word64 data (first + 8)))

/-- The pair of accumulators before the first piece. -/
def initialPair (data : ByteArray) : UInt64 × UInt64 := (UInt64.ofNat data.size * prime64a, 0)

/-- The hash of a pair of accumulators. -/
def finish (data : ByteArray) (acc : UInt64 × UInt64) : UInt64 × UInt64 :=
  (avalanche (acc.1 + acc.2),
    0 - avalanche (acc.1 * prime64a + acc.2 * prime64d + UInt64.ofNat data.size * prime64b))

/-- The hash of 17 to 128 bytes: pieces from both ends, the innermost pair first. -/
def hashUpTo128 (data : ByteArray) : UInt64 × UInt64 :=
  finish data ((List.range ((data.size + 31) / 32)).foldr
    (fun i => mix32 data (16 * i) (data.size - 16 * (i + 1)) (32 * i)) (initialPair data))

/-- The hash of 129 to 240 bytes: pieces of 32 bytes from the start, with a spreading after the
fourth, and then the last 32 bytes. -/
def hashUpTo240 (data : ByteArray) : UInt64 × UInt64 :=
  let acc := (List.range 4).foldl
    (fun acc i => mix32 data (32 * i) (32 * i + 16) (32 * i) acc) (initialPair data)
  let acc := (List.range' 4 (data.size / 32 - 4)).foldl
    (fun acc i => mix32 data (32 * i) (32 * i + 16) (3 + 32 * (i - 4)) acc)
    (avalanche acc.1, avalanche acc.2)
  finish data (mix32 data (data.size - 16) (data.size - 32) 103 acc)

/-! ## Inputs of more than 240 bytes -/

/-- Mixes 64 input bytes into the eight accumulators. -/
def accumulate (data : ByteArray) (start key : Nat) (acc : Array UInt64) : Array UInt64 :=
  acc.mapIdx fun i a =>
    let keyed := word64 data (start + 8 * i) ^^^ word64 secret (key + 8 * i)
    a + word64 data (start + 8 * (i ^^^ 1)) + low32 keyed * (keyed >>> 32)

/-- Mixes `count` consecutive stripes of 64 bytes, each with the secret from eight bytes further. -/
def accumulateStripes (data : ByteArray) (start count : Nat) (acc : Array UInt64) : Array UInt64 :=
  (List.range count).foldl (fun acc n => accumulate data (start + 64 * n) (8 * n) acc) acc

/-- Scrambles the accumulators, as happens after each full block. -/
def scramble (acc : Array UInt64) : Array UInt64 :=
  acc.mapIdx fun i a => (xorShift a 47 ^^^ word64 secret (128 + 8 * i)) * prime32a

/-- The eight accumulators before the first stripe. -/
def initialAccumulators : Array UInt64 :=
  #[prime32c, prime64a, prime64b, prime64c, prime64d, prime32b, prime64e, prime32a]

/-- One half of the hash from the eight accumulators. -/
def merge (acc : Array UInt64) (key : Nat) (start : UInt64) : UInt64 :=
  avalanche ((List.range 4).foldl (fun n i => n +
    fold (acc.getD (2 * i) 0 ^^^ word64 secret (key + 16 * i))
      (acc.getD (2 * i + 1) 0 ^^^ word64 secret (key + 16 * i + 8))) start)

/-- The hash of more than 240 bytes: full blocks of 16 stripes, the stripes of the last block, and
the last 64 bytes once more. -/
def hashLong (data : ByteArray) : UInt64 × UInt64 :=
  let blocks := (data.size - 1) / 1024
  let acc := (List.range blocks).foldl
    (fun acc b => scramble (accumulateStripes data (1024 * b) 16 acc)) initialAccumulators
  let acc := accumulateStripes data (1024 * blocks) ((data.size - 1 - 1024 * blocks) / 64) acc
  let acc := accumulate data (data.size - 64) 121 acc
  let size := UInt64.ofNat data.size
  (merge acc 11 (size * prime64a), merge acc 117 (~~~(size * prime64b)))

/-! ## The hash -/

/-- The low and the high half of the hash. -/
def hash (data : ByteArray) : UInt64 × UInt64 :=
  if data.size = 0 then hashEmpty
  else if data.size ≤ 3 then hashUpTo3 data
  else if data.size ≤ 8 then hashUpTo8 data
  else if data.size ≤ 16 then hashUpTo16 data
  else if data.size ≤ 128 then hashUpTo128 data
  else if data.size ≤ 240 then hashUpTo240 data
  else hashLong data

end Xxh3
end FpgaPacking
