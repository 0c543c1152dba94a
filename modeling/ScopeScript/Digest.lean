/-!
# Digests

The 128-bit message digest MD5: a text is padded to whole blocks of 64 bytes, every block is
mixed into four 32-bit words in 64 steps, and the words are written as hexadecimal digits, least
significant byte first.
-/

namespace ScopeScript
namespace Digest

/-- The constants added in the steps. -/
def additives : List UInt32 := [
  0xd76aa478, 0xe8c7b756, 0x242070db, 0xc1bdceee, 0xf57c0faf, 0x4787c62a, 0xa8304613, 0xfd469501,
  0x698098d8, 0x8b44f7af, 0xffff5bb1, 0x895cd7be, 0x6b901122, 0xfd987193, 0xa679438e, 0x49b40821,
  0xf61e2562, 0xc040b340, 0x265e5a51, 0xe9b6c7aa, 0xd62f105d, 0x02441453, 0xd8a1e681, 0xe7d3fbc8,
  0x21e1cde6, 0xc33707d6, 0xf4d50d87, 0x455a14ed, 0xa9e3e905, 0xfcefa3f8, 0x676f02d9, 0x8d2a4c8a,
  0xfffa3942, 0x8771f681, 0x6d9d6122, 0xfde5380c, 0xa4beea44, 0x4bdecfa9, 0xf6bb4b60, 0xbebfbc70,
  0x289b7ec6, 0xeaa127fa, 0xd4ef3085, 0x04881d05, 0xd9d4d039, 0xe6db99e5, 0x1fa27cf8, 0xc4ac5665,
  0xf4292244, 0x432aff97, 0xab9423a7, 0xfc93a039, 0x655b59c3, 0x8f0ccc92, 0xffeff47d, 0x85845dd1,
  0x6fa87e4f, 0xfe2ce6e0, 0xa3014314, 0x4e0811a1, 0xf7537e82, 0xbd3af235, 0x2ad7d2bb, 0xeb86d391
]

/-- The distances of rotation, four for each group of sixteen steps. -/
def rotations : List (List UInt32) :=
  [[7, 12, 17, 22], [5, 9, 14, 20], [4, 11, 16, 23], [6, 10, 15, 21]]

/-- The four words that are carried from block to block. -/
structure Words where
  a : UInt32
  b : UInt32
  c : UInt32
  d : UInt32
  deriving DecidableEq, Repr

/-- The words before the first block. -/
def Words.initial : Words :=
  ⟨0x67452301, 0xefcdab89, 0x98badcfe, 0x10325476⟩

/-- Rotate a word to the left. -/
def rotateLeft (word distance : UInt32) : UInt32 :=
  (word <<< distance) ||| (word >>> (32 - distance))

/-- The number written by bytes, least significant byte first. -/
def littleEndian (bytes : List UInt8) : Nat :=
  bytes.foldr (fun byte value => byte.toNat + 256 * value) 0

/-- The last bytes of a number, least significant byte first. -/
def littleEndianBytes : Nat → Nat → List UInt8
  | 0, _ => []
  | count + 1, value => (value % 256).toUInt8 :: littleEndianBytes count (value / 256)

/-- Pad a text: one bit, zeros up to eight bytes before the end of a block, and its length in
bits. -/
def padded (bytes : List UInt8) : List UInt8 :=
  let zeros := (119 - bytes.length % 64) % 64
  bytes ++ 0x80 :: List.replicate zeros 0 ++ littleEndianBytes 8 (bytes.length * 8)

/-- The words of a block. -/
def blockWords (block : List UInt8) : Array UInt32 :=
  ((List.range 16).map fun index =>
    (littleEndian ((block.drop (4 * index)).take 4)).toUInt32).toArray

/-- One step: the mixing function and the choice of the word depend on the group. -/
def step (block : Array UInt32) (words : Words) (index : Nat) (additive : UInt32) : Words :=
  let (mixed, place) :=
    match index / 16 with
    | 0 => ((words.b &&& words.c) ||| (~~~words.b &&& words.d), index)
    | 1 => ((words.d &&& words.b) ||| (~~~words.d &&& words.c), 5 * index + 1)
    | 2 => (words.b ^^^ words.c ^^^ words.d, 3 * index + 5)
    | _ => (words.c ^^^ (words.b ||| ~~~words.d), 7 * index)
  let distance := ((rotations.getD (index / 16) []).getD (index % 4) 0)
  let sum := words.a + mixed + additive + block.getD (place % 16) 0
  ⟨words.d, words.b + rotateLeft sum distance, words.b, words.c⟩

/-- Mix a block into the words. -/
def mixBlock (words : Words) (block : List UInt8) : Words :=
  let content := blockWords block
  let mixed := additives.zipIdx.foldl
    (fun words (additive, index) => step content words index additive) words
  ⟨words.a + mixed.a, words.b + mixed.b, words.c + mixed.c, words.d + mixed.d⟩

/-- Mix all blocks of padded bytes into the words; the first argument counts blocks. -/
def mixBlocks : Nat → Words → List UInt8 → Words
  | 0, words, _ => words
  | count + 1, words, bytes => mixBlocks count (mixBlock words (bytes.take 64)) (bytes.drop 64)

/-- The two hexadecimal digits of a byte. -/
def hexByte (byte : UInt8) : List Char :=
  [Nat.digitChar (byte.toNat / 16), Nat.digitChar (byte.toNat % 16)]

/-- The digest of a byte sequence in hexadecimal digits. -/
def md5 (bytes : List UInt8) : String :=
  let content := padded bytes
  let words := mixBlocks (content.length / 64) .initial content
  let written := [words.a, words.b, words.c, words.d].flatMap fun word =>
    littleEndianBytes 4 word.toNat
  String.ofList (written.flatMap hexByte)

end Digest
end ScopeScript
