/-!
The BLAKE3 hash of a list of bytes: chunks of 1024 bytes, each a chain of 64-byte blocks, joined by
a binary tree whose left side is always the largest power of two of chunks that leaves some for the
right.
-/

namespace Quire.Digest.Blake3

/-- Eight words carried from block to block and from child to parent. -/
abbrev Chain := Vector UInt32 8

/-- One block of sixteen words. -/
abbrev Block := Vector UInt32 16

/-- The chain that every chunk and every parent starts from. -/
def start : Chain :=
  #v[0x6a09e667, 0xbb67ae85, 0x3c6ef372, 0xa54ff53a, 0x510e527f, 0x9b05688c, 0x1f83d9ab, 0x5be0cd19]

/-- Where each word of a block comes from when the next round begins. -/
def wordOrder : Vector (Fin 16) 16 :=
  #v[2, 6, 3, 10, 7, 0, 4, 13, 1, 11, 12, 5, 9, 14, 15, 8]

/-- The marks that tell blocks of different standing apart. -/
structure Marks where
  chunkStart : Bool
  chunkEnd : Bool
  parent : Bool
  root : Bool

/-- The marks as one word. -/
def Marks.word (m : Marks) : UInt32 :=
  (if m.chunkStart then 1 else 0) + (if m.chunkEnd then 2 else 0) + (if m.parent then 4 else 0) +
    (if m.root then 8 else 0)

/-- A word turned right. -/
def rotate (x : UInt32) (by' : UInt32) : UInt32 := (x >>> by') ||| (x <<< (32 - by'))

/-- Mixes two words of a block into one column or diagonal of the state. -/
def mix (s : Block) (a b c d : Fin 16) (x y : UInt32) : Block :=
  let s := s.set a (s[a] + s[b] + x)
  let s := s.set d (rotate (s[d] ^^^ s[a]) 16)
  let s := s.set c (s[c] + s[d])
  let s := s.set b (rotate (s[b] ^^^ s[c]) 12)
  let s := s.set a (s[a] + s[b] + y)
  let s := s.set d (rotate (s[d] ^^^ s[a]) 8)
  let s := s.set c (s[c] + s[d])
  s.set b (rotate (s[b] ^^^ s[c]) 7)

/-- One round: the four columns, then the four diagonals. -/
def round (s m : Block) : Block :=
  let s := mix s 0 4 8 12 m[0] m[1]
  let s := mix s 1 5 9 13 m[2] m[3]
  let s := mix s 2 6 10 14 m[4] m[5]
  let s := mix s 3 7 11 15 m[6] m[7]
  let s := mix s 0 5 10 15 m[8] m[9]
  let s := mix s 1 6 11 12 m[10] m[11]
  let s := mix s 2 7 8 13 m[12] m[13]
  mix s 3 4 9 14 m[14] m[15]

/-- The given number of rounds, the block reordered between them. -/
def rounds : Nat → Block → Block → Block
  | 0, s, _ => s
  | n + 1, s, m => rounds n (round s m) (wordOrder.map fun i => m[i])

/-- A block that is ready to be compressed, with all that goes into its compression. -/
structure Pending where
  chain : Chain
  block : Block
  counter : UInt64
  size : UInt32
  marks : Marks

/-- The first eight words of the compression. -/
def Pending.compress (p : Pending) : Chain :=
  let h := p.chain
  let s : Block := #v[h[0], h[1], h[2], h[3], h[4], h[5], h[6], h[7],
    start[0], start[1], start[2], start[3],
    p.counter.toUInt32, (p.counter >>> 32).toUInt32, p.size, p.marks.word]
  let s := rounds 7 s p.block
  #v[s[0] ^^^ s[8], s[1] ^^^ s[9], s[2] ^^^ s[10], s[3] ^^^ s[11],
    s[4] ^^^ s[12], s[5] ^^^ s[13], s[6] ^^^ s[14], s[7] ^^^ s[15]]

/-- The pending block marked as the last of the whole hash. -/
def Pending.asRoot (p : Pending) : Pending :=
  { p with counter := 0, marks := { p.marks with root := true } }

/-- The little-endian word at place `i`; bytes past the end count as zero. -/
def wordAt (bytes : List UInt8) (i : Nat) : UInt32 :=
  let byte (k : Nat) : UInt32 := (bytes.getD (4 * i + k) 0).toUInt32
  byte 0 ||| (byte 1 <<< 8) ||| (byte 2 <<< 16) ||| (byte 3 <<< 24)

/-- A block from at most 64 bytes. -/
def blockOf (bytes : List UInt8) : Block := Vector.ofFn fun i => wordAt bytes i

/-- The pending last block of one chunk of at most 1024 bytes. -/
def chunk (counter : UInt64) (chain : Chain) (first : Bool) (bytes : List UInt8) : Pending :=
  if _h : bytes.length ≤ 64 then
    ⟨chain, blockOf bytes, counter, bytes.length.toUInt32, ⟨first, true, false, false⟩⟩
  else
    let block : Pending :=
      ⟨chain, blockOf (bytes.take 64), counter, 64, ⟨first, false, false, false⟩⟩
    chunk counter block.compress false (bytes.drop 64)
termination_by bytes.length
decreasing_by simp only [List.length_drop]; omega

/-- The pending parent of two finished children. -/
def parent (left right : Chain) : Pending :=
  ⟨start, left ++ right, 0, 64, ⟨false, false, true, false⟩⟩

/-- The number of bytes on the left of a tree over `n` bytes: the largest power of two of whole
chunks that is less than `n`. -/
def leftSize (n : Nat) : Nat := 1024 * Nat.pow 2 ((n - 1) / 1024).log2

theorem leftSize_pos (n : Nat) : 0 < leftSize n :=
  Nat.mul_pos (by decide) (Nat.two_pow_pos _)

theorem leftSize_lt {n : Nat} (h : 1024 < n) : leftSize n < n := by
  have hne : (n - 1) / 1024 ≠ 0 := by omega
  have hle : Nat.pow 2 ((n - 1) / 1024).log2 ≤ (n - 1) / 1024 := Nat.log2_self_le hne
  have := Nat.mul_le_mul_left 1024 hle
  unfold leftSize
  omega

/-- The pending root of the tree over the bytes, whose first chunk has the given number. -/
def tree (counter : UInt64) (bytes : List UInt8) : Pending :=
  if _h : bytes.length ≤ 1024 then chunk counter start true bytes
  else
    let k := leftSize bytes.length
    parent (tree counter (bytes.take k)).compress
      (tree (counter + (k / 1024).toUInt64) (bytes.drop k)).compress
termination_by bytes.length
decreasing_by
  all_goals
    have hlt := leftSize_lt (Nat.lt_of_not_le _h)
    have hpos := leftSize_pos bytes.length
    simp only [List.length_take, List.length_drop]
    omega

/-- The four bytes of a word, lowest first. -/
def wordBytes (w : UInt32) : List UInt8 :=
  [w.toUInt8, (w >>> 8).toUInt8, (w >>> 16).toUInt8, (w >>> 24).toUInt8]

/-- The hash, 32 bytes long. -/
def hash (bytes : List UInt8) : List UInt8 :=
  (tree 0 bytes).asRoot.compress.toList.flatMap wordBytes

end Quire.Digest.Blake3
