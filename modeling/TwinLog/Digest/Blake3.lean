/-
  TwinLog.Digest.Blake3 — the BLAKE3 hash of a byte list (unkeyed).

  The input is cut into chunks of 1024 bytes, a chunk into blocks of 64. A block is
  compressed into the chaining value of its chunk; the last compression of a chunk, and
  each compression that joins two subtrees, is kept as a `Node` until it is known
  whether it is the root. Neighbours are joined pairwise, level by level, an odd one at
  the end moving up as it is: that is the tree whose left subtree is always the largest
  complete one. The root's compression, run with the root flag, gives the output bytes.

  The store needs only the first 16 output bytes, so one output block is enough.

  It stands for the hash function that `Checksum` is taken with. Keyed hashing, key
  derivation and longer outputs are left out.
-/

namespace TwinLog.Blake3

def pieces {α : Type} (n : Nat) (xs : List α) : List (List α) :=
  if n = 0 ∨ xs = [] then [] else xs.take n :: pieces n (xs.drop n)
termination_by xs.length
decreasing_by
  rename_i h
  have : xs.length ≠ 0 := fun e => h (.inr (List.length_eq_zero_iff.mp e))
  simp only [List.length_drop]
  omega

def chunkSize : Nat := 1024

def blockSize : Nat := 64

def iv : Vector UInt32 8 :=
  #v[0x6A09E667, 0xBB67AE85, 0x3C6EF372, 0xA54FF53A, 0x510E527F, 0x9B05688C, 0x1F83D9AB, 0x5BE0CD19]

def chunkStart : UInt32 := 1

def chunkEnd : UInt32 := 2

def parentFlag : UInt32 := 4

def rootFlag : UInt32 := 8

def rotr (x : UInt32) (n : UInt32) : UInt32 := (x >>> n) ||| (x <<< (32 - n))

def schedule : Vector (Fin 16) 16 := #v[2, 6, 3, 10, 7, 0, 4, 13, 1, 11, 12, 5, 9, 14, 15, 8]

def mix (s : Vector UInt32 16) (a b c d : Fin 16) (x y : UInt32) : Vector UInt32 16 :=
  let s := s.set a (s[a] + s[b] + x)
  let s := s.set d (rotr (s[d] ^^^ s[a]) 16)
  let s := s.set c (s[c] + s[d])
  let s := s.set b (rotr (s[b] ^^^ s[c]) 12)
  let s := s.set a (s[a] + s[b] + y)
  let s := s.set d (rotr (s[d] ^^^ s[a]) 8)
  let s := s.set c (s[c] + s[d])
  s.set b (rotr (s[b] ^^^ s[c]) 7)

def round (s m : Vector UInt32 16) : Vector UInt32 16 :=
  let s := mix s 0 4 8 12 m[0] m[1]
  let s := mix s 1 5 9 13 m[2] m[3]
  let s := mix s 2 6 10 14 m[4] m[5]
  let s := mix s 3 7 11 15 m[6] m[7]
  let s := mix s 0 5 10 15 m[8] m[9]
  let s := mix s 1 6 11 12 m[10] m[11]
  let s := mix s 2 7 8 13 m[12] m[13]
  mix s 3 4 9 14 m[14] m[15]

def rounds : Nat → Vector UInt32 16 → Vector UInt32 16 → Vector UInt32 16
  | 0, s, _ => s
  | n + 1, s, m => rounds n (round s m) (schedule.map fun i => m[i])

/-- A compression that has not been run. -/
structure Node where
  chain : Vector UInt32 8
  block : Vector UInt32 16
  counter : UInt64
  size : UInt32
  flags : UInt32

def Node.compress (n : Node) (flags : UInt32) : Vector UInt32 16 :=
  let tail := #v[iv[0], iv[1], iv[2], iv[3], n.counter.toUInt32, (n.counter >>> 32).toUInt32, n.size, flags]
  let s := rounds 7 (n.chain ++ tail) n.block
  let low : Vector UInt32 8 := Vector.ofFn fun i => s[i.val] ^^^ s[i.val + 8]
  let high : Vector UInt32 8 := Vector.ofFn fun i => s[i.val + 8] ^^^ n.chain[i]
  low ++ high

def Node.value (n : Node) : Vector UInt32 8 :=
  let out := n.compress n.flags
  Vector.ofFn fun i => out[i.val]

def wordBytes (w : UInt32) : List UInt8 := [w.toUInt8, (w >>> 8).toUInt8, (w >>> 16).toUInt8, (w >>> 24).toUInt8]

def Node.output (n : Node) : List UInt8 :=
  ({ n with counter := 0 }.compress (n.flags ||| rootFlag)).toList.flatMap wordBytes

def wordsOf (block : List UInt8) : Vector UInt32 16 :=
  let bytes := block.toArray
  let byte (i : Nat) : UInt32 := (bytes[i]?.getD 0).toUInt32
  Vector.ofFn fun i =>
    byte (4 * i) ||| (byte (4 * i + 1) <<< 8) ||| (byte (4 * i + 2) <<< 16) ||| (byte (4 * i + 3) <<< 24)

def chunkNode (counter : UInt64) (chain : Vector UInt32 8) (flags : UInt32) : List (List UInt8) → Node
  | [] => ⟨chain, wordsOf [], counter, 0, flags ||| chunkEnd⟩
  | [last] => ⟨chain, wordsOf last, counter, UInt32.ofNat last.length, flags ||| chunkEnd⟩
  | block :: rest =>
    let node : Node := ⟨chain, wordsOf block, counter, UInt32.ofNat block.length, flags⟩
    chunkNode counter node.value 0 rest

def ofChunk (chunk : List UInt8) (index : Nat) : Node :=
  chunkNode (UInt64.ofNat index) iv chunkStart (pieces blockSize chunk)

def join (left right : Node) : Node := ⟨iv, left.value ++ right.value, 0, 64, parentFlag⟩

def joinPairs : List Node → List Node
  | a :: b :: rest => join a b :: joinPairs rest
  | rest => rest

theorem length_joinPairs (ns : List Node) : (joinPairs ns).length ≤ ns.length := by
  fun_induction joinPairs ns with
  | case1 a b rest ih => simp only [List.length_cons]; omega
  | case2 => exact Nat.le_refl _

def root : List Node → Node
  | [] => ofChunk [] 0
  | [n] => n
  | a :: b :: rest => root (join a b :: joinPairs rest)
termination_by ns => ns.length
decreasing_by
  have := length_joinPairs rest
  simp only [List.length_cons]
  omega

def digest (data : List UInt8) : List UInt8 := (root ((pieces chunkSize data).mapIdx fun i c => ofChunk c i)).output

end TwinLog.Blake3
