/-!
# The BLAKE3 digest

The message is cut into chunks of 1024 bytes, each of them into blocks of 64
bytes.  A chunk is a chain of compressions; the chunks are the leaves of a
binary tree whose inner nodes compress the chaining values of their two
children.  The first eight words of the root's compression are the digest of
32 bytes.

A tree of chunks is built level by level (`parents`): neighbours are paired and
a node without a partner moves up unchanged, which gives each left subtree the
largest power of two of chunks that leaves something for the right one.
-/

namespace BlobStore.Digest.Blake3

/-- Eight words that stand for everything compressed so far. -/
abbrev ChainingValue := Vector UInt32 8

/-- The initial chaining value. -/
def start : ChainingValue :=
  #v[0x6A09E667, 0xBB67AE85, 0x3C6EF372, 0xA54FF53A, 0x510E527F, 0x9B05688C, 0x1F83D9AB, 0x5BE0CD19]

/-- The flag of the first block of a chunk. -/
def chunkStart : UInt32 := 1
/-- The flag of the last block of a chunk. -/
def chunkEnd : UInt32 := 2
/-- The flag of an inner node of the tree. -/
def parent : UInt32 := 4
/-- The flag of the compression that yields the digest. -/
def root : UInt32 := 8

/-- Rotation to the right by a number of bits between 1 and 31. -/
def rotate (x n : UInt32) : UInt32 := (x >>> n) ||| (x <<< (32 - n))

/-- The quarter round on four words of the working state, with two message words. -/
def quarter (v : Vector UInt32 16) (a b c d : Fin 16) (x y : UInt32) : Vector UInt32 16 :=
  let va := v[a] + v[b] + x
  let vd := rotate (v[d] ^^^ va) 16
  let vc := v[c] + vd
  let vb := rotate (v[b] ^^^ vc) 12
  let va := va + vb + y
  let vd := rotate (vd ^^^ va) 8
  let vc := vc + vd
  let vb := rotate (vb ^^^ vc) 7
  (((v.set a va a.isLt).set b vb b.isLt).set c vc c.isLt).set d vd d.isLt

/-- One round: the columns of the working state, then its diagonals. -/
def round (v m : Vector UInt32 16) : Vector UInt32 16 :=
  let v := quarter v 0 4 8 12 m[0] m[1]
  let v := quarter v 1 5 9 13 m[2] m[3]
  let v := quarter v 2 6 10 14 m[4] m[5]
  let v := quarter v 3 7 11 15 m[6] m[7]
  let v := quarter v 0 5 10 15 m[8] m[9]
  let v := quarter v 1 6 11 12 m[10] m[11]
  let v := quarter v 2 7 8 13 m[12] m[13]
  quarter v 3 4 9 14 m[14] m[15]

/-- The order in which the message words enter the next round. -/
def permute (m : Vector UInt32 16) : Vector UInt32 16 :=
  #v[m[2], m[6], m[3], m[10], m[7], m[0], m[4], m[13],
     m[1], m[11], m[12], m[5], m[9], m[14], m[15], m[8]]

/-- The input of one compression. -/
structure Node where
  chain : ChainingValue
  block : Vector UInt32 16
  counter : UInt64
  length : UInt32
  flags : UInt32

/-- The first eight words of the compression of a node, with further flags set. -/
def Node.compress (n : Node) (flags : UInt32) : ChainingValue :=
  let h := n.chain
  let v : Vector UInt32 16 :=
    #v[h[0], h[1], h[2], h[3], h[4], h[5], h[6], h[7],
       0x6A09E667, 0xBB67AE85, 0x3C6EF372, 0xA54FF53A,
       n.counter.toUInt32, (n.counter >>> 32).toUInt32, n.length, n.flags ||| flags]
  let r := (List.range 7).foldl (fun (p : Vector UInt32 16 × Vector UInt32 16) _ =>
    (round p.1 p.2, permute p.2)) (v, n.block)
  Vector.ofFn fun i : Fin 8 => r.1.get ⟨i.val, by omega⟩ ^^^ r.1.get ⟨i.val + 8, by omega⟩

/-- The sixteen words of the block that starts at a byte position; bytes beyond
the end of the message are zero. -/
def blockAt (data : ByteArray) (start : Nat) : Vector UInt32 16 :=
  let byte (i : Nat) : UInt32 := (data[i]?.getD 0).toUInt32
  Vector.ofFn fun i : Fin 16 =>
    let k := start + 4 * i.val
    byte k ||| (byte (k + 1) <<< 8) ||| (byte (k + 2) <<< 16) ||| (byte (k + 3) <<< 24)

/-- The number of pieces of a size that cover some bytes; even no bytes need one. -/
def pieces (bytes size : Nat) : Nat := max 1 ((bytes + (size - 1)) / size)

/-- The last block of a chunk, chained to the blocks before it. -/
def chunk (data : ByteArray) (number : Nat) : Node :=
  let first := 1024 * number
  let bytes := min 1024 (data.size - first)
  let blocks := pieces bytes 64
  let node (i : Nat) (chain : ChainingValue) : Node :=
    { chain
      block := blockAt data (first + 64 * i)
      counter := UInt64.ofNat number
      length := UInt32.ofNat (min 64 (bytes - 64 * i))
      flags := if i = 0 then chunkStart else 0 }
  let chain := (List.range (blocks - 1)).foldl (fun cv i => (node i cv).compress 0) start
  let last := node (blocks - 1) chain
  { last with flags := last.flags ||| chunkEnd }

/-- The inner node above two nodes. -/
def join (left right : Node) : Node :=
  let l := left.compress 0
  let r := right.compress 0
  { chain := start
    block := l ++ r
    counter := 0
    length := 64
    flags := parent }

/-- The next level of the tree. -/
def parents : List Node → List Node
  | l :: r :: rest => join l r :: parents rest
  | rest => rest

theorem length_parents_le (ns : List Node) : (parents ns).length ≤ ns.length := by
  fun_induction parents ns with
  | case1 l r rest ih => simp only [List.length_cons]; omega
  | case2 => exact Nat.le_refl _

/-- The root of the tree above a first node and its right neighbours. -/
def top (first : Node) : List Node → Node
  | [] => first
  | second :: rest => top (join first second) (parents rest)
termination_by rest => rest.length
decreasing_by
  have := length_parents_le rest
  simp only [List.length_cons]
  omega

/-- The BLAKE3 digest of a message. -/
def digest (message : ByteArray) : Vector UInt8 32 :=
  let chunks := (List.range (pieces message.size 1024 - 1)).map fun i => chunk message (i + 1)
  let words := (top (chunk message 0) chunks).compress root
  Vector.ofFn fun i : Fin 32 => (words.get ⟨i.val / 4, by omega⟩ >>> (8 * UInt32.ofNat (i.val % 4))).toUInt8

end BlobStore.Digest.Blake3
