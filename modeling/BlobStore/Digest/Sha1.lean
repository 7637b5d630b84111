/-!
# The SHA-1 digest

The message is padded to whole blocks of 64 bytes; each block is expanded to
eighty words and mixed into a chaining state of five words, which is the
digest of 20 bytes in the end.
-/

namespace BlobStore.Digest.Sha1

/-- The chaining state. -/
structure State where
  a : UInt32
  b : UInt32
  c : UInt32
  d : UInt32
  e : UInt32

/-- The state before the first block. -/
def State.start : State := ⟨0x67452301, 0xEFCDAB89, 0x98BADCFE, 0x10325476, 0xC3D2E1F0⟩

/-- Rotation to the left by a number of bits between 1 and 31. -/
def rotate (x n : UInt32) : UInt32 := (x <<< n) ||| (x >>> (32 - n))

/-- The bytes of a word, the highest first. -/
def bytesOfWord (w : UInt32) : Vector UInt8 4 :=
  #v[(w >>> 24).toUInt8, (w >>> 16).toUInt8, (w >>> 8).toUInt8, w.toUInt8]

/-- The message followed by one set bit, the fewest zero bits that lead to 56
bytes in the last block, and the message's length in bits as 64 bits. -/
def pad (message : ByteArray) : ByteArray :=
  let n := message.size
  let zeros := (119 - n % 64) % 64
  let bits := 8 * n
  let length := (List.range 8).map fun i => UInt8.ofNat (bits / Nat.pow 256 (7 - i))
  message ++ ⟨(0x80 :: List.replicate zeros 0 ++ length).toArray⟩

/-- The word that starts at a byte position. -/
def wordAt (data : ByteArray) (i : Nat) : UInt32 :=
  let byte (k : Nat) : UInt32 := (data[i + k]?.getD 0).toUInt32
  (byte 0 <<< 24) ||| (byte 1 <<< 16) ||| (byte 2 <<< 8) ||| byte 3

/-- The eighty words of the block that starts at a byte position. -/
def schedule (data : ByteArray) (start : Nat) : Array UInt32 :=
  let block := Array.ofFn fun i : Fin 16 => wordAt data (start + 4 * i.val)
  (List.range 64).foldl (fun w i =>
    w.push (rotate (w.getD (i + 13) 0 ^^^ w.getD (i + 8) 0 ^^^ w.getD (i + 2) 0 ^^^ w.getD i 0) 1))
    block

/-- One of the eighty rounds, with the word of that round. -/
def round (s : State) (t : Nat) (w : UInt32) : State :=
  let (f, k) : UInt32 × UInt32 :=
    if t < 20 then ((s.b &&& s.c) ||| (~~~s.b &&& s.d), 0x5A827999)
    else if t < 40 then (s.b ^^^ s.c ^^^ s.d, 0x6ED9EBA1)
    else if t < 60 then ((s.b &&& s.c) ||| (s.b &&& s.d) ||| (s.c &&& s.d), 0x8F1BBCDC)
    else (s.b ^^^ s.c ^^^ s.d, 0xCA62C1D6)
  { a := rotate s.a 5 + f + s.e + k + w
    b := s.a
    c := rotate s.b 30
    d := s.c
    e := s.d }

/-- Mixes the block that starts at a byte position into the state. -/
def absorb (data : ByteArray) (s : State) (start : Nat) : State :=
  let w := schedule data start
  let r := (List.range 80).foldl (fun r t => round r t (w.getD t 0)) s
  ⟨s.a + r.a, s.b + r.b, s.c + r.c, s.d + r.d, s.e + r.e⟩

/-- The SHA-1 digest of a message. -/
def digest (message : ByteArray) : Vector UInt8 20 :=
  let data := pad message
  let s := (List.range (data.size / 64)).foldl (fun s i => absorb data s (64 * i)) State.start
  bytesOfWord s.a ++ bytesOfWord s.b ++ bytesOfWord s.c ++ bytesOfWord s.d ++ bytesOfWord s.e

end BlobStore.Digest.Sha1
