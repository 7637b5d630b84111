import BlobStore.Digest.Blake3
import BlobStore.Digest.Sha1
import BlobStore.Text.Hex

/-!
# Digest algorithms

The two algorithms that keys can be digested with, their names, and the digest
as lowercase hexadecimal text, whose length depends on the algorithm alone.
-/

namespace BlobStore.Digest

/-- A digest algorithm. -/
inductive Algorithm where
  | sha1
  | blake3
  deriving DecidableEq, Repr

namespace Algorithm

/-- The name by which an algorithm is written. -/
def name : Algorithm → String
  | sha1 => "sha1"
  | blake3 => "blake3"

/-- The algorithm of a name, in any mixture of upper and lower case. -/
def ofName? (s : String) : Option Algorithm :=
  match s.map Char.toLower with
  | "sha1" => some sha1
  | "sha-1" => some sha1
  | "blake3" => some blake3
  | _ => none

/-- The number of bytes of a digest. -/
def size : Algorithm → Nat
  | sha1 => 20
  | blake3 => 32

/-- The digest of some data. -/
def digest (a : Algorithm) (data : ByteArray) : Vector UInt8 a.size :=
  match a with
  | sha1 => Sha1.digest data
  | blake3 => Blake3.digest data

/-- The characters of the digest of some data. -/
def hexDigest (a : Algorithm) (data : ByteArray) : List Char :=
  Text.Hex.encode (a.digest data).toList

/-- The number of characters of a digest. -/
def hexLength (a : Algorithm) : Nat := 2 * a.size

@[simp] theorem length_hexDigest (a : Algorithm) (data : ByteArray) :
    (a.hexDigest data).length = a.hexLength := by
  simp [hexDigest, hexLength]

theorem isDigit_of_mem_hexDigest {a : Algorithm} {data : ByteArray} {c : Char}
    (h : c ∈ a.hexDigest data) : Text.Hex.IsDigit c :=
  Text.Hex.isDigit_of_mem_encode h

end Algorithm

end BlobStore.Digest
