import BlobStore.Digest.Algorithm
import BlobStore.Placement
import BlobStore.Text.Replace

/-!
# From keys to placements

A `Layout` places every key.  The identity layout uses the key itself as pathname
and filename; a sharded layout digests the key and cuts the digest into directories
of a fixed width, so that each node that holds a key computes the same path.
-/

namespace BlobStore

/-- A rule that places every key. -/
abbrev Layout := String → Placement

/-- The layout that uses the key as pathname and as filename. -/
def Layout.identity : Layout := fun key => ⟨key, key⟩

/-- The digest of a key is cut into directories of `blockSize` characters each. -/
structure Sharding where
  algorithm : Digest.Algorithm
  blockSize : Nat
  blockSize_pos : 0 < blockSize
  deriving DecidableEq, Repr

namespace Sharding

/-- SHA-1 in directories of five characters. -/
def standard : Sharding := ⟨.sha1, 5, by decide⟩

/-- The sharding with a given width, which must not be zero. -/
def ofBlockSize? (algorithm : Digest.Algorithm) (blockSize : Nat) : Option Sharding :=
  if h : 0 < blockSize then some ⟨algorithm, blockSize, h⟩ else none

/-- The pieces of a width into which a text is cut; what is left in the end and
shorter than the width is dropped. -/
def blocks (width : Nat) (cs : List Char) : List (List Char) :=
  (List.range (cs.length / width)).map fun i => (cs.drop (i * width)).take width

/-- The placement of a key. -/
def place (s : Sharding) (key : String) : Placement :=
  let digest := s.algorithm.hexDigest key.toUTF8
  { pathname := String.ofList (['/'].intercalate (blocks s.blockSize digest))
    filename := String.ofList digest }

end Sharding

/-- The layout of a sharding. -/
def Layout.sharded (s : Sharding) : Layout := s.place

/-- The mark in a template for which the key stands. -/
def Layout.mark : List Char := ['\x7b', 'k', 'e', 'y', '\x7d']

/-- The layout that puts the key in the place of every mark of two texts. -/
def Layout.template (pathname filename : String) : Layout := fun key =>
  let fill (s : String) : String :=
    String.ofList (Text.replace Layout.mark key.toList s.toList)
  ⟨fill pathname, fill filename⟩

end BlobStore
