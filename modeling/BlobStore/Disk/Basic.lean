import BlobStore.Disk.Error
import BlobStore.Path.Basic

/-!
# A disk

A `Disk` holds directories and regular files.  A file's name leads to a number, the
file itself, under which its bytes are kept; they stay there when the name is removed
or given to another file, so that a file that has been opened can still be read.

`Disk.view` forgets the numbers: it shows what lies at each location.  Locations are
lists of names from the top of the disk.
-/

namespace BlobStore

/-- The name of an entry of a directory. -/
abbrev Name := List UInt8

/-- The way from the top of the disk to an entry. -/
abbrev Location := List Name

/-- What a location leads to. -/
inductive Node where
  | dir
  | file (number : Nat)
  deriving DecidableEq, Repr

/-- Directories and files, and the directory at which relative paths begin.  The top
of the disk is a directory that is not listed. -/
structure Disk where
  nodes : List (Location × Node)
  contents : Array ByteArray
  base : Location

/-- What lies at a location, as far as reading can tell. -/
inductive Entry where
  | dir
  | file (bytes : ByteArray)

namespace Disk

/-- A disk with nothing on it. -/
def empty : Disk := ⟨[], #[], []⟩

/-- What a location leads to. -/
def node? (d : Disk) (l : Location) : Option Node :=
  if l = [] then some .dir else d.nodes.lookup l

/-- The bytes of a file. -/
def bytes (d : Disk) (number : Nat) : ByteArray := d.contents.getD number ByteArray.empty

/-- What lies at a location. -/
def view (d : Disk) (l : Location) : Option Entry :=
  match d.node? l with
  | none => none
  | some .dir => some .dir
  | some (.file i) => some (.file (d.bytes i))

/-- Puts a node at a location. -/
def insert (d : Disk) (l : Location) (n : Node) : Disk :=
  { d with nodes := (l, n) :: d.nodes.filter fun e => !(e.1 == l) }

/-- Removes the node at a location. -/
def erase (d : Disk) (l : Location) : Disk :=
  { d with nodes := d.nodes.filter fun e => !(e.1 == l) }

/-- Removes all nodes below a location. -/
def eraseBelow (d : Disk) (l : Location) : Disk :=
  { d with nodes := d.nodes.filter fun e => !(l.isPrefixOf e.1 && e.1 != l) }

/-- Puts a new file without bytes at a location. -/
def insertFile (d : Disk) (l : Location) : Disk :=
  { d.insert l (.file d.contents.size) with contents := d.contents.push ByteArray.empty }

/-- Replaces the bytes of a file. -/
def setBytes (d : Disk) (number : Nat) (bytes : ByteArray) : Disk :=
  { d with contents := d.contents.setIfInBounds number bytes }

end Disk

end BlobStore
