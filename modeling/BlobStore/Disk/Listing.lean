import BlobStore.Disk.Basic

/-!
# Listing a directory

A listing has one line for each file below a directory, with its number of bytes, and
one for each directory without entries; other directories show in the lines of what
they hold.
-/

namespace BlobStore.Disk

/-- Whether a location is properly below another one. -/
def isBelow (l m : Location) : Bool := l.isPrefixOf m && m != l

/-- The nodes below a location. -/
def below (d : Disk) (l : Location) : List (Location × Node) :=
  d.nodes.filter fun e => isBelow l e.1

/-- The path that leads to a location from one above it. -/
def pathFrom (l m : Location) : Path := ⟨[Path.slash].intercalate (m.drop l.length)⟩

/-- The line that lists a node, if there is one. -/
def line? (d : Disk) (l m : Location) (n : Node) : Option String :=
  match n with
  | .file i =>
    some ((pathFrom l m).display ++ " (" ++ toString (d.bytes i).size ++ ")")
  | .dir => if d.below m = [] then some ((pathFrom l m).display ++ "/") else none

/-- The lines that list what is below a location, in order. -/
def listing (d : Disk) (l : Location) : List String :=
  ((d.below l).filterMap fun (m, n) => d.line? l m n).mergeSort (fun a b => a ≤ b)

end BlobStore.Disk
