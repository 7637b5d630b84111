import BlobStore.Json.Record
import BlobStore.Json.Schema
import BlobStore.Text.Parts
import BlobStore.Text.Quoted

/-!
# Where an object is placed

A `Placement` says where an object lies below the root of its store: a pathname of
directories between slashes, and a filename.
-/

namespace BlobStore

/-- A directory path and a filename, both relative to the root of a store. -/
structure Placement where
  pathname : String
  filename : String
  deriving DecidableEq, Repr

namespace Placement

/-- The non-empty directories of the pathname, outermost first. -/
def segments (p : Placement) : List String :=
  ((Text.parts '/' p.pathname.toList).filter (!·.isEmpty)).map String.ofList

/-- The outermost directory, which is what a deletion removes; empty if there is
none. -/
def firstSegment (p : Placement) : String := p.segments.headD ""

/-- The pathname and the filename as one path. -/
def fullPath (p : Placement) : String :=
  if p.pathname.isEmpty then p.filename else p.pathname ++ "/" ++ p.filename

/-- The text that shows a placement with both its parts quoted. -/
def describe (p : Placement) : String :=
  "PathKey \x7b pathname: " ++ Text.quoted p.pathname ++
    ", filename: " ++ Text.quoted p.filename ++ " \x7d"

/-- The placement as a record. -/
def toRecord (p : Placement) : Json.Record :=
  [("pathname", .text p.pathname), ("filename", .text p.filename)]

/-- A placement of which not all parts have been read. -/
structure Draft where
  pathname : Option String
  filename : Option String

/-- How a placement is read from JSON. -/
def schema : Json.Schema Draft Placement where
  expected := "struct PathKey"
  fields :=
    [ { name := "pathname"
        isSet := fun d => d.pathname.isSome
        read := fun d => do return { d with pathname := some (← Json.readString "a string") } },
      { name := "filename"
        isSet := fun d => d.filename.isSome
        read := fun d => do return { d with filename := some (← Json.readString "a string") } } ]
  start := ⟨none, none⟩
  wholeList := some "struct PathKey with 2 elements"
  finish := fun d =>
    match d.pathname, d.filename with
    | some pathname, some filename => .ok ⟨pathname, filename⟩
    | none, _ => .error "pathname"
    | some _, none => .error "filename"

/-- Reads a placement from a JSON text. -/
def ofJson (text : String) : Except Json.Misread Placement := Json.readAll schema.read text

end Placement

end BlobStore
