import BlobStore.Action
import BlobStore.Layout
import BlobStore.Store.Error

/-!
# Stores

A `Store` keeps objects as files below a root directory; its layout places each key.
A key has a `Site` in the store only if its filename ends in a name and neither part
of its placement leads out of the root.
-/

namespace BlobStore

/-- What a store is made from; what is not given is filled in. -/
structure Options where
  root : Option Path
  layout : Option Layout
  atomicWrites : Bool

/-- A store of objects. -/
structure Store where
  root : Path
  layout : Layout
  /-- whether an object is written to a file of its own that then takes its place -/
  atomicWrites : Bool

/-- Where an object lies. -/
structure Site where
  placement : Placement
  /-- the directory of the file -/
  dir : Path
  file : Path

namespace Store

/-- The root of a store for which none is given. -/
def defaultRoot : Path := Path.ofString "supernetwork"

/-- The store with the given options.  No root and an empty root both stand for the
default one, and no layout for the identity layout. -/
def ofOptions (o : Options) : Store where
  root := (o.root.filter (!·.isEmpty)).getD defaultRoot
  layout := o.layout.getD Layout.identity
  atomicWrites := o.atomicWrites

/-- Whether all components of a text are plain names, so that it leads nowhere but
down. -/
def leadsDown (text : String) : Bool :=
  (Path.ofString text).components.all fun
    | .name _ => true
    | _ => false

/-- The last piece of a filename, after all slashes. -/
def lastPiece (filename : String) : List Char :=
  ((Text.parts '/' filename.toList).getLast?).getD []

/-- Where the object of a key lies. -/
def site (s : Store) (key : String) : Except StoreError Site :=
  let p := s.layout key
  if lastPiece p.filename = [] then .error (.invalidKey key .emptyFilename)
  else if !leadsDown p.pathname || !leadsDown p.filename then
    .error (.invalidKey key .outsideRoot)
  else
    let file := s.root.join (Path.ofString p.fullPath)
    .ok { placement := p, dir := file.parent?.getD s.root, file }

/-- The path of the object of a key. -/
def location (s : Store) (key : String) : Except StoreError Path :=
  (s.site key).map Site.file

/-- The text that shows a store. -/
def describe (s : Store) : String :=
  "Store \x7b root: " ++ Text.quoted s.root.display ++
    ", atomic_writes: " ++ toString s.atomicWrites ++ ", .. \x7d"

end Store

/-- The text that shows options. -/
def Options.describe (o : Options) : String :=
  let root := match o.root with
    | none => "None"
    | some p => "Some(" ++ Text.quoted p.display ++ ")"
  let layout := if o.layout.isSome then "Some(\"..\")" else "None"
  "StoreOptions \x7b root: " ++ root ++ ", transform: " ++ layout ++
    ", atomic_writes: " ++ toString o.atomicWrites ++ " \x7d"

end BlobStore
