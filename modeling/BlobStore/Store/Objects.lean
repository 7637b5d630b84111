import BlobStore.Store.Basic
import BlobStore.Store.Blob
import BlobStore.Store.Directory
import BlobStore.Store.Source

/-!
# The objects of a store

`has` and `read` look for an object, `write` stores one, `delete` removes the whole
first directory of a key's placement, and `clear` removes the root.  A key that has no
site is refused before anything is asked of the file system.
-/

namespace BlobStore.Store

/-- Whether an object is stored under a key.  A missing file, a directory, and a path
on which a file stands for a directory all mean that there is none. -/
def has (s : Store) (key : String) : Action StoreError Bool := do
  let site ← Action.ofExcept (s.site key)
  match ← Action.attempt (.kind site.file) with
  | .ok kind => return kind = .file
  | .error e => if e.isMissing then return false else .fail (.io e)

/-- Writes what a source delivers to the file at a path; bytes of the file before are
lost at once. -/
def writePlain (file : Path) (source : Source) : Action IoError Nat := do
  let h ← Action.request (.create file)
  source.copyTo h

/-- Removes a temporary file and fails. -/
def discard {α : Type} (temp : Path) (e : IoError) : Action IoError α := do
  let _ ← Action.attempt (.unlink temp)
  .fail e

/-- Makes sure that what a copy has written to a file is kept. -/
def syncing (h : Handle) (copy : Action IoError Nat) : Action IoError Nat := do
  let n ← copy
  Action.request (.sync h)
  return n

/-- Writes what a source delivers to a temporary file in a directory, which then takes
the place of the file at a path.  If anything fails, the temporary file is removed. -/
def writeAtomic (dir file : Path) (source : Source) : Action IoError Nat := do
  let (temp, h) ← Action.request (.createTemp dir)
  (syncing h (source.copyTo h)).catching fun
    | .error e => discard temp e
    | .ok n => do
      match ← Action.attempt (.replace temp file) with
      | .ok () => return n
      | .error e => discard temp e

/-- Stores what a source delivers under a key, in the place of any object before, and
answers how many bytes there were. -/
def write (s : Store) (key : String) (source : Source) : Action StoreError Nat := do
  let site ← Action.ofExcept (s.site key)
  Action.mapError .io do
    makeDirs site.dir
    if s.atomicWrites then writeAtomic site.dir site.file source
    else writePlain site.file source

/-- Opens the object that is stored under a key. -/
def read (s : Store) (key : String) : Action StoreError Blob := do
  let site ← Action.ofExcept (s.site key)
  match ← Action.attempt (.openRead site.file) with
  | .ok (.file h size) => return Blob.start h size
  | .ok .dir => .fail (.notFound key)
  | .error e => if e.isMissing then .fail (.notFound key) else .fail (.io e)

/-- A removal at which nothing is found has nothing to do. -/
def removing (r : Request) : Action StoreError Unit := do
  match ← Action.attempt r with
  | .ok _ => return
  | .error e => if e.isNotFound then return else .fail (.io e)

/-- Removes the first directory of a key's placement with everything in it; without
such a directory only the file itself is removed. -/
def delete (s : Store) (key : String) : Action StoreError Unit := do
  let site ← Action.ofExcept (s.site key)
  let first := site.placement.firstSegment
  if first.isEmpty then removing (.unlink site.file)
  else removing (.removeTree (s.root.join (Path.ofString first)))

/-- Removes the root with everything in it. -/
def clear (s : Store) : Action StoreError Unit := removing (.removeTree s.root)

end BlobStore.Store
