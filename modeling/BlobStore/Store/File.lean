import BlobStore.Action

/-!
# Whole files

Reading and writing all bytes of a file at once.
-/

namespace BlobStore

/-- Whether a path leads to anything. -/
def leadsSomewhere {ε : Type} (p : Path) : Action ε Bool := do
  match ← Action.attempt (.kind p) with
  | .ok _ => return true
  | .error _ => return false

/-- All bytes of a file. -/
def readBytes (p : Path) : Action IoError ByteArray := do
  match ← Action.request (.openRead p) with
  | .dir => .fail (.system .isDirectory)
  | .file h _ => Action.request (.readFrom h 0)

/-- The text of a file, which has to be UTF-8. -/
def readText (p : Path) : Action IoError String := do
  match String.fromUTF8? (← readBytes p) with
  | some text => return text
  | none => .fail .notUtf8

/-- Writes a file, in the place of any file before. -/
def writeFile (p : Path) (bytes : ByteArray) : Action IoError Unit := do
  let h ← Action.request (.create p)
  Action.request (.append h bytes)

end BlobStore
