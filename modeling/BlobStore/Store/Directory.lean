import BlobStore.Action

/-!
# Making directories

`makeDirs` makes a directory with all that are missing above it.  It tries the
directory itself first and goes up only if something is missing, so that a file in the
way is noticed by the request that meets it.
-/

namespace BlobStore

/-- Whether a path leads to a directory. -/
def isDirectory {ε : Type} (p : Path) : Action ε Bool := do
  match ← Action.attempt (.kind p) with
  | .ok .dir => return true
  | _ => return false

/-- Makes one directory; it is no failure if it is there already. -/
def makeDir (p : Path) : Action IoError Unit := do
  match ← Action.attempt (.makeDir p) with
  | .ok () => return
  | .error e => if ← isDirectory p then return else .fail e

/-- Makes the first of some paths a directory; those after it are the paths above,
each the parent of the one before. -/
def makeFirst : List Path → Action IoError Unit
  | [] => .fail .noParent
  | p :: above =>
    if p.isEmpty then pure ()
    else do
      match ← Action.attempt (.makeDir p) with
      | .ok () => return
      | .error (.system .noEntry) =>
        makeFirst above
        makeDir p
      | .error e => if ← isDirectory p then return else .fail e

/-- Makes a directory with all that are missing above it. -/
def makeDirs (p : Path) : Action IoError Unit := makeFirst p.ancestors

end BlobStore
