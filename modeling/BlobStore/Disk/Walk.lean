import BlobStore.Disk.Basic

/-!
# Following a path

A system call follows all parts of a path but the last, each of which has to lead to
a directory, and treats the last one by itself.  Repeated slashes count as one; `.`
and `..` may stand anywhere.  A name has at most 255 bytes and a path at most 4095.
-/

namespace BlobStore

/-- The last part of a path. -/
inductive Last where
  /-- the path consists of slashes -/
  | top
  /-- a single dot -/
  | here
  /-- two dots -/
  | up
  | name (n : Name)
  deriving DecidableEq, Repr

/-- Where a path leads: a directory, the last part in it, and whether a slash
follows. -/
structure Target where
  dir : Location
  last : Last
  slash : Bool
  deriving DecidableEq, Repr

namespace Disk

/-- The number of bytes that a name may have. -/
def maxName : Nat := 255

/-- The number of bytes that a path may have. -/
def maxPath : Nat := 4095

/-- What a name in a directory leads to, if there may be such a name. -/
def find (d : Disk) (dir : Location) (n : Name) : Except IoError (Option Node) :=
  if maxName < n.length then .error (.system .nameTooLong) else .ok (d.node? (dir ++ [n]))

/-- The directory to which a part leads from another directory. -/
def enter (d : Disk) (dir : Location) (part : Name) : Except IoError Location :=
  if part = Path.dot then .ok dir
  else if part = Path.dotDot then .ok dir.dropLast
  else
    match d.find dir part with
    | .error e => .error e
    | .ok none => .error (.system .noEntry)
    | .ok (some (.file _)) => .error (.system .notDirectory)
    | .ok (some .dir) => .ok (dir ++ [part])

/-- The directory to which some parts lead one after the other. -/
def walk (d : Disk) : Location → List Name → Except IoError Location
  | dir, [] => .ok dir
  | dir, part :: parts =>
    match d.enter dir part with
    | .error e => .error e
    | .ok dir => d.walk dir parts

/-- Where a path leads. -/
def target (d : Disk) (p : Path) : Except IoError Target :=
  if 0 ∈ p.bytes then .error .zeroByte
  else if p.bytes = [] then .error (.system .noEntry)
  else if maxPath < p.bytes.length then .error (.system .nameTooLong)
  else
    let parts := (Text.parts Path.slash p.bytes).filter (!·.isEmpty)
    let start := if p.isAbsolute then [] else d.base
    match d.walk start parts.dropLast with
    | .error e => .error e
    | .ok dir =>
      let last := match parts.getLast? with
        | none => Last.top
        | some n => if n = Path.dot then .here else if n = Path.dotDot then .up else .name n
      .ok ⟨dir, last, p.endsInSlash⟩

/-- The location and the node to which a path leads.  A slash at the end asks for a
directory. -/
def resolve (d : Disk) (p : Path) : Except IoError (Location × Node) := do
  let t ← d.target p
  match t.last with
  | .top | .here => return (t.dir, .dir)
  | .up => return (t.dir.dropLast, .dir)
  | .name n =>
    match ← d.find t.dir n with
    | none => throw (.system .noEntry)
    | some .dir => return (t.dir ++ [n], .dir)
    | some (.file i) =>
      if t.slash then throw (.system .notDirectory) else return (t.dir ++ [n], .file i)

end Disk

end BlobStore
