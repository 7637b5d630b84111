import BlobStore.Disk.Walk

/-!
# Requests to the file system

Everything that the store asks of a file system is one of a few requests.
`Disk.perform` answers a request on a `Disk` and yields the disk afterwards; a request
that fails leaves the disk as it was, but for the removal of a directory tree, which
may remove what lies below before it fails.  A `Disk` keeps at once what is written, so
to wait for that changes nothing and never fails.
-/

namespace BlobStore

/-- A file that has been opened. -/
structure Handle where
  number : Nat
  deriving DecidableEq, Repr

/-- What a path leads to. -/
inductive Kind where
  | dir
  | file
  deriving DecidableEq, Repr

/-- What has been opened for reading; a file's size is noted. -/
inductive Opened where
  | dir
  | file (handle : Handle) (size : Nat)
  deriving DecidableEq, Repr

/-- Something that a file system can be asked to do. -/
inductive Request where
  /-- what does the path lead to? -/
  | kind (p : Path)
  /-- make one directory -/
  | makeDir (p : Path)
  /-- open for reading -/
  | openRead (p : Path)
  /-- open for writing: an existing file loses its bytes, a missing one is made -/
  | create (p : Path)
  /-- make a file with a name of its own in a directory -/
  | createTemp (dir : Path)
  /-- write at the end of a file -/
  | append (h : Handle) (bytes : ByteArray)
  /-- wait until what has been written to a file is kept -/
  | sync (h : Handle)
  /-- read at most some bytes from a position on -/
  | readAt (h : Handle) (position count : Nat)
  /-- read everything from a position on -/
  | readFrom (h : Handle) (position : Nat)
  /-- give a file another path, at which no other file is left -/
  | replace (file target : Path)
  /-- remove a file -/
  | unlink (p : Path)
  /-- remove a directory with everything below it -/
  | removeTree (p : Path)

/-- What a request is answered with if it does not fail. -/
abbrev Request.Result : Request → Type
  | kind _ => Kind
  | makeDir _ => Unit
  | openRead _ => Opened
  | create _ => Handle
  | createTemp _ => Path × Handle
  | append _ _ => Unit
  | sync _ => Unit
  | readAt _ _ _ => ByteArray
  | readFrom _ _ => ByteArray
  | replace _ _ => Unit
  | unlink _ => Unit
  | removeTree _ => Unit

namespace Disk

/-- What a path leads to. -/
def kind (d : Disk) (p : Path) : Except IoError Kind := do
  match (← d.resolve p).2 with
  | .dir => return .dir
  | .file _ => return .file

/-- Makes one directory. -/
def makeDir (d : Disk) (p : Path) : Except IoError Disk := do
  let t ← d.target p
  match t.last with
  | .top | .here | .up => throw (.system .taken)
  | .name n =>
    match ← d.find t.dir n with
    | some _ => throw (.system .taken)
    | none => return d.insert (t.dir ++ [n]) .dir

/-- Opens for reading. -/
def openRead (d : Disk) (p : Path) : Except IoError Opened := do
  match (← d.resolve p).2 with
  | .dir => return .dir
  | .file i => return .file ⟨i⟩ (d.bytes i).size

/-- Opens for writing. -/
def create (d : Disk) (p : Path) : Except IoError (Handle × Disk) := do
  let t ← d.target p
  match t.last with
  | .top | .here | .up => throw (.system .isDirectory)
  | .name n =>
    if t.slash then throw (.system .isDirectory)
    match ← d.find t.dir n with
    | some .dir => throw (.system .isDirectory)
    | some (.file i) => return (⟨i⟩, d.setBytes i ByteArray.empty)
    | none => return (⟨d.contents.size⟩, d.insertFile (t.dir ++ [n]))

/-- The name of a temporary file: a mark and the digits of a number, six at least. -/
def tempName (n : Nat) : Name :=
  let digits := Nat.toDigits 10 n
  (".tmp".toList ++ List.replicate (6 - digits.length) '0' ++ digits).map fun c => UInt8.ofNat c.toNat

/-- The first temporary name that is not taken in a directory.  There are more names
to choose from than nodes on the disk. -/
def freeName (d : Disk) (dir : Location) : Name :=
  tempName <| ((List.range (d.nodes.length + 1)).find? fun n =>
    (d.node? (dir ++ [tempName n])).isNone).getD 0

/-- The number of bytes of the path of the base, from the top of the disk. -/
def baseLength (d : Disk) : Nat := d.base.foldr (fun n total => n.length + 1 + total) 0

/-- Makes a file with a name of its own in a directory.  Its path is followed from the
top of the disk, so the length of the base counts for a relative directory.  A file that
is there already is never opened. -/
def createTemp (d : Disk) (dir : Path) : Except IoError (Path × Handle × Disk) := do
  let inside (name : Name) : Path := dir.join ⟨name⟩
  let t ← d.target (inside (tempName 0))
  let name := d.freeName t.dir
  let above := if dir.isAbsolute then 0 else d.baseLength + 1
  if maxPath < above + (inside name).bytes.length then throw (.system .nameTooLong)
  match ← d.find t.dir name with
  | some _ => throw (.system .taken)
  | none => return (inside name, ⟨d.contents.size⟩, d.insertFile (t.dir ++ [name]))

/-- Writes at the end of a file. -/
def append (d : Disk) (h : Handle) (bytes : ByteArray) : Disk :=
  d.setBytes h.number (d.bytes h.number ++ bytes)

/-- At most some bytes of a file from a position on. -/
def readAt (d : Disk) (h : Handle) (position count : Nat) : ByteArray :=
  (d.bytes h.number).extract position (position + count)

/-- The bytes of a file from a position on. -/
def readFrom (d : Disk) (h : Handle) (position : Nat) : ByteArray :=
  (d.bytes h.number).extract position (d.bytes h.number).size

/-- Gives a file another path. -/
def replace (d : Disk) (file target : Path) : Except IoError Disk := do
  let f ← d.target file
  let t ← d.target target
  match f.last, t.last with
  | .name old, .name new =>
    match ← d.find f.dir old with
    | none => throw (.system .noEntry)
    | some .dir => throw (.system .isDirectory)
    | some (.file i) =>
      let found ← d.find t.dir new
      if f.slash || t.slash then throw (.system .notDirectory)
      if found = some .dir then throw (.system .isDirectory)
      return (d.erase (f.dir ++ [old])).insert (t.dir ++ [new]) (.file i)
  | _, _ => throw (.system .busy)

/-- Removes a file. -/
def unlink (d : Disk) (p : Path) : Except IoError Disk := do
  let t ← d.target p
  match t.last with
  | .top | .here | .up => throw (.system .isDirectory)
  | .name n =>
    match ← d.find t.dir n with
    | none => throw (.system .noEntry)
    | some .dir => throw (.system .isDirectory)
    | some (.file _) =>
      if t.slash then throw (.system .notDirectory)
      return d.erase (t.dir ++ [n])

/-- Removes a directory with everything below it.  What lies below is removed first;
then the path is followed again to remove the directory itself, which fails if the
path ends in a dot or two, is the top of the disk, or led through what has been
removed. -/
def removeTree (d : Disk) (p : Path) : Except IoError Unit × Disk :=
  match d.resolve p with
  | .error e => (.error e, d)
  | .ok (_, .file _) => (.error (.system .notDirectory), d)
  | .ok (l, .dir) =>
    let cleared := d.eraseBelow l
    match cleared.target p with
    | .error e => (.error e, cleared)
    | .ok t =>
      match t.last with
      | .name _ => (.ok (), cleared.erase l)
      | .here => (.error (.system .invalid), cleared)
      | .up => (.error (.system .notEmpty), cleared)
      | .top => (.error (.system .busy), cleared)

/-- An answer that leaves the disk as it is. -/
def looking {α : Type} (d : Disk) (answer : Except IoError α) : Except IoError α × Disk := (answer, d)

/-- An answer with the disk after a change, or the disk as it was after a failure. -/
def changing (d : Disk) (answer : Except IoError Disk) : Except IoError Unit × Disk :=
  match answer with
  | .ok d' => (.ok (), d')
  | .error e => (.error e, d)

/-- Answers a request. -/
def perform (d : Disk) : (r : Request) → Except IoError r.Result × Disk
  | .kind p => d.looking (d.kind p)
  | .makeDir p => d.changing (d.makeDir p)
  | .openRead p => d.looking (d.openRead p)
  | .create p =>
    match d.create p with
    | .ok (h, d') => (.ok h, d')
    | .error e => (.error e, d)
  | .createTemp dir =>
    match d.createTemp dir with
    | .ok (p, h, d') => (.ok (p, h), d')
    | .error e => (.error e, d)
  | .append h bytes => (.ok (), d.append h bytes)
  | .sync _ => d.looking (.ok ())
  | .readAt h position count => d.looking (.ok (d.readAt h position count))
  | .readFrom h position => d.looking (.ok (d.readFrom h position))
  | .replace file target => d.changing (d.replace file target)
  | .unlink p => d.changing (d.unlink p)
  | .removeTree p => d.removeTree p

end Disk

end BlobStore
