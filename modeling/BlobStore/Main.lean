import BlobStore.Command.Run

/-!
# The program

Carries out the requests of an action on the file system of the computer.  The files
that an action has opened are kept in an array, in which a handle's number is an index.
Each of them is read from its first byte to its last, so a request to read goes on
where the one before has ended.
-/

namespace BlobStore

/-- The failure with a number, which may be given as the negative of itself. -/
def Errno.ofCode (code : UInt32) (text : String) : Errno :=
  let code := if code < 0x80000000 then code.toNat else (-code).toNat
  match [noEntry, taken, notDirectory, isDirectory, invalid, nameTooLong, busy, notEmpty].find?
      fun e => e.code = code with
  | some e => e
  | none => other code text

/-- The failure behind an exception. -/
def IoError.ofException : IO.Error → IoError
  | .alreadyExists _ code text | .otherError code text | .resourceBusy code text
  | .resourceVanished code text | .unsupportedOperation code text | .hardwareFault code text
  | .unsatisfiedConstraints code text | .illegalOperation code text | .protocolError code text
  | .timeExpired code text | .interrupted _ code text | .noFileOrDirectory _ code text
  | .invalidArgument _ code text | .permissionDenied _ code text
  | .resourceExhausted _ code text | .inappropriateType _ code text
  | .noSuchThing _ code text => .system (Errno.ofCode code text)
  | .unexpectedEof => .custom "end of file"
  | .userError text => .custom text

/-- The files that are open. -/
abbrev OpenFiles := IO.Ref (Array IO.FS.Handle)

namespace OpenFiles

/-- The file of a handle. -/
def get (files : OpenFiles) (h : Handle) : IO IO.FS.Handle := do
  match (← ST.Ref.get files)[h.number]? with
  | some f => return f
  | none => throw (.userError "file is not open")

/-- Keeps a file open. -/
def add (files : OpenFiles) (f : IO.FS.Handle) : IO Handle := do
  let number := (← ST.Ref.get files).size
  files.modify (·.push f)
  return ⟨number⟩

/-- Makes a file under the first temporary name that is not taken. -/
partial def createTemp (files : OpenFiles) (dir : Path) (n : Nat) : IO (Path × Handle) := do
  let file := dir.join ⟨Disk.tempName n⟩
  try
    let f ← IO.FS.Handle.mk file.display .writeNew
    return (file, ← files.add f)
  catch
    | .alreadyExists .. => createTemp files dir (n + 1)
    | e => throw e

/-- What a path leads to.  If it leads nowhere, opening it tells why. -/
def kind (p : Path) : IO Kind := do
  try
    match (← (← IO.FS.realPath p.display).metadata).type with
    | .dir => return .dir
    | _ => return .file
  catch _ =>
    let _ ← IO.FS.Handle.mk p.display .read
    return .file

/-- Opens for reading. -/
def openRead (files : OpenFiles) (p : Path) : IO Opened := do
  let f ← IO.FS.Handle.mk p.display .read
  let metadata ← (← IO.FS.realPath p.display).metadata
  match metadata.type with
  | .dir => return .dir
  | _ => return .file (← files.add f) metadata.byteSize.toNat

/-- Carries out a request, which may throw. -/
def answer (files : OpenFiles) : (r : Request) → IO r.Result
  | .kind p => kind p
  | .makeDir p => IO.FS.createDir p.display
  | .openRead p => files.openRead p
  | .create p => do files.add (← IO.FS.Handle.mk p.display .write)
  | .createTemp dir => createTemp files dir 0
  | .append h bytes => do
    let f ← files.get h
    f.write bytes
    f.flush
  -- a handle can be asked for no more than that
  | .sync h => do (← files.get h).flush
  | .readAt h _ count => do (← files.get h).read (USize.ofNat count)
  | .readFrom h _ => do (← files.get h).readBinToEnd
  | .replace file target => IO.FS.rename file.display target.display
  | .unlink p => IO.FS.removeFile p.display
  | .removeTree p => IO.FS.removeDirAll p.display

/-- Carries out a request and answers how it ended. -/
def perform (files : OpenFiles) (r : Request) : IO (Except IoError r.Result) := do
  try
    return .ok (← files.answer r)
  catch e =>
    return .error (IoError.ofException e)

/-- Carries out an action. -/
def carryOut (files : OpenFiles) {ε α : Type} : Action ε α → IO (Except ε α)
  | .done a => return .ok a
  | .fail e => return .error e
  | .ask r next => do files.carryOut (next (← files.perform r))

end OpenFiles

/-- What the environment says about the places of files. -/
def Surroundings.ofEnvironment : IO Surroundings := do
  let place (name : String) : IO (Option Path) := do
    return (← IO.getEnv name).map Path.ofString
  return ⟨← place "HOME", ← place "XDG_CONFIG_HOME"⟩

/-- What is on the input, if the call stores it. -/
def input (words : List Word) : IO Source := do
  match Invocation.ofWords words with
  | .ok i =>
    if i.readsInput then return .ofBytes (← (← IO.getStdin).readBinToEnd)
    else return .ofBytes ByteArray.empty
  | .error _ => return .ofBytes ByteArray.empty

end BlobStore

open BlobStore in
def main (arguments : List String) : IO UInt32 := do
  let words := arguments.map fun a => (Path.ofString a).bytes
  let files : OpenFiles ← IO.mkRef #[]
  let action : Action Empty Outcome :=
    respond words (← Surroundings.ofEnvironment) (← input words)
  match ← files.carryOut action with
  | .ok outcome =>
    let out ← IO.getStdout
    out.write outcome.output
    out.flush
    IO.eprint outcome.errors
    return UInt32.ofNat outcome.code
