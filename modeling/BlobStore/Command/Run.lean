import BlobStore.Command.Failure
import BlobStore.Command.Invocation
import BlobStore.Config.File
import BlobStore.Store.Objects

/-!
# Carrying out a call

`Command.run` carries out a command and answers what is written to the output;
`respond` carries out a call from its words to its exit code.
-/

namespace BlobStore

/-- What a call leaves behind besides its effect on the disk. -/
structure Outcome where
  code : Nat
  output : ByteArray
  errors : String

namespace Settings

/-- The configuration of a call, before it is overridden.  A file that is named has to
be there, unless the configuration is about to be saved to it. -/
def loadConfig (s : Settings) (saving : Bool) (around : Surroundings) :
    Action CommandError Config := do
  if s.noConfigFile then return Config.standard
  match s.configFile with
  | .none => Action.mapError .store (Config.loadDefault around)
  | some p =>
    if ← leadsSomewhere p then Action.mapError .store (Config.load p)
    else if saving then return Config.standard
    else .fail (.noConfigFile p)

end Settings

namespace Command

/-- Whether a command saves the configuration. -/
def isSaving : Command → Bool
  | config save => save
  | _ => false

/-- What is shown after `put`. -/
def storedRecord (key : String) (bytes : Nat) (file : Path) : Json.Record :=
  [("bytes", .natural bytes), ("key", .text key), ("path", .text file.display),
    ("status", .text "ok")]

/-- What is shown of a configuration, which may have been saved to a file. -/
def configRecord (c : Config) (root : String) (saved : Option Path) : Json.Record :=
  [("atomic_writes", .boolean c.atomicWrites), ("block_size", .natural c.blockSize),
    ("hash", .text c.algorithm.name), ("root", .text root)] ++
  (saved.toList.map fun p => ("saved", .text p.display)) ++
  [("transform", .text c.scheme.name)]

/-- Stores a file, or the input. -/
def runPut (store : Store) (key : String) (file : Option Path) (input : Source) :
    Action CommandError Json.Record := do
  let source ← match file with
    | none => pure input
    | some p => Source.opened <$> Action.mapError (.notOpened p) (Action.request (.openRead p))
  let bytes ← Action.mapError .store (store.write key source)
  let place ← Action.mapError .store (Action.ofExcept (store.location key))
  return storedRecord key bytes place

/-- Copies an object to a file.  The file is made when the object has been opened, and
before anything of it is read. -/
def runExport (store : Store) (key : String) (target : Path) :
    Action CommandError Json.Record := do
  let blob ← Action.mapError .store (store.read key)
  let h ← Action.mapError (.notCreated target) (Action.request (.create target))
  Action.mapError .notCopied do
    let bytes ← blob.rest
    Action.request (.append h bytes)
  return [("bytes", .natural blob.size), ("key", .text key), ("output", .text target.display),
    ("status", .text "ok")]

/-- Shows where a key is stored. -/
def runPath (store : Store) (key : String) : Action CommandError Json.Record := do
  let place ← Action.mapError .store (Action.ofExcept (store.location key))
  let p := store.layout key
  return [("filename", .text p.filename), ("first_segment", .text p.firstSegment),
    ("key", .text key), ("location", .text place.display), ("pathname", .text p.pathname)]

/-- Shows the configuration, and saves it to a file if asked to. -/
def runConfig (c : Config) (file : Option Path) (save : Bool) :
    Action CommandError Json.Record := do
  match c.root.toString? with
  | none => .fail (.notShown .pathNotUtf8)
  | some root =>
    if save then
      match file with
      | none => .fail .noConfigDirectory
      | some p =>
        Action.mapError .store (c.save p)
        return configRecord c root (some p)
    else return configRecord c root none

/-- Carries out a command; the bytes are what is written to the output. -/
def run (command : Command) (settings : Settings) (config : Config) (around : Surroundings)
    (input : Source) : Action CommandError ByteArray := do
  let store ← Action.mapError .store (Action.ofExcept config.toStore)
  let shown (r : Json.Record) : ByteArray :=
    ((settings.format.getD .json).write r).toUTF8
  match command with
  | put key file => shown <$> runPut store key file input
  | get key (some target) => shown <$> runExport store key target
  | get key none => do
    let blob ← Action.mapError .store (store.read key)
    Action.mapError .notCopied blob.rest
  | has key => do
    let present ← Action.mapError .store (store.has key)
    return shown [("exists", .boolean present), ("key", .text key)]
  | delete key => do
    Action.mapError .store (store.delete key)
    return shown [("deleted", .text key), ("status", .text "ok")]
  | clear => do
    Action.mapError .store store.clear
    return shown [("cleared", .text store.root.display), ("status", .text "ok")]
  | path key => shown <$> runPath store key
  | .config save =>
    shown <$> runConfig config (settings.configFile <|> around.configFile?) save

end Command

/-- Carries out a call. -/
def Invocation.run (i : Invocation) (around : Surroundings) (input : Source) :
    Action CommandError ByteArray := do
  let loaded ← i.settings.loadConfig i.command.isSaving around
  i.command.run i.settings (i.settings.override loaded) around input

/-- The outcome of a call that asks for nothing to be carried out. -/
def Halt.outcome : Halt → Outcome
  | refused e => ⟨2, ByteArray.empty, "error: " ++ e.message ++ "\n"⟩
  | nothingGiven text => ⟨2, ByteArray.empty, text⟩
  | help text => ⟨0, text.toUTF8, ""⟩
  | version => ⟨0, (programName ++ " 0.1.0\n").toUTF8, ""⟩

/-- Carries out what the words of a call ask for.  This action does not fail: failures
are reported in its outcome. -/
def respond {ε : Type} (words : List Word) (around : Surroundings) (input : Source) :
    Action ε Outcome :=
  match Invocation.ofWords words with
  | .error h => pure h.outcome
  | .ok i =>
    (i.run around input).catching fun
      | .ok output => pure ⟨0, output, ""⟩
      | .error e => pure ⟨1, ByteArray.empty, e.report⟩

end BlobStore
