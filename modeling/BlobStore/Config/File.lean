import BlobStore.Config.Basic
import BlobStore.Store.Directory
import BlobStore.Store.File

/-!
# Configuration files

`Config.load` reads a configuration from a file and `Config.save` writes one.  The file
has a default place below the directory for configurations.
-/

namespace BlobStore

/-- What the surroundings of a run say about the places of files. -/
structure Surroundings where
  /-- the home directory -/
  home : Option Path
  /-- the directory for configurations, if it is not below the home directory; only
  an absolute path counts -/
  configHome : Option Path

namespace Surroundings

/-- The directory for configurations. -/
def configDir? (s : Surroundings) : Option Path :=
  match s.configHome.filter Path.isAbsolute with
  | some dir => some dir
  | none => (s.home.filter (!·.isEmpty)).map (·.join (Path.ofString ".config"))

/-- The default place of the configuration file. -/
def configFile? (s : Surroundings) : Option Path :=
  s.configDir?.map fun dir =>
    (dir.join (Path.ofString "shardstore")).join (Path.ofString "config.json")

end Surroundings

namespace Config

/-- Reads a configuration from a file. -/
def load (p : Path) : Action StoreError Config := do
  let text ← Action.mapError (fun e => .config (.unreadable p e)) (readText p)
  match ofJson text with
  | .ok c => return c
  | .error e => .fail (.json (.misread e text))

/-- Reads the configuration from its default place; without a file there, it is the
standard one. -/
def loadDefault (s : Surroundings) : Action StoreError Config := do
  match s.configFile? with
  | none => return standard
  | some p => if ← leadsSomewhere p then load p else return standard

/-- Writes a configuration to a file, in the place of any file before.  Directories
above it are made. -/
def save (c : Config) (p : Path) : Action StoreError Unit := do
  match p.parent? with
  | none => pure ()
  | some dir => Action.mapError (fun e => .config (.directoryNotMade e)) (makeDirs dir)
  match c.toRecord with
  | .error e => .fail (.json e)
  | .ok r =>
    Action.mapError (fun e => .config (.notWritten e)) (writeFile p r.indented.toUTF8)

end Config

end BlobStore
