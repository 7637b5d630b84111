import BlobStore.Disk.Error
import BlobStore.Json.Fault
import BlobStore.Path.Basic

/-!
# Failures of a store

Each failure is a cause with what is needed to word it; `StoreError.message` words
it.
-/

namespace BlobStore

/-- Why a key has no place in a store. -/
inductive KeyFault where
  /-- the filename has nothing after its last slash -/
  | emptyFilename
  /-- a part of the placement leads out of the root -/
  | outsideRoot
  deriving DecidableEq, Repr

/-- Why a store cannot be configured. -/
inductive ConfigFault where
  | unknownAlgorithm (name : String)
  | unknownScheme (name : String)
  | zeroBlockSize
  | unreadable (file : Path) (e : IoError)
  | directoryNotMade (e : IoError)
  | notWritten (e : IoError)
  deriving DecidableEq, Repr

/-- Why something cannot be read from JSON or written as JSON. -/
inductive JsonFault where
  | misread (e : Json.Misread) (text : String)
  /-- a path that is not UTF-8 has no JSON form -/
  | pathNotUtf8

/-- Why an operation of a store fails. -/
inductive StoreError where
  | io (e : IoError)
  | json (e : JsonFault)
  | notFound (key : String)
  | invalidKey (key : String) (fault : KeyFault)
  | config (fault : ConfigFault)

/-- The wording of a fault in a key. -/
def KeyFault.message : KeyFault → String
  | emptyFilename => "maps to an empty filename"
  | outsideRoot => "resolves outside the store root"

/-- The wording of a fault in the configuration. -/
def ConfigFault.message : ConfigFault → String
  | unknownAlgorithm name => "Unknown hash algorithm: " ++ name
  | unknownScheme name => "Unknown transform: " ++ name
  | zeroBlockSize => "block size must be at least 1"
  | unreadable file e => "Failed to read config " ++ file.display ++ ": " ++ e.message
  | directoryNotMade e => "Failed to create config dir: " ++ e.message
  | notWritten e => "Failed to write config: " ++ e.message

/-- The wording of a fault in JSON. -/
def JsonFault.message : JsonFault → String
  | misread e text => e.message text
  | pathNotUtf8 => "path contains invalid UTF-8 characters"

namespace StoreError

/-- The wording of a failure. -/
def message : StoreError → String
  | io e => "IO error: " ++ e.message
  | json e => "JSON error: " ++ e.message
  | notFound key => "Object not found: " ++ key
  | invalidKey key fault => "Invalid key: " ++ Text.quoted key ++ " " ++ fault.message
  | config fault => "Config error: " ++ fault.message

/-- The wording of the failure behind a failure, if there is one. -/
def cause? : StoreError → Option String
  | io e => some e.message
  | json e => some e.message
  | _ => none

end StoreError

end BlobStore
