import BlobStore.Store.Error

/-!
# Failures of commands

A command fails because its store does, or because of a file that it was told to use.
-/

namespace BlobStore

/-- Why a command fails. -/
inductive CommandError where
  | store (e : StoreError)
  /-- the file to store cannot be opened -/
  | notOpened (file : Path) (e : IoError)
  /-- the file to write cannot be made -/
  | notCreated (file : Path) (e : IoError)
  /-- an object cannot be copied to where it is wanted -/
  | notCopied (e : IoError)
  | noConfigFile (file : Path)
  | noConfigDirectory
  /-- the configuration cannot be shown -/
  | notShown (e : JsonFault)

namespace CommandError

/-- The wording of a failure. -/
def message : CommandError → String
  | store e => e.message
  | notOpened file _ => "open " ++ file.display
  | notCreated file _ => "create " ++ file.display
  | notCopied e => e.message
  | noConfigFile file => "config file " ++ file.display ++ " does not exist"
  | noConfigDirectory => "Could not find config directory"
  | notShown e => e.message

/-- The wording of the failure behind a failure, if there is one. -/
def cause? : CommandError → Option String
  | store e => e.cause?
  | notOpened _ e => some e.message
  | notCreated _ e => some e.message
  | _ => none

/-- A text with each of its lines indented by four blanks. -/
def indented (s : String) : List Char :=
  ['\n'].intercalate ((Text.parts '\n' s.toList).map ([' ', ' ', ' ', ' '] ++ ·))

/-- The report of a failure, with what is behind it in a paragraph of its own. -/
def report (e : CommandError) : String :=
  "Error: " ++ e.message ++
    (match e.cause? with
    | some c => "\n\nCaused by:\n" ++ String.ofList (indented c)
    | none => "") ++ "\n"

end CommandError

end BlobStore
