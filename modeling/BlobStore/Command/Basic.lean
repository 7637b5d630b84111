import BlobStore.Command.Help

/-!
# Commands

A `Command` is what the program is asked to do with a store.  Each command has a form:
its name, the arguments it understands, and what they mean together.
-/

namespace BlobStore

/-- What the program is asked to do. -/
inductive Command where
  /-- store a file, or the input, under a key -/
  | put (key : String) (file : Option Path)
  /-- write an object to a file, or to the output -/
  | get (key : String) (output : Option Path)
  | has (key : String)
  | delete (key : String)
  | clear
  /-- show where a key is stored -/
  | path (key : String)
  /-- show the configuration, and save it if asked to -/
  | config (save : Bool)
  deriving DecidableEq, Repr

namespace Command

/-- The values of the arguments of a command, as far as they have been read. -/
structure Draft where
  key : Option String
  file : Option Path
  output : Option Path
  save : Bool

/-- A command by name. -/
structure Form where
  name : String
  about : String
  operands : List (Slot Draft)
  switches : List (Switch Draft)
  /-- the command, if no argument is missing -/
  finish : Draft → Option Command

/-- The slot of the key. -/
def keySlot : Slot Draft :=
  .ofReader "<KEY>" "The key" (·.key.isSome) Slot.text fun k d => { d with key := some k }

/-- The slot of the file to store. -/
def fileSlot : Slot Draft :=
  .ofReader "[FILE]" "File to store; stdin when omitted" (·.file.isSome) Slot.path
    fun p d => { d with file := some p }

/-- The slot of the file to write. -/
def outputSlot : Slot Draft :=
  .ofReader "--output <OUTPUT>" "Output file; stdout when omitted" (·.output.isSome) Slot.path
    fun p d => { d with output := some p }

/-- The slot for saving. -/
def saveSlot : Slot Draft :=
  .flag "--save" "Save it to the config file" (·.save) fun d => { d with save := true }

/-- All commands. -/
def forms : List Form :=
  [ { name := "put"
      about := "Store a file (or stdin) under a key"
      operands := [keySlot, fileSlot]
      switches := []
      finish := fun d => d.key.map fun k => put k d.file },
    { name := "get"
      about := "Write the object stored under a key to stdout or a file"
      operands := [keySlot]
      switches := [⟨"output", some 'o', .value outputSlot⟩]
      finish := fun d => d.key.map fun k => get k d.output },
    { name := "has"
      about := "Check whether a key is stored"
      operands := [keySlot]
      switches := []
      finish := fun d => d.key.map has },
    { name := "delete"
      about := "Delete a key's whole first-segment directory"
      operands := [keySlot]
      switches := []
      finish := fun d => d.key.map delete },
    { name := "clear"
      about := "Remove the store root and everything in it"
      operands := []
      switches := []
      finish := fun _ => some clear },
    { name := "path"
      about := "Show where a key is stored"
      operands := [keySlot]
      switches := []
      finish := fun d => d.key.map path },
    { name := "config"
      about := "Show the effective configuration"
      operands := []
      switches := [⟨"save", none, .flag saveSlot⟩]
      finish := fun d => some (config d.save) } ]

namespace Form

/-- What a command understands. -/
def grammar (f : Form) : Grammar Draft :=
  let g : Grammar Draft := ⟨f.switches, f.operands, []⟩
  let help (switches : List (Switch Draft)) : String :=
    { g with switches }.help (programName ++ " " ++ f.name) f.about []
  let askHelp (text : String) : Switch Draft := ⟨"help", some 'h', .ends "Print help" (.help text)⟩
  { g with switches := f.switches ++ [askHelp (help (f.switches ++ [askHelp ""]))] }

/-- The command that the words after its name ask for. -/
def read (f : Form) (words : List Word) : Except Halt Command := do
  let ending ← f.grammar.read ⟨none, none, none, false⟩ words
  let r ← ending.reading.settle
  match f.finish r.values with
  | some c => return c
  | none => .error (.refused .missingOperand)

end Form

end Command

end BlobStore
