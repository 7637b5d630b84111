import BlobStore.Command.Basic
import BlobStore.Config.Basic

/-!
# Invocations

An `Invocation` is a whole call of the program: settings, a command, and what the
settings change in the configuration.  Settings stand before the command.
-/

namespace BlobStore

/-- How results are written. -/
inductive Format where
  /-- JSON on one line -/
  | json
  /-- JSON with a line for each field -/
  | text
  deriving DecidableEq, Repr

/-- The text of a result. -/
def Format.write (f : Format) (r : Json.Record) : String :=
  match f with
  | json => r.compact ++ "\n"
  | text => r.indented ++ "\n"

/-- What stands before the command. -/
structure Settings where
  configFile : Option Path
  /-- whether configuration files are ignored -/
  noConfigFile : Bool
  root : Option Path
  scheme : Option Scheme
  algorithm : Option Digest.Algorithm
  blockSize : Option Nat
  atomicWrites : Bool
  format : Option Format
  deriving DecidableEq, Repr

/-- A call of the program. -/
structure Invocation where
  settings : Settings
  command : Command
  deriving DecidableEq, Repr

namespace Settings

/-- Nothing is set. -/
def none : Settings := ⟨.none, false, .none, .none, .none, .none, false, .none⟩

/-- The configuration with what is set in the place of its values. -/
def override (s : Settings) (c : Config) : Config where
  root := s.root.getD c.root
  scheme := s.scheme.getD c.scheme
  algorithm := s.algorithm.getD c.algorithm
  blockSize := s.blockSize.getD c.blockSize
  atomicWrites := s.atomicWrites || c.atomicWrites

/-- The slot of the configuration file. -/
def configFileSlot : Slot Settings :=
  .ofReader "--config <CONFIG>"
    "Config file (defaults to ~/.config/shardstore/config.json when present)"
    (·.configFile.isSome) Slot.path fun p s => { s with configFile := some p }

/-- The slot for ignoring configuration files. -/
def noConfigFileSlot : Slot Settings :=
  .flag "--no-config" "Ignore config files and use built-in defaults" (·.noConfigFile)
    fun s => { s with noConfigFile := true }

/-- The slot of the root. -/
def rootSlot : Slot Settings :=
  .ofReader "--root <ROOT>" "Root directory of the store" (·.root.isSome) Slot.path
    fun p s => { s with root := some p }

/-- The slot of the scheme. -/
def schemeSlot : Slot Settings :=
  .ofReader "--transform <TRANSFORM>" "Key transform: cas or identity" (·.scheme.isSome)
    (Slot.choice Scheme.named fun e => (StoreError.config e).message)
    fun k s => { s with scheme := some k }

/-- The slot of the digest algorithm. -/
def algorithmSlot : Slot Settings :=
  .ofReader "--hash <HASH>" "Digest for the cas transform: sha1 or blake3" (·.algorithm.isSome)
    (Slot.choice Digest.Algorithm.named fun e => (StoreError.config e).message)
    fun a s => { s with algorithm := some a }

/-- The slot of the width of directories. -/
def blockSizeSlot : Slot Settings :=
  .ofReader "--block-size <BLOCK_SIZE>" "Directory segment width for the cas transform"
    (·.blockSize.isSome) Slot.count fun n s => { s with blockSize := some n }

/-- The slot for atomic writes. -/
def atomicSlot : Slot Settings :=
  .flag "--atomic" "Write through a temp file and rename into place" (·.atomicWrites)
    fun s => { s with atomicWrites := true }

/-- The slot of the format. -/
def formatSlot : Slot Settings :=
  .ofReader "--format <FORMAT>"
    "Output format (json or text) [default: json] [possible values: json, text]"
    (·.format.isSome) (Slot.oneOf [("json", .json), ("text", .text)])
    fun f s => { s with format := some f }

/-- The switches that set something. -/
def switches : List (Switch Settings) :=
  [ ⟨"config", some 'c', .value configFileSlot⟩,
    ⟨"no-config", .none, .flag noConfigFileSlot⟩,
    ⟨"root", some 'r', .value rootSlot⟩,
    ⟨"transform", some 't', .value schemeSlot⟩,
    ⟨"hash", .none, .value algorithmSlot⟩,
    ⟨"block-size", some 'b', .value blockSizeSlot⟩,
    ⟨"atomic", .none, .flag atomicSlot⟩,
    ⟨"format", some 'f', .value formatSlot⟩ ]

/-- The switches that ask for help and for the version. -/
def questions (help : String) : List (Switch Settings) :=
  [ ⟨"help", some 'h', .ends "Print help" (.help help)⟩,
    ⟨"version", some 'V', .ends "Print version" .version⟩ ]

/-- What the program is. -/
def about : String := "A content-addressable local blob store"

/-- The help on the program. -/
def help : String :=
  let commands : List HelpRow := Command.forms.map (fun f => ⟨f.name, f.about⟩) ++
    [⟨"help", "Print this message or the help of the given subcommand(s)"⟩]
  let g : Grammar Settings := ⟨switches ++ questions "", [], []⟩
  g.help programName about commands

/-- What stands before a command. -/
def grammar : Grammar Settings :=
  ⟨switches ++ questions help, [], Command.forms.map Command.Form.name ++ ["help"]⟩

/-- Two settings that exclude each other, the one that was given first in front. -/
def exclusion? (s : Settings) (given : List String) : Option (String × String) :=
  if s.noConfigFile && s.configFile.isSome then
    let names := given.reverse.filter fun n => n = configFileSlot.name || n = noConfigFileSlot.name
    match names with
    | first :: second :: _ => some (first, second)
    | _ => .none
  else .none

end Settings

namespace Invocation

/-- The help on the command that a word names. -/
def helpText? (w : Word) : Option String :=
  match Command.forms.find? fun f => f.name.toUTF8.data.toList == w with
  | some f => some (f.grammar.help (programName ++ " " ++ f.name) f.about [])
  | .none => if w = "help".toUTF8.data.toList then some Settings.help else .none

/-- The answer to the words after `help`, of which one may name a command. -/
def helpOn : List Word → Halt
  | [] => .help Settings.help
  | w :: rest =>
    match helpText? w, rest with
    | some text, [] => .help text
    | some _, w' :: _ => .refused (.unknownCommand (Text.lossy w'))
    | .none, _ => .refused (.unknownCommand (Text.lossy w))

/-- Reads the command and the words after it.  A refusal of these comes before one of
a setting that stands just before the command. -/
def readCommand (name : String) (words : List Word) : Except Halt Command :=
  match Command.forms.find? fun f => f.name == name with
  | some f => f.read words
  | .none => .error (helpOn words)

/-- The call that some words make. -/
def ofWords (words : List Word) : Except Halt Invocation := do
  let ending ← Settings.grammar.read Settings.none words
  match ending.command with
  | .none =>
    let r ← ending.reading.settle
    if r.given.isEmpty then .error (.nothingGiven Settings.help)
    else .error (.refused .missingCommand)
  | some (name, rest) =>
    let command ← readCommand name rest
    let r ← ending.reading.settle
    match r.values.exclusion? r.given with
    | some (argument, other) => .error (.refused (.excludedBy argument other))
    | .none => return ⟨r.values, command⟩

/-- Whether a call stores what it finds on the input. -/
def readsInput (i : Invocation) : Bool :=
  match i.command with
  | .put _ .none => true
  | _ => false

end Invocation

end BlobStore
