import BlobStore.Command.Slot

/-!
# Reading arguments

A grammar lists the switches, which are named by a word, the operands, which are known
by their position, and the commands, at which the reading ends.  The value of a switch
may be attached to its name or be the next word.

A value that stands by itself, be it of a switch or of an operand, is entered only
when the next argument has been recognised.  So an argument that is not recognised is
reported before a value in front of it that cannot be read.
-/

namespace BlobStore

/-- How the reading of arguments can end without a command to carry out. -/
inductive Halt where
  | refused (e : UsageError)
  /-- the help is asked for -/
  | help (text : String)
  /-- nothing is asked for -/
  | nothingGiven (help : String)
  /-- the version is asked for -/
  | version

/-- What a switch does. -/
inductive Meaning (σ : Type) where
  /-- it ends the reading -/
  | ends (about : String) (h : Halt)
  /-- it stands alone -/
  | flag (slot : Slot σ)
  /-- it has a value -/
  | value (slot : Slot σ)

/-- An argument that is given by name. -/
structure Switch (σ : Type) where
  long : String
  short : Option Char
  meaning : Meaning σ

/-- The arguments that a program or a command understands. -/
structure Grammar (σ : Type) where
  switches : List (Switch σ)
  operands : List (Slot σ)
  commands : List String

/-- A slot whose word has been met, or is still awaited. -/
structure Pending (σ : Type) where
  slot : Slot σ
  word : Option Word

/-- What has been read. -/
structure Reading (σ : Type) where
  values : σ
  /-- the names of the arguments that have been entered, the first one last -/
  given : List String
  pending : Option (Pending σ)
  /-- the operands that have not been met -/
  operands : List (Slot σ)

/-- The end of a reading: at the last word, or at a command with the words after it. -/
structure Ending (σ : Type) where
  reading : Reading σ
  command : Option (String × List Word)

namespace Reading

variable {σ : Type}

/-- Enters a value, unless there is one already. -/
def enter (r : Reading σ) (slot : Slot σ) (w : Word) : Except Halt (Reading σ) :=
  if slot.isSet r.values then .error (.refused (.repeated slot.name))
  else
    match slot.enter w with
    | .error e => .error (.refused (e.on slot.name))
    | .ok put => .ok { r with values := put r.values, given := slot.name :: r.given }

/-- Enters the word that has been met last, if it has not been entered. -/
def settle (r : Reading σ) : Except Halt (Reading σ) :=
  match r.pending with
  | none => .ok r
  | some ⟨slot, none⟩ => .error (.refused (.missingValue slot.name))
  | some ⟨slot, some w⟩ => { r with pending := none }.enter slot w

/-- The switch whose value the next word is. -/
def awaiting (r : Reading σ) : Option (Slot σ) :=
  match r.pending with
  | some ⟨slot, none⟩ => some slot
  | _ => none

/-- Goes on after a switch, which may have a value attached. -/
def switch (r : Reading σ) (s : Switch σ) (attached : Option Word) : Except Halt (Reading σ) :=
  match s.meaning, attached with
  | .value slot, none => do return { ← r.settle with pending := some ⟨slot, none⟩ }
  | .value slot, some w => do (← r.settle).enter slot w
  | .flag slot, none => do (← r.settle).enter slot []
  | .flag slot, some w => .error (.refused (.unneededValue (Text.lossy w) slot.name))
  | .ends _ h, none => do
    let _ ← r.settle
    .error h
  | .ends _ _, some w => .error (.refused (.unneededValue (Text.lossy w) ("--" ++ s.long)))

/-- The byte of the equals sign. -/
def equals : UInt8 := 0x3D

/-- The word whose letters follow one hyphen, as it is shown when its first letter is
unknown: only that letter, if it is one. -/
def shownLetter : Word → String
  | [] => "-"
  | b :: bs =>
    match Text.leadingChar? b bs with
    | (some c, _) => String.ofList ['-', c]
    | (none, _) => "-" ++ Text.lossy (b :: bs)

/-- Goes on after letters that follow one hyphen.  The letters after one whose switch
has a value are that value; an equals sign may stand between them. -/
def letters (switches : List (Switch σ)) (r : Reading σ) : Word → Except Halt (Reading σ)
  | [] => .ok r
  | b :: bs =>
    let named (s : Switch σ) : Bool := s.short.any fun c => c.toNat = b.toNat
    match switches.find? named with
    | none => .error (.refused (.unknownArgument (shownLetter (b :: bs))))
    | some s =>
      match s.meaning with
      | .value _ =>
        r.switch s <| match bs with
          | [] => none
          | c :: cs => some (if c = equals then cs else c :: cs)
      | _ => do letters switches (← r.switch s none) bs

/-- Goes on after a name that follows two hyphens, with what follows an equals sign. -/
def longName (switches : List (Switch σ)) (r : Reading σ) (w : Word) : Except Halt (Reading σ) :=
  let name := w.takeWhile (· != equals)
  let attached := match w.dropWhile (· != equals) with
    | [] => none
    | _ :: value => some value
  match switches.find? fun s => s.long.toUTF8.data.toList == name with
  | none => .error (.refused (.unknownArgument ("--" ++ Text.lossy name)))
  | some s => r.switch s attached

/-- Goes on after a word that is an operand. -/
def operand (r : Reading σ) (w : Word) (otherwise : UsageError) : Except Halt (Reading σ) :=
  match r.operands with
  | [] => .error (.refused otherwise)
  | slot :: more => do
    return { ← r.settle with operands := more, pending := some ⟨slot, some w⟩ }

end Reading

namespace Grammar

variable {σ : Type}

/-- The command that a word names. -/
def command? (g : Grammar σ) (w : Word) : Option String :=
  g.commands.find? fun c => c.toUTF8.data.toList == w

/-- The refusal of a word that stands where no operand is left.  After two hyphens the
name of a command is an argument like any other. -/
def stray (g : Grammar σ) (afterHyphens : Bool) (w : Word) : UsageError :=
  if g.commands.isEmpty || afterHyphens && (g.command? w).isSome then
    .unknownArgument (Text.lossy w)
  else .unknownCommand (Text.lossy w)

/-- Reads words up to a command.  After two hyphens every word is an operand. -/
def readWords (g : Grammar σ) (afterHyphens : Bool) (r : Reading σ) :
    List Word → Except Halt (Ending σ)
  | [] => .ok ⟨r, none⟩
  | w :: rest => do
    if afterHyphens then g.readWords true (← r.operand w (g.stray true w)) rest
    else
      match r.awaiting, g.command? w, w with
      | none, some name, _ => .ok ⟨r, some (name, rest)⟩
      | _, _, [0x2D, 0x2D] => g.readWords true r rest
      | _, _, 0x2D :: 0x2D :: name => g.readWords false (← r.longName g.switches name) rest
      | _, _, 0x2D :: b :: bs => g.readWords false (← r.letters g.switches (b :: bs)) rest
      | some slot, _, w => g.readWords false { r with pending := some ⟨slot, some w⟩ } rest
      | none, none, w => g.readWords false (← r.operand w (g.stray false w)) rest

/-- Reads words up to a command; the last value has not been entered. -/
def read (g : Grammar σ) (values : σ) (words : List Word) : Except Halt (Ending σ) :=
  g.readWords false ⟨values, [], none, g.operands⟩ words

end Grammar

end BlobStore
