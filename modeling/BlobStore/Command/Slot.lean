import BlobStore.Command.Usage
import BlobStore.Path.Basic
import BlobStore.Text.Count

/-!
# Slots for values

A slot takes the value of one argument out of a word and enters it among the values
that have been read.
-/

namespace BlobStore

/-- A word of a call. -/
abbrev Word := List UInt8

/-- Why a word is no value for a slot. -/
inductive ValueFault where
  | missing
  | notUtf8
  | invalid (value : String) (reason : Option String)
  deriving DecidableEq, Repr

/-- The refusal of a value for an argument. -/
def ValueFault.on (argument : String) : ValueFault → UsageError
  | missing => .missingValue argument
  | notUtf8 => .notUtf8
  | invalid value reason => .invalidValue value argument reason

/-- A place for a value among values of the type `σ`. -/
structure Slot (σ : Type) where
  /-- how the argument is shown -/
  name : String
  about : String
  isSet : σ → Bool
  enter : Word → Except ValueFault (σ → σ)

namespace Slot

variable {σ : Type}

/-- A word as text. -/
def text (w : Word) : Except ValueFault String :=
  match String.fromUTF8? ⟨w.toArray⟩ with
  | some s => .ok s
  | none => .error .notUtf8

/-- A word as path, which must not be empty. -/
def path (w : Word) : Except ValueFault Path :=
  if w = [] then .error .missing else .ok ⟨w⟩

/-- A word as one of the things that a text can name. -/
def choice {α ε : Type} (read : String → Except ε α) (reason : ε → String) (w : Word) :
    Except ValueFault α :=
  match text w with
  | .error e => .error e
  | .ok s =>
    match read s with
    | .ok a => .ok a
    | .error e => .error (.invalid s (some (reason e)))

/-- A word as count. -/
def count : Word → Except ValueFault Nat :=
  choice (fun s => Text.count s.toList) Text.CountFault.message

/-- A word as one of a few names; an empty one counts as missing. -/
def oneOf {α : Type} (names : List (String × α)) (w : Word) : Except ValueFault α :=
  match names.find? fun n => n.1.toUTF8.data.toList == w with
  | some (_, a) => .ok a
  | none => if w = [] then .error .missing else .error (.invalid (Text.lossy w) none)

/-- The slot of a value that is read from a word. -/
def ofReader {α : Type} (name about : String) (isSet : σ → Bool)
    (read : Word → Except ValueFault α) (put : α → σ → σ) : Slot σ :=
  ⟨name, about, isSet, fun w => (read w).map put⟩

/-- The slot of an argument that is given without a value. -/
def flag (name about : String) (isSet : σ → Bool) (put : σ → σ) : Slot σ :=
  ⟨name, about, isSet, fun _ => .ok put⟩

end Slot

end BlobStore
