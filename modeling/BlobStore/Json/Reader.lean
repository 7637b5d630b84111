import BlobStore.Json.Fault

/-!
# Reading JSON step by step

A `Reader` takes characters off the front of a text or stops with a `Misread`.
Errors are placed either where reading stands (`stop`) or one byte further
(`stopAhead`), at the character that was looked at but not taken.
-/

namespace BlobStore.Json

/-- Takes characters off the front of a text. -/
abbrev Reader (α : Type) := StateT (List Char) (Except Misread) α

namespace Reader

variable {α : Type}

/-- Stops where reading stands. -/
def stop (fault : Fault) : Reader α := fun cs => .error ⟨fault, byteCount cs⟩

/-- Stops one byte after the place where reading stands. -/
def stopAhead (fault : Fault) : Reader α := fun cs => .error ⟨fault, byteCount cs - 1⟩

/-- Takes the next character, whatever it is. -/
def advance : Reader Unit := fun cs => .ok ((), cs.tail)

end Reader

/-- The characters that may stand between the parts of a JSON text. -/
def isBlank (c : Char) : Bool := c = ' ' || c = '\n' || c = '\t' || c = '\r'

/-- Takes blanks and looks at the character after them. -/
def blanks : Reader (Option Char) := fun cs =>
  let rest := cs.dropWhile isBlank
  .ok (rest.head?, rest)

/-- Takes blanks and looks at the character after them, with which a value has
to begin. -/
def valueStart : Reader Char := do
  match ← blanks with
  | some c => return c
  | none => Reader.stopAhead .endInValue

/-- Takes the characters of a word whose beginning has been recognised. -/
def word : List Char → Reader Unit
  | [] => pure ()
  | w :: ws => fun cs =>
    match cs with
    | [] => .error ⟨.endInValue, 0⟩
    | c :: rest => if c = w then word ws rest else .error ⟨.expectedWord, byteCount cs - 1⟩

/-- Takes the colon between a name and its value. -/
def colon : Reader Unit := do
  match ← blanks with
  | some ':' => Reader.advance
  | some _ => Reader.stopAhead .expectedColon
  | none => Reader.stopAhead .endInObject

end BlobStore.Json
