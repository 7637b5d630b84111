import BlobStore.Json.Number
import BlobStore.Json.Text

/-!
# Passing over a value

The value of an unknown field is passed over without being built: only its
syntax is checked.  The brackets that are open are kept on a stack, so there is
no limit to their depth.
-/

namespace BlobStore.Json

/-- A bracket that is open. -/
inductive Bracket where
  | list
  | object

/-- The character that closes a bracket. -/
def Bracket.closing : Bracket → Char
  | .list => ']'
  | .object => '\x7d'

/-- The cause when a text ends inside a bracket. -/
def Bracket.ended : Bracket → Fault
  | .list => .endInList
  | .object => .endInObject

/-- The cause when a value in a bracket is followed by something else than a comma
or the end of the bracket. -/
def Bracket.unseparated : Bracket → Fault
  | .list => .expectedListSeparator
  | .object => .expectedObjectSeparator

/-- Passes over what stands before a value in a bracket: a name and a colon in an
object, nothing in a list. -/
def Bracket.skipName : Bracket → Reader Unit
  | .list => pure ()
  | .object => do
    match ← blanks with
    | some '"' =>
      Reader.advance
      skipText
      colon
    | some _ => Reader.stopAhead .keyNotText
    | none => Reader.stopAhead .endInObject

/-- What comes next inside the open brackets. -/
inductive Expecting where
  /-- a value -/
  | value
  /-- the first entry of a bracket, or its end -/
  | first
  /-- a comma or the end of a bracket, after an entry -/
  | next

/-- Passes over a value of one word, number or string, or over an opening bracket,
which is answered. -/
def skipToken : Reader (Option Bracket) := do
  match ← valueStart with
  | 'n' =>
    Reader.advance
    word ['u', 'l', 'l']
    return none
  | 't' =>
    Reader.advance
    word ['r', 'u', 'e']
    return none
  | 'f' =>
    Reader.advance
    word ['a', 'l', 's', 'e']
    return none
  | '-' =>
    Reader.advance
    skipNumber
    return none
  | '"' =>
    Reader.advance
    skipText
    return none
  | '[' =>
    Reader.advance
    return some .list
  | '\x7b' =>
    Reader.advance
    return some .object
  | c =>
    if c.isDigit then
      skipNumber
      return none
    else Reader.stopAhead .expectedValue

/-- Passes over the rest of a value inside the open brackets.  No two steps in a row
leave the text as it is, so two steps for each character and two more are enough. -/
def skipInside : Nat → Expecting → List Bracket → Reader Unit
  | 0, _, _ => Reader.stop .endInValue
  | _ + 1, .next, [] => pure ()
  | _ + 1, .first, [] => pure ()
  | steps + 1, .value, outer => do
    match ← skipToken with
    | none => skipInside steps .next outer
    | some b => skipInside steps .first (b :: outer)
  | steps + 1, .first, b :: outer => do
    match ← blanks with
    | none => Reader.stopAhead b.ended
    | some c =>
      if c = b.closing then
        Reader.advance
        skipInside steps .next outer
      else
        b.skipName
        skipInside steps .value (b :: outer)
  | steps + 1, .next, b :: outer => do
    match ← blanks with
    | none => Reader.stopAhead b.ended
    | some c =>
      if c = ',' then
        Reader.advance
        b.skipName
        skipInside steps .value (b :: outer)
      else if c = b.closing then
        Reader.advance
        skipInside steps .next outer
      else Reader.stopAhead b.unseparated

/-- Passes over a value. -/
def skipValue : Reader Unit := fun cs => skipInside (2 * cs.length + 2) .value [] cs

end BlobStore.Json
