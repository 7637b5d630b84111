import BlobStore.Text.Quoted
import BlobStore.Text.Shortest

/-!
# What can be wrong with a JSON text

A text is refused with a `Fault`, the cause, and the place where reading
stopped.  The place is kept as the number of bytes that were left; `Misread.message`
turns it into a line and a column, both counted in the whole text.
-/

namespace BlobStore.Json

/-- What was found where a value of another kind was expected. -/
inductive Found where
  | null
  | boolean (b : Bool)
  | integer (i : Int)
  | float (x : Float)
  | text (s : String)
  | list
  | object

/-- The cause for which a JSON text is refused. -/
inductive Fault where
  | endInValue
  | endInText
  | endInList
  | endInObject
  | expectedColon
  | expectedListSeparator
  | expectedObjectSeparator
  | expectedValue
  | expectedWord
  | badEscape
  | badNumber
  | numberOutOfRange
  | controlCharacter
  | keyNotText
  | loneSurrogate
  | unfinishedSurrogate
  | trailingComma
  | trailingCharacters
  | wrongType (found : Found) (expected : String)
  | wrongInteger (found : Int) (expected : String)
  | unknownVariant (found : String) (known : List String)
  | missingField (name : String)
  | duplicateField (name : String)
  | wrongLength (found : Nat) (expected : String)

/-- How a value of another kind is named in a message. -/
def Found.message : Found → String
  | .null => "null"
  | .boolean b => "boolean `" ++ toString b ++ "`"
  | .integer i => "integer `" ++ toString i ++ "`"
  | .float x => "floating point `" ++ Text.Shortest.ofFloat x ++ "`"
  | .text s => "string " ++ Text.quoted s
  | .list => "sequence"
  | .object => "map"

/-- A choice of names: the last two are joined by "or". -/
def choice : List String → String
  | [] => "there are no variants"
  | [a] => "`" ++ a ++ "`"
  | [a, b] => "`" ++ a ++ "` or `" ++ b ++ "`"
  | names => "one of " ++ ", ".intercalate (names.map fun n => "`" ++ n ++ "`")

/-- The wording of a cause, without its place. -/
def Fault.message : Fault → String
  | .endInValue => "EOF while parsing a value"
  | .endInText => "EOF while parsing a string"
  | .endInList => "EOF while parsing a list"
  | .endInObject => "EOF while parsing an object"
  | .expectedColon => "expected `:`"
  | .expectedListSeparator => "expected `,` or `]`"
  | .expectedObjectSeparator => "expected `,` or `\x7d`"
  | .expectedValue => "expected value"
  | .expectedWord => "expected ident"
  | .badEscape => "invalid escape"
  | .badNumber => "invalid number"
  | .numberOutOfRange => "number out of range"
  | .controlCharacter => "control character (\\u0000-\\u001F) found while parsing a string"
  | .keyNotText => "key must be a string"
  | .loneSurrogate => "lone leading surrogate in hex escape"
  | .unfinishedSurrogate => "unexpected end of hex escape"
  | .trailingComma => "trailing comma"
  | .trailingCharacters => "trailing characters"
  | .wrongType found expected => "invalid type: " ++ found.message ++ ", expected " ++ expected
  | .wrongInteger found expected =>
    "invalid value: integer `" ++ toString found ++ "`, expected " ++ expected
  | .unknownVariant found known =>
    "unknown variant `" ++ found ++ "`, expected " ++ choice known
  | .missingField name => "missing field `" ++ name ++ "`"
  | .duplicateField name => "duplicate field `" ++ name ++ "`"
  | .wrongLength found expected =>
    "invalid length " ++ toString found ++ ", expected " ++ expected

/-- A cause together with the number of bytes that were left where reading
stopped. -/
structure Misread where
  fault : Fault
  left : Nat

/-- The number of bytes of some characters. -/
def byteCount : List Char → Nat
  | [] => 0
  | c :: cs => c.utf8Size + byteCount cs

/-- A line, counted from one, and the number of bytes before a place in it. -/
structure Place where
  line : Nat
  column : Nat

/-- The place that lies a number of bytes after the given place. -/
def Place.after (p : Place) : Nat → List Char → Place
  | 0, _ => p
  | n, [] => { p with column := p.column + n }
  | n + 1, c :: cs =>
    if c = '\n' then Place.after ⟨p.line + 1, 0⟩ n cs
    else if n + 1 ≤ c.utf8Size then { p with column := p.column + (n + 1) }
    else Place.after { p with column := p.column + c.utf8Size } (n + 1 - c.utf8Size) cs

/-- The message for a refused text: the cause and its place in the text. -/
def Misread.message (e : Misread) (text : String) : String :=
  let cs := text.toList
  let place := Place.after ⟨1, 0⟩ (byteCount cs - e.left) cs
  e.fault.message ++ " at line " ++ toString place.line ++ " column " ++ toString place.column

end BlobStore.Json
