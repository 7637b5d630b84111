import BlobStore.Json.Number
import BlobStore.Json.Text

/-!
# Reading single values

Each reader takes a value of one kind.  A value of another kind is read to its
end, so that it can be named, unless it is a list or an object, before which
reading stops.
-/

namespace BlobStore.Json

/-- Stops at a value of another kind than the one expected. -/
def unexpected {α : Type} (expected : String) : Reader α := do
  match ← valueStart with
  | 'n' =>
    Reader.advance
    word ['u', 'l', 'l']
    Reader.stop (.wrongType .null expected)
  | 't' =>
    Reader.advance
    word ['r', 'u', 'e']
    Reader.stop (.wrongType (.boolean true) expected)
  | 'f' =>
    Reader.advance
    word ['a', 'l', 's', 'e']
    Reader.stop (.wrongType (.boolean false) expected)
  | '-' =>
    Reader.advance
    let n ← readNumber true
    Reader.stop (.wrongType n.found expected)
  | '"' =>
    Reader.advance
    let s ← readText
    Reader.stop (.wrongType (.text s) expected)
  | '[' => Reader.stop (.wrongType .list expected)
  | '\x7b' => Reader.stop (.wrongType .object expected)
  | c =>
    if c.isDigit then
      let n ← readNumber false
      Reader.stop (.wrongType n.found expected)
    else Reader.stopAhead .expectedValue

/-- Reads a string. -/
def readString (expected : String) : Reader String := do
  match ← valueStart with
  | '"' =>
    Reader.advance
    readText
  | _ => unexpected expected

/-- Reads `true` or `false`. -/
def readBoolean (expected : String) : Reader Bool := do
  match ← valueStart with
  | 't' =>
    Reader.advance
    word ['r', 'u', 'e']
    return true
  | 'f' =>
    Reader.advance
    word ['a', 'l', 's', 'e']
    return false
  | _ => unexpected expected

/-- Reads `null`. -/
def readNull (expected : String) : Reader Unit := do
  match ← valueStart with
  | 'n' =>
    Reader.advance
    word ['u', 'l', 'l']
  | _ => unexpected expected

/-- Reads an integer between zero and the largest one of 64 bits. -/
def readNatural (expected : String) : Reader Nat := do
  let c ← valueStart
  if c = '-' then
    Reader.advance
    match ← readNumber true with
    | .natural n => return n
    | .negative n => Reader.stop (.wrongInteger (-n) expected)
    | .float x => Reader.stop (.wrongType (.float x) expected)
  else if c.isDigit then
    match ← readNumber false with
    | .natural n => return n
    | .negative n => Reader.stop (.wrongInteger (-n) expected)
    | .float x => Reader.stop (.wrongType (.float x) expected)
  else unexpected expected

/-- Reads one of some names and answers what it stands for. -/
def readName {α : Type} (variants : List (String × α)) : Reader α := do
  let name ← readString "variant identifier"
  match variants.lookup name with
  | some a => return a
  | none => Reader.stop (.unknownVariant name (variants.map (·.1)))

/-- Reads one of some names, either by itself or as the only field of an object
whose value is `null`. -/
def readVariant {α : Type} (variants : List (String × α)) : Reader α := do
  match ← blanks with
  | some '"' => readName variants
  | some '\x7b' =>
    Reader.advance
    let a ← readName variants
    colon
    readNull "unit"
    match ← blanks with
    | some '\x7d' =>
      Reader.advance
      return a
    | some _ => Reader.stop .expectedValue
    | none => Reader.stop .endInObject
  | some _ => Reader.stopAhead .expectedValue
  | none => Reader.stopAhead .endInValue

/-- Reads a whole text. -/
def readAll {α : Type} (value : Reader α) (text : String) : Except Misread α := do
  let (a, rest) ← value text.toList
  match ← blanks rest with
  | (none, _) => return a
  | (some _, rest) => .error ⟨.trailingCharacters, byteCount rest - 1⟩

end BlobStore.Json
