import BlobStore.Json.Skip
import BlobStore.Json.Value

/-!
# Reading records

A record is written as an object, whose fields may stand in any order and may be
accompanied by unknown ones, or as a list of the fields' values in the order of
the schema.  A `Schema` says how each field is read into a draft and how the
finished draft becomes a value.
-/

namespace BlobStore.Json

/-- A field of a record that is read into a draft of type `σ`. -/
structure Field (σ : Type) where
  name : String
  isSet : σ → Bool
  read : σ → Reader σ

/-- How a record of type `α` is read. -/
structure Schema (σ α : Type) where
  /-- what the record is called in messages -/
  expected : String
  fields : List (Field σ)
  /-- the draft in which no field is set -/
  start : σ
  /-- what a list has to be, if it may not end before all fields are given -/
  wholeList : Option String
  /-- the value of a draft, or the name of a field that is missing -/
  finish : σ → Except String α

variable {σ α : Type}

/-- Reads the value of a named field; the value of an unknown field is passed over.
After a field that is set twice, a closing brace is taken before the place of the
fault is noted. -/
def Schema.readField (s : Schema σ α) (name : String) (draft : σ) : Reader σ := do
  match s.fields.find? (·.name = name) with
  | some f =>
    if f.isSet draft then
      if (← blanks) = some '\x7d' then Reader.advance
      Reader.stop (.duplicateField name)
    else
      colon
      f.read draft
  | none =>
    colon
    skipValue
    return draft

/-- Looks for the opening quote of the next name in an object; answers whether there
is one. -/
def nameAhead (isFirst : Bool) : Reader Bool := do
  match ← blanks with
  | none => Reader.stopAhead .endInObject
  | some '\x7d' => return false
  | some c =>
    if isFirst then
      if c = '"' then return true else Reader.stopAhead .keyNotText
    else if c = ',' then
      Reader.advance
      match ← blanks with
      | some '"' => return true
      | some '\x7d' => Reader.stopAhead .trailingComma
      | some _ => Reader.stopAhead .keyNotText
      | none => Reader.stopAhead .endInValue
    else Reader.stopAhead .expectedObjectSeparator

/-- Reads the fields of an object into a draft, up to the closing brace.  Every field
takes characters, so one step more than there are characters is enough. -/
def Schema.readFields (s : Schema σ α) : Nat → Bool → σ → Reader σ
  | 0, _, _ => Reader.stop .endInObject
  | steps + 1, isFirst, draft => do
    if ← nameAhead isFirst then
      Reader.advance
      let name ← readText
      let draft ← s.readField name draft
      s.readFields steps false draft
    else return draft

/-- Reads a record that is written as an object, after its opening brace. -/
def Schema.readObject (s : Schema σ α) : Reader α := do
  let draft ← s.readFields ((← get).length + 1) true s.start
  Reader.advance
  match s.finish draft with
  | .ok a => return a
  | .error name => Reader.stop (.missingField name)

/-- Looks for the next element of a list; answers whether there is one. -/
def elementAhead (isFirst : Bool) : Reader Bool := do
  match ← blanks with
  | none => Reader.stopAhead .endInList
  | some ']' => return false
  | some c =>
    if isFirst then return true
    else if c = ',' then
      Reader.advance
      match ← blanks with
      | some ']' => Reader.stopAhead .trailingComma
      | some _ => return true
      | none => Reader.stopAhead .endInValue
    else Reader.stopAhead .expectedListSeparator

/-- Reads the elements of a list as the given fields. -/
def Schema.readElements (s : Schema σ α) : List (Field σ) → Nat → σ → Reader σ
  | [], _, draft => return draft
  | f :: fields, given, draft => do
    if ← elementAhead (given = 0) then
      let draft ← f.read draft
      s.readElements fields (given + 1) draft
    else
      match s.wholeList with
      | none => return draft
      | some expected =>
        Reader.advance
        Reader.stop (.wrongLength given expected)

/-- Takes the end of a list of which all elements have been read. -/
def listEnd : Reader Unit := do
  match ← blanks with
  | some ']' => Reader.advance
  | some ',' =>
    Reader.advance
    match ← blanks with
    | some ']' => Reader.stopAhead .trailingComma
    | _ => Reader.stopAhead .trailingCharacters
  | some _ => Reader.stopAhead .trailingCharacters
  | none => Reader.stopAhead .endInList

/-- Reads a record that is written as a list, after its opening bracket. -/
def Schema.readList (s : Schema σ α) : Reader α := do
  let draft ← s.readElements s.fields 0 s.start
  listEnd
  match s.finish draft with
  | .ok a => return a
  | .error name => Reader.stop (.missingField name)

/-- Reads a record. -/
def Schema.read (s : Schema σ α) : Reader α := do
  match ← valueStart with
  | '[' =>
    Reader.advance
    s.readList
  | '\x7b' =>
    Reader.advance
    s.readObject
  | _ => unexpected s.expected

end BlobStore.Json
