import BlobStore.Json.Reader

/-!
# JSON strings

`escaped` writes the characters of a string, `readText` reads them, in any
spelling: raw, by a short escape, or by one or two `\u` escapes.  `skipText`
passes over a string without asking what its escapes stand for.
-/

namespace BlobStore.Json

/-- The characters by which one character of a string is written. -/
def escapedChar (c : Char) : List Char :=
  if c = '"' then ['\\', '"']
  else if c = '\\' then ['\\', '\\']
  else if c = '\x08' then ['\\', 'b']
  else if c = '\x0c' then ['\\', 'f']
  else if c = '\n' then ['\\', 'n']
  else if c = '\r' then ['\\', 'r']
  else if c = '\t' then ['\\', 't']
  else if c.toNat < 0x20 then
    ['\\', 'u', '0', '0'] ++ Text.Hex.pair (UInt8.ofNat c.toNat)
  else [c]

/-- A string between quotes. -/
def escaped (s : List Char) : List Char :=
  '"' :: s.flatMap escapedChar ++ ['"']

/-- The value of a hexadecimal digit of either case. -/
def hexValue (c : Char) : Option Nat :=
  if '0' ≤ c ∧ c ≤ '9' then some (c.toNat - '0'.toNat)
  else if 'a' ≤ c ∧ c ≤ 'f' then some (c.toNat - 'a'.toNat + 10)
  else if 'A' ≤ c ∧ c ≤ 'F' then some (c.toNat - 'A'.toNat + 10)
  else none

/-- The number that four hexadecimal digits at the front of a text stand for. -/
def fourDigits? : List Char → Option Nat
  | a :: b :: c :: d :: _ => do
    return (((← hexValue a) * 16 + (← hexValue b)) * 16 + (← hexValue c)) * 16 + (← hexValue d)
  | _ => none

/-- The number that the four hexadecimal digits of an escape stand for. -/
def fourDigits (cs : List Char) : Except Misread Nat :=
  match fourDigits? cs with
  | some n => .ok n
  | none =>
    if byteCount cs < 4 then .error ⟨.endInText, 0⟩
    else .error ⟨.badEscape, byteCount cs - 4⟩

/-- What the character after a backslash stands for, in escapes of two characters. -/
def shortEscape : Char → Option Char
  | '"' => some '"'
  | '\\' => some '\\'
  | '/' => some '/'
  | 'b' => some '\x08'
  | 'f' => some '\x0c'
  | 'n' => some '\n'
  | 'r' => some '\r'
  | 't' => some '\t'
  | _ => none

/-- The character that an escape stands for, and how many characters after the
backslash the escape has.  Characters beyond U+FFFF are spelled as a pair of
surrogates. -/
def escape : List Char → Except Misread (Char × Nat)
  | [] => .error ⟨.endInText, 0⟩
  | 'u' :: cs => do
    let high ← fourDigits cs
    let rest := cs.drop 4
    if 0xDC00 ≤ high ∧ high ≤ 0xDFFF then
      .error ⟨.loneSurrogate, byteCount rest⟩
    else if high < 0xD800 ∨ 0xDBFF < high then
      .ok (Char.ofNat high, 5)
    else
      match rest with
      | [] => .error ⟨.endInText, 0⟩
      | '\\' :: [] => .error ⟨.endInText, 0⟩
      | '\\' :: 'u' :: cs => do
        let low ← fourDigits cs
        if 0xDC00 ≤ low ∧ low ≤ 0xDFFF then
          .ok (Char.ofNat (0x10000 + (high - 0xD800) * 0x400 + (low - 0xDC00)), 11)
        else
          .error ⟨.loneSurrogate, byteCount (cs.drop 4)⟩
      | '\\' :: cs => .error ⟨.unfinishedSurrogate, byteCount cs - 1⟩
      | cs => .error ⟨.unfinishedSurrogate, byteCount cs - 1⟩
  | c :: cs =>
    match shortEscape c with
    | some d => .ok (d, 1)
    | none => .error ⟨.badEscape, byteCount (c :: cs) - 1⟩

/-- Reads the characters of a string up to and including the closing quote. -/
def textBody : List Char → Except Misread (List Char × List Char)
  | [] => .error ⟨.endInText, 0⟩
  | c :: cs =>
    if c = '"' then .ok ([], cs)
    else if c = '\\' then
      match escape cs with
      | .error e => .error e
      | .ok (d, n) =>
        match textBody (cs.drop n) with
        | .error e => .error e
        | .ok (ds, rest) => .ok (d :: ds, rest)
    else if c.toNat < 0x20 then .error ⟨.controlCharacter, byteCount cs⟩
    else
      match textBody cs with
      | .error e => .error e
      | .ok (ds, rest) => .ok (c :: ds, rest)
termination_by cs => cs.length
decreasing_by all_goals simp only [List.length_drop, List.length_cons]; omega

/-- Reads a string after its opening quote. -/
def readText : Reader String := fun cs =>
  match textBody cs with
  | .error e => .error e
  | .ok (s, rest) => .ok (String.ofList s, rest)

/-- How many characters after the backslash an escape has, if it is well formed;
surrogates are not paired here. -/
def skipEscape : List Char → Except Misread Nat
  | [] => .error ⟨.endInText, 0⟩
  | 'u' :: cs => do
    let _ ← fourDigits cs
    return 5
  | c :: cs =>
    match shortEscape c with
    | some _ => .ok 1
    | none => .error ⟨.badEscape, byteCount (c :: cs) - 1⟩

/-- Passes over the characters of a string after its opening quote. -/
def skipText : List Char → Except Misread (Unit × List Char)
  | [] => .error ⟨.endInText, 0⟩
  | c :: cs =>
    if c = '"' then .ok ((), cs)
    else if c = '\\' then
      match skipEscape cs with
      | .error e => .error e
      | .ok n => skipText (cs.drop n)
    else if c.toNat < 0x20 then .error ⟨.controlCharacter, byteCount (c :: cs)⟩
    else skipText cs
termination_by cs => cs.length
decreasing_by all_goals simp only [List.length_drop, List.length_cons]; omega

end BlobStore.Json
