import BlobStore.Json.Text

/-!
# Writing records

Everything that is written as JSON is a record: named fields, in a fixed order,
whose values are strings, natural numbers and truth values.  A record is written
on one line, or with one indented line for each field.
-/

namespace BlobStore.Json

/-- The value of a field. -/
inductive Scalar where
  | text (s : String)
  | natural (n : Nat)
  | boolean (b : Bool)
  deriving DecidableEq, Repr

/-- Named fields in the order in which they are written. -/
abbrev Record := List (String × Scalar)

/-- The characters of a field's value. -/
def Scalar.write : Scalar → List Char
  | .text s => escaped s.toList
  | .natural n => Nat.toDigits 10 n
  | .boolean true => ['t', 'r', 'u', 'e']
  | .boolean false => ['f', 'a', 'l', 's', 'e']

/-- The record on one line. -/
def Record.compact (r : Record) : String :=
  let fields := r.map fun (name, value) => escaped name.toList ++ ':' :: value.write
  String.ofList ('\x7b' :: [','].intercalate fields ++ ['\x7d'])

/-- The record with one line for each field, indented by two blanks. -/
def Record.indented (r : Record) : String :=
  match r with
  | [] => String.ofList ['\x7b', '\x7d']
  | r =>
    let fields := r.map fun (name, value) =>
      ' ' :: ' ' :: escaped name.toList ++ ':' :: ' ' :: value.write
    String.ofList ('\x7b' :: '\n' :: [',', '\n'].intercalate fields ++ ['\n', '\x7d'])

end BlobStore.Json
