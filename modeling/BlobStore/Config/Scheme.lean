/-!
# Schemes

The two built-in ways to place keys, by name.
-/

namespace BlobStore

/-- A built-in way to place keys. -/
inductive Scheme where
  /-- by the content of the key: its digest, cut into directories -/
  | cas
  /-- by the key itself -/
  | identity
  deriving DecidableEq, Repr

namespace Scheme

/-- The name by which a scheme is written. -/
def name : Scheme → String
  | cas => "cas"
  | identity => "identity"

/-- The scheme of a name, in any mixture of upper and lower case. -/
def ofName? (s : String) : Option Scheme :=
  match s.map Char.toLower with
  | "cas" => some cas
  | "identity" => some identity
  | _ => none

end Scheme

end BlobStore
