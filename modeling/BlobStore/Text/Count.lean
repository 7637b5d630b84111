/-!
# Counts written as text

A count is a natural number below 2^64 in decimal digits; a plus sign may stand in
front, and so may zeros.  The first character at which a text goes wrong decides what
is reported.
-/

namespace BlobStore.Text

/-- Why a text is not a count. -/
inductive CountFault where
  | empty
  | notDigit
  | tooLarge
  deriving DecidableEq, Repr

/-- The wording of a fault. -/
def CountFault.message : CountFault → String
  | empty => "cannot parse integer from empty string"
  | notDigit => "invalid digit found in string"
  | tooLarge => "number too large to fit in target type"

/-- The bound below which counts are. -/
def countBound : Nat := Nat.pow 2 64

/-- The count that some digits add to the digits before them. -/
def countDigits (before : Nat) : List Char → Except CountFault Nat
  | [] => .ok before
  | c :: cs =>
    if !c.isDigit then .error .notDigit
    else
      let n := 10 * before + (c.toNat - '0'.toNat)
      if countBound ≤ n then .error .tooLarge else countDigits n cs

/-- The count that a text writes. -/
def count : List Char → Except CountFault Nat
  | [] => .error .empty
  | ['+'] => .error .notDigit
  | '+' :: cs => countDigits 0 cs
  | cs => countDigits 0 cs

end BlobStore.Text
