import BlobStore.Json.Reader

/-!
# JSON numbers

A number without fraction and exponent is an integer if it fits into 64 bits;
every other number is a floating-point value: its first digits, as many as fit
into 64 bits, are rounded to a floating-point number and then multiplied or
divided by a power of ten.  `-0` is the floating-point number `-0.0`.
-/

namespace BlobStore.Json

/-- The value of a number's text. -/
inductive Number where
  | natural (n : Nat)
  | negative (n : Nat)
  | float (x : Float)

/-- How a number is named where something else was expected. -/
def Number.found : Number → Found
  | .natural n => .integer n
  | .negative n => .integer (-n)
  | .float x => .float x

/-- The value of a decimal digit. -/
def digitValue (c : Char) : Nat := c.toNat - '0'.toNat

/-- Takes digits as long as the value stays at or below a limit. -/
def digitsWithin (limit : Nat) : Nat → List Char → Nat × List Char
  | n, [] => (n, [])
  | n, c :: cs =>
    let n' := n * 10 + digitValue c
    if c.isDigit ∧ n' ≤ limit then digitsWithin limit n' cs else (n, c :: cs)

/-- Whether a text begins with a digit. -/
def digitAhead : List Char → Bool
  | c :: _ => c.isDigit
  | [] => false

/-- The largest integer of 64 bits. -/
def maxNatural : Nat := Nat.pow 2 64 - 1

/-- The largest exponent of ten that is counted. -/
def maxExponent : Nat := Nat.pow 2 31 - 1

/-- A power of ten between 1 and 10 ^ 308. -/
def powerOfTen (k : Nat) : Float := Float.ofScientific 1 false k

/-- Divides by a power of ten, at most 10 ^ 308 at a time. -/
def divideByTens (x : Float) (k : Nat) : Float :=
  if k ≤ 308 then x / powerOfTen k
  else if x == 0.0 then x
  else divideByTens (x / powerOfTen 308) (k - 308)
termination_by k

/-- The floating-point number `significand * 10 ^ exponent`. -/
def floatOf (negative : Bool) (significand : Nat) (exponent : Int) : Reader Number := do
  let x := (UInt64.ofNat significand).toFloat
  let sign (y : Float) : Number := .float (if negative then -y else y)
  if exponent < 0 then
    return sign (divideByTens x exponent.natAbs)
  else if 308 < exponent then
    if x == 0.0 then return sign x else Reader.stop .numberOutOfRange
  else
    let y := x * powerOfTen exponent.toNat
    if y.isInf then Reader.stop .numberOutOfRange else return sign y

/-- Reads an exponent after its letter. -/
def exponentPart (negative : Bool) (significand : Nat) (before : Int) : Reader Number := do
  let down ← fun cs => match cs with
    | '+' :: rest => .ok (false, rest)
    | '-' :: rest => .ok (true, rest)
    | rest => .ok (false, rest)
  match ← get with
  | [] => Reader.stop .endInValue
  | cs =>
    if !digitAhead cs then Reader.stopAhead .badNumber
    else
      let (e, rest) := digitsWithin maxExponent 0 cs
      if digitAhead rest then
        if significand ≠ 0 ∧ !down then
          set rest.tail
          Reader.stop .numberOutOfRange
        else
          set (rest.dropWhile Char.isDigit)
          return .float (if negative then -0.0 else 0.0)
      else
        set rest
        floatOf negative significand (if down then before - e else before + e)

/-- Reads what follows the digits of a fraction: an exponent or nothing. -/
def afterFraction (negative : Bool) (significand : Nat) (exponent : Int) : Reader Number := do
  match ← get with
  | 'e' :: rest | 'E' :: rest =>
    set rest
    exponentPart negative significand exponent
  | _ => floatOf negative significand exponent

/-- Reads a fraction after its point. -/
def fractionPart (negative : Bool) (significand : Nat) (before : Int) : Reader Number := do
  let cs ← get
  let (n, rest) := digitsWithin maxNatural significand cs
  let exponent := before - ((cs.length : Int) - rest.length)
  if digitAhead rest then
    set (rest.dropWhile Char.isDigit)
    afterFraction negative n exponent
  else if rest.length = cs.length then
    if cs.isEmpty then Reader.stopAhead .endInValue else Reader.stopAhead .badNumber
  else
    set rest
    afterFraction negative n exponent

/-- Reads what follows the digits of an integer. -/
def afterInteger (negative : Bool) (n : Nat) : Reader Number := do
  match ← get with
  | '.' :: rest =>
    set rest
    fractionPart negative n 0
  | 'e' :: rest | 'E' :: rest =>
    set rest
    exponentPart negative n 0
  | _ =>
    if !negative then return .natural n
    else if n = 0 ∨ Nat.pow 2 63 < n then return .float (-(UInt64.ofNat n).toFloat)
    else return .negative n

/-- Reads what follows the first digits of an integer that does not fit into 64
bits. -/
def afterLongInteger (negative : Bool) (n : Nat) : Reader Number := do
  let cs ← get
  let rest := cs.dropWhile Char.isDigit
  let exponent := (cs.length : Int) - rest.length
  match rest with
  | '.' :: rest =>
    set rest
    fractionPart negative n exponent
  | 'e' :: rest | 'E' :: rest =>
    set rest
    exponentPart negative n exponent
  | rest =>
    set rest
    floatOf negative n exponent

/-- Reads a number after its sign. -/
def readNumber (negative : Bool) : Reader Number := do
  match ← get with
  | [] => Reader.stop .endInValue
  | '0' :: rest =>
    set rest
    if digitAhead rest then Reader.stopAhead .badNumber else afterInteger negative 0
  | cs =>
    if !digitAhead cs then Reader.stopAhead .badNumber
    else
      let (n, rest) := digitsWithin maxNatural 0 cs
      set rest
      if digitAhead rest then afterLongInteger negative n else afterInteger negative n

/-- Passes over digits, of which there has to be one. -/
def skipDigits : Reader Unit := fun cs =>
  if digitAhead cs then .ok ((), cs.dropWhile Char.isDigit) else Reader.stopAhead .badNumber cs

/-- Passes over the digits of an integer. -/
def skipWhole : Reader Unit := fun cs =>
  match cs with
  | '0' :: rest => if digitAhead rest then Reader.stopAhead .badNumber rest else .ok ((), rest)
  | cs => skipDigits cs

/-- Passes over a fraction, if there is one. -/
def skipFraction : Reader Unit := fun cs =>
  match cs with
  | '.' :: rest => skipDigits rest
  | cs => .ok ((), cs)

/-- What follows a sign, if there is one. -/
def afterSign : List Char → List Char
  | '+' :: rest | '-' :: rest => rest
  | cs => cs

/-- Passes over an exponent, if there is one. -/
def skipExponent : Reader Unit := fun cs =>
  match cs with
  | 'e' :: rest | 'E' :: rest => skipDigits (afterSign rest)
  | cs => .ok ((), cs)

/-- Passes over a number after its sign, whatever its size. -/
def skipNumber : Reader Unit := do
  skipWhole
  skipFraction
  skipExponent

end BlobStore.Json
