/-!
# The shortest decimal text of a floating-point number

A finite number is `m * 2 ^ q`.  The reals that round to it form an interval
around it; the shortest text is the first decimal grid, from one digit upwards,
that has a point in this interval, and of two such points the nearer one.  All
comparisons are made in whole numbers.
-/

namespace BlobStore.Text.Shortest

/-- A positive number `m * 2 ^ q` with the bounds of the reals that round to it:
`low / 4` and `high / 4` units of `2 ^ q` below and above zero, themselves
included when `m` is even. -/
structure Binary where
  m : Nat
  q : Int
  low : Nat
  high : Nat

/-- The magnitude that the 64 bits of a finite floating-point number stand for. -/
def Binary.ofBits (bits : Nat) : Binary :=
  let field : Nat := bits / Nat.pow 2 52 % Nat.pow 2 11
  let fraction : Nat := bits % Nat.pow 2 52
  if field = 0 then ⟨fraction, -1074, 4 * fraction - 2, 4 * fraction + 2⟩
  else
    let m := Nat.pow 2 52 + fraction
    let below := if fraction = 0 ∧ 1 < field then 1 else 2
    ⟨m, (field : Int) - 1075, 4 * m - below, 4 * m + 2⟩

/-- The exponent of the first decimal digit of `num / den`. -/
def leadingExponent (num den : Nat) : Int :=
  if den ≤ num then ((Nat.toDigits 10 (num / den)).length : Int) - 1
  else -(((List.range 400).find? fun j => den ≤ num * Nat.pow 10 j).getD 0 : Int)

/-- The point of the decimal grid of width `10 ^ k` that reads back as the number and
lies nearest to it, if there is one. -/
def Binary.onGrid (b : Binary) (k : Int) : Option Nat :=
  -- quarter units of the number, over a common denominator with the grid
  let scale := Nat.pow 2 b.q.toNat
  let unit := 4 * Nat.pow 2 (-b.q).toNat * Nat.pow 10 k.toNat
  let lift (quarters : Nat) : Nat := quarters * scale * Nat.pow 10 (-k).toNat
  let value := lift (4 * b.m)
  let reads (d : Nat) : Bool :=
    if b.m % 2 = 0 then lift b.low ≤ d * unit ∧ d * unit ≤ lift b.high
    else lift b.low < d * unit ∧ d * unit < lift b.high
  let floor := value / unit
  match reads floor, reads (floor + 1) with
  | true, true => if 2 * (value % unit) ≤ unit then some floor else some (floor + 1)
  | true, false => some floor
  | false, true => some (floor + 1)
  | false, false => none

/-- The shortest digits that read back as the number, without closing zeros, and
the exponent of the first of them. -/
def Binary.digits (b : Binary) : List Char × Int :=
  let e := leadingExponent (b.m * Nat.pow 2 b.q.toNat) (Nat.pow 2 (-b.q).toNat)
  let grids := (List.range 17).filterMap fun n : Nat => (b.onGrid (e - n)).map fun d => (d, e - n)
  match grids with
  | [] => ([], 0)
  | (d, k) :: _ =>
    let ds := Nat.toDigits 10 d
    ((ds.reverse.dropWhile (· = '0')).reverse, k + (ds.length : Int) - 1)

/-- A number is written with an exponent when the exponent of its first digit is
below -5 or above 15, and always with a decimal point otherwise. -/
def layout (ds : List Char) (e : Int) : List Char :=
  if -5 ≤ e ∧ e < 0 then
    ['0', '.'] ++ List.replicate (-e - 1).toNat '0' ++ ds
  else if 0 ≤ e ∧ e < 16 then
    let whole := e.toNat + 1
    let after := ds.drop whole
    ds.take whole ++ List.replicate (whole - ds.length) '0' ++ '.' :: (if after.isEmpty then ['0'] else after)
  else
    let mantissa := match ds with
      | d :: rest@(_ :: _) => d :: '.' :: rest
      | ds => ds
    mantissa ++ 'e' :: (if e < 0 then '-' else '+') :: Nat.toDigits 10 e.natAbs

/-- The shortest text that reads back as a finite floating-point number. -/
def ofFloat (x : Float) : String :=
  let bits := x.toBits.toNat
  let sign := if bits / Nat.pow 2 63 = 1 then ['-'] else []
  let b := Binary.ofBits bits
  if b.m = 0 then String.ofList (sign ++ ['0', '.', '0'])
  else
    let (ds, e) := b.digits
    String.ofList (sign ++ layout ds e)

end BlobStore.Text.Shortest
