/-!
# Hexadecimal text

Each byte is written as two lowercase digits, the high half first, so the text
of `n` bytes has `2 * n` characters (`length_encode`).
-/

namespace BlobStore.Text.Hex

/-- The lowercase digit of a number below sixteen. -/
def digit (n : Fin 16) : Char :=
  if n.val < 10 then Char.ofNat ('0'.toNat + n.val) else Char.ofNat ('a'.toNat + (n.val - 10))

/-- The two digits of a byte. -/
def pair (b : UInt8) : List Char :=
  [digit ⟨b.toNat / 16, by have := b.toNat_lt; omega⟩,
   digit ⟨b.toNat % 16, by omega⟩]

/-- The hexadecimal characters of a list of bytes. -/
def encode (bs : List UInt8) : List Char :=
  bs.flatMap pair

@[simp] theorem encode_nil : encode [] = [] := rfl

@[simp] theorem encode_cons (b : UInt8) (bs : List UInt8) :
    encode (b :: bs) = pair b ++ encode bs := rfl

@[simp] theorem length_pair (b : UInt8) : (pair b).length = 2 := rfl

@[simp] theorem length_encode (bs : List UInt8) : (encode bs).length = 2 * bs.length := by
  induction bs with
  | nil => rfl
  | cons b bs ih => simp [ih]; omega

/-- The characters that hexadecimal text consists of. -/
def IsDigit (c : Char) : Prop := c ∈ "0123456789abcdef".toList

instance (c : Char) : Decidable (IsDigit c) := inferInstanceAs (Decidable (_ ∈ _))

theorem isDigit_digit (n : Fin 16) : IsDigit (digit n) := by
  revert n
  decide

theorem isDigit_of_mem_encode {bs : List UInt8} {c : Char} (h : c ∈ encode bs) : IsDigit c := by
  obtain ⟨b, -, hc⟩ := List.mem_flatMap.1 h
  simp only [pair, List.mem_cons, List.not_mem_nil, or_false] at hc
  rcases hc with rfl | rfl <;> exact isDigit_digit _

/-- The digits of a number without leading zeros, as used in character escapes. -/
def ofNat (n : Nat) : List Char :=
  if h : n < 16 then [digit ⟨n, h⟩]
  else ofNat (n / 16) ++ [digit ⟨n % 16, by omega⟩]

end BlobStore.Text.Hex
