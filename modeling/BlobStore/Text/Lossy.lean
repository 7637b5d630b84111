/-!
# Bytes shown as text

Bytes that are valid UTF-8 are shown as the text they encode.  Otherwise every
longest run of bytes that begins a character but does not complete it, and every
byte that cannot begin one, is shown as U+FFFD.
-/

namespace BlobStore.Text

/-- Whether a byte continues a character. -/
def isContinuation (b : UInt8) : Bool := 0x80 ≤ b && b ≤ 0xBF

/-- The bytes that may follow a leading byte at once, and how many bytes the whole
character has after the leading one. -/
def following (b : UInt8) : Option ((UInt8 → Bool) × Nat) :=
  if 0xC2 ≤ b ∧ b ≤ 0xDF then some (isContinuation, 1)
  else if b = 0xE0 then some (fun c => 0xA0 ≤ c && c ≤ 0xBF, 2)
  else if b = 0xED then some (fun c => 0x80 ≤ c && c ≤ 0x9F, 2)
  else if 0xE1 ≤ b ∧ b ≤ 0xEF then some (isContinuation, 2)
  else if b = 0xF0 then some (fun c => 0x90 ≤ c && c ≤ 0xBF, 3)
  else if 0xF1 ≤ b ∧ b ≤ 0xF3 then some (isContinuation, 3)
  else if b = 0xF4 then some (fun c => 0x80 ≤ c && c ≤ 0x8F, 3)
  else none

/-- The character that a leading byte begins, if it is completed, and how many of the
bytes after it belong to it. -/
def leadingChar? (b : UInt8) (rest : List UInt8) : Option Char × Nat :=
  if b < 0x80 then (some (Char.ofNat b.toNat), 0)
  else
    match following b with
    | none => (none, 0)
    | some (second, count) =>
      let tail := match rest with
        | c :: cs => if second c then c :: (cs.take (count - 1)).takeWhile isContinuation else []
        | [] => []
      if tail.length = count then
        let low := tail.foldl (fun n c => n * 0x40 + (c.toNat - 0x80)) (b.toNat % Nat.pow 2 (6 - count))
        (some (Char.ofNat low), count)
      else (none, tail.length)

/-- The characters that bytes are shown as. -/
def lossyChars : List UInt8 → List Char
  | [] => []
  | b :: rest =>
    let (c, n) := leadingChar? b rest
    c.getD '\ufffd' :: lossyChars (rest.drop n)
termination_by bs => bs.length
decreasing_by simp only [List.length_drop, List.length_cons]; omega

/-- The text that bytes are shown as. -/
def lossy (bs : List UInt8) : String :=
  match String.fromUTF8? ⟨bs.toArray⟩ with
  | some s => s
  | none => String.ofList (lossyChars bs)

end BlobStore.Text
