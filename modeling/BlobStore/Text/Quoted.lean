import BlobStore.Text.Hex
import BlobStore.Text.Unprinted

/-!
# Quoted text

Messages show a text between double quotes, with quotes, backslashes and the
common blanks escaped and every character without a shape of its own given by
its number, as in `"a\u{301}"`.
-/

namespace BlobStore.Text

/-- The characters by which a quoted text shows one character. -/
def quotedChar (c : Char) : List Char :=
  if c = '\x00' then ['\\', '0']
  else if c = '\t' then ['\\', 't']
  else if c = '\r' then ['\\', 'r']
  else if c = '\n' then ['\\', 'n']
  else if c = '"' then ['\\', '"']
  else if c = '\\' then ['\\', '\\']
  else if 0x20 ≤ c.toNat ∧ c.toNat < 0x7F then [c]
  else if isUnprinted c then ['\\', 'u', '\x7b'] ++ Hex.ofNat c.toNat ++ ['\x7d']
  else [c]

/-- A text between double quotes, as messages show it. -/
def quoted (s : String) : String :=
  String.ofList ('"' :: s.toList.flatMap quotedChar ++ ['"'])

end BlobStore.Text
