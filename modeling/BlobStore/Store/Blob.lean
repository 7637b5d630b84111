import BlobStore.Action

/-!
# Reading an object

A `Blob` is an object that is open for reading.  The bytes are read ahead into a
buffer, so what has been buffered is not changed by a later write to the same file.
-/

namespace BlobStore

/-- An object that is open for reading. -/
structure Blob where
  handle : Handle
  /-- the number of bytes when it was opened -/
  size : Nat
  /-- the number of bytes that have been read from the file -/
  position : Nat
  /-- bytes that have been read from the file but not taken -/
  buffered : ByteArray

namespace Blob

/-- The least number of bytes that is asked of a file at once. -/
def bufferSize : Nat := 8192

/-- A blob that starts with the first byte of a file. -/
def start (handle : Handle) (size : Nat) : Blob := ⟨handle, size, 0, ByteArray.empty⟩

/-- Takes up to a number of further bytes.  The file is asked only for what the buffer
does not hold, and then for a whole buffer at least. -/
def take (b : Blob) (n : Nat) : Action IoError (ByteArray × Blob) :=
  let missing := n - b.buffered.size
  if missing = 0 then
    pure (b.buffered.extract 0 n,
      { b with buffered := b.buffered.extract n b.buffered.size })
  else do
    let bytes ← Action.request (.readAt b.handle b.position (max missing bufferSize))
    return (b.buffered ++ bytes.extract 0 missing,
      { b with
        position := b.position + bytes.size
        buffered := bytes.extract missing bytes.size })

/-- All further bytes. -/
def rest (b : Blob) : Action IoError ByteArray := do
  let bytes ← Action.request (.readFrom b.handle b.position)
  return b.buffered ++ bytes

end Blob

end BlobStore
