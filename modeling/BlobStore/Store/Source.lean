import BlobStore.Action

/-!
# Where the bytes of an object come from

A source delivers its bytes in pieces, may be interrupted between them, and may fail
in the end instead of ending.  `Source.copyTo` writes what a source delivers to an open
file, piece by piece; an interruption is passed over, any other failure is that of the
copy.
-/

namespace BlobStore

/-- One answer of a source that is asked for bytes. -/
inductive Delivery where
  | bytes (b : ByteArray)
  | interrupted

/-- A source of bytes. -/
inductive Source where
  /-- a source that makes the given deliveries and then ends, or fails for good -/
  | reader (deliveries : List Delivery) (failure : Option IoError)
  /-- what has been opened for reading -/
  | opened (o : Opened)

namespace Source

/-- The source that makes the given deliveries and then ends, or gives up without more
to say. -/
def stream (deliveries : List Delivery) (givesUp : Bool) : Source :=
  .reader deliveries (if givesUp then some (.custom "source failed") else none)

/-- The source that delivers some bytes at once. -/
def ofBytes (b : ByteArray) : Source := .stream [.bytes b] false

/-- Writes deliveries to an open file and answers how many bytes there were, together
with the number of those before.  Nothing delivered is the end. -/
def copyDeliveries (h : Handle) (failure : Option IoError) :
    List Delivery → Nat → Action IoError Nat
  | [], n =>
    match failure with
    | some e => .fail e
    | none => pure n
  | .interrupted :: rest, n => copyDeliveries h failure rest n
  | .bytes b :: rest, n =>
    if b.isEmpty then pure n
    else do
      Action.request (.append h b)
      copyDeliveries h failure rest (n + b.size)

/-- Writes what a source delivers to an open file and answers how many bytes there
were.  A directory can be opened but not read. -/
def copyTo (s : Source) (h : Handle) : Action IoError Nat :=
  match s with
  | reader deliveries failure => copyDeliveries h failure deliveries 0
  | opened .dir => .fail (.system .isDirectory)
  | opened (.file file _) => do
    let bytes ← Action.request (.readFrom file 0)
    Action.request (.append h bytes)
    return bytes.size

end Source

end BlobStore
