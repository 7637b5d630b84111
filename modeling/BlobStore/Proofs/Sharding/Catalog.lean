import BlobStore.Proofs.Sharding.Shelf
import BlobStore.Proofs.Store.Copying
import BlobStore.Proofs.Store.Runs

/-!
# Catalogs

What a sharded store is for its callers: a map from digests to bytes.  `Catalog.perform`
says what each operation answers and does to the map; nothing in it speaks of files or
directories.
-/

namespace BlobStore

/-- The objects of a sharded store, by the digests of their keys. -/
abbrev Catalog := List Char → Option ByteArray

/-- A use of a store by a caller who has the bytes to be written, or a stream of them. -/
inductive Act where
  | has (key : String)
  | read (key : String)
  | write (key : String) (deliveries : List Delivery) (failure : Option IoError)
  | writeBytes (key : String) (bytes : ByteArray)
  | delete (key : String)
  | clear

/-- The operation that a use comes down to. -/
def Act.operation : Act → Operation
  | has key => .has key
  | read key => .read key
  | write key deliveries failure => .write key (.reader deliveries failure)
  | writeBytes key bytes => .write key (.ofBytes bytes)
  | delete key => .delete key
  | clear => .clear

/-- The key of a use, unless it concerns all objects. -/
def Act.key? : Act → Option String
  | has key | read key | write key _ _ | writeBytes key _ | delete key => some key
  | clear => none

/-- Every use with a key comes down to one of four operations on it. -/
theorem Act.operation_of_key? {P : Operation → Prop} {act : Act} {key : String}
    (hkey : act.key? = some key) (hhas : P (.has key)) (hread : P (.read key))
    (hwrite : ∀ deliveries failure, P (.write key (.reader deliveries failure)))
    (hdelete : P (.delete key)) : P act.operation := by
  cases act with
  | clear => cases hkey
  | has key' =>
    cases hkey
    exact hhas
  | read key' =>
    cases hkey
    exact hread
  | write key' deliveries failure =>
    cases hkey
    exact hwrite deliveries failure
  | writeBytes key' bytes =>
    cases hkey
    exact hwrite [.bytes bytes] none
  | delete key' =>
    cases hkey
    exact hdelete

namespace Catalog

/-- The catalog with other bytes under a digest. -/
def put (m : Catalog) (h : List Char) (b : ByteArray) : Catalog :=
  fun x => if x = h then some b else m x

/-- What a use answers, and the catalog after it.  A stream that fails makes the write
fail with its own error; what it delivered before is kept only if the write is not atomic.  A
deletion takes all digests with it that have the same first block. -/
def perform (sh : Sharding) (atomic : Bool) (m : Catalog) : Act → Reply × Catalog
  | .has key => (.present (m (sh.digest key)).isSome, m)
  | .read key =>
    match m (sh.digest key) with
    | some b => (.contents b.size b, m)
    | none => (.failed (.notFound key), m)
  | .write key deliveries failure =>
    let b := Source.collected deliveries
    match (Source.reader deliveries failure).failure? with
    | none => (.written b.size, m.put (sh.digest key) b)
    | some e => (.failed (.io e), if atomic then m else m.put (sh.digest key) b)
  | .writeBytes key bytes => (.written bytes.size, m.put (sh.digest key) bytes)
  | .delete key =>
    (.deleted, fun x =>
      if x.take sh.blockSize = (sh.digest key).take sh.blockSize then none else m x)
  | .clear => (.cleared, fun _ => none)

/-- The answers to uses one after the other, each with its way of writing. -/
def replies (sh : Sharding) (m : Catalog) : List (Bool × Act) → List Reply
  | [] => []
  | (atomic, act) :: rest =>
    (m.perform sh atomic act).1 :: replies sh (m.perform sh atomic act).2 rest

end Catalog

/-- The answer of a store is the one that its catalog gives.  Only that clearing is allowed to
fail at a root whose text ends in a dot, for a directory cannot be removed by such a path. -/
def Reply.Meets (root : Path) (r expected : Reply) : Prop :=
  r = expected ∨
    ¬ root.Trimmed ∧ expected = .cleared ∧ r = .failed (.io (.system .invalid))

theorem Reply.Meets.eq_of_trimmed {root : Path} (hroot : root.Trimmed) {r expected : Reply}
    (h : r.Meets root expected) : r = expected :=
  h.resolve_right fun hdot => hdot.1 hroot

end BlobStore
