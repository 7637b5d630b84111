import BlobStore.Store.Objects

/-!
# Operations and what they report

An `Operation` is one call on a store.  `Store.perform` carries it out, and `Store.events` tells
what is reported about it when it has succeeded; an operation that fails reports
nothing.
-/

namespace BlobStore

/-- A call on a store. -/
inductive Operation where
  | has (key : String)
  | write (key : String) (source : Source)
  | read (key : String)
  | delete (key : String)
  | clear

/-- The answer of an operation that succeeds. -/
inductive Answer where
  | present (b : Bool)
  | written (bytes : Nat)
  | opened (blob : Blob)
  | deleted
  | cleared

/-- How important an event is. -/
inductive Level where
  | debug
  | info
  deriving DecidableEq, Repr

/-- Something that is reported: a message and named values. -/
structure Event where
  level : Level
  message : String
  values : Json.Record
  deriving DecidableEq, Repr

namespace Store

/-- Carries out an operation. -/
def perform (s : Store) : Operation → Action StoreError Answer
  | .has key => Answer.present <$> s.has key
  | .write key source => Answer.written <$> s.write key source
  | .read key => Answer.opened <$> s.read key
  | .delete key => (fun _ => Answer.deleted) <$> s.delete key
  | .clear => (fun _ => Answer.cleared) <$> s.clear

/-- What is reported about an operation that has succeeded. -/
def events (s : Store) (operation : Operation) (answer : Answer) : List Event :=
  let path (key : String) : String := match s.location key with
    | .ok file => file.display
    | .error _ => ""
  match operation, answer with
  | .write key _, .written n =>
    [⟨.debug, "wrote object", [("path", .text (path key)), ("bytes", .natural n)]⟩]
  | .read key, .opened blob =>
    [⟨.debug, "opened object",
      [("key", .text key), ("path", .text (path key)), ("bytes", .natural blob.size)]⟩]
  | .delete key, .deleted =>
    [⟨.info, "deleted [" ++ (s.layout key).filename ++ "] from disk", [("key", .text key)]⟩]
  | .clear, .cleared =>
    [⟨.info, "cleared store", [("root", .text s.root.display)]⟩]
  | _, _ => []

end Store

end BlobStore
