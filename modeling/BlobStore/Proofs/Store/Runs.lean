import BlobStore.Proofs.Disk.Effects
import BlobStore.Store.Operation

/-!
# Runs of operations

A run is a list of calls, each on a store of its own, so that the way of writing or the
layout may differ from call to call.  A call that fails does not end the run.

`Call.reply` is what a caller learns from a call.  For an object that has been opened this
is its size together with all its bytes, as reading them at once gives them.
-/

namespace BlobStore

/-- An operation on a store. -/
structure Call where
  store : Store
  operation : Operation

/-- What a caller learns from a call. -/
inductive Reply where
  | present (b : Bool)
  | written (bytes : Nat)
  | contents (size : Nat) (bytes : ByteArray)
  | deleted
  | cleared
  | failed (e : StoreError)

/-- Whether a caller learns of a failure. -/
def Reply.isFailed : Reply → Bool
  | failed _ => true
  | _ => false

/-- What a caller learns from an answer on the disk after it. -/
def Answer.reply (a : Answer) (d : Disk) : Reply :=
  match a with
  | present b => .present b
  | written n => .written n
  | deleted => .deleted
  | cleared => .cleared
  | opened blob =>
    match (blob.rest.run d).1 with
    | .ok bytes => .contents blob.size bytes
    | .error e => .failed (.io e)

namespace Store

/-- What a caller learns from an operation. -/
def reply (s : Store) (operation : Operation) (d : Disk) : Reply :=
  match (s.perform operation).run d with
  | (.ok a, d') => a.reply d'
  | (.error e, _) => .failed e

/-- The disk after an operation. -/
def next (s : Store) (operation : Operation) (d : Disk) : Disk := ((s.perform operation).run d).2

end Store

/-- The disk after a run. -/
def Disk.after (d : Disk) : List Call → Disk
  | [] => d
  | c :: calls => (c.store.next c.operation d).after calls

/-- What the callers learn in a run. -/
def Disk.replies (d : Disk) : List Call → List Reply
  | [] => []
  | c :: calls => c.store.reply c.operation d :: (c.store.next c.operation d).replies calls

namespace Store

variable (s : Store) (d : Disk)

theorem next_locate (operation : Operation) (p : Path) :
    (s.next operation d).locate p = d.locate p := Action.run_locate _ d p

theorem next_unshared (operation : Operation) {d : Disk} (hd : d.Unshared) :
    (s.next operation d).Unshared := Action.run_unshared _ hd

/-! ## Operations one by one -/

theorem next_has (key : String) : s.next (.has key) d = ((s.has key).run d).2 := by
  rw [next, perform, Action.run_map]

theorem next_write (key : String) (source : Source) :
    s.next (.write key source) d = ((s.write key source).run d).2 := by
  rw [next, perform, Action.run_map]

theorem next_read (key : String) : s.next (.read key) d = ((s.read key).run d).2 := by
  rw [next, perform, Action.run_map]

theorem next_delete (key : String) : s.next (.delete key) d = ((s.delete key).run d).2 := by
  rw [next, perform, Action.run_map]

theorem next_clear : s.next .clear d = (s.clear.run d).2 := by
  rw [next, perform, Action.run_map]

theorem reply_delete (key : String) :
    s.reply (.delete key) d = match ((s.delete key).run d).1 with
      | .ok _ => .deleted
      | .error e => .failed e := by
  rw [reply, perform, Action.run_map]
  rcases (s.delete key).run d with ⟨_ | _, d'⟩ <;> rfl

theorem reply_clear :
    s.reply .clear d = match (s.clear.run d).1 with
      | .ok _ => .cleared
      | .error e => .failed e := by
  rw [reply, perform, Action.run_map]
  rcases s.clear.run d with ⟨_ | _, d'⟩ <;> rfl

theorem reply_write (key : String) (source : Source) :
    s.reply (.write key source) d = match ((s.write key source).run d).1 with
      | .ok n => .written n
      | .error e => .failed e := by
  rw [reply, perform, Action.run_map]
  rcases (s.write key source).run d with ⟨_ | _, d'⟩ <;> rfl

end Store

end BlobStore
