import BlobStore.Proofs.Disk.Effects
import BlobStore.Store.Source

/-!
# What a copy writes

However a source cuts up its bytes and however often it is interrupted, a copy appends
one string of bytes to the file, and answers with its length or fails with the failure of
the source (`Source.run_copyTo`).  For a stream the bytes are those of the deliveries up
to the first empty one, which is its end, and its own failure comes only if there is none.
-/

namespace BlobStore

namespace Disk

theorem setBytes_bytes (d : Disk) (i : Nat) : d.setBytes i (d.bytes i) = d := by
  have hcontents : d.contents.setIfInBounds i (d.bytes i) = d.contents := by
    apply Array.ext (by simp)
    intro j hj _
    rw [Array.getElem_setIfInBounds]
    split_ifs with hij
    · subst hij
      have : i < d.contents.size := by simpa using hj
      simp [bytes, Array.getD_eq_getD_getElem?, this]
    · rfl
  rw [setBytes, hcontents]

theorem setBytes_setBytes (d : Disk) (i : Nat) (a b : ByteArray) :
    (d.setBytes i a).setBytes i b = d.setBytes i b := by
  simp [setBytes, Array.setIfInBounds_setIfInBounds]

theorem append_empty (d : Disk) (h : Handle) : d.append h ByteArray.empty = d := by
  rw [append, ByteArray.append_empty, setBytes_bytes]

/-- Appending piece by piece is appending at once. -/
theorem append_append (d : Disk) (h : Handle) (a b : ByteArray) :
    (d.append h a).append h b = d.append h (a ++ b) := by
  by_cases hi : h.number < d.contents.size
  · rw [append, append, append, setBytes_setBytes, bytes_setBytes, if_pos ⟨rfl, hi⟩,
      ByteArray.append_assoc]
  · have hnone (x : ByteArray) : d.setBytes h.number x = d := by
      simp [setBytes, Array.setIfInBounds, hi]
    rw [append, append, append, hnone, hnone, hnone]

end Disk

namespace Source

/-- The bytes that deliveries bring before the first empty one, which is the end. -/
def collected : List Delivery → ByteArray
  | [] => ByteArray.empty
  | .interrupted :: rest => collected rest
  | .bytes b :: rest => if b.isEmpty then ByteArray.empty else b ++ collected rest

/-- Bytes that are delivered at once are collected, also if there are none. -/
theorem collected_bytes (b : ByteArray) : collected [.bytes b] = b := by
  rw [collected]
  split_ifs with hempty
  · exact (ByteArray.size_eq_zero_iff.mp (by simpa [ByteArray.isEmpty] using hempty)).symm
  · exact ByteArray.append_empty

/-- Whether an empty one is among some deliveries. -/
def hasEnd : List Delivery → Bool
  | [] => false
  | .interrupted :: rest => hasEnd rest
  | .bytes b :: rest => b.isEmpty || hasEnd rest

/-- The bytes that a source delivers when it is asked on a disk. -/
def delivered (s : Source) (d : Disk) : ByteArray :=
  match s with
  | reader deliveries _ => collected deliveries
  | opened .dir => ByteArray.empty
  | opened (.file file _) => d.readFrom file 0

/-- The failure in which a source ends, if it does. -/
def failure? : Source → Option IoError
  | reader deliveries failure => if hasEnd deliveries then none else failure
  | opened .dir => some (.system .isDirectory)
  | opened (.file _ _) => none

/-- What a copy answers: how many bytes there were, or the failure of the source. -/
def answer (s : Source) (d : Disk) : Except IoError Nat :=
  match s.failure? with
  | none => .ok (s.delivered d).size
  | some e => .error e

/-- What a stream delivers does not depend on the disk. -/
@[simp] theorem delivered_reader (deliveries : List Delivery) (failure : Option IoError)
    (d : Disk) : (reader deliveries failure).delivered d = collected deliveries := rfl

/-- A stream with no failure of its own ends, be it with an empty delivery or after the last. -/
@[simp] theorem failure?_reader_none (deliveries : List Delivery) :
    (reader deliveries none).failure? = none := ite_self _

/-- A new file changes nothing for a source, not even for one that reads what it finds under
the number of that file. -/
theorem delivered_insertFile (s : Source) (d : Disk) (l : Location) :
    s.delivered (d.insertFile l) = s.delivered d := by
  have hbytes (i : Nat) : (d.insertFile l).bytes i = d.bytes i := by
    rw [Disk.bytes_insertFile]
    split_ifs with hi
    · simp [Disk.bytes, hi]
    · rfl
  cases s with
  | reader deliveries failure => rfl
  | opened o =>
    cases o with
    | dir => rfl
    | file file size => rw [delivered, delivered, Disk.readFrom, Disk.readFrom, hbytes]

theorem run_copyDeliveries (h : Handle) (failure : Option IoError) (deliveries : List Delivery) :
    ∀ (n : Nat) (d : Disk), (copyDeliveries h failure deliveries n).run d =
      (match (reader deliveries failure).failure? with
        | none => .ok (n + (collected deliveries).size)
        | some e => .error e, d.append h (collected deliveries)) := by
  induction deliveries with
  | nil =>
    intro n d
    cases failure <;> simp [copyDeliveries, failure?, hasEnd, collected, Disk.append_empty]
  | cons delivery rest ih =>
    intro n d
    cases delivery with
    | interrupted => exact ih n d
    | bytes b =>
      rw [copyDeliveries, failure?, hasEnd, collected]
      cases hempty : b.isEmpty with
      | true => simp [Disk.append_empty]
      | false =>
        rw [if_neg (by simp), Action.run_bind, Action.run_request]
        show (copyDeliveries h failure rest (n + b.size)).run (d.append h b) = _
        rw [ih, Disk.append_append, failure?]
        simp [Nat.add_assoc]

/-- A copy appends what the source delivers to the file. -/
theorem run_copyTo (s : Source) (h : Handle) (d : Disk) :
    (s.copyTo h).run d = (s.answer d, d.append h (s.delivered d)) := by
  cases s with
  | reader deliveries failure =>
    rw [copyTo, run_copyDeliveries, Nat.zero_add]
    rfl
  | opened o =>
    cases o with
    | dir => simp [copyTo, answer, failure?, delivered, Disk.append_empty]
    | file file size => rfl

end Source

end BlobStore
