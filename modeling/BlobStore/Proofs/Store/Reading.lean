import BlobStore.Proofs.Disk.Effects
import BlobStore.Store.Blob

/-!
# Reading an object piece by piece

A blob reads ahead, so what is left of an object lies partly in its buffer and partly in
the file (`Blob.remaining`).  Whatever the buffer holds, a take answers with the beginning
of what is left and leaves the rest (`run_take`), and reading to the end answers with all of
it (`run_rest`).  As long as the file keeps its bytes the buffer cannot be noticed.
-/

namespace BlobStore

/-! ## Parts of byte strings -/

theorem extract_min_size (a : ByteArray) (i j : Nat) :
    a.extract i (min j a.size) = a.extract i j := by
  apply ByteArray.ext_getElem
  · simp only [ByteArray.size_extract]
    omega
  · intro k _ _
    rw [ByteArray.getElem_extract, ByteArray.getElem_extract]

/-- Nothing is left after the end, wherever after the end one looks. -/
theorem extract_min_left (a : ByteArray) (n : Nat) :
    a.extract (min n a.size) a.size = a.extract n a.size := by
  by_cases hend : n ≤ a.size
  · rw [min_eq_left hend]
  · rw [min_eq_right (by omega), ByteArray.extract_same]
    exact (ByteArray.extract_eq_empty_iff.mpr (by omega)).symm

/-- The first bytes and all others are all bytes. -/
theorem extract_append_extract (t : ByteArray) (n : Nat) :
    t.extract 0 n ++ t.extract n t.size = t := by
  by_cases hend : n ≤ t.size
  · rw [← t.extract_eq_extract_append_extract n (Nat.zero_le n) hend, ByteArray.extract_zero_size]
  · have hnil : t.extract n t.size = ByteArray.empty :=
      ByteArray.extract_eq_empty_iff.mpr (by omega)
    rw [hnil, ByteArray.append_empty, ← extract_min_size, min_eq_right (by omega),
      ByteArray.extract_zero_size]

/-- What has been read ahead without what is taken of it, and the bytes after it: together
these are all bytes after the taken ones. -/
theorem extract_ahead (t : ByteArray) {n ahead : Nat} (h : n ≤ ahead) :
    (t.extract 0 ahead).extract n (t.extract 0 ahead).size ++
      t.extract (t.extract 0 ahead).size t.size = t.extract n t.size := by
  have hsize : (t.extract 0 ahead).size = min ahead t.size := by
    rw [ByteArray.size_extract, Nat.sub_zero]
  rw [hsize, ByteArray.extract_extract, Nat.zero_add, Nat.zero_add,
    min_eq_left (min_le_left ahead t.size)]
  by_cases hend : n ≤ t.size
  · exact (t.extract_eq_extract_append_extract _ (le_min h hend) (min_le_right _ _)).symm
  · -- more is taken than there is, so nothing is left
    have hnil (i j : Nat) (hij : min j t.size ≤ i) : t.extract i j = ByteArray.empty :=
      ByteArray.extract_eq_empty_iff.mpr hij
    rw [hnil _ _ (by omega), hnil _ _ (by omega), hnil _ _ (by omega), ByteArray.append_empty]

namespace Disk

variable (d : Disk) (h : Handle) (position n : Nat)

theorem readAt_eq : d.readAt h position n = (d.readFrom h position).extract 0 n := by
  rw [readAt, readFrom, ByteArray.extract_extract, extract_min_size, Nat.add_zero]

theorem readFrom_add :
    d.readFrom h (position + n) =
      (d.readFrom h position).extract n (d.readFrom h position).size := by
  rw [readFrom, readFrom, ByteArray.extract_extract, ByteArray.size_extract, min_self,
    min_eq_right (by omega)]

end Disk

/-! ## What is left of an object -/

namespace Blob

/-- The bytes of an object that have not been taken. -/
def remaining (b : Blob) (d : Disk) : ByteArray := b.buffered ++ d.readFrom b.handle b.position

/-- A blob from which bytes have been taken: these are gone from its beginning, and it is
still open on the same file. -/
structure Follows (b b' : Blob) (d : Disk) (n : Nat) : Prop where
  handle : b'.handle = b.handle
  size : b'.size = b.size
  remaining : b'.remaining d = (b.remaining d).extract n (b.remaining d).size

variable (b : Blob) (d : Disk)

theorem run_rest : b.rest.run d = (.ok (b.remaining d), d) := by
  rw [rest, Action.run_bind, Action.run_request]
  rfl

theorem remaining_start (h : Handle) (size : Nat) : (start h size).remaining d = d.bytes h.number := by
  simp [remaining, start, Disk.readFrom]

/-- Reading at once from the beginning gives all bytes of the file. -/
theorem run_rest_start (h : Handle) (size : Nat) :
    (start h size).rest.run d = (.ok (d.bytes h.number), d) := by
  rw [run_rest, remaining_start]

/-- The first bytes of what is left come from the buffer and then from the file. -/
theorem extract_remaining (n : Nat) :
    (b.remaining d).extract 0 n =
      b.buffered.extract 0 n ++ (d.readFrom b.handle b.position).extract 0 (n - b.buffered.size) := by
  rw [remaining, ByteArray.extract_append, Nat.zero_sub]

/-- So do the bytes after them. -/
theorem extract_remaining_size (n : Nat) :
    (b.remaining d).extract n (b.remaining d).size =
      b.buffered.extract n b.buffered.size ++
        (d.readFrom b.handle b.position).extract (n - b.buffered.size)
          (d.readFrom b.handle b.position).size := by
  rw [remaining, ByteArray.extract_append, ByteArray.size_append, Nat.add_sub_cancel_left,
    ← extract_min_size b.buffered n (b.buffered.size + _), min_eq_right (Nat.le_add_right ..)]

/-- The buffer holds all that is asked for. -/
theorem run_take_of_le {n : Nat} (h : n ≤ b.buffered.size) :
    ∃ b', (b.take n).run d = (.ok ((b.remaining d).extract 0 n, b'), d) ∧ b.Follows b' d n := by
  have hnothing : n - b.buffered.size = 0 := Nat.sub_eq_zero_of_le h
  refine ⟨{ b with buffered := b.buffered.extract n b.buffered.size }, ?_, rfl, rfl, ?_⟩
  · rw [extract_remaining, hnothing, ByteArray.extract_same, ByteArray.append_empty, take]
    rw [if_pos hnothing]
    rfl
  · rw [extract_remaining_size, hnothing, ByteArray.extract_zero_size]
    rfl

/-- The file is asked for what the buffer does not hold, and for more. -/
theorem run_take_of_lt {n : Nat} (h : b.buffered.size < n) :
    ∃ b', (b.take n).run d = (.ok ((b.remaining d).extract 0 n, b'), d) ∧ b.Follows b' d n := by
  have hmissing : n - b.buffered.size ≠ 0 := by omega
  have hall : b.buffered.extract 0 n = b.buffered := by
    rw [← extract_min_size, min_eq_right h.le, ByteArray.extract_zero_size]
  have hnone : b.buffered.extract n b.buffered.size = ByteArray.empty :=
    ByteArray.extract_eq_empty_iff.mpr (by omega)
  generalize hahead : max (n - b.buffered.size) bufferSize = ahead
  have hle : n - b.buffered.size ≤ ahead := hahead ▸ le_max_left _ _
  let bytes := (d.readFrom b.handle b.position).extract 0 ahead
  refine ⟨{ b with
    position := b.position + bytes.size
    buffered := bytes.extract (n - b.buffered.size) bytes.size }, ?_, rfl, rfl, ?_⟩
  · have hpiece : (d.readFrom b.handle b.position).extract 0 (n - b.buffered.size) =
        bytes.extract 0 (n - b.buffered.size) := by
      rw [ByteArray.extract_extract, Nat.zero_add, Nat.zero_add, min_eq_left hle]
    rw [extract_remaining, hall, hpiece, take]
    rw [if_neg hmissing, Action.run_bind, Action.run_request, hahead]
    simp only [Disk.perform, Disk.looking, Disk.readAt_eq]
    rfl
  · rw [extract_remaining_size, hnone, ByteArray.empty_append]
    refine Eq.trans ?_ (extract_ahead _ hle)
    rw [← Disk.readFrom_add]
    rfl

/-- A take answers with the first bytes of what is left, and leaves all after them. -/
theorem run_take (n : Nat) :
    ∃ b', (b.take n).run d = (.ok ((b.remaining d).extract 0 n, b'), d) ∧ b.Follows b' d n :=
  (Nat.lt_or_ge b.buffered.size n).elim (b.run_take_of_lt d) (b.run_take_of_le d)

/-- The first take from a file that fits into the buffer reads all of the file. -/
theorem run_take_start {h : Handle} {n : Nat} (size : Nat) (hn : 0 < n)
    (hsmall : (d.bytes h.number).size ≤ bufferSize) :
    ((start h size).take n).run d =
      (.ok ((d.bytes h.number).extract 0 n, ⟨h, size, (d.bytes h.number).size,
        (d.bytes h.number).extract n (d.bytes h.number).size⟩), d) := by
  have hall : d.readAt h 0 (max n bufferSize) = d.bytes h.number := by
    rw [Disk.readAt, Nat.zero_add, ← extract_min_size, min_eq_right (hsmall.trans (le_max_right ..)),
      ByteArray.extract_zero_size]
  rw [start, take, if_neg (by simpa using hn.ne'), Action.run_bind, Action.run_request]
  simp only [Disk.perform, Disk.looking, ByteArray.size_empty, Nat.sub_zero, hall,
    ByteArray.empty_append, Nat.zero_add]
  rfl

end Blob

end BlobStore
