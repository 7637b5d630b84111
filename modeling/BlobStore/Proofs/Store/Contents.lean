import BlobStore.Proofs.Disk.Numbers
import BlobStore.Proofs.Store.Looking
import BlobStore.Proofs.Store.Requests

/-!
# What a store holds under a key

`Store.object?` are the bytes that a store holds under a key on a disk: those of the file to
which the object's path leads.  Opening an object succeeds if and only if there are such bytes,
and what is open is then the file with these bytes (`read_eq_ok`).

Nothing is asked of the root here, and of the disk only that it keeps the bytes of its files.
-/

namespace BlobStore.Store

variable {s : Store} {key : String} {d d' : Disk}

/-- The bytes that are stored under a key. -/
def object? (s : Store) (d : Disk) (key : String) : Option ByteArray :=
  match s.location key with
  | .ok file => d.file? file
  | .error _ => none

theorem location_eq_ok {file : Path} :
    s.location key = .ok file ↔ ∃ site, s.site key = .ok site ∧ site.file = file := by
  rw [location]
  cases s.site key <;> simp [Except.map]

theorem object?_eq_some {b : ByteArray} :
    s.object? d key = some b ↔ ∃ file i, s.location key = .ok file ∧ d.number? file = some i ∧
      d.bytes i = b := by
  rw [object?]
  cases s.location key with
  | error e => simp
  | ok file => simp [Disk.file?_eq_some]

/-- What is open after an object has been opened is its file, from the first byte on. -/
theorem read_eq_ok {blob : Blob} :
    (s.read key).run d = (.ok blob, d') ↔ ∃ file h, s.location key = .ok file ∧
      d.number? file = some h.number ∧ blob = Blob.start h (d.bytes h.number).size ∧ d' = d := by
  rw [run_read]
  constructor
  · intro hrun
    obtain ⟨hok, rfl⟩ := Prod.mk.inj hrun
    cases hsite : s.site key with
    | error e => simp [hsite] at hok
    | ok site =>
      simp only [hsite] at hok
      split at hok
      · next h size hopen =>
        obtain ⟨hnumber, rfl⟩ := Disk.openRead_eq_ok_file.mp hopen
        exact ⟨site.file, h, location_eq_ok.mpr ⟨site, hsite, rfl⟩, hnumber,
          (Except.ok.inj hok).symm, rfl⟩
      · cases hok
      · split_ifs at hok
  · rintro ⟨file, h, hlocation, hnumber, rfl, rfl⟩
    obtain ⟨site, hsite, rfl⟩ := location_eq_ok.mp hlocation
    have hopen := Disk.openRead_eq_ok_file.mpr ⟨hnumber, rfl⟩
    simp only [hsite, hopen]

/-- An object that is there can be opened. -/
theorem read_of_object? {b : ByteArray} (hobject : s.object? d key = some b) :
    ∃ h, (s.read key).run d = (.ok (Blob.start h b.size), d) ∧ d.bytes h.number = b := by
  obtain ⟨file, i, hlocation, hnumber, rfl⟩ := object?_eq_some.mp hobject
  exact ⟨⟨i⟩, read_eq_ok.mpr ⟨file, ⟨i⟩, hlocation, hnumber, rfl, rfl⟩, rfl⟩

end BlobStore.Store
