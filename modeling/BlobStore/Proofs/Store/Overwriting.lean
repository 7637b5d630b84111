import BlobStore.Proofs.Store.Acceptance
import BlobStore.Proofs.Store.Delivered
import BlobStore.Proofs.Store.MadeAlready
import BlobStore.Proofs.Store.Opening

/-!
# Writing over an object that is open

A plain write empties the file that is there and fills it again, so a blob that is open on the
object stays open on the file that now holds other bytes.  What such a blob reads afterwards has two
sources: the bytes that it has read ahead, which are old ones, and the file from the position on up
to which it has read, which holds new ones.

```text
before the write     buffered                 position         all further bytes
nothing taken        nothing                  0                the new bytes
n bytes taken        the old ones after n     number of old    old ones after n, then the new ones
                                                               after as many as there were old
```

The second line is so since an object that fits into the buffer is read ahead as a whole
(`Blob.run_take_start`).  The write itself always succeeds: the file is there, and so are the
directories above it (`opening_of_number?`).
-/

namespace BlobStore.Store

variable {s : Store} {key : String} {site : Site} {d d' : Disk}

/-- The file of an object that is there can be opened for writing, which empties it and does
nothing else. -/
theorem opening_of_number? (hsite : s.site key = .ok site) (hd : d.Stored) {i : Nat}
    (hnumber : d.number? site.file = some i) :
    ∃ d', (opening site).run d = (.ok ⟨i⟩, d') ∧ d.Fills d' site.file i ByteArray.empty := by
  obtain ⟨l, hleads, hnode⟩ := Disk.number?_eq_some.mp hnumber
  have hmade : (makeDirs site.dir).run d = (.ok (), d) :=
    run_makeDirs_parent? (parent?_file hsite) (Disk.resolve_eq_file.mpr ⟨hleads, hnode⟩)
  have hnotdir : d.node? l ≠ some .dir := by simp [hnode]
  obtain ⟨⟨h, d'⟩, hcreate⟩ := Disk.exists_create_eq_ok hleads hnotdir
  have hfills := Disk.fills_create hd hcreate
  obtain rfl : h.number = i := by
    rcases hfills.fresh with hsame | ⟨hnone, -⟩
    · exact Option.some.inj (hsame.symm.trans hnumber)
    · rw [hnumber] at hnone
      cases hnone
  refine ⟨d', ?_, hfills⟩
  rw [opening, Action.run_bind, hmade]
  exact (Action.run_request _ _).trans (Disk.perform_create_eq_ok.mpr hcreate)

/-- What a plain write puts into the file with a number: a source that reads from that very file
finds it emptied. -/
def replacement (source : Source) (i : Nat) (d : Disk) : ByteArray :=
  if source.number? = some i then ByteArray.empty else source.delivered d

/-- Bytes that are written at once are what is put into the file. -/
theorem replacement_ofBytes (data : ByteArray) (i : Nat) (d : Disk) :
    replacement (.ofBytes data) i d = data :=
  Source.collected_bytes data

/-- A plain write over an object succeeds if its source does, and the object's file then holds the
new bytes. -/
theorem write_over (hplain : s.atomicWrites = false) (hsite : s.site key = .ok site) (hd : d.Stored)
    {i : Nat} (hnumber : d.number? site.file = some i) {source : Source}
    (hsource : source.failure? = none) :
    ∃ d', (s.write key source).run d = (.ok (replacement source i d).size, d') ∧
      d.Fills d' site.file i (replacement source i d) := by
  obtain ⟨d₁, hopening, hemptied⟩ := opening_of_number? hsite hd hnumber
  have hdelivered : source.delivered d₁ = replacement source i d :=
    source.delivered_of_fills hemptied
  have hanswer : source.answer d₁ = .ok (replacement source i d).size :=
    Source.answer_eq_ok.mpr ⟨hsource, by rw [hdelivered]⟩
  refine ⟨_, ?_, Disk.Fills.append (h := ⟨i⟩) hemptied _⟩
  rw [run_write_of_opened hplain hsite hopening, hanswer, hdelivered]
  rfl

/-- **An open blob across a plain write.**  Let an object of at most 8192 bytes be opened, and then
written over by a plain write.  The write succeeds, and the object has the new bytes.  If nothing
has been taken from the blob before the write, then all its further bytes are the new ones.  If up
to `n` bytes have been taken, they are the first `n` old ones, and all further bytes are the old
ones after them and then the new ones from where the old ones ended, which are none if there are not
more new ones than old ones.  The size that the blob knows is that of the old bytes in both
cases. -/
theorem overwritten_while_open (hplain : s.atomicWrites = false) (hd : d.Stored)
    {old : ByteArray} (hobject : s.object? d key = some old) (hsmall : old.size ≤ Blob.bufferSize)
    {source : Source} (hsource : source.failure? = none) :
    ∃ blob d', (s.read key).run d = (.ok blob, d) ∧ blob.size = old.size ∧
      let new := replacement source blob.handle.number d
      (∀ data, source = .ofBytes data → new = data) ∧
        (s.write key source).run d = (.ok new.size, d') ∧ s.object? d' key = some new ∧
        blob.rest.run d' = (.ok new, d') ∧
        (∀ n, 0 < n → ∃ taken,
          (blob.take n).run d = (.ok (old.extract 0 (min n old.size), taken), d) ∧
            taken.size = old.size ∧
            taken.rest.run d' = (.ok (old.extract (min n old.size) old.size ++
              new.extract old.size new.size), d')) ∧
        (new.size ≤ old.size → new.extract old.size new.size = ByteArray.empty) := by
  obtain ⟨file, i, hlocation, hnumber, rfl⟩ := object?_eq_some.mp hobject
  obtain ⟨site, hsite, rfl⟩ := location_eq_ok.mp hlocation
  obtain ⟨d', hwrite, hfills⟩ := write_over hplain hsite hd hnumber hsource
  have hread := read_eq_ok.mpr ⟨site.file, ⟨i⟩, hlocation, hnumber, rfl, rfl⟩
  refine ⟨_, d', hread, rfl, ?_, hwrite, ?_, ?_, fun n hn => ?_, fun hshort => ?_⟩
  · rintro data rfl
    exact replacement_ofBytes data i d
  · exact object?_eq_some.mpr ⟨site.file, i, hlocation, hfills.number, hfills.bytes_self⟩
  · rw [Blob.run_rest_start, hfills.bytes_self]
    rfl
  · let taken : Blob :=
      ⟨⟨i⟩, (d.bytes i).size, (d.bytes i).size, (d.bytes i).extract n (d.bytes i).size⟩
    refine ⟨taken, ?_, rfl, ?_⟩
    · rw [extract_min_size]
      exact Blob.run_take_start d _ hn hsmall
    · -- what has been read ahead is old, and the file from the end of the old bytes on is new
      rw [Blob.run_rest, Blob.remaining, Disk.readFrom, hfills.bytes_self, extract_min_left]
      rfl
  · exact ByteArray.extract_eq_empty_iff.mpr ((min_le_left _ _).trans hshort)

/-- Two of three bytes have been taken before five new ones are written. -/
theorem overwritten_while_open_longer :
    let s : Store := ⟨⟨[0x73]⟩, Layout.identity, false⟩
    let d := ((s.write "a" (.ofBytes ⟨#[1, 2, 3]⟩)).run Disk.empty).2
    ∃ blob taken d', (s.read "a").run d = (.ok blob, d) ∧
      (blob.take 2).run d = (.ok (⟨#[1, 2]⟩, taken), d) ∧
      (s.write "a" (.ofBytes ⟨#[4, 5, 6, 7, 8]⟩)).run d = (.ok 5, d') ∧
      taken.rest.run d' = (.ok ⟨#[3, 7, 8]⟩, d') ∧ taken.size = 3 := by
  intro s d
  have hd : d.Stored := (s.write "a" _).run_stored Disk.wellFormed_empty.isStored
  have hobject : s.object? d "a" = some ⟨#[1, 2, 3]⟩ := by decide +kernel
  have hsource : (Source.ofBytes ⟨#[4, 5, 6, 7, 8]⟩).failure? = none := rfl
  obtain ⟨blob, d', hread, -, -, hwrite, -, -, htakes, -⟩ :=
    overwritten_while_open rfl hd hobject (by decide) hsource
  obtain ⟨taken, htake, hsize, hrest⟩ := htakes 2 (by decide)
  exact ⟨blob, taken, d', hread, htake, hwrite, hrest, hsize⟩

end BlobStore.Store
