import BlobStore.Proofs.Store.Writing

/-!
# What a write does before it copies

A write finds the object's site, makes directories and opens a file, and only then turns to its
source.  The reading of the source is all in the copy, so `Store.writeBy` has any program in the
place of that, one that fails or makes requests of its own included.  A write that ends in the same
way whatever stands there has ended before the copy began: its source has not been read.

All that a plain write does before it copies is `Store.opening`.  If that fails the write fails with
the same failure and the source is not read (`run_writeBy_of_error`); otherwise the rest is up to
the copy (`run_writeBy_of_opened`).
-/

namespace BlobStore.Store

/-! ## A program in the place of the copy -/

/-- A plain write with a program in the place of the copy. -/
def writePlainBy (file : Path) (copy : Handle → Action IoError Nat) : Action IoError Nat := do
  let h ← Action.request (.create file)
  copy h

/-- An atomic write with a program in the place of the copy. -/
def writeAtomicBy (dir file : Path) (copy : Handle → Action IoError Nat) : Action IoError Nat := do
  let (temp, h) ← Action.request (.createTemp dir)
  (syncing h (copy h)).catching fun
    | .error e => discard temp e
    | .ok n => do
      match ← Action.attempt (.replace temp file) with
      | .ok () => return n
      | .error e => discard temp e

/-- A write with a program in the place of the copy. -/
def writeBy (s : Store) (key : String) (copy : Handle → Action IoError Nat) :
    Action StoreError Nat := do
  let site ← Action.ofExcept (s.site key)
  Action.mapError .io do
    makeDirs site.dir
    if s.atomicWrites then writeAtomicBy site.dir site.file copy
    else writePlainBy site.file copy

/-- A write turns to its source nowhere but in the copy. -/
theorem write_eq_writeBy (s : Store) (key : String) (source : Source) :
    s.write key source = s.writeBy key source.copyTo := rfl

/-! ## Plain writes -/

/-- Makes the directories of an object and opens its file for writing. -/
def opening (site : Site) : Action IoError Handle := do
  makeDirs site.dir
  Action.request (.create site.file)

variable {s : Store} {key : String} {site : Site} {d d' : Disk}

section opening

variable (hplain : s.atomicWrites = false) (hsite : s.site key = .ok site)

include hplain hsite

/-- A plain write is an opening and a copy. -/
theorem writeBy_eq_opening (copy : Handle → Action IoError Nat) :
    s.writeBy key copy = Action.mapError .io (opening site >>= copy) := by
  have hopening : (opening site >>= copy) = (do makeDirs site.dir; writePlainBy site.file copy) :=
    Action.bind_assoc _ _ _
  rw [writeBy, hsite, hplain, hopening]
  rfl

theorem run_writeBy_of_error {e : IoError} (hopening : (opening site).run d = (.error e, d'))
    (copy : Handle → Action IoError Nat) :
    (s.writeBy key copy).run d = (.error (.io e), d') := by
  rw [writeBy_eq_opening hplain hsite, Action.run_mapError, Action.run_bind, hopening]
  rfl

theorem run_writeBy_of_opened {h : Handle} (hopening : (opening site).run d = (.ok h, d'))
    (copy : Handle → Action IoError Nat) :
    (s.writeBy key copy).run d = (((copy h).run d').1.mapError .io, ((copy h).run d').2) := by
  rw [writeBy_eq_opening hplain hsite, Action.run_mapError, Action.run_bind, hopening]

/-- Once the file is open a write answers as its source does, and the file has got what the source
delivers. -/
theorem run_write_of_opened {h : Handle} (hopening : (opening site).run d = (.ok h, d'))
    (source : Source) :
    (s.write key source).run d =
      ((source.answer d').mapError .io, d'.append h (source.delivered d')) := by
  rw [write_eq_writeBy, run_writeBy_of_opened hplain hsite hopening, Source.run_copyTo]

/-- A plain write can succeed if and only if the file can be opened. -/
theorem exists_written_iff :
    (∃ source n, ((s.write key source).run d).1 = .ok n) ↔
      ∃ h d', (opening site).run d = (.ok h, d') := by
  constructor
  · rintro ⟨source, n, hwritten⟩
    rcases hopening : (opening site).run d with ⟨e | h, d'⟩
    · rw [write_eq_writeBy, run_writeBy_of_error hplain hsite hopening] at hwritten
      cases hwritten
    · exact ⟨h, d', rfl⟩
  · rintro ⟨h, d', hopening⟩
    refine ⟨.ofBytes ByteArray.empty, 0, ?_⟩
    rw [run_write_of_opened hplain hsite hopening]
    rfl

end opening

/-- An opening that fails has at most made directories. -/
theorem grows_of_opening (hdir : site.dir.Plain) {e : IoError}
    (hopening : (opening site).run d = (.error e, d')) : d.Grows d' (d.locate site.dir) := by
  have hgrows := grows_makeDirs hdir d
  rw [opening, Action.run_bind] at hopening
  rcases hmade : (makeDirs site.dir).run d with ⟨e₁ | _, d₁⟩
  · rw [hmade] at hgrows hopening
    obtain ⟨-, rfl⟩ := Prod.mk.inj hopening
    exact hgrows
  · rw [hmade] at hgrows hopening
    dsimp only at hopening
    rw [Action.run_request, Disk.perform] at hopening
    -- a file that cannot be opened leaves the disk as it is
    cases hcreate : d₁.create site.file with
    | ok made =>
      rw [hcreate] at hopening
      cases hopening
    | error e₂ =>
      rw [hcreate] at hopening
      obtain ⟨-, rfl⟩ := Prod.mk.inj hopening
      exact hgrows

/-- An opening that succeeds has made directories and a file to which bytes can be appended, and
which has no other ones. -/
theorem stores_of_opening (hdir : site.dir.Plain) (hfile : site.file.Plain) (hd : d.Unshared)
    {h : Handle} (hopening : (opening site).run d = (.ok h, d')) :
    ∃ d₁, d.Grows d₁ (d.locate site.dir) ∧ d₁.Leads site.file (d.locate site.file) ∧
      ∀ b, d₁.Stores (d'.append h b) (d.locate site.file) b := by
  have hgrows := grows_makeDirs hdir d
  have hd₁ := (makeDirs site.dir).run_unshared hd
  obtain ⟨_, d₁, hmade, hcreate⟩ := Action.run_bind_eq_ok.mp hopening
  rw [hmade] at hgrows hd₁
  rw [Action.run_request, Disk.perform_create_eq_ok] at hcreate
  obtain ⟨hleads, hnode, hempty, hstores⟩ := Disk.stores_create hd₁ hfile hcreate
  rw [Disk.locate_of_base hgrows.base] at hleads hnode hstores
  exact ⟨d₁, hgrows, hleads, fun b =>
    Disk.stores_append ((Disk.change_create hcreate).unshared hd₁) hnode hempty hstores b⟩

end BlobStore.Store
