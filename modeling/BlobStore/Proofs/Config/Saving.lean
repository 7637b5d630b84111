import BlobStore.Proofs.Config.RoundTrip
import BlobStore.Proofs.Store.MadeAlready

/-!
# Saving a configuration again

A configuration that has been saved can be saved to the same file again, and the file then holds
the same bytes (`exists_save_of_save`).  The directories above the file have been made, and when
the file has been written they are still there, so that they are not made again
(`run_makeAbove_of_run`).

The path of the file need not be plain: it may go up by `..`.  So the directory above it is known
by what the path leads to, and not by a location.
-/

namespace BlobStore

namespace Config

variable {c : Config} {p : Path} {d d' : Disk}

/-- Opening a file for writing removes no directory. -/
theorem node?_dir_create {h : Handle} (hcreate : d.create p = .ok (h, d')) {l : Location}
    (hl : d.node? l = some .dir) : d'.node? l = some .dir := by
  obtain ⟨m, hleads, ⟨-, rfl⟩ | ⟨hnone, -, rfl⟩⟩ := Disk.create_eq_ok hcreate
  · exact hl
  · exact Disk.node?_insertFile_of_some hleads.ne_nil hnone hl

/-- The directories above a file that has been saved need not be made again. -/
theorem run_makeAbove_of_run {d'' : Disk} (h : (makeAbove p).run d = (.ok (), d'))
    (hbase : d''.base = d'.base)
    (hdirs : ∀ l, d'.node? l = some .dir → d''.node? l = some .dir) :
    (makeAbove p).run d'' = (.ok (), d'') := by
  unfold makeAbove at h ⊢
  split at h
  · rfl
  · rw [Action.run_mapError_eq_ok] at h ⊢
    exact run_makeDirs_of_run h hbase hdirs

/-- **A configuration that has been saved can be saved again**, and its file has the same bytes
afterwards. -/
theorem exists_save_of_save (hd : d.Stored) (hsave : (c.save p).run d = (.ok (), d')) :
    ∃ d'', (c.save p).run d' = (.ok (), d'') ∧ d''.file? p = d'.file? p := by
  obtain ⟨r, d₁, i, hrecord, hmade, hfills⟩ := fills_save hd hsave
  obtain ⟨r', d₁', h, d₂, hrecord', hmade', hcreate, rfl⟩ := run_save_eq_ok.mp hsave
  obtain rfl : d₁ = d₁' := (Prod.mk.inj (hmade.symm.trans hmade')).2
  have hagain : (makeAbove p).run (d₂.append h r'.indented.toUTF8) =
      (.ok (), d₂.append h r'.indented.toUTF8) :=
    run_makeAbove_of_run hmade (Disk.change_create hcreate).base fun l => node?_dir_create hcreate
  -- the file is there, so that it can be opened
  obtain ⟨l, hleads, hfile⟩ := Disk.number?_eq_some.mp hfills.number
  have hnotdir : (d₂.append h r'.indented.toUTF8).node? l ≠ some .dir := by
    rw [hfile]
    simp
  obtain ⟨⟨h', d₃⟩, hopened⟩ := Disk.exists_create_eq_ok hleads hnotdir
  refine ⟨_, run_save_eq_ok.mpr ⟨r, _, h', d₃, hrecord, hagain, hopened, rfl⟩, ?_⟩
  calc (d₃.append h' r.indented.toUTF8).file? p = some r.indented.toUTF8 :=
        ((Disk.fills_create hfills.stored hopened).append _).file?_self
    _ = (d₂.append h r'.indented.toUTF8).file? p := hfills.file?_self.symm

end Config

end BlobStore
