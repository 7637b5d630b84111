import BlobStore.Proofs.Disk.Temporary
import BlobStore.Proofs.Store.Copying
import BlobStore.Proofs.Store.Directories
import BlobStore.Proofs.Store.Site
import BlobStore.Store.Objects

/-!
# What a write does

Both ways of writing come down to two outcomes.  Either the disk looks as before, or
there is a file with the delivered bytes at the object's location and all else looks as
before (`Disk.Stores`).  They differ in when the second outcome is reached: a plain write
reaches it as soon as the file is opened, also if the source fails later, while an atomic
write reaches it only together with success (`run_writePlain`, `run_writeAtomic`).

`Store.run_write` adds the site and the directories and says once for all that a write
can do.
-/

namespace BlobStore

/-- A disk that looks like another one, but for a file with the given bytes at a location
where no directory was. -/
structure Disk.Stores (d d' : Disk) (l : Location) (b : ByteArray) : Prop where
  free : d.view l ≠ some .dir
  view : ∀ m, d'.view m = if m = l then some (.file b) else d.view m

namespace Disk

variable {d d' : Disk} {l : Location} {b : ByteArray}

theorem Stores.view_self (h : d.Stores d' l b) : d'.view l = some (.file b) := by
  rw [h.view, if_pos rfl]

theorem Stores.view_other (h : d.Stores d' l b) {m : Location} (hm : m ≠ l) :
    d'.view m = d.view m := by
  rw [h.view, if_neg hm]

theorem Stores.node?_dir (h : d.Stores d' l b) {m : Location} (hm : d.node? m = some .dir) :
    d'.node? m = some .dir := by
  rw [← view_eq_dir] at hm ⊢
  rw [h.view_other fun heq => h.free (heq ▸ hm), hm]

/-- Opening a file for writing leaves an empty file at its location. -/
theorem stores_create (hd : d.Unshared) {p : Path} (hp : p.Plain) {h : Handle}
    (hcreate : d.create p = .ok (h, d')) :
    d.Leads p (d.locate p) ∧ d'.node? (d.locate p) = some (.file h.number) ∧
      d'.bytes h.number = ByteArray.empty ∧ d.Stores d' (d.locate p) ByteArray.empty := by
  obtain ⟨l, hleads, hcase⟩ := create_eq_ok hcreate
  obtain rfl := hleads.eq_locate hp
  refine ⟨hleads, ?_⟩
  rcases hcase with ⟨hfile, rfl⟩ | ⟨hnone, hnumber, rfl⟩
  · refine ⟨hfile, ?_, ?_, fun m => view_setBytes hd hfile _⟩
    · rw [bytes_setBytes, if_pos ⟨rfl, hd.stored hfile⟩]
    · simp [view_of_file hfile]
  · refine ⟨?_, ?_, ?_, fun m => view_insertFile hd hleads.ne_nil⟩
    · rw [node?_insertFile hleads.ne_nil, if_pos rfl, hnumber]
    · rw [bytes_insertFile, if_pos hnumber]
    · simp [view_eq_none.mpr hnone]

/-- Appending to a file that has just been made empty gives it the appended bytes. -/
theorem stores_append (hd' : d'.Unshared) {h : Handle} (hfile : d'.node? l = some (.file h.number))
    (hempty : d'.bytes h.number = ByteArray.empty) (hstores : d.Stores d' l ByteArray.empty)
    (b : ByteArray) : d.Stores (d'.append h b) l b where
  free := hstores.free
  view m := by
    rw [append, hempty, ByteArray.empty_append, view_setBytes hd' hfile, hstores.view]
    split_ifs <;> rfl

/-! ## Temporary files -/

/-- A disk that looks like another one, but for a file at a path of its own. -/
structure Drafts (d d' : Disk) (temp : Path) (b : ByteArray) : Prop where
  unshared : d'.Unshared
  base : d'.base = d.base
  leads : d'.Leads temp (d.locate temp)
  free : d.view (d.locate temp) = none
  view : ∀ m, d'.view m = if m = d.locate temp then some (.file b) else d.view m

variable {temp : Path}

namespace Drafts

theorem node?_temp (h : d.Drafts d' temp b) : ∃ i, d'.node? (d.locate temp) = some (.file i) := by
  have hview := h.view (d.locate temp)
  rw [if_pos rfl] at hview
  obtain ⟨i, hi, -⟩ := view_eq_file.mp hview
  exact ⟨i, hi⟩

/-- Directories on the disk with the temporary file are those of the disk before. -/
theorem node?_dir (h : d.Drafts d' temp b) {m : Location} :
    d'.node? m = some .dir ↔ d.node? m = some .dir := by
  rw [← view_eq_dir, ← view_eq_dir, h.view]
  split_ifs with hm
  · simp [hm, h.free]
  · rfl

theorem locate_eq (h : d.Drafts d' temp b) (p : Path) : d'.locate p = d.locate p :=
  locate_of_base h.base p

/-- When the temporary file is removed, the disk looks as before. -/
theorem view_unlink (h : d.Drafts d' temp b) (m : Location) :
    (d'.perform (.unlink temp)).2.view m = d.view m := by
  obtain ⟨i, hi⟩ := h.node?_temp
  simp only [perform, changing, h.leads.unlink_eq hi]
  rw [view_erase h.leads.ne_nil, h.view]
  split_ifs with hm
  · rw [hm, h.free]
  · rfl

/-- When the temporary file has got another path, it is all that has come to the disk. -/
theorem stores_replace (h : d.Drafts d' temp b) {file : Path} (hfile : file.Plain) {d'' : Disk}
    (hreplace : d'.replace temp file = .ok d'') :
    d.Leads file (d.locate file) ∧ d.Stores d'' (d.locate file) b := by
  obtain ⟨old, new, i, hold, hnew, hdir, hi, rfl⟩ := replace_eq_ok hreplace
  obtain rfl : new = d.locate file := by rw [← h.locate_eq, hnew.eq_locate hfile]
  -- both ways of following the temporary path end at its file
  obtain rfl : old = d.locate temp := hold.unique h.leads.ends
  refine ⟨hnew.mono h.base.symm fun m hm => h.node?_dir.mp hm, ?_, fun m => ?_⟩
  · rw [ne_eq, view_eq_dir, ← h.node?_dir]
    exact hdir
  · rw [view_erase_insert hold.ne_nil hnew.ne_nil hi, h.view, h.view, if_pos rfl]
    split_ifs with hm hm'
    · rfl
    · rw [hm', h.free]
    · rfl

/-- The temporary file can get another path where that one leads and no directory is. -/
theorem exists_replace_eq_ok (h : d.Drafts d' temp b) {file : Path}
    (hleads : d.Leads file (d.locate file)) (hdir : d.view (d.locate file) ≠ some .dir) :
    ∃ d'', d'.replace temp file = .ok d'' := by
  obtain ⟨i, hi⟩ := h.node?_temp
  refine ⟨_, replace_of_leads h.leads hi (hleads.mono h.base fun m hm => h.node?_dir.mpr hm) ?_⟩
  rw [ne_eq, h.node?_dir, ← view_eq_dir]
  exact hdir

end Drafts

/-- A new temporary file to which bytes have been appended. -/
theorem drafts_createTemp (hd : d.Unshared) {dir : Path} (hdir : dir.Plain) {h : Handle}
    (hcreate : d.createTemp dir = .ok (temp, h, d')) (b : ByteArray) :
    d.Drafts (d'.append h b) temp b := by
  obtain ⟨hleads, hnone, hnumber, rfl⟩ := locate_createTemp hdir hcreate
  have hne := hleads.ne_nil
  have hinsert : (d.insertFile (d.locate temp)).Unshared := hd.insertFile hne
  have hfile : (d.insertFile (d.locate temp)).node? (d.locate temp) = some (.file h.number) := by
    rw [node?_insertFile hne, if_pos rfl, hnumber]
  refine ⟨hinsert.setBytes _ _, rfl, ?_, view_eq_none.mpr hnone, fun m => ?_⟩
  · -- a new file hides no directory, since nothing was at its location
    exact hleads.mono rfl fun m hm => node?_insertFile_of_some hne hnone hm
  · have hempty : (d.insertFile (d.locate temp)).bytes h.number = ByteArray.empty := by
      rw [bytes_insertFile, if_pos hnumber]
    rw [append, hempty, ByteArray.empty_append, view_setBytes hinsert hfile, view_insertFile hd hne]
    split_ifs <;> rfl

end Disk

namespace Store

variable {d : Disk} {file dir : Path} (source : Source)

/-- A plain write fails with the disk unchanged, or it has emptied the file and given it
what the source delivers, whether the source fails then or not. -/
theorem run_writePlain (hd : d.Unshared) (hfile : file.Plain) :
    (∃ e, (writePlain file source).run d = (.error e, d) ∧ d.create file = .error e) ∨
      ∃ h d₁, d.create file = .ok (h, d₁) ∧ d.Leads file (d.locate file) ∧
        ((writePlain file source).run d).1 = source.answer d₁ ∧
        d.Stores ((writePlain file source).run d).2 (d.locate file) (source.delivered d₁) := by
  rw [writePlain, Action.run_bind, Action.run_request]
  simp only [Disk.perform]
  cases hcreate : d.create file with
  | error e => exact Or.inl ⟨e, rfl, rfl⟩
  | ok made =>
    obtain ⟨h, d₁⟩ := made
    obtain ⟨hleads, hnode, hempty, hstores⟩ := Disk.stores_create hd hfile hcreate
    have hd₁ : d₁.Unshared := (Disk.change_create hcreate).unshared hd
    refine Or.inr ⟨h, d₁, rfl, hleads, ?_⟩
    -- what has been delivered stays in the file, also if the source fails after it
    simp only [Source.run_copyTo, true_and]
    exact Disk.stores_append hd₁ hnode hempty hstores _

/-- What is written to a disk is kept at once. -/
theorem run_syncing (h : Handle) (copy : Action IoError Nat) (d : Disk) :
    (syncing h copy).run d = copy.run d := by
  rw [syncing, Action.run_bind]
  rcases copy.run d with ⟨_ | n, d'⟩ <;> rfl

theorem run_writeAtomic_of_error {e : IoError} (hcreate : d.createTemp dir = .error e) :
    (writeAtomic dir file source).run d = (.error e, d) := by
  rw [writeAtomic, Action.run_bind, Action.run_request]
  simp only [Disk.perform, hcreate]

/-- What an atomic write does once it has its temporary file. -/
theorem run_writeAtomic_of_createTemp {temp : Path} {h : Handle} {d₁ : Disk}
    (hcreate : d.createTemp dir = .ok (temp, h, d₁)) :
    (writeAtomic dir file source).run d =
      let d₂ := d₁.append h (source.delivered d₁)
      match source.answer d₁ with
      | .error e => (.error e, (d₂.perform (.unlink temp)).2)
      | .ok n =>
        match d₂.replace temp file with
        | .error e => (.error e, (d₂.perform (.unlink temp)).2)
        | .ok d₃ => (.ok n, d₃) := by
  rw [writeAtomic, Action.run_bind, Action.run_request]
  simp only [Disk.perform, hcreate, Action.run_catching, run_syncing, Source.run_copyTo]
  cases source.answer d₁ with
  | error e => rfl
  | ok n =>
    rw [Action.run_bind, Action.run_attempt]
    simp only [Disk.perform, Disk.changing]
    cases (d₁.append h (source.delivered d₁)).replace temp file with
    | error e => rfl
    | ok d₃ => rfl

/-- An atomic write fails and the disk looks as before, or it succeeds and has stored what
the source delivers.  It fails only if there can be no temporary file, if the source fails,
or if there can be no file at the path. -/
theorem run_writeAtomic (hd : d.Unshared) (hfile : file.Plain) (hdir : dir.Plain) :
    (∃ e, ((writeAtomic dir file source).run d).1 = .error e ∧
      (∀ m, ((writeAtomic dir file source).run d).2.view m = d.view m) ∧
      (d.createTemp dir = .error e ∨ source.failure? = some e ∨
        ¬ (d.Leads file (d.locate file) ∧ d.view (d.locate file) ≠ some .dir))) ∨
      ((writeAtomic dir file source).run d).1 = .ok (source.delivered d).size ∧
        source.failure? = none ∧ d.Leads file (d.locate file) ∧
        d.Stores ((writeAtomic dir file source).run d).2 (d.locate file) (source.delivered d) := by
  cases hcreate : d.createTemp dir with
  | error e =>
    rw [run_writeAtomic_of_error source hcreate]
    exact Or.inl ⟨e, rfl, fun _ => rfl, Or.inl rfl⟩
  | ok made =>
    obtain ⟨temp, h, d₁⟩ := made
    have hdrafts := Disk.drafts_createTemp hd hdir hcreate (source.delivered d₁)
    -- the source may be a file itself, but not the temporary one
    have hdelivered : source.delivered d₁ = source.delivered d := by
      obtain ⟨l, -, -, -, rfl⟩ := Disk.leads_createTemp hcreate
      exact source.delivered_insertFile d _
    rw [run_writeAtomic_of_createTemp source hcreate]
    dsimp only
    unfold Source.answer
    cases hfailure : source.failure? with
    | some e => exact Or.inl ⟨e, rfl, hdrafts.view_unlink, Or.inr (Or.inl rfl)⟩
    | none =>
      cases hreplace : (d₁.append h (source.delivered d₁)).replace temp file with
      | error e =>
        refine Or.inl ⟨e, rfl, hdrafts.view_unlink, Or.inr (Or.inr ?_)⟩
        rintro ⟨hleads, hfree⟩
        obtain ⟨d₃, hok⟩ := hdrafts.exists_replace_eq_ok hleads hfree
        rw [hok] at hreplace
        exact absurd hreplace (by simp)
      | ok d₃ =>
        obtain ⟨hleads, hstores⟩ := hdrafts.stores_replace hfile hreplace
        rw [hdelivered] at hstores
        exact Or.inr ⟨by rw [hdelivered], rfl, hleads, hstores⟩

/-! ## Writing an object -/

/-- A write of an object makes the directories of its site and then writes its file. -/
theorem run_write (s : Store) (key : String) (source : Source) (d : Disk) :
    (s.write key source).run d = match s.site key with
      | .error e => (.error e, d)
      | .ok site =>
        match (makeDirs site.dir).run d with
        | (.error e, d₁) => (.error (.io e), d₁)
        | (.ok (), d₁) =>
          let r := (if s.atomicWrites then writeAtomic site.dir site.file source
            else writePlain site.file source).run d₁
          (r.1.mapError .io, r.2) := by
  rw [write, Action.run_bind, Action.run_ofExcept]
  cases s.site key with
  | error e => rfl
  | ok site =>
    dsimp only
    rw [Action.run_mapError, Action.run_bind]
    rcases (makeDirs site.dir).run d with ⟨_ | _, d₁⟩ <;> rfl

theorem run_write_of_made {s : Store} {key : String} {site : Site} (hsite : s.site key = .ok site)
    (hmade : ((makeDirs site.dir).run d).1 = .ok ()) :
    (s.write key source).run d =
      let r := (if s.atomicWrites then writeAtomic site.dir site.file source
        else writePlain site.file source).run ((makeDirs site.dir).run d).2
      (r.1.mapError .io, r.2) := by
  rw [run_write, hsite]
  rcases hrun : (makeDirs site.dir).run d with ⟨r, d₁⟩
  rw [hrun] at hmade
  dsimp only at hmade
  subst hmade
  simp only [hrun]

/-- All that a write can do: there is no site for the key; or directories have been added on
the way to the site's; or, moreover, the object's file has got what the source delivered.
In the last case an atomic write has succeeded. -/
theorem write_cases {s : Store} (hroot : s.root.Plain) (hd : d.Unshared) (key : String) :
    (∃ e, s.site key = .error e ∧ (s.write key source).run d = (.error e, d)) ∨
      ∃ site d₁, s.site key = .ok site ∧ d.Grows d₁ (d.locate site.dir) ∧
        ((∃ e, ((s.write key source).run d).1 = .error e ∧
            ∀ m, ((s.write key source).run d).2.view m = d₁.view m) ∨
          ∃ d₂, d₁.Leads site.file (d.locate site.file) ∧
            d₁.Stores ((s.write key source).run d).2 (d.locate site.file) (source.delivered d₂) ∧
            (((s.write key source).run d).1 = .ok (source.delivered d₂).size ∨
              s.atomicWrites = false ∧ ∃ e, ((s.write key source).run d).1 = .error e)) := by
  rw [run_write]
  cases hsite : s.site key with
  | error e => exact Or.inl ⟨e, rfl, rfl⟩
  | ok site =>
    have hbelow := below_of_site hroot hsite
    have hgrows := grows_makeDirs hbelow.plain_dir d
    have hd₁ := (makeDirs site.dir).run_unshared hd
    rcases hmake : (makeDirs site.dir).run d with ⟨e | _, d₁⟩
    · rw [hmake] at hgrows
      simp only [hmake]
      exact Or.inr ⟨site, d₁, rfl, hgrows, Or.inl ⟨.io e, rfl, fun _ => rfl⟩⟩
    · rw [hmake] at hgrows hd₁
      dsimp only at hgrows hd₁
      have hlocate : d.locate site.file = d₁.locate site.file :=
        (Disk.locate_of_base hgrows.base _).symm
      refine Or.inr ⟨site, d₁, rfl, hgrows, ?_⟩
      simp only [hmake, hlocate]
      cases hatomic : s.atomicWrites with
      | true =>
        rw [if_pos rfl]
        rcases run_writeAtomic source hd₁ hbelow.plain_file hbelow.plain_dir with
          ⟨e, herror, hview, -⟩ | ⟨hok, -, hleads, hstores⟩
        · exact Or.inl ⟨.io e, by rw [herror]; rfl, hview⟩
        · exact Or.inr ⟨d₁, hleads, hstores, Or.inl (by rw [hok]; rfl)⟩
      | false =>
        rw [if_neg (by simp)]
        rcases run_writePlain source hd₁ hbelow.plain_file with
          ⟨e, herror, -⟩ | ⟨h, d₂, -, hleads, hanswer, hstores⟩
        · rw [herror]
          exact Or.inl ⟨.io e, rfl, fun _ => rfl⟩
        · refine Or.inr ⟨d₂, hleads, hstores, ?_⟩
          rw [hanswer, Source.answer]
          cases source.failure? with
          | none => exact Or.inl rfl
          | some e => exact Or.inr ⟨rfl, .io e, rfl⟩

end Store

end BlobStore
