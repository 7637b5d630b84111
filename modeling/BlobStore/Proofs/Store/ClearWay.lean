import BlobStore.Proofs.Store.Runs
import BlobStore.Proofs.Store.Writing

/-!
# Writes with nothing in the way

A write can fail for many reasons, but if the object's path is one that can be followed, no
file is in the way and no directory in its place, the source alone decides.  Then the answer
and the disk afterwards are known for both ways of writing (`write_of_clear`).  A directory in its
place is met by a plain write at once and by an atomic one in the end (`writePlain_of_dir`,
`writeAtomic_of_dir`).
-/

namespace BlobStore

/-- Nothing hinders an object from being written at its site. -/
structure Site.Clear (site : Site) (d : Disk) : Prop where
  file : Disk.Followable site.file
  slash : site.file.endsInSlash = false
  dir : Disk.Followable site.dir
  way : ∀ m, m <+: d.locate site.dir → ∀ i, d.node? m ≠ some (.file i)
  place : d.view (d.locate site.file) ≠ some .dir
  temp : d.node? (d.locate site.dir ++ [Disk.tempName 0]) = none
  room : (if site.dir.isAbsolute then 0 else d.baseLength + 1) + site.dir.bytes.length + 11 ≤
    Disk.maxPath

namespace Store

variable {s : Store} {d : Disk} {key : String} {site : Site}

section streams

variable {dir file : Path} {deliveries : List Delivery} {failure : Option IoError}
  (hd : d.Unshared) (hfile : file.Plain) (hleads : d.Leads file (d.locate file))
  (hplace : d.view (d.locate file) ≠ some .dir)

include hd hfile hleads hplace

theorem writePlain_of_leads :
    ((writePlain file (.reader deliveries failure)).run d).1 =
      (Source.reader deliveries failure).answer d ∧
    ∀ m, ((writePlain file (.reader deliveries failure)).run d).2.view m =
      if m = d.locate file then some (.file (Source.collected deliveries)) else d.view m := by
  obtain ⟨made, hmade⟩ := Disk.exists_create_eq_ok hleads fun h => hplace (Disk.view_eq_dir.mpr h)
  rcases run_writePlain (.reader deliveries failure) hd hfile with
    ⟨e, -, herror⟩ | ⟨h, d₁, -, -, hanswer, hstores⟩
  · rw [hmade] at herror
    exact absurd herror (by simp)
  · exact ⟨hanswer, hstores.view⟩

theorem writeAtomic_of_leads (hdir : dir.Plain) (hmade : ∃ made, d.createTemp dir = .ok made) :
    ((writeAtomic dir file (.reader deliveries failure)).run d).1 =
      (Source.reader deliveries failure).answer d ∧
    ∀ m, ((writeAtomic dir file (.reader deliveries failure)).run d).2.view m =
      if m = d.locate file ∧ (Source.reader deliveries failure).failure? = none then
        some (.file (Source.collected deliveries))
      else d.view m := by
  obtain ⟨made, hmade⟩ := hmade
  rw [Source.answer]
  rcases run_writeAtomic (.reader deliveries failure) hd hfile hdir with
    ⟨e, herror, hview, hcause⟩ | ⟨hok, hfailure, -, hstores⟩
  · rcases hcause with htemp | hfailure | hobstacle
    · rw [hmade] at htemp
      exact absurd htemp (by simp)
    · rw [hfailure]
      exact ⟨herror, fun m => by rw [if_neg (by simp), hview]⟩
    · exact absurd ⟨hleads, hplace⟩ hobstacle
  · rw [hfailure]
    refine ⟨hok, fun m => ?_⟩
    rw [hstores.view]
    simp

/-- With either way of writing the source alone decides. -/
theorem writing_of_leads (atomic : Bool) (hdir : dir.Plain)
    (hmade : ∃ made, d.createTemp dir = .ok made) :
    ((if atomic = true then writeAtomic dir file (.reader deliveries failure)
      else writePlain file (.reader deliveries failure)).run d).1 =
        (Source.reader deliveries failure).answer d ∧
    ∀ m, ((if atomic = true then writeAtomic dir file (.reader deliveries failure)
      else writePlain file (.reader deliveries failure)).run d).2.view m =
      if m = d.locate file ∧
          (atomic = true → (Source.reader deliveries failure).failure? = none) then
        some (.file (Source.collected deliveries))
      else d.view m := by
  cases atomic with
  | true =>
    simp only [if_true, forall_const]
    exact writeAtomic_of_leads hd hfile hleads hplace hdir hmade
  | false =>
    simp only [Bool.false_eq_true, if_false, false_implies, and_true]
    exact writePlain_of_leads hd hfile hleads hplace

end streams

/-! ## A directory in the object's place -/

section directory

variable {dir file : Path} (hleads : d.Leads file (d.locate file))
  (hplace : d.node? (d.locate file) = some .dir)

include hleads hplace

/-- A plain write is refused before anything is copied. -/
theorem writePlain_of_dir (source : Source) :
    (writePlain file source).run d = (.error (.system .isDirectory), d) := by
  rw [writePlain, Action.run_bind, Action.run_request]
  simp only [Disk.perform, Disk.create_of_dir hleads hplace]

/-- An atomic write is refused when all has been copied, unless the source has failed before. -/
theorem writeAtomic_of_dir (source : Source) (hd : d.Unshared) (hdir : dir.Plain)
    (hmade : ∃ made, d.createTemp dir = .ok made) :
    ((writeAtomic dir file source).run d).1 =
        .error (source.failure?.getD (.system .isDirectory)) ∧
      ∀ m, ((writeAtomic dir file source).run d).2.view m = d.view m := by
  obtain ⟨⟨temp, h, d₁⟩, hcreate⟩ := hmade
  have hdrafts := Disk.drafts_createTemp hd hdir hcreate (source.delivered d₁)
  obtain ⟨i, hi⟩ := hdrafts.node?_temp
  have hleads' := hleads.mono hdrafts.base fun m hm => hdrafts.node?_dir.mpr hm
  have hreplace : (d₁.append h (source.delivered d₁)).replace temp file =
      .error (.system .isDirectory) :=
    Disk.replace_of_dir hdrafts.leads hi hleads' (hdrafts.node?_dir.mpr hplace)
  rw [run_writeAtomic_of_createTemp _ hcreate, Source.answer]
  cases source.failure? with
  | some e => exact ⟨rfl, hdrafts.view_unlink⟩
  | none =>
    simp only [hreplace]
    exact ⟨rfl, hdrafts.view_unlink⟩

end directory

/-- The path of an object can be followed if the system accepts it and it does not end in a
dot. -/
theorem followable_file (hroot : s.root.Plain) (hsite : s.site key = .ok site)
    (haccepted : site.file.Accepted) (hdot : lastPiece (s.layout key).filename ≠ ['.']) :
    Disk.Followable site.file := by
  have hbelow := below_of_site hroot hsite
  refine ⟨hbelow.plain_file, haccepted, trimmed_file hsite hdot, ?_⟩
  rw [hbelow.names_file]
  exact List.append_ne_nil_of_right_ne_nil _ hbelow.names_ne_nil

/-- On the disk with the directories the object's file can be made, and a temporary one, too. -/
theorem leads_of_clear {root : Path} (hbelow : site.Below root) (hclear : site.Clear d) {d₁ : Disk}
    (hbase : d₁.base = d.base)
    (hview : ∀ m, d₁.view m = if m <+: d.locate site.dir then some .dir else d.view m) :
    d₁.Leads site.file (d₁.locate site.file) ∧ d₁.view (d₁.locate site.file) ≠ some .dir ∧
      ∃ made, d₁.createTemp site.dir = .ok made := by
  have hlocate := Disk.locate_of_base hbase
  have hfiledir : d.locate site.dir = (d.locate site.file).dropLast := by
    rw [hbelow.dir_eq, hclear.file.locate_above]
  have hdirs : ∀ m, m <+: d₁.locate site.dir → d₁.node? m = some .dir := by
    intro m hm
    rw [← Disk.view_eq_dir, hview, if_pos (hlocate site.dir ▸ hm)]
  refine ⟨?_, ?_, ?_⟩
  · refine Disk.leads_of_dirs hclear.file hclear.slash fun m hm => hdirs m ?_
    rwa [hlocate, hfiledir, ← hlocate]
  · rw [hlocate, hview, hfiledir, if_neg (hclear.file.locate_not_isPrefix d)]
    exact hclear.place
  · have hname : d₁.freeName (d₁.locate site.dir) = Disk.tempName 0 := by
      -- the first name is as free as before
      have hne : ¬ d.locate site.dir ++ [Disk.tempName 0] <+: d.locate site.dir := fun h =>
        absurd h.length_le (by simp)
      apply Disk.freeName_eq
      rw [hlocate, ← Disk.view_eq_none, hview, if_neg hne, Disk.view_eq_none, hclear.temp]
    have hroom := hclear.room
    apply Disk.exists_createTemp_eq_ok hbelow.plain_dir hclear.dir.accepted hdirs <;> rw [hname]
    · decide
    · rw [Disk.length_tempName_zero, Disk.baseLength, hbase, ← Disk.baseLength]
      omega

/-- What a write answers that only its source can make fail. -/
theorem write_of_clear (hroot : s.root.Plain) (hd : d.WellFormed) (hsite : s.site key = .ok site)
    (hclear : site.Clear d) (deliveries : List Delivery) (failure : Option IoError) :
    (s.reply (.write key (.reader deliveries failure)) d =
      match (Source.reader deliveries failure).failure? with
      | none => .written (Source.collected deliveries).size
      | some e => .failed (.io e)) ∧
    ∀ m, (s.next (.write key (.reader deliveries failure)) d).view m =
      if m = d.locate site.file ∧
          (s.atomicWrites = true → (Source.reader deliveries failure).failure? = none) then
        some (.file (Source.collected deliveries))
      else if m <+: d.locate site.dir then some .dir else d.view m := by
  have hbelow := below_of_site hroot hsite
  obtain ⟨hmade, hview⟩ :=
    view_makeDirs hclear.dir hd.closed (start_dir hd.base_dir site.dir) hclear.way
  have hd₁ := (makeDirs site.dir).run_unshared hd.toUnshared
  have hbase := (makeDirs site.dir).run_base d
  rw [reply_write, next_write, run_write_of_made _ hsite hmade]
  generalize ((makeDirs site.dir).run d).2 = d₁ at *
  obtain ⟨hleads, hplace, htemp⟩ := leads_of_clear hbelow hclear hbase hview
  obtain ⟨hanswer, hviews⟩ := writing_of_leads hd₁ hbelow.plain_file hleads hplace
    s.atomicWrites hbelow.plain_dir htemp
  dsimp only
  rw [hanswer, Source.answer]
  refine ⟨?_, fun m => ?_⟩
  · cases (Source.reader deliveries failure).failure? <;> rfl
  · rw [hviews, Disk.locate_of_base hbase, hview]

end Store

end BlobStore
