import BlobStore.Proofs.Store.ClearWay

/-!
# The two ways of writing agree

A plain write empties the object's file before it copies, and an atomic write meets that file
only after the copy, when the temporary file is to take its place.  They notice obstacles at
different moments and in answers to different requests.  If the source does not fail, a caller
cannot tell the difference: the answers are the same, down to the failure, and so is what lies
at every location afterwards (`plain_and_atomic_agree`).

Both ways begin by making directories.  If that succeeds, all above the object's path is there
(`dirs_of_makeDirs`), and the only obstacle left is a directory in the object's place.
-/

namespace BlobStore.Store

section streams

variable {d : Disk} {dir file : Path} {deliveries : List Delivery} {failure : Option IoError}
  (hd : d.Unshared) (hleads : d.Leads file (d.locate file)) (hdir : dir.Plain)
  (hmade : ∃ made, d.createTemp dir = .ok made)
  (hsource : (Source.reader deliveries failure).failure? = none)

include hd hleads hdir hmade hsource

/-- A directory in the object's place makes both ways of writing fail alike: one when the file
is opened, the other when all has been copied. -/
theorem writes_agree_of_dir (hplace : d.node? (d.locate file) = some .dir) :
    ((writeAtomic dir file (.reader deliveries failure)).run d).1 =
        ((writePlain file (.reader deliveries failure)).run d).1 ∧
      ∀ l, ((writeAtomic dir file (.reader deliveries failure)).run d).2.view l =
        ((writePlain file (.reader deliveries failure)).run d).2.view l := by
  obtain ⟨hanswer, hview⟩ := writeAtomic_of_dir hleads hplace (.reader deliveries failure) hd hdir
    hmade
  rw [writePlain_of_dir hleads hplace, hanswer, hsource]
  exact ⟨rfl, hview⟩

theorem writes_agree_of_leads (hfile : file.Plain) :
    ((writeAtomic dir file (.reader deliveries failure)).run d).1 =
        ((writePlain file (.reader deliveries failure)).run d).1 ∧
      ∀ l, ((writeAtomic dir file (.reader deliveries failure)).run d).2.view l =
        ((writePlain file (.reader deliveries failure)).run d).2.view l := by
  by_cases hplace : d.view (d.locate file) = some .dir
  · exact writes_agree_of_dir hd hleads hdir hmade hsource (Disk.view_eq_dir.mp hplace)
  · obtain ⟨hplain, hplainview⟩ :=
      @writePlain_of_leads d file deliveries failure hd hfile hleads hplace
    obtain ⟨hatomic, hatomicview⟩ :=
      @writeAtomic_of_leads d dir file deliveries failure hd hfile hleads hplace hdir hmade
    refine ⟨hatomic.trans hplain.symm, fun l => ?_⟩
    rw [hatomicview, hplainview, hsource]
    simp only [and_true]

end streams

/-- When the directories of an object have been made, a file can be opened at its path, unless
a directory is there, and a temporary file can be made beside it. -/
theorem leads_of_makeDirs {s : Store} {d : Disk} (hroot : s.root.Plain) (hd : d.WellFormed)
    (hnodes : d.nodes.length < 10 ^ 250) {key : String} {site : Site}
    (hsite : s.site key = .ok site) (hdot : lastPiece (s.layout key).filename ≠ ['.'])
    (haccepted : site.file.Accepted)
    (hroom : (if site.file.isAbsolute then 0 else d.baseLength + 1) + site.file.bytes.length +
      256 ≤ Disk.maxPath)
    (hmade : ((makeDirs site.dir).run d).1 = .ok ()) :
    ((makeDirs site.dir).run d).2.Leads site.file
        (((makeDirs site.dir).run d).2.locate site.file) ∧
      ∃ made, ((makeDirs site.dir).run d).2.createTemp site.dir = .ok made := by
  have hbelow := below_of_site hroot hsite
  have hgrows := grows_makeDirs hbelow.plain_dir d
  have hfollow := followable_file hroot hsite haccepted hdot
  have hdirs (m : Location) (hm : m <+: d.locate site.dir) :=
    dirs_of_makeDirs hbelow.plain_dir hd hmade hm
  have hlocate := (makeDirs site.dir).run_locate d
  have hbase := (makeDirs site.dir).run_base d
  generalize ((makeDirs site.dir).run d).2 = d₁ at *
  have hfiledir : d.locate site.dir = (d.locate site.file).dropLast := by
    rw [hbelow.dir_eq, hfollow.locate_above]
  refine ⟨?_, ?_⟩
  · refine Disk.leads_of_dirs hfollow (endsInSlash_file hsite) fun m hm => hdirs m ?_
    rwa [hfiledir, ← hlocate]
  · have hlength : site.dir.bytes.length ≤ site.file.bytes.length := by
      rw [hbelow.dir_eq]
      exact hbelow.plain_file.isPrefix_above.length_le
    have habs : site.dir.isAbsolute = site.file.isAbsolute := by
      rw [hbelow.dir_eq, hbelow.plain_file.isAbsolute_above]
    have haccepteddir : site.dir.Accepted := by
      rw [hbelow.dir_eq]
      exact haccepted.above hbelow.plain_file
    refine Disk.exists_createTemp_of_made hbelow.plain_dir haccepteddir hnodes hbase
      (fun n hfree => ?_) (fun m hm => hdirs m (hlocate site.dir ▸ hm)) (by rw [habs]; omega)
    -- only directories on the way are new
    rcases hgrows.node (d.locate site.dir ++ [Disk.tempName n]) with hsame | ⟨-, -, hway⟩
    · rw [hsame, hfree]
    · exact absurd hway.length_le (by simp)

/-- **Plain and atomic writes agree.**  Let a stream be written that does not fail, in whatever
pieces it comes, to a store with a plain root, on any disk that is a tree.  If the system
accepts the object's path, with some room to spare, and the path does not end in a dot, both
ways of writing answer the same, be it a number of bytes or a failure, and afterwards the same
directories and the same files with the same bytes are there.

The tree may be of any size but an absurd one: among the numbers below `10 ^ 250`, whose names can
stand in directories, there has to be one that no temporary file has. -/
theorem plain_and_atomic_agree {s : Store} {d : Disk} (hroot : s.root.Plain) (hd : d.WellFormed)
    (hnodes : d.nodes.length < 10 ^ 250) {key : String}
    (hdot : lastPiece (s.layout key).filename ≠ ['.'])
    (hroom : ∀ file, s.location key = .ok file → file.Accepted ∧
      (if file.isAbsolute then 0 else d.baseLength + 1) + file.bytes.length + 256 ≤ Disk.maxPath)
    {deliveries : List Delivery} {failure : Option IoError}
    (hsource : (Source.reader deliveries failure).failure? = none) :
    let atomic := ({ s with atomicWrites := true }.write key (.reader deliveries failure)).run d
    let plain := ({ s with atomicWrites := false }.write key (.reader deliveries failure)).run d
    atomic.1 = plain.1 ∧ ∀ l, atomic.2.view l = plain.2.view l := by
  intro atomic plain
  have hsites (way : Bool) : { s with atomicWrites := way }.site key = s.site key := rfl
  cases hsite : s.site key with
  | error e =>
    have hrefused (way : Bool) :
        ({ s with atomicWrites := way }.write key (.reader deliveries failure)).run d =
          (.error e, d) := by
      rw [run_write, hsites, hsite]
    rw [show atomic = _ from hrefused true, show plain = _ from hrefused false]
    exact ⟨rfl, fun _ => rfl⟩
  | ok site =>
    obtain ⟨haccepted, hspace⟩ := hroom site.file (by rw [location, hsite]; rfl)
    have hbelow := below_of_site hroot hsite
    have hd₁ := (makeDirs site.dir).run_unshared hd.toUnshared
    have hleads := leads_of_makeDirs hroot hd hnodes hsite hdot haccepted hspace
    simp only [atomic, plain, run_write, hsites, hsite]
    rcases hrun : (makeDirs site.dir).run d with ⟨e | _, d₁⟩
    · exact ⟨rfl, fun _ => rfl⟩
    · rw [hrun] at hleads hd₁
      obtain ⟨hfile, hmade⟩ := hleads rfl
      obtain ⟨hanswer, hview⟩ := writes_agree_of_leads hd₁ hfile hbelow.plain_dir hmade hsource
        hbelow.plain_file
      simp only [if_true, Bool.false_eq_true, if_false]
      exact ⟨congrArg _ hanswer, hview⟩

/-- With a directory in the place of the object both ways of writing fail, and for the same
reason. -/
theorem plain_and_atomic_agree_directory :
    let s : Store := ⟨⟨[0x73]⟩, Layout.identity, true⟩
    let d := ((Disk.empty.insert [[0x73]] .dir).insert [[0x73], [0x61]] .dir).insert
      [[0x73], [0x61], [0x61]] .dir
    let source : Source := .stream [.interrupted, .bytes ⟨#[1, 2]⟩] false
    let atomic := ({ s with atomicWrites := true }.write "a" source).run d
    let plain := ({ s with atomicWrites := false }.write "a" source).run d
    s.root.Plain ∧ d.WellFormed ∧ d.nodes.length < 10 ^ 250 ∧
      plain.1 = .error (.io (.system .isDirectory)) ∧ atomic.1 = plain.1 ∧
      ∀ l, atomic.2.view l = plain.2.view l := by
  intro s d source atomic plain
  have hroot : s.root.Plain := ⟨by decide, by decide⟩
  have hd : d.WellFormed :=
    ((Disk.wellFormed_empty.insert_dir (by decide) rfl).insert_dir (by decide) rfl).insert_dir
      (by decide) rfl
  have hnodes : d.nodes.length < 10 ^ 250 := by
    have hthree : d.nodes.length = 3 := rfl
    omega
  have hlocation : s.location "a" = .ok ⟨[0x73, 0x2F, 0x61, 0x2F, 0x61]⟩ := by
    unfold s
    rfl
  have hroom (file : Path) (hfile : s.location "a" = .ok file) : file.Accepted ∧
      (if file.isAbsolute then 0 else d.baseLength + 1) + file.bytes.length + 256 ≤
        Disk.maxPath := by
    obtain rfl := Except.ok.inj (hlocation.symm.trans hfile)
    exact ⟨⟨by decide, by decide, by decide⟩, by decide⟩
  have hagree : atomic.1 = plain.1 ∧ ∀ l, atomic.2.view l = plain.2.view l :=
    plain_and_atomic_agree hroot hd hnodes (by decide) hroom rfl
  exact ⟨hroot, hd, hnodes, by unfold plain s d source; rfl, hagree⟩

end BlobStore.Store
