import BlobStore.Proofs.Store.AnyTree
import BlobStore.Proofs.Store.Contents

/-!
# When a write succeeds

A write of a source that does not fail can be hindered in three ways: the object's directory is a
file, a file stands further above, or a directory is in the object's place.  The first two are met
when the directories are made (`write_of_blocked`), the last one by a plain write when the file is
opened and by an atomic one when the temporary file is to take its place (`writing_of_dir`).  Each
is told by a failure of its own and leaves the tree as it is, and with none of them the write
succeeds (`exists_write_eq_ok`).

An atomic write needs room for its temporary file (`Disk.Roomy`), a plain one does not.
-/

namespace BlobStore

/-- There is room for a temporary file beside a file: the file's path leaves some bytes to spare, and
there are more names for temporary files than nodes on the disk. -/
structure Disk.Roomy (d : Disk) (file : Path) : Prop where
  nodes : d.nodes.length < 10 ^ 250
  path : (if file.isAbsolute then 0 else d.baseLength + 1) + file.bytes.length + 256 ≤ Disk.maxPath

namespace Store

variable {s : Store} {d : Disk} {key : String} {site : Site} {source : Source}

/-! ## With the directories there -/

section writing

variable {dir file : Path} (hd : d.Unshared) (hleads : d.Leads file (d.locate file))
  (hdir : dir.Plain) {atomic : Bool} (htemp : atomic = true → ∃ made, d.createTemp dir = .ok made)
  (hsource : source.failure? = none)

include hd hleads hdir htemp hsource

theorem exists_writing_eq_ok (hfile : file.Plain) (hplace : d.view (d.locate file) ≠ some .dir) :
    ∃ n, ((if atomic = true then writeAtomic dir file source
      else writePlain file source).run d).1 = .ok n := by
  cases atomic with
  | true =>
    obtain ⟨made, hmade⟩ := htemp rfl
    rcases run_writeAtomic source hd hfile hdir with ⟨e, -, -, hcause⟩ | ⟨hok, -⟩
    · rcases hcause with herror | hfailure | hobstacle
      · rw [hmade] at herror
        cases herror
      · rw [hsource] at hfailure
        cases hfailure
      · exact absurd ⟨hleads, hplace⟩ hobstacle
    · exact ⟨_, hok⟩
  | false =>
    obtain ⟨made, hmade⟩ :=
      Disk.exists_create_eq_ok hleads fun h => hplace (Disk.view_eq_dir.mpr h)
    rcases run_writePlain source hd hfile with ⟨e, -, herror⟩ | ⟨h, d₁, -, -, hanswer, -⟩
    · rw [hmade] at herror
      cases herror
    · rw [Source.answer, hsource] at hanswer
      exact ⟨_, hanswer⟩

theorem writing_of_dir (hplace : d.node? (d.locate file) = some .dir) :
    ((if atomic = true then writeAtomic dir file source
      else writePlain file source).run d).1 = .error (.system .isDirectory) ∧
    ∀ l, ((if atomic = true then writeAtomic dir file source
      else writePlain file source).run d).2.view l = d.view l := by
  cases atomic with
  | true =>
    obtain ⟨hanswer, hview⟩ := writeAtomic_of_dir hleads hplace source hd hdir (htemp rfl)
    rw [hsource] at hanswer
    exact ⟨hanswer, hview⟩
  | false =>
    rw [if_neg Bool.false_ne_true, writePlain_of_dir hleads hplace source]
    exact ⟨rfl, fun _ => rfl⟩

end writing

/-! ## On any tree -/

/-- Beside the object the temporary file can be made. -/
theorem Made.exists_createTemp {d₁ : Disk} (h : Made d d₁ (d.locate site.dir))
    (hreach : site.Reachable) (hroomy : d.Roomy site.file) :
    ∃ made, d₁.createTemp site.dir = .ok made := by
  have hlength : site.dir.bytes.length ≤ site.file.bytes.length := by
    rw [hreach.above]
    exact hreach.file.plain.isPrefix_above.length_le
  have habs : site.dir.isAbsolute = site.file.isAbsolute := by
    rw [hreach.above, hreach.file.plain.isAbsolute_above]
  have hroom := hroomy.path
  refine Disk.exists_createTemp_of_made hreach.plain_dir hreach.accepted_dir hroomy.nodes h.base
    (fun n => (h.node?_beside _).mpr) h.dirs (by rw [habs]; omega)

section outcome

variable (hsite : s.site key = .ok site) (hd : d.Tree site.file) (hreach : site.Reachable)
  (hroomy : s.atomicWrites = true → d.Roomy site.file) (hsource : source.failure? = none)

include hsite hd hreach hroomy hsource

theorem exists_write_eq_ok (hway : ¬ d.Blocked (d.locate site.dir))
    (hplace : d.view (d.locate site.file) ≠ some .dir) :
    ∃ n, ((s.write key source).run d).1 = .ok n := by
  obtain ⟨d₁, hmade, hd₁, hrun⟩ := run_write_of_way hsite hd hreach hway source
  rw [hrun]
  obtain ⟨n, hn⟩ := exists_writing_eq_ok hd₁ (hmade.leads hreach) hreach.plain_dir
    (fun hatomic => hmade.exists_createTemp hreach (hroomy hatomic)) hsource hreach.file.plain
    (by rwa [hmade.view_file hreach])
  dsimp only
  exact ⟨n, by rw [hn]; rfl⟩

theorem write_of_dir (hplace : d.view (d.locate site.file) = some .dir) :
    ((s.write key source).run d).1 = .error (.io (.system .isDirectory)) ∧
      ∀ l, ((s.write key source).run d).2.view l = d.view l := by
  have hway : ¬ d.Blocked (d.locate site.dir) := by
    rw [hreach.locate_dir]
    exact Disk.not_blocked_of_view hd.closed (by simp [hplace])
  obtain ⟨d₁, hmade, hd₁, hrun⟩ := run_write_of_way hsite hd hreach hway source
  rw [hrun]
  obtain ⟨hanswer, hview⟩ := writing_of_dir hd₁ (hmade.leads hreach) hreach.plain_dir
    (fun hatomic => hmade.exists_createTemp hreach (hroomy hatomic)) hsource
    (Disk.view_eq_dir.mp (by rw [hmade.view_file hreach, hplace]))
  dsimp only
  refine ⟨by rw [hanswer]; rfl, fun l => ?_⟩
  -- all above the directory has been there before
  rw [hview, hmade.view]
  split_ifs with hl
  · rw [hreach.locate_dir] at hl
    exact (Disk.view_eq_dir.mpr
      (Disk.dirs_of_dir hd.closed hplace (hl.trans (List.dropLast_prefix _)))).symm
  · rfl

end outcome

/-- A call has failed for a reason that the system knows by a number, and the tree is as it was. -/
structure FailsWith {α : Type} (result : Except StoreError α × Disk) (d : Disk) (code : Nat) :
    Prop where
  answer : ∃ e : Errno, result.1 = .error (.io (.system e)) ∧ e.code = code
  view : ∀ l, result.2.view l = d.view l

theorem FailsWith.not_ok {α : Type} {result : Except StoreError α × Disk} {code : Nat}
    (h : FailsWith result d code) : ¬ ∃ a, result.1 = .ok a := by
  obtain ⟨e, he, -⟩ := h.answer
  rintro ⟨a, ha⟩
  rw [he] at ha
  cases ha

/-- **When a write succeeds.**  On any tree, a write of a source that does not fail succeeds if and
only if no file stands above the object's location and no directory is at it, in both ways of
writing.  Otherwise it fails with the number 17 if the directory of the object is a file, with 20
if a file stands further above, and with 21 if a directory is in the object's place, and all is as
it was: no directory has been made. -/
theorem write_succeeds_iff (hroot : s.root.Plain) (hd : d.Tree s.root) {file : Path}
    (hlocation : s.location key = .ok file) (haccepted : file.Accepted)
    (hdot : lastPiece (s.layout key).filename ≠ ['.'])
    (hroomy : s.atomicWrites = true → d.Roomy file) (hsource : source.failure? = none) :
    let place := d.locate file
    let written := (s.write key source).run d
    ((∃ n, written.1 = .ok n) ↔ ¬ d.Blocked place.dropLast ∧ d.view place ≠ some .dir) ∧
    ((∃ b, d.view place.dropLast = some (.file b)) → FailsWith written d 17) ∧
    (d.Blocked place.dropLast.dropLast → FailsWith written d 20) ∧
    (d.view place = some .dir → FailsWith written d 21) := by
  intro place written
  obtain ⟨site, hsite, rfl⟩ := location_eq_ok.mp hlocation
  have hreach := reachable_of_site hroot hsite haccepted hdot
  have htree : d.Tree site.file := hd.of_isAbsolute (below_of_site hroot hsite).isAbsolute_file
  have hdir : d.locate site.dir = place.dropLast := hreach.locate_dir d
  -- a file in the way of the directory, wherever it stands
  have hblocked (h : d.Blocked place.dropLast) :
      written = (.error (.io (.system (d.obstacle place.dropLast))), d) := by
    rw [← hdir] at h ⊢
    exact write_of_blocked hsite htree hreach h source
  have hparent (h : ∃ b, d.view place.dropLast = some (.file b)) : FailsWith written d 17 := by
    obtain ⟨b, hb⟩ := h
    have hrun := hblocked (Disk.blocked_iff.mpr ⟨_, List.prefix_refl _, b, hb⟩)
    rw [Disk.obstacle_of_file hb] at hrun
    rw [hrun]
    exact ⟨⟨_, rfl, rfl⟩, fun _ => rfl⟩
  have habove (h : d.Blocked place.dropLast.dropLast) : FailsWith written d 20 := by
    have hrun := hblocked (h.of_isPrefix (List.dropLast_prefix _))
    rw [Disk.obstacle_of_blocked hd.closed h] at hrun
    rw [hrun]
    exact ⟨⟨_, rfl, rfl⟩, fun _ => rfl⟩
  have hplace (h : d.view place = some .dir) : FailsWith written d 21 := by
    obtain ⟨hanswer, hview⟩ := write_of_dir hsite htree hreach hroomy hsource h
    exact ⟨⟨_, hanswer, rfl⟩, hview⟩
  refine ⟨⟨fun hok => ⟨fun h => ?_, fun h => (hplace h).not_ok hok⟩, fun h => ?_⟩,
    hparent, habove, hplace⟩
  · obtain ⟨n, hn⟩ := hok
    rw [hblocked h] at hn
    cases hn
  · exact exists_write_eq_ok hsite htree hreach hroomy hsource (hdir ▸ h.1) h.2

/-- With a file at `s/a` and a directory at `s/b`, nothing can be written under the keys `a` and
`a/b` of a store with the identity layout, for different reasons; under the key `b` it can. -/
theorem write_succeeds_beside_file :
    let s : Store := ⟨⟨[0x73]⟩, Layout.identity, true⟩
    let d := ((Disk.empty.insert [[0x73]] .dir).insertFile [[0x73], [0x61]]).insert
      [[0x73], [0x62]] .dir
    let source : Source := .stream [.interrupted, .bytes ⟨#[1, 2]⟩] false
    s.root.Plain ∧ d.Tree s.root ∧ source.failure? = none ∧
      FailsWith ((s.write "a" source).run d) d 17 ∧
      FailsWith ((s.write "a/b" source).run d) d 20 ∧
      ∃ n, ((s.write "b" source).run d).1 = .ok n := by
  intro s d source
  have hroot : s.root.Plain := ⟨by decide, by decide⟩
  have hd : d.Tree s.root :=
    (((Disk.wellFormed_empty.insert_dir (by decide) rfl).insertFile (by decide) rfl
      (by decide)).insert_dir (by decide) rfl).tree _
  have hnodes : d.nodes.length < 10 ^ 250 := by
    have hthree : d.nodes.length = 3 := rfl
    omega
  have hfile : d.view [[0x73], [0x61]] = some (.file ByteArray.empty) := rfl
  have hsource : source.failure? = none := rfl
  have hlocation₁ : s.location "a" = .ok ⟨[0x73, 0x2F, 0x61, 0x2F, 0x61]⟩ := by unfold s; rfl
  have hlocation₂ : s.location "a/b" =
      .ok ⟨[0x73, 0x2F, 0x61, 0x2F, 0x62, 0x2F, 0x61, 0x2F, 0x62]⟩ := by unfold s; rfl
  have hlocation₃ : s.location "b" = .ok ⟨[0x73, 0x2F, 0x62, 0x2F, 0x62]⟩ := by unfold s; rfl
  have hparent := write_succeeds_iff hroot hd hlocation₁ ⟨by decide, by decide, by decide⟩
    (by decide) (fun _ => ⟨hnodes, by decide⟩) hsource
  have habove := write_succeeds_iff hroot hd hlocation₂ ⟨by decide, by decide, by decide⟩
    (by decide) (fun _ => ⟨hnodes, by decide⟩) hsource
  have hfree := write_succeeds_iff hroot hd hlocation₃ ⟨by decide, by decide, by decide⟩
    (by decide) (fun _ => ⟨hnodes, by decide⟩) hsource
  refine ⟨hroot, hd, hsource, hparent.2.1 ⟨_, hfile⟩, ?_, ?_⟩
  · exact habove.2.2.1 (Disk.blocked_iff.mpr ⟨_, by decide, _, hfile⟩)
  · refine hfree.1.mpr ⟨?_, fun h => absurd (Disk.view_eq_dir.mp h) (by unfold d; decide)⟩
    rintro ⟨m, hm, i, hi⟩
    have hdir : d.view [[0x73], [0x62]] = some .dir := rfl
    rw [Disk.dirs_of_dir hd.closed hdir hm] at hi
    cases hi

end Store

end BlobStore
