import BlobStore.Proofs.Store.AnyTree
import BlobStore.Proofs.Store.Contents

/-!
# What a deletion removes

A deletion removes a unit of the tree: the first directory of the key's placement with all that is
in it, or the object's file if the placement has no directory.  The path of that directory is made
from the first segment of the pathname alone, and has to be one that can be followed
(`Store.followable_first`) before anything is known about what is asked of it.

Removing a tree and removing a file differ in what hinders them and in nothing else that matters
here (`Store.Removes`): where they are hindered they fail and leave the disk as it is, and otherwise
all at or below the path is gone.  What follows for the store is proved of both at once
(`Store.Removes.deleted`).
-/

namespace BlobStore

/-! ## The first directory of a placement -/

namespace Placement.Accepted

variable {p : Placement}

/-- The first segment and a slash are shorter than the whole. -/
theorem length_firstSegment_lt (h : p.Accepted) (hfirst : p.firstSegment ≠ "") :
    (Path.ofString p.firstSegment).bytes.length + 1 < (Path.ofString p.fullPath).bytes.length := by
  obtain ⟨n, -, -, hbytes, hmem, -⟩ := h.head_names hfirst
  have hne : p.pathname ≠ "" := by
    rintro hempty
    rw [hempty] at hmem
    simp [Path.names, Path.pieces, Path.ofString] at hmem
  have hpiece : n.length ≤ (Path.ofString p.pathname).bytes.length := by
    have hle := (List.sublist_flatten_of_mem (List.mem_of_mem_filter hmem)).length_le
    rw [Path.pieces, Text.flatten_pieces] at hle
    exact hle.trans (List.length_filter_le _ _)
  have hfilename : 0 < (Path.ofString p.filename).bytes.length :=
    List.length_pos_iff.mpr (bytes_ofString_eq_nil.not.mpr h.filename_ne_empty)
  have hfull : (Path.ofString p.fullPath).bytes.length =
      (Path.ofString p.pathname).bytes.length + 1 + (Path.ofString p.filename).bytes.length := by
    rw [fullPath, if_neg (String.isEmpty_iff.not.mpr hne)]
    simp only [bytes_ofString, String.toList_append, Text.encode_append, List.length_append]
    rfl
  rw [hbytes, hfull]
  omega

end Placement.Accepted

namespace Store

variable {s : Store} {d : Disk} {key : String} {site : Site}

/-- The path of the first directory of a placement can be followed if that of the object can. -/
theorem followable_first (hroot : s.root.Plain) (hsite : s.site key = .ok site)
    (haccepted : site.file.Accepted) (hfirst : site.placement.firstSegment ≠ "") :
    Disk.Followable (s.root.join (Path.ofString site.placement.firstSegment)) ∧
      (s.root.join (Path.ofString site.placement.firstSegment)).endsInSlash = false := by
  have hbelow := below_of_site hroot hsite
  obtain ⟨-, hplacement, hfile, -⟩ := site_eq_ok hsite
  obtain ⟨n, ns, hcons, hbytes, hmem, hup⟩ := hplacement.head_names hfirst
  have hlt := hplacement.length_firstSegment_lt hfirst
  have hn : n ∈ site.file.names := by
    rw [hbelow.names_file, hcons]
    simp
  have hname := haccepted.length_name_le n hn
  have hentry : IsEntryName n :=
    ⟨Path.ne_nil_of_mem_names hmem, Path.ne_dot_of_mem_names hmem, hup,
      Path.slash_not_mem_of_mem_names hmem,
      fun hzero => haccepted.zero_not_mem (Path.zero_mem_bytes_iff.mpr ⟨n, hn, hzero⟩)⟩
  have hfirstpath : Path.ofString site.placement.firstSegment = ⟨n⟩ := congrArg Path.mk hbytes
  -- the root is a part of the object's path
  obtain ⟨between, -, hjoin⟩ := Path.bytes_join (p := s.root) hplacement.isAbsolute_fullPath
  have hlength := haccepted.length_le
  rw [hfile, hjoin, List.length_append, List.length_append] at hlength
  rw [hbytes] at hlt
  have hrootaccepted : s.root.Accepted := by
    refine ⟨fun hzero => haccepted.zero_not_mem ?_, by omega, fun m hm => ?_⟩
    · rw [hfile, hjoin, List.append_assoc]
      exact List.mem_append_left _ hzero
    · refine haccepted.length_name_le m ?_
      rw [hbelow.names_file]
      exact List.mem_append_left _ hm
  rw [hfirstpath]
  refine ⟨Disk.followable_join hentry hname hroot hrootaccepted (by omega), ?_⟩
  rw [Path.endsInSlash_join hentry.isAbsolute_eq_false hentry.ne_nil, Path.endsInSlash,
    decide_eq_false_iff_not]
  intro hlast
  exact hentry.slash_not_mem (List.mem_of_getLast? hlast)

/-! ## Removing at a path -/

/-- An action that removes what is at a path and below it.  It fails where it is hindered; what is
not there need not be removed. -/
structure Removes (x : Action StoreError Unit) (p : Path) (hindered : Disk → Prop) : Prop where
  way : ∀ d, ¬ hindered d → ¬ d.Blocked (d.locate p).dropLast
  failed : ∀ d, d.Tree p → hindered d → ∃ e, x.run d = (.error e, d)
  removed : ∀ d, d.Tree p → ¬ hindered d → (x.run d).1 = .ok () ∧
    ∀ l, (x.run d).2.view l = if d.locate p <+: l then none else d.view l
  missing : ∀ d, ¬ d.Blocked (d.locate p).dropLast → d.view (d.locate p) = none →
    x.run d = (.ok (), d)

section removes

variable {p : Path} (hp : Disk.Followable p) (hslash : p.endsInSlash = false)

include hp hslash

theorem removes_tree : Removes (removing (.removeTree p)) p fun d => d.Blocked (d.locate p) where
  way _ hway hblocked := hway (hblocked.of_isPrefix (List.dropLast_prefix _))
  failed _ hd hblocked := ⟨_, run_removing_of_blocked hp hd hslash hblocked⟩
  removed _ hd hway := view_removing_tree hp hd.closed (Disk.not_blocked.mp hway)
  missing _ hway hnone := run_removing_of_missing
    (Disk.removeTree_of_missing hp (Disk.not_blocked.mp hway) (Disk.view_eq_none.mp hnone))

theorem removes_file : Removes (removing (.unlink p)) p fun d =>
    d.view (d.locate p) = some .dir ∨ d.Blocked (d.locate p).dropLast where
  way _ hway hblocked := hway (Or.inr hblocked)
  failed d hd hhindered := by
    have hfails {e : IoError} (hunlink : d.unlink p = .error e) :
        d.perform (.unlink p) = (.error e, d) := by
      rw [Disk.perform, hunlink]
      rfl
    rcases hhindered with hdir | hblocked
    · have hdirs (m : Location) (hm : m <+: (d.locate p).dropLast) : d.node? m = some .dir :=
        Disk.dirs_of_dir hd.closed hdir (hm.trans (List.dropLast_prefix _))
      exact ⟨_, run_removing_of_error
        (hfails (Disk.unlink_of_dir hp hdirs (Disk.view_eq_dir.mp hdir))) rfl⟩
    · exact ⟨_, run_removing_of_error (hfails (Disk.unlink_of_blocked hp hd hblocked)) rfl⟩
  removed d hd hfree := by
    obtain ⟨hdir, hway⟩ := not_or.mp hfree
    exact view_removing_file hp hslash hd.closed (Disk.not_blocked.mp hway)
      fun h => hdir (Disk.view_eq_dir.mpr h)
  missing d hway hnone := by
    refine run_removing_of_missing ?_
    rw [Disk.perform,
      Disk.unlink_of_missing hp (Disk.not_blocked.mp hway) (Disk.view_eq_none.mp hnone)]
    rfl

end removes

/-- A deletion removes the first directory of the key's placement, if there is one. -/
theorem removes_first (hroot : s.root.Plain) (hsite : s.site key = .ok site)
    (haccepted : site.file.Accepted) (hfirst : site.placement.firstSegment ≠ "") :
    let top := s.root.join (Path.ofString site.placement.firstSegment)
    Disk.Followable top ∧ top.isAbsolute = s.root.isAbsolute ∧
      Removes (s.delete key) top fun d => d.Blocked (d.locate top) := by
  obtain ⟨hfollow, hslash⟩ := followable_first hroot hsite haccepted hfirst
  refine ⟨hfollow, ?_, ?_⟩
  · exact Path.isAbsolute_join ((site_eq_ok hsite).2.1.path_firstSegment hfirst).1
  · rw [delete_eq hsite, if_neg (String.isEmpty_iff.not.mpr hfirst)]
    exact removes_tree hfollow hslash

/-! ## After a deletion -/

/-- Reading depends only on what lies at the object's location. -/
theorem reply_read_of_view (hroot : s.root.Plain) {d' : Disk} (hclosed' : Closed d'.view)
    (hbase : d'.base = d.base) {n : Nat} {b : ByteArray}
    (hview : ∀ site, s.site key = .ok site →
      d'.view (d.locate site.file) = d.view (d.locate site.file))
    (hread : s.reply (.read key) d = .contents n b) : s.reply (.read key) d' = .contents n b := by
  obtain ⟨hn, site, l, hsite, hleads, hfile⟩ := reply_read_eq_contents.mp hread
  have hplain := (below_of_site hroot hsite).plain_file
  obtain rfl := hleads.eq_locate hplain
  rw [← hview site hsite] at hfile
  refine reply_read_eq_contents.mpr ⟨hn, site, _, hsite, ?_, hfile⟩
  refine hleads.of_dirs hplain hbase fun m hm hne => ?_
  exact Disk.view_eq_dir.mp (hclosed'.dir_of_prefix hm hne (by simp [hfile]))

/-- What a deletion under a key has removed: a unit of the tree, in which the object lies. -/
structure Deleted (s : Store) (key : String) (d d' : Disk) (unit : Location → Prop) : Prop where
  object : ∀ file, s.location key = .ok file → unit (d.locate file)
  inside : ∀ l, unit l → d'.view l = none
  outside : ∀ l, ¬ unit l → d'.view l = d.view l
  has : s.reply (.has key) d' = .present false
  again : (s.delete key).run d' = (.ok (), d')
  read : ∀ key₂, (∀ file₂, s.location key₂ = .ok file₂ → ¬ unit (d.locate file₂)) →
    ∀ n b, s.reply (.read key₂) d' = .contents n b ↔ s.reply (.read key₂) d = .contents n b

namespace Removes

variable {p : Path} {hindered : Disk → Prop}

theorem ok_iff {x : Action StoreError Unit} (hx : Removes x p hindered) (hd : d.Tree p) :
    (x.run d).1 = .ok () ↔ ¬ hindered d := by
  refine ⟨fun hok hhindered => ?_, fun hfree => (hx.removed d hd hfree).1⟩
  obtain ⟨e, he⟩ := hx.failed d hd hhindered
  rw [he] at hok
  cases hok

theorem eq_of_error {x : Action StoreError Unit} (hx : Removes x p hindered) (hd : d.Tree p)
    {e : StoreError} (herror : (x.run d).1 = .error e) : (x.run d).2 = d := by
  by_cases hhindered : hindered d
  · obtain ⟨e', he'⟩ := hx.failed d hd hhindered
    rw [he']
  · rw [(hx.removed d hd hhindered).1] at herror
    cases herror

/-- What is gone need not be removed once more. -/
theorem again {x : Action StoreError Unit} (hx : Removes x p hindered) (hd : d.Tree p)
    (hok : (x.run d).1 = .ok ()) : x.run (x.run d).2 = (.ok (), (x.run d).2) := by
  have hfree := (hx.ok_iff hd).mp hok
  obtain ⟨-, hview⟩ := hx.removed d hd hfree
  refine hx.missing _ (fun hblocked => hx.way d hfree ?_) ?_
  · rw [x.run_locate] at hblocked
    refine hblocked.of_view fun m b hb => ?_
    rw [hview] at hb
    split_ifs at hb
    exact hb
  · rw [x.run_locate, hview, if_pos (List.prefix_refl _)]

/-- A deletion that has removed what is at a path has removed a unit if nothing else is there. -/
theorem deleted (hroot : s.root.Plain) (hsite : s.site key = .ok site) (hreach : site.Reachable)
    (hx : Removes (s.delete key) p hindered) (hp : Disk.Followable p)
    (habs : p.isAbsolute = s.root.isAbsolute) (hd : d.Tree s.root) {unit : Location → Prop}
    (hobject : unit (d.locate site.file)) (hinside : ∀ l, unit l → d.locate p <+: l)
    (houtside : ∀ l, ¬ unit l → d.locate p <+: l → d.view l = none)
    (hok : ((s.delete key).run d).1 = .ok ()) :
    Deleted s key d ((s.delete key).run d).2 unit := by
  have htree : d.Tree p := hd.of_isAbsolute habs
  have hfree := (hx.ok_iff htree).mp hok
  obtain ⟨-, hview⟩ := hx.removed d htree hfree
  have hagain := hx.again htree hok
  have hd' := (s.delete key).run_unshared hd.toUnshared
  have hbase := (s.delete key).run_base d
  generalize ((s.delete key).run d).2 = d' at *
  have hsame (l : Location) (hl : ¬ unit l) : d'.view l = d.view l := by
    rw [hview]
    split_ifs with hbelow
    · exact (houtside l hl hbelow).symm
    · rfl
  have hgone (l : Location) (hl : unit l) : d'.view l = none := by
    rw [hview, if_pos (hinside l hl)]
  have htree' : d'.Tree p := tree_of_removing hp htree hd' hbase hview
  have htreefile : d'.Tree site.file :=
    htree'.of_isAbsolute ((below_of_site hroot hsite).isAbsolute_file.trans habs.symm)
  refine ⟨fun file hfile => ?_, hgone, hsame, ?_, hagain, fun key₂ hkey₂ n b => ⟨?_, ?_⟩⟩
  · obtain ⟨site', hsite', rfl⟩ := location_eq_ok.mp hfile
    obtain rfl := Except.ok.inj (hsite.symm.trans hsite')
    exact hobject
  · refine reply_has_of_view_eq_none hsite hreach htreefile ?_
    rw [Disk.locate_of_base hbase, hgone _ hobject]
  · refine reply_read_of_view hroot hd.closed hbase.symm fun site₂ hsite₂ => ?_
    rw [Disk.locate_of_base hbase]
    exact (hsame _ (hkey₂ _ (location_eq_ok.mpr ⟨site₂, hsite₂, rfl⟩))).symm
  · refine reply_read_of_view hroot htree'.closed hbase fun site₂ hsite₂ => ?_
    exact hsame _ (hkey₂ _ (location_eq_ok.mpr ⟨site₂, hsite₂, rfl⟩))

end Removes

/-- **A deletion removes its unit, and nothing else.**  If the placement of a key has a directory,
the unit is the first one with all that is in it, and the deletion succeeds if and only if this is
no file and none stands above it.  Otherwise the unit is the object's file alone, and the deletion
succeeds if and only if no directory is in its place and no file above it.

After a success the object is not there, a second deletion succeeds and leaves the disk as it is,
and under every key with a location outside the unit the same is read as before.  A deletion that
fails has removed nothing. -/
theorem delete_removes_unit (hroot : s.root.Plain) (hd : d.Tree s.root) {file : Path}
    (hlocation : s.location key = .ok file) (haccepted : file.Accepted)
    (hdot : lastPiece (s.layout key).filename ≠ ['.']) :
    let first := (s.layout key).firstSegment
    let place := d.locate file
    let top := d.locate (s.root.join (Path.ofString first))
    let deleted := (s.delete key).run d
    (first ≠ "" → (deleted.1 = .ok () ↔ ¬ d.Blocked top) ∧
      (deleted.1 = .ok () → Deleted s key d deleted.2 (top <+: ·))) ∧
    (first = "" → (deleted.1 = .ok () ↔ d.view place ≠ some .dir ∧ ¬ d.Blocked place.dropLast) ∧
      (deleted.1 = .ok () → Deleted s key d deleted.2 (· = place))) ∧
    ∀ e, deleted.1 = .error e → ∀ l, deleted.2.view l = d.view l := by
  intro first place top deleted
  obtain ⟨site, hsite, rfl⟩ := location_eq_ok.mp hlocation
  have hreach := reachable_of_site hroot hsite haccepted hdot
  have hbelow := below_of_site hroot hsite
  have hfirst : site.placement.firstSegment = first := by rw [(site_eq_ok hsite).1]
  by_cases hempty : first = ""
  · have hx : Removes (s.delete key) site.file fun d =>
        d.view (d.locate site.file) = some .dir ∨ d.Blocked (d.locate site.file).dropLast := by
      rw [delete_eq hsite, hfirst, if_pos (String.isEmpty_iff.mpr hempty)]
      exact removes_file hreach.file hreach.slash
    have htree : d.Tree site.file := hd.of_isAbsolute hbelow.isAbsolute_file
    have hiff := (hx.ok_iff htree).trans not_or
    refine ⟨fun h => absurd hempty h, fun _ => ⟨hiff, fun hok => ?_⟩, fun e he l => ?_⟩
    · refine hx.deleted hroot hsite hreach hreach.file hbelow.isAbsolute_file hd rfl ?_ ?_ hok
      · rintro l rfl
        exact List.prefix_refl _
      · -- nothing lies below what is no directory
        intro l hl hle
        exact hd.closed.none_of_prefix hle (Ne.symm hl) (hiff.mp hok).1
    · rw [show deleted.2 = d from hx.eq_of_error htree he]
  · obtain ⟨hfollow, hslash⟩ :=
      followable_first hroot hsite haccepted (by rw [hfirst]; exact hempty)
    obtain ⟨-, htop⟩ := hbelow.first (by rw [hfirst]; exact hempty)
    rw [hfirst] at hfollow hslash htop
    have hx : Removes (s.delete key) (s.root.join (Path.ofString first)) fun d =>
        d.Blocked (d.locate (s.root.join (Path.ofString first))) := by
      rw [delete_eq hsite, hfirst, if_neg (String.isEmpty_iff.not.mpr hempty)]
      exact removes_tree hfollow hslash
    have habs : (s.root.join (Path.ofString first)).isAbsolute = s.root.isAbsolute := by
      rw [← hfirst]
      exact Path.isAbsolute_join
        ((site_eq_ok hsite).2.1.path_firstSegment (by rw [hfirst]; exact hempty)).1
    have htree := hd.of_isAbsolute habs
    refine ⟨fun _ => ⟨hx.ok_iff htree, fun hok => ?_⟩, fun h => absurd h hempty, fun e he l => ?_⟩
    · refine hx.deleted hroot hsite hreach hfollow habs hd ?_ (fun _ hl => hl)
        (fun _ hl hle => absurd hle hl) hok
      -- the object lies in the first directory of its placement
      rw [show top = _ from htop d, hbelow.locate_file]
      exact (List.prefix_append_right_inj _).mpr (List.take_prefix _ _)
    · rw [show deleted.2 = d from hx.eq_of_error htree he]

/-- The key `a` has the unit `s/a` in a store with the identity layout, whatever is in it.  With a
layout that makes no directories the directory `s/a` is in the place of the object, and nothing can
be deleted. -/
theorem delete_removes_unit_shared :
    let s : Store := ⟨⟨[0x73]⟩, Layout.identity, false⟩
    let flat : Store := ⟨⟨[0x73]⟩, fun key => ⟨"", key⟩, false⟩
    let d := ((Disk.empty.insert [[0x73]] .dir).insert [[0x73], [0x61]] .dir).insertFile
      [[0x73], [0x61], [0x78]]
    s.root.Plain ∧ d.Tree s.root ∧
      Deleted s "a" d ((s.delete "a").run d).2 ([[0x73], [0x61]] <+: ·) ∧
      ((flat.delete "a").run d).1 ≠ .ok () := by
  intro s flat d
  have hroot : s.root.Plain := ⟨by decide, by decide⟩
  have hd : d.Tree s.root :=
    (((Disk.wellFormed_empty.insert_dir (by decide) rfl).insert_dir (by decide) rfl).insertFile
      (by decide) rfl (by decide)).tree _
  have hlocation : s.location "a" = .ok ⟨[0x73, 0x2F, 0x61, 0x2F, 0x61]⟩ := by unfold s; rfl
  have hlocationflat : flat.location "a" = .ok ⟨[0x73, 0x2F, 0x61]⟩ := by unfold flat; rfl
  have hshared := (delete_removes_unit hroot hd hlocation ⟨by decide, by decide, by decide⟩
    (by decide)).1 (by decide)
  have hflat := (delete_removes_unit (s := flat) hroot hd hlocationflat
    ⟨by decide, by decide, by decide⟩ (by decide)).2.1 (by decide)
  have htop : d.locate (s.root.join (Path.ofString (s.layout "a").firstSegment)) =
      [[0x73], [0x61]] := by
    unfold s d
    decide
  rw [htop] at hshared
  refine ⟨hroot, hd, hshared.2 (hshared.1.mpr ?_), fun hok => (hflat.1.mp hok).1 rfl⟩
  rintro ⟨m, hm, i, hi⟩
  have hdir : d.view [[0x73], [0x61]] = some .dir := rfl
  rw [Disk.dirs_of_dir hd.closed hdir hm] at hi
  cases hi

end Store

end BlobStore
