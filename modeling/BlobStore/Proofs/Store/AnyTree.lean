import BlobStore.Proofs.Disk.Blocked
import BlobStore.Proofs.Store.ClearWay
import BlobStore.Proofs.Store.Looking
import BlobStore.Proofs.Store.Removing
import BlobStore.Proofs.Store.Requests

/-!
# Operations on any tree

Where the path of an object can be followed (`Site.Reachable`), each operation answers and leaves
what can be read off the tree, whatever the tree is.  Looking depends on what lies at the object's
location (`reply_has_of_reachable`, `reply_read_of_reachable`).  A removal is refused if a file is
in the way (`run_removing_of_blocked`), and otherwise removes all at or below the location.  A write
is refused as well if a file is in the way of the object's directory (`write_of_blocked`).
Otherwise it makes the directories, and `ending` tells how it goes on (`write_of_way`).

Whatever is asked of a path with a zero byte is refused.
-/

namespace BlobStore

namespace Disk

variable {d : Disk} {p q : Path}

/-- It matters only whether a path is absolute. -/
theorem Tree.of_isAbsolute (hd : d.Tree p) (h : q.isAbsolute = p.isAbsolute) : d.Tree q where
  toUnshared := hd.toUnshared
  closed := hd.closed
  start_dir := by
    rw [start, h, ← start]
    exact hd.start_dir

theorem WellFormed.tree (hd : d.WellFormed) (p : Path) : d.Tree p :=
  ⟨hd.toUnshared, hd.closed, start_dir hd.base_dir p⟩

end Disk

theorem Disk.resolve_of_zero {d : Disk} {p : Path} (hzero : 0 ∈ p.bytes) :
    d.resolve p = .error .zeroByte := by
  rw [resolve, target, if_pos hzero]
  rfl

theorem run_makeDirs_of_zero {d : Disk} {p : Path} (hzero : 0 ∈ p.bytes) :
    (makeDirs p).run d = (.error .zeroByte, d) := by
  have hmake : d.makeDir p = .error .zeroByte := by
    rw [Disk.makeDir, Disk.target, if_pos hzero]
    rfl
  have hkind : d.kind p ≠ .ok .dir := by
    rw [Disk.kind, Disk.resolve_of_zero hzero]
    exact fun h => by cases h
  rw [makeDirs, Path.ancestors, Path.ancestorsWithin, run_makeFirst_cons (List.ne_nil_of_mem hzero),
    hmake]
  dsimp only
  rw [if_neg hkind]

/-- Where a file is in the way no directory is made. -/
theorem run_makeDirs_of_blocked {d : Disk} {p : Path} (hp : Disk.Followable p) (hd : d.Tree p)
    (hblocked : d.Blocked (d.locate p)) :
    (makeDirs p).run d = (.error (.system (d.obstacle (d.locate p))), d) := by
  obtain ⟨hmake, hkind⟩ := Disk.makeDir_of_blocked hp hd hblocked
  have hobstacle : d.obstacle (d.locate p) ≠ .noEntry := by
    unfold Disk.obstacle
    split <;> simp
  rw [makeDirs, Path.ancestors, Path.ancestorsWithin, run_makeFirst_cons hp.plain.bytes_ne_nil, hmake]
  split
  · next heq => cases heq
  · next heq => exact absurd (IoError.system.inj (Except.error.inj heq)) hobstacle
  · next heq =>
    obtain rfl := Except.error.inj heq
    rw [if_neg hkind]

/-- A view stays closed when a location and all above it are made directories. -/
theorem Closed.made {v w : Location → Option Entry} {l : Location} (hv : Closed v)
    (hw : ∀ m, w m = if m <+: l then some .dir else v m) : Closed w := by
  intro m n hmn
  rw [hw] at hmn ⊢
  by_cases hm : m <+: l
  · rw [if_pos hm]
  · rw [if_neg fun h => hm ((List.prefix_append ..).trans h)] at hmn
    rw [if_neg hm]
    exact hv m n hmn

/-- A view stays closed when all at or below a location is removed. -/
theorem Closed.removed {v w : Location → Option Entry} {l : Location} (hv : Closed v)
    (hw : ∀ m, w m = if l <+: m then none else v m) : Closed w := by
  intro m n hmn
  rw [hw] at hmn ⊢
  split_ifs at hmn with hbelow
  · exact absurd rfl hmn
  · rw [if_neg fun h => hbelow (h.trans (List.prefix_append ..))]
    exact hv m n hmn

/-! ## Sites -/

/-- A site whose object has a path that can be followed.  Its directory may be the top. -/
structure Site.Reachable (site : Site) : Prop where
  file : Disk.Followable site.file
  slash : site.file.endsInSlash = false
  plain_dir : site.dir.Plain
  above : site.dir = site.file.above

namespace Site.Reachable

variable {site : Site} {d : Disk} (h : site.Reachable)

include h

theorem accepted_dir : site.dir.Accepted := by
  rw [h.above]
  exact h.file.accepted.above h.file.plain

theorem trimmed_dir : site.dir.Trimmed := by
  rw [h.above]
  exact Path.trimmed_above _

theorem locate_dir (d : Disk) : d.locate site.dir = (d.locate site.file).dropLast := by
  rw [h.above, h.file.locate_above]

theorem tree_dir (hd : d.Tree site.file) : d.Tree site.dir :=
  hd.of_isAbsolute (by rw [h.above, h.file.plain.isAbsolute_above])

/-- If a file is in the way of the directory this is not the top. -/
theorem followable_dir (hd : d.Tree site.file) (hblocked : d.Blocked (d.locate site.dir)) :
    Disk.Followable site.dir := by
  refine ⟨h.plain_dir, h.accepted_dir, h.trimmed_dir, fun hnames => ?_⟩
  obtain ⟨m, hm, i, hi⟩ := hblocked
  rw [Disk.locate, hnames, List.append_nil] at hm
  rw [Disk.dirs_of_dir hd.closed (h.tree_dir hd).start_dir hm] at hi
  cases hi

end Site.Reachable

/-- A site whose paths can be followed, with room for a temporary file beside the object. -/
structure Site.Usable (site : Site) : Prop where
  file : Disk.Followable site.file
  slash : site.file.endsInSlash = false
  dir : Disk.Followable site.dir
  above : site.dir = site.file.above
  room : site.dir.bytes.length + 11 ≤ Disk.maxPath

theorem Site.Usable.reachable {site : Site} (h : site.Usable) : site.Reachable :=
  ⟨h.file, h.slash, h.dir.plain, h.above⟩

namespace Store

variable {s : Store} {d : Disk} {key : String} {site : Site}

/-- A site can be reached if the system accepts the object's path and it does not end in a dot. -/
theorem reachable_of_site (hroot : s.root.Plain) (hsite : s.site key = .ok site)
    (haccepted : site.file.Accepted) (hdot : lastPiece (s.layout key).filename ≠ ['.']) :
    site.Reachable := by
  have hbelow := below_of_site hroot hsite
  exact ⟨followable_file hroot hsite haccepted hdot, endsInSlash_file hsite, hbelow.plain_dir,
    hbelow.dir_eq⟩

/-! ## Looking -/

section looking

variable (hsite : s.site key = .ok site) (hreach : site.Reachable) (hd : d.Tree site.file)

include hsite hreach hd

theorem reply_has_of_reachable : s.reply (.has key) d = .present (d.file? site.file).isSome := by
  rw [reply_has, hsite]
  dsimp only
  cases hfile : d.file? site.file with
  | some b =>
    obtain ⟨i, hnumber, -⟩ := Disk.file?_eq_some.mp hfile
    obtain ⟨l, hleads, hnode⟩ := Disk.number?_eq_some.mp hnumber
    rw [Disk.kind_eq_file hleads hnode]
    rfl
  | none =>
    rcases Disk.resolve_of_file?_eq_none hreach.file hd hreach.slash hfile with hdir | ⟨e, he, herror⟩
    · rw [Disk.kind, hdir]
      rfl
    · rw [Disk.kind_of_resolve_error herror]
      dsimp only
      rw [he, if_pos rfl]
      rfl

/-- Where nothing is at the object's location there is no object. -/
theorem reply_has_of_view_eq_none (hnone : d.view (d.locate site.file) = none) :
    s.reply (.has key) d = .present false := by
  have hfile : d.file? site.file = none := by
    rw [Option.eq_none_iff_forall_ne_some]
    intro b hb
    rw [(Disk.file?_eq_some_iff hreach.file hd hreach.slash).mp hb] at hnone
    cases hnone
  rw [reply_has_of_reachable hsite hreach hd, hfile]
  rfl

theorem reply_read_of_reachable : s.reply (.read key) d = match d.file? site.file with
    | some b => .contents b.size b
    | none => .failed (.notFound key) := by
  cases hfile : d.file? site.file with
  | some b =>
    obtain ⟨i, hnumber, rfl⟩ := Disk.file?_eq_some.mp hfile
    obtain ⟨l, hleads, hnode⟩ := Disk.number?_eq_some.mp hnumber
    exact reply_read_eq_contents.mpr ⟨rfl, site, l, hsite, hleads, Disk.view_of_file hnode⟩
  | none =>
    rw [reply_read, hsite]
    dsimp only
    rcases Disk.resolve_of_file?_eq_none hreach.file hd hreach.slash hfile with hdir | ⟨e, he, herror⟩
    · rw [Disk.openRead, hdir]
      rfl
    · rw [Disk.openRead_of_resolve_error herror]
      dsimp only
      rw [he, if_pos rfl]

end looking

/-! ## Writing -/

/-- How a write goes on when the directories are there: what it answers, and whether the object
gets what the source delivers.  A plain write is refused at once if a directory is in the object's
place, and what has been copied stays.  An atomic write needs a temporary file, for which there may
be no room (`fits`); it meets a directory only in the end, and the object gets all or nothing. -/
def ending (atomic fits isDir : Bool) (copied : Except IoError Nat) : Except IoError Nat × Bool :=
  match atomic with
  | false => if isDir then (.error (.system .isDirectory), false) else (copied, true)
  | true =>
    if !fits then (.error (.system .nameTooLong), false)
    else match copied with
      | .error e => (.error e, false)
      | .ok n => if isDir then (.error (.system .isDirectory), false) else (.ok n, true)

theorem ending_stored {atomic fits isDir : Bool} {copied : Except IoError Nat}
    (h : (ending atomic fits isDir copied).2 = true) : isDir = false := by
  cases isDir with
  | false => rfl
  | true => cases atomic <;> cases fits <;> cases copied <;> cases h

/-- A program ends as told: with this answer, and with these bytes at a location if they are to be
stored, and with nothing else changed. -/
structure EndsAs (x : Action IoError Nat) (d : Disk) (l : Location) (b : ByteArray)
    (told : Except IoError Nat × Bool) : Prop where
  answer : (x.run d).1 = told.1
  view : ∀ m, (x.run d).2.view m =
    if m = l ∧ told.2 = true then some (.file b) else d.view m

section streams

variable {dir file : Path} {deliveries : List Delivery} {failure : Option IoError}
  (hd : d.Unshared) (hfile : file.Plain) (hleads : d.Leads file (d.locate file)) {isDir : Bool}
  (hplace : isDir = true ↔ d.view (d.locate file) = some .dir)

include hd hfile hleads hplace

theorem writePlain_ending (fits : Bool) :
    EndsAs (writePlain file (.reader deliveries failure)) d (d.locate file)
      (Source.collected deliveries)
      (ending false fits isDir ((Source.reader deliveries failure).answer d)) := by
  cases isDir with
  | true =>
    have hrun := writePlain_of_dir hleads (Disk.view_eq_dir.mp (hplace.mp rfl))
      (.reader deliveries failure)
    exact ⟨by rw [hrun]; rfl, fun m => by rw [hrun]; simp [ending]⟩
  | false =>
    obtain ⟨hanswer, hview⟩ := @writePlain_of_leads d file deliveries failure hd hfile hleads
      fun h => by simpa using hplace.mpr h
    exact ⟨hanswer, fun m => by simp [ending, hview]⟩

variable {fits : Bool} (hdir : dir.Plain)
  (hfits : fits = true → ∃ made, d.createTemp dir = .ok made)
  (hlong : fits = false → d.createTemp dir = .error (.system .nameTooLong))

include hdir hfits hlong

theorem writeAtomic_ending :
    EndsAs (writeAtomic dir file (.reader deliveries failure)) d (d.locate file)
      (Source.collected deliveries)
      (ending true fits isDir ((Source.reader deliveries failure).answer d)) := by
  cases fits with
  | false =>
    have hrun : (writeAtomic dir file (.reader deliveries failure)).run d =
        (.error (.system .nameTooLong), d) := run_writeAtomic_of_error _ (hlong rfl)
    exact ⟨by rw [hrun]; rfl, fun m => by rw [hrun]; simp [ending]⟩
  | true =>
    cases isDir with
    | true =>
      obtain ⟨hanswer, hview⟩ := writeAtomic_of_dir hleads (Disk.view_eq_dir.mp (hplace.mp rfl))
        (.reader deliveries failure) hd hdir (hfits rfl)
      rw [Source.answer]
      cases hfailure : (Source.reader deliveries failure).failure? with
      | some e =>
        rw [hfailure] at hanswer
        exact ⟨hanswer, fun m => by simp [ending, hview]⟩
      | none =>
        rw [hfailure] at hanswer
        exact ⟨hanswer, fun m => by simp [ending, hview]⟩
    | false =>
      obtain ⟨hanswer, hview⟩ := @writeAtomic_of_leads d dir file deliveries failure hd hfile hleads
        (fun h => by simpa using hplace.mpr h) hdir (hfits rfl)
      cases hfailure : (Source.reader deliveries failure).failure? with
      | some e =>
        rw [Source.answer, hfailure] at hanswer ⊢
        exact ⟨hanswer, fun m => by simp [ending, hview, hfailure]⟩
      | none =>
        rw [Source.answer, hfailure] at hanswer ⊢
        exact ⟨hanswer, fun m => by simp [ending, hview, hfailure]⟩

/-- Where the directories are there both ways of writing end as told. -/
theorem writing_ending (atomic : Bool) :
    EndsAs (if atomic = true then writeAtomic dir file (.reader deliveries failure)
      else writePlain file (.reader deliveries failure)) d (d.locate file)
      (Source.collected deliveries)
      (ending atomic fits isDir ((Source.reader deliveries failure).answer d)) := by
  cases atomic with
  | false => exact writePlain_ending hd hfile hleads hplace fits
  | true => exact writeAtomic_ending hd hfile hleads hplace hdir hfits hlong

end streams

/-! ### The directories of an object -/

/-- Directories have been made at a location and above it, and nothing else has changed. -/
structure Made (d d' : Disk) (l : Location) : Prop where
  base : d'.base = d.base
  view : ∀ m, d'.view m = if m <+: l then some .dir else d.view m

namespace Made

variable {d₁ : Disk} (h : Made d d₁ (d.locate site.dir)) (hreach : site.Reachable)

include h

theorem dirs (m : Location) (hm : m <+: d₁.locate site.dir) : d₁.node? m = some .dir := by
  rw [Disk.locate_of_base h.base] at hm
  rw [← Disk.view_eq_dir, h.view, if_pos hm]

/-- What is beside the object is still there. -/
theorem node?_beside (n : Name) :
    d₁.node? (d.locate site.dir ++ [n]) = none ↔ d.node? (d.locate site.dir ++ [n]) = none := by
  rw [← Disk.view_eq_none, h.view, if_neg fun hle => absurd hle.length_le (by simp),
    Disk.view_eq_none]

theorem fitsTemp : d₁.FitsTemp site.dir ↔ d.FitsTemp site.dir :=
  Disk.fitsTemp_congr h.base fun n => h.node?_beside (Disk.tempName n)

include hreach

/-- The object's path can be followed. -/
theorem leads : d₁.Leads site.file (d₁.locate site.file) :=
  Disk.leads_of_dirs hreach.file hreach.slash fun m hm => h.dirs m (by rwa [hreach.locate_dir])

/-- What is in the object's place is still there. -/
theorem view_file : d₁.view (d₁.locate site.file) = d.view (d.locate site.file) := by
  rw [Disk.locate_of_base h.base, h.view, hreach.locate_dir,
    if_neg (hreach.file.locate_not_isPrefix d)]

end Made

section writing

variable (hsite : s.site key = .ok site) (hd : d.Tree site.file)

include hsite hd

/-- With a file in the way of its directory nothing is written. -/
theorem write_of_blocked (hreach : site.Reachable) (hblocked : d.Blocked (d.locate site.dir))
    (source : Source) :
    (s.write key source).run d =
      (.error (.io (.system (d.obstacle (d.locate site.dir)))), d) := by
  rw [run_write, hsite]
  dsimp only
  rw [run_makeDirs_of_blocked (hreach.followable_dir hd hblocked) (hreach.tree_dir hd) hblocked]

/-- With no file in its way the directory is made, and the rest happens on the disk with it. -/
theorem run_write_of_way (hreach : site.Reachable) (hway : ¬ d.Blocked (d.locate site.dir))
    (source : Source) :
    ∃ d₁, Made d d₁ (d.locate site.dir) ∧ d₁.Unshared ∧
      (s.write key source).run d =
        let r := (if s.atomicWrites then writeAtomic site.dir site.file source
          else writePlain site.file source).run d₁
        (r.1.mapError .io, r.2) := by
  obtain ⟨hok, hview⟩ := view_makeDirs_of_trimmed hreach.plain_dir hreach.accepted_dir
    hreach.trimmed_dir hd.closed (hreach.tree_dir hd).start_dir (Disk.not_blocked.mp hway)
  exact ⟨_, ⟨(makeDirs site.dir).run_base d, hview⟩, (makeDirs site.dir).run_unshared hd.toUnshared,
    run_write_of_made source hsite hok⟩

variable (huse : site.Usable)

include huse

/-- Otherwise the directories are made, and then the write ends as told. -/
theorem write_of_way (hway : ¬ d.Blocked (d.locate site.dir)) {fits isDir : Bool}
    (hfits : fits = true ↔ d.FitsTemp site.dir)
    (hplace : isDir = true ↔ d.view (d.locate site.file) = some .dir)
    (deliveries : List Delivery) (failure : Option IoError) :
    let copied := (Source.reader deliveries failure).answer d
    ((s.write key (.reader deliveries failure)).run d).1 =
        (ending s.atomicWrites fits isDir copied).1.mapError .io ∧
      ∀ m, ((s.write key (.reader deliveries failure)).run d).2.view m =
        if m = d.locate site.file ∧ (ending s.atomicWrites fits isDir copied).2 = true then
          some (.file (Source.collected deliveries))
        else if m <+: d.locate site.dir then some .dir else d.view m := by
  intro copied
  obtain ⟨d₁, hmade, hd₁, hrun⟩ :=
    run_write_of_way hsite hd huse.reachable hway (.reader deliveries failure)
  rw [hrun]
  have hplace₁ : isDir = true ↔ d₁.view (d₁.locate site.file) = some .dir := by
    rw [hmade.view_file huse.reachable]
    exact hplace
  obtain ⟨hroom, hlong⟩ :=
    Disk.createTemp_of_dirs huse.dir.plain huse.dir.accepted huse.room hmade.dirs
  rw [hmade.fitsTemp, ← hfits] at hroom hlong
  have hends : EndsAs _ d₁ (d₁.locate site.file) (Source.collected deliveries)
      (ending s.atomicWrites fits isDir copied) :=
    writing_ending hd₁ huse.file.plain (hmade.leads huse.reachable) hplace₁ huse.dir.plain hroom
      (fun h => hlong (by simp [h])) s.atomicWrites
  dsimp only
  rw [hends.answer]
  refine ⟨rfl, fun m => ?_⟩
  rw [hends.view, Disk.locate_of_base hmade.base, hmade.view]

omit hsite in
/-- What a write leaves is a tree. -/
theorem tree_of_write {fits isDir : Bool} {copied : Except IoError Nat} {b : ByteArray}
    {d' : Disk} (hplace : isDir = true ↔ d.view (d.locate site.file) = some .dir)
    (hd' : d'.Unshared) (hbase : d'.base = d.base)
    (hview : ∀ m, d'.view m =
      if m = d.locate site.file ∧ (ending s.atomicWrites fits isDir copied).2 = true then
        some (.file b)
      else if m <+: d.locate site.dir then some .dir else d.view m) : d'.Tree site.file := by
  let made : Location → Option Entry := fun m =>
    if m <+: d.locate site.dir then some .dir else d.view m
  have hmade : Closed made := hd.closed.made fun _ => rfl
  have hdir : made (d.locate site.file).dropLast = some .dir :=
    if_pos (by rw [huse.reachable.locate_dir])
  have hstart : d.start site.file <+: d.locate site.dir := by
    rw [huse.reachable.locate_dir, huse.file.dropLast_locate]
    exact List.prefix_append ..
  have hnew : ¬ d.locate site.file <+: d.locate site.dir := by
    rw [huse.reachable.locate_dir]
    exact huse.file.locate_not_isPrefix d
  refine ⟨hd', ?_, ?_⟩
  · cases hstored : (ending s.atomicWrites fits isDir copied).2 with
    | false =>
      simp only [hstored, Bool.false_eq_true, and_false, if_false] at hview
      exact hd.closed.made hview
    | true =>
      simp only [hstored, and_true] at hview
      refine Disk.closed_update hmade hdir (fun h => ?_) hview
      -- no directory was in the object's place
      have hfree := ending_stored hstored
      rw [show made (d.locate site.file) = d.view (d.locate site.file) from if_neg hnew,
        ← hplace, hfree] at h
      exact absurd h Bool.false_ne_true
  · have hsame : d'.start site.file = d.start site.file := by rw [Disk.start, Disk.start, hbase]
    have hne : d.start site.file ≠ d.locate site.file := fun h => hnew (h ▸ hstart)
    rw [hsame, hview, if_neg fun h => hne h.1, if_pos hstart]

end writing

/-! ## Removing -/

section removing

variable {p : Path} (hp : Disk.Followable p) (hd : d.Tree p)

include hp hd

/-- With a file in the way, or in the place of the directory, nothing is removed. -/
theorem run_removing_of_blocked (hslash : p.endsInSlash = false)
    (hblocked : d.Blocked (d.locate p)) :
    (removing (.removeTree p)).run d = (.error (.io (.system .notDirectory)), d) :=
  run_removing_of_error (Disk.removeTree_of_blocked hp hd hslash hblocked) rfl

/-- What a removal leaves is a tree. -/
theorem tree_of_removing {d' : Disk} (hd' : d'.Unshared) (hbase : d'.base = d.base)
    (hview : ∀ m, d'.view m = if d.locate p <+: m then none else d.view m) : d'.Tree p := by
  have hstart : d'.start p = d.start p := by rw [Disk.start, Disk.start, hbase]
  refine ⟨hd', hd.closed.removed hview, ?_⟩
  rw [hstart, hview, if_neg fun h => ?_]
  · exact hd.start_dir
  · have hlength := h.length_le
    have hnames := List.length_pos_iff.mpr hp.names_ne_nil
    rw [Disk.locate, List.length_append] at hlength
    omega

end removing

/-! ## Zero bytes -/

section zero

variable (hsite : s.site key = .ok site)

include hsite

theorem reply_has_of_zero (hzero : 0 ∈ site.file.bytes) (d : Disk) :
    s.reply (.has key) d = .failed (.io .zeroByte) := by
  rw [reply_has, hsite]
  dsimp only
  rw [Disk.kind_of_resolve_error (Disk.resolve_of_zero hzero)]
  rfl

theorem reply_read_of_zero (hzero : 0 ∈ site.file.bytes) (d : Disk) :
    s.reply (.read key) d = .failed (.io .zeroByte) := by
  rw [reply_read, hsite]
  dsimp only
  rw [Disk.openRead_of_resolve_error (Disk.resolve_of_zero hzero)]
  rfl

theorem run_write_of_zero (hzero : 0 ∈ site.dir.bytes) (source : Source) (d : Disk) :
    (s.write key source).run d = (.error (.io .zeroByte), d) := by
  rw [run_write, hsite]
  dsimp only
  rw [run_makeDirs_of_zero hzero]

omit hsite in
theorem run_removing_of_zero {p : Path} (hzero : 0 ∈ p.bytes) (d : Disk) :
    (removing (.removeTree p)).run d = (.error (.io .zeroByte), d) := by
  rw [run_removing]
  simp only [Disk.perform, Disk.removeTree, Disk.resolve_of_zero hzero]
  rfl

end zero

end Store

end BlobStore
