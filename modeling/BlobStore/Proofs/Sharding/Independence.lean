import BlobStore.Proofs.Sharding.Refinement
import BlobStore.Proofs.Store.AnyTree

/-!
# Shards are independent

The objects of a sharded store whose digests begin with the same block form a shard: they lie in
one directory below the root.  Operations on different shards can be done in either order, on any
tree, whether they succeed or not (`shards_independent`).

Shards share the way to the root.  An operation sees no more of it than whether a file stands
there, and changes it in one way only: a write makes directories of what is missing, provided that
no file stands there.  So all that an operation does is told by three things (`Effect`): what it
answers, whether it makes the root, and what it leaves in the directory of its shard.  They depend
on no more than what lies in this directory and whether a file is in the way of the root
(`hasEffect_of_key`).  Effects on different shards commute (`Effect.commute`).
-/

namespace BlobStore.Sharding

variable {sh : Sharding} {root : Path} {d d' : Disk} {top : Location} {block block' : Name}

/-! ## Effects -/

/-- What an operation on a shard does. -/
structure Effect where
  reply : Reply
  /-- whether the root and all above it are directories afterwards, whatever they were -/
  makesRoot : Prop
  /-- what lies in the directory of the shard afterwards -/
  below : Location → Option Entry

/-- An operation on a disk has an effect, and none besides; what it leaves is a tree. -/
structure Effect.Of (e : Effect) (root : Path) (block : Name) (s : Store) (o : Operation)
    (d : Disk) : Prop where
  reply : s.reply o d = e.reply
  tree : (s.next o d).Tree root
  free : e.makesRoot → ¬ d.Blocked (d.locate root)
  made : e.makesRoot → ∀ l, l <+: d.locate root → (s.next o d).view l = some .dir
  kept : ¬ e.makesRoot → ∀ l, l <+: d.locate root → (s.next o d).view l = d.view l
  below : ∀ l, d.locate root ++ [block] <+: l → (s.next o d).view l = e.below l
  other : ∀ l, ¬ l <+: d.locate root → ¬ d.locate root ++ [block] <+: l →
    (s.next o d).view l = d.view l

/-- Two disks that an operation on a shard does not tell apart: the same lies in the directory of
the shard, and a file is in the way of the root on both disks or on neither. -/
structure Alike (top : Location) (block : Name) (d d' : Disk) : Prop where
  base : d'.base = d.base
  way : d'.Blocked top ↔ d.Blocked top
  below : ∀ l, top ++ [block] <+: l → d'.view l = d.view l

theorem Alike.refl (top : Location) (block : Name) (d : Disk) : Alike top block d d :=
  ⟨rfl, Iff.rfl, fun _ _ => rfl⟩

/-- A location in the directory of a shard is neither at nor above the root. -/
theorem not_isPrefix_of_below {l : Location} (hl : top ++ [block] <+: l) : ¬ l <+: top := by
  intro hle
  have hlength := (hl.trans hle).length_le
  rw [List.length_append, List.length_singleton] at hlength
  omega

/-- What is above something in the directory is in it, too, or at or above the root. -/
theorem above_or_below {l m : Location} (hm : top ++ [block] <+: m) (hl : l <+: m) :
    l <+: top ∨ top ++ [block] <+: l := by
  rcases List.prefix_or_prefix_of_prefix hl hm with habove | hbelow
  · rcases List.prefix_concat_iff.mp habove with rfl | htop
    · exact Or.inr (List.prefix_refl _)
    · exact Or.inl htop
  · exact Or.inr hbelow

/-- Nor is it in the directory of another shard. -/
theorem not_below_of_ne (hne : block' ≠ block) {l : Location} (hl : top ++ [block'] <+: l) :
    ¬ top ++ [block] <+: l := by
  intro hl'
  have heq : top ++ [block'] = top ++ [block] := (List.prefix_of_prefix_length_le hl hl'
    (by simp)).eq_of_length (by simp)
  exact hne (by simpa using heq)

namespace Alike

/-- Whether a file is in the way of anything in the directory of the shard is the same on both
disks. -/
theorem blocked_iff (h : Alike top block d d') {l : Location} (hl : top ++ [block] <+: l) :
    d'.Blocked l ↔ d.Blocked l := by
  have hway {d₁ d₂ : Disk} (hfile : d₁.Blocked top → d₂.Blocked top)
      (hbelow : ∀ m, top ++ [block] <+: m → d₂.view m = d₁.view m) :
      d₁.Blocked l → d₂.Blocked l := by
    intro hblocked
    obtain ⟨m, hm, b, hb⟩ := Disk.blocked_iff.mp hblocked
    rcases above_or_below hl hm with htop | hin
    · have hat := hfile (Disk.blocked_iff.mpr ⟨m, htop, b, hb⟩)
      exact hat.of_isPrefix ((List.prefix_append top [block]).trans hl)
    · exact Disk.blocked_iff.mpr ⟨m, hm, b, by rw [hbelow m hin, hb]⟩
  exact ⟨hway h.way.mp fun m hm => (h.below m hm).symm, hway h.way.mpr h.below⟩

end Alike

namespace Effect

variable {s s' : Store} {o o' : Operation} {e e' : Effect}

/-- An operation on one shard leaves a disk that operations on another one do not tell from the
disk before. -/
theorem Of.alike (h : e.Of root block s o d) (hne : block' ≠ block) :
    Alike (d.locate root) block' d (s.next o d) := by
  refine ⟨Action.run_base _ d, ?_, fun l hl => ?_⟩
  · by_cases hmakes : e.makesRoot
    · refine iff_of_false (fun hblocked => ?_) (h.free hmakes)
      obtain ⟨m, hm, b, hb⟩ := Disk.blocked_iff.mp hblocked
      rw [h.made hmakes m hm] at hb
      cases hb
    · rw [Disk.blocked_iff, Disk.blocked_iff]
      refine exists_congr fun m => and_congr_right fun hm => ?_
      rw [h.kept hmakes m hm]
  · exact h.other l (not_isPrefix_of_below hl) (not_below_of_ne hne hl)

/-- What lies at or above the root after two operations: directories if one of them makes the
root, and what was there before otherwise. -/
theorem Of.view_root (h : e.Of root block s o d) (h' : e'.Of root block' s' o' (s.next o d))
    {l : Location} (hl : l <+: d.locate root) :
    (e.makesRoot ∨ e'.makesRoot → (s'.next o' (s.next o d)).view l = some .dir) ∧
      (¬ (e.makesRoot ∨ e'.makesRoot) → (s'.next o' (s.next o d)).view l = d.view l) := by
  have hl' : l <+: (s.next o d).locate root := by rwa [s.next_locate]
  by_cases hmakes' : e'.makesRoot
  · exact ⟨fun _ => h'.made hmakes' l hl', fun hnot => absurd (Or.inr hmakes') hnot⟩
  · rw [h'.kept hmakes' l hl']
    constructor
    · rintro (hmakes | hmakes)
      · exact h.made hmakes l hl
      · exact absurd hmakes hmakes'
    · exact fun hnot => h.kept (fun hmakes => hnot (Or.inl hmakes)) l hl

/-- Effects on different shards commute. -/
theorem commute (hne : block ≠ block') (hd : d.Tree root)
    (h : ∀ d', Alike (d.locate root) block d d' → d'.Tree root → e.Of root block s o d')
    (h' : ∀ d', Alike (d.locate root) block' d d' → d'.Tree root → e'.Of root block' s' o' d') :
    s.reply o (s'.next o' d) = s.reply o d ∧ s'.reply o' (s.next o d) = s'.reply o' d ∧
      ∀ l, (s'.next o' (s.next o d)).view l = (s.next o (s'.next o' d)).view l := by
  have hfirst := h d (Alike.refl ..) hd
  have hfirst' := h' d (Alike.refl ..) hd
  have hsecond := h _ (hfirst'.alike hne) hfirst'.tree
  have hsecond' := h' _ (hfirst.alike hne.symm) hfirst.tree
  refine ⟨hsecond.reply.trans hfirst.reply.symm, hsecond'.reply.trans hfirst'.reply.symm, fun l => ?_⟩
  have hlocate : (s.next o d).locate root = d.locate root := s.next_locate d o root
  have hlocate' : (s'.next o' d).locate root = d.locate root := s'.next_locate d o' root
  by_cases hroot : l <+: d.locate root
  · obtain ⟨hmade, hkept⟩ := hfirst.view_root hsecond' hroot
    obtain ⟨hmade', hkept'⟩ := hfirst'.view_root hsecond hroot
    by_cases hmakes : e.makesRoot ∨ e'.makesRoot
    · rw [hmade hmakes, hmade' hmakes.symm]
    · rw [hkept hmakes, hkept' fun hmakes' => hmakes hmakes'.symm]
  · have hroot₁ : ¬ l <+: (s.next o d).locate root := by rwa [hlocate]
    have hroot₂ : ¬ l <+: (s'.next o' d).locate root := by rwa [hlocate']
    by_cases hbelow : d.locate root ++ [block] <+: l
    · -- the directory of the first shard is left as the first operation leaves it
      have hapart := not_below_of_ne hne hbelow
      rw [hsecond'.other l hroot₁ (by rwa [hlocate]), hfirst.below l hbelow,
        hsecond.below l (by rwa [hlocate'])]
    · by_cases hbelow' : d.locate root ++ [block'] <+: l
      · rw [hsecond'.below l (by rwa [hlocate]), hsecond.other l hroot₂ (by rwa [hlocate']),
          hfirst'.below l hbelow']
      · rw [hsecond'.other l hroot₁ (by rwa [hlocate]), hfirst.other l hroot hbelow,
          hsecond.other l hroot₂ (by rwa [hlocate']), hfirst'.other l hroot hbelow']

end Effect

/-! ## Roots and sites -/

/-- A root below which all paths of a sharded store can be followed, unless it holds a zero byte:
its names can stand in directories, and it is far shorter than a path may be. -/
structure ShortRoot (root : Path) : Prop where
  plain : root.Plain
  length_name_le : ∀ n ∈ root.names, n.length ≤ Disk.maxName
  length_le : root.bytes.length + 257 ≤ Disk.maxPath

/-- From the top of a disk such a root leaves room for the paths of objects. -/
theorem ShortRoot.root_empty (h : ShortRoot root) (hzero : 0 ∉ root.bytes) :
    Root root Disk.empty where
  plain := h.plain
  zero_not_mem := hzero
  length_name_le := h.length_name_le
  room := by
    have hlength := h.length_le
    have hbase : Disk.empty.baseLength = 0 := rfl
    rw [hbase]
    split_ifs <;> omega

section sites

variable {key : String} {atomic : Bool} {site : Site}
  (hsite : (sh.store root atomic).site key = .ok site)

include hsite

/-- A zero byte in the root is in all paths. -/
theorem zero_mem_site (hplain : root.Plain) (hzero : 0 ∈ root.bytes) :
    0 ∈ site.file.bytes ∧ 0 ∈ site.dir.bytes := by
  have hbelow := Store.below_of_site hplain hsite
  obtain ⟨n, hn, hzero⟩ := Path.zero_mem_bytes_iff.mp hzero
  rw [Path.zero_mem_bytes_iff, Path.zero_mem_bytes_iff, hbelow.dir_eq,
    hbelow.plain_file.names_above, hbelow.names_file, names_site hsite, shelf, ← List.append_assoc,
    List.dropLast_concat]
  exact ⟨⟨n, by simp [hn], hzero⟩, ⟨n, by simp [hn], hzero⟩⟩

/-- The site of a key can be used, and lies in the directory of its shard. -/
theorem usable_site (hroot : Root root Disk.empty) (hdepth : sh.depth ≠ 0) :
    site.Usable ∧ site.file.isAbsolute = root.isAbsolute ∧
      ∀ d : Disk, d.locate root ++ [sh.block key] <+: d.locate site.dir := by
  have hbelow := Store.below_of_site hroot.plain hsite
  obtain ⟨hfile, hslash⟩ := followable_file hroot hsite
  obtain ⟨rest, hrest⟩ := shelfDirs_eq_cons hdepth (sh.isDigest_digest key)
  have hne : root.names ++ sh.shelfDirs (sh.digest key) ≠ [] := by
    rw [hrest]
    simp
  have hroom := room_dir hroot hsite
  refine ⟨⟨hfile, hslash, followable_dir_of_ne hroot hsite hne, hbelow.dir_eq, by omega⟩,
    hbelow.isAbsolute_file, fun d => ?_⟩
  rw [locate_dir hroot hsite, hrest, List.prefix_append_right_inj, List.cons_prefix_cons]
  exact ⟨rfl, List.nil_prefix⟩

end sites

/-! ## The effects of operations -/

/-- An operation has one and the same effect on all disks that it does not tell from a given
one. -/
def HasEffect (root : Path) (block : Name) (s : Store) (o : Operation) (d : Disk) : Prop :=
  ∃ e : Effect, ∀ d', Alike (d.locate root) block d d' → d'.Tree root → e.Of root block s o d'

/-- An operation that answers the same on all of them, and leaves them as they are, has. -/
theorem HasEffect.of_next_eq {s : Store} {o : Operation} (r : Reply)
    (h : ∀ d', Alike (d.locate root) block d d' → d'.Tree root →
      s.reply o d' = r ∧ s.next o d' = d') : HasEffect root block s o d := by
  refine ⟨⟨r, False, d.view⟩, fun d' halike hd' => ?_⟩
  obtain ⟨hreply, hnext⟩ := h d' halike hd'
  refine ⟨hreply, ?_, False.elim, False.elim, fun _ l _ => ?_, fun l hl => ?_, fun l _ _ => ?_⟩
  · rwa [hnext]
  · rw [hnext]
  · rw [Disk.locate_of_base halike.base] at hl
    rw [hnext, halike.below l hl]
  · rw [hnext]

/-- The effect of a write that makes directories and then ends as told. -/
def Effect.writing (told : Except IoError Nat × Bool) (b : ByteArray) (dir file : Location)
    (view : Location → Option Entry) : Effect where
  reply := match told.1.mapError .io with
    | .ok n => .written n
    | .error e => .failed e
  makesRoot := True
  below l :=
    if l = file ∧ told.2 = true then some (.file b)
    else if l <+: dir then some .dir else view l

/-- What a write of a file in a directory of the shard has to do to have this effect. -/
theorem Effect.Of.writing {s : Store} {o : Operation} {told : Except IoError Nat × Bool}
    {b : ByteArray} {dir file : Location} {view : Location → Option Entry}
    (hdir : d.locate root ++ [block] <+: dir) (hfile : d.locate root ++ [block] <+: file)
    (hway : ¬ d.Blocked dir) (htree : (s.next o d).Tree root)
    (hreply : s.reply o d = (Effect.writing told b dir file view).reply)
    (hview : ∀ l, (s.next o d).view l = (Effect.writing told b dir file d.view).below l)
    (hbelow : ∀ l, d.locate root ++ [block] <+: l → d.view l = view l) :
    (Effect.writing told b dir file view).Of root block s o d := by
  have hroot : d.locate root <+: dir := (List.prefix_append ..).trans hdir
  have hne : ∀ l, ¬ d.locate root ++ [block] <+: l → l ≠ file := by
    rintro l hl rfl
    exact hl hfile
  simp only [Effect.writing] at hview
  refine ⟨hreply, htree, fun _ hblocked => hway (hblocked.of_isPrefix hroot), fun _ l hl => ?_,
    fun hmakes => absurd trivial hmakes, fun l hl => ?_, fun l hl hl' => ?_⟩
  · rw [hview, if_neg fun heq => hne l (fun hl' => not_isPrefix_of_below hl' hl) heq.1,
      if_pos (hl.trans hroot)]
  · rw [hview, hbelow l hl]
    rfl
  · rw [hview, if_neg fun heq => hne l hl' heq.1, if_neg fun hle => ?_]
    exact (above_or_below hdir hle).elim hl hl'

section operations

variable {key : String} {atomic : Bool} {site : Site}
  (hsite : (sh.store root atomic).site key = .ok site) (huse : site.Usable)
  (habs : site.file.isAbsolute = root.isAbsolute)
  (hbelow : ∀ d : Disk, d.locate root ++ [sh.block key] <+: d.locate site.dir)

include huse hbelow

theorem below_file (d : Disk) : d.locate root ++ [sh.block key] <+: d.locate site.file :=
  (hbelow d).trans (by rw [huse.reachable.locate_dir]; exact List.dropLast_prefix _)

include habs

/-- On disks that are alike an object's path leads to the same bytes. -/
theorem Alike.file?_eq (hd : d.Tree root) (h : Alike (d.locate root) (sh.block key) d d')
    (hd' : d'.Tree root) : d'.file? site.file = d.file? site.file := by
  apply Option.ext
  intro b
  rw [Disk.file?_eq_some_iff huse.file (hd'.of_isAbsolute habs) huse.slash,
    Disk.file?_eq_some_iff huse.file (hd.of_isAbsolute habs) huse.slash,
    Disk.locate_of_base h.base, h.below _ (below_file huse hbelow d)]

include hsite

theorem hasEffect_has (hd : d.Tree root) :
    HasEffect root (sh.block key) (sh.store root atomic) (.has key) d := by
  refine .of_next_eq (.present (d.file? site.file).isSome) fun d' h hd' =>
    ⟨?_, Store.next_has_eq ..⟩
  rw [Store.reply_has_of_reachable hsite huse.reachable (hd'.of_isAbsolute habs),
    Alike.file?_eq huse habs hbelow hd h hd']

theorem hasEffect_read (hd : d.Tree root) :
    HasEffect root (sh.block key) (sh.store root atomic) (.read key) d := by
  refine .of_next_eq ((sh.store root atomic).reply (.read key) d) fun d' h hd' =>
    ⟨?_, Store.next_read_eq ..⟩
  rw [Store.reply_read_of_reachable hsite huse.reachable (hd'.of_isAbsolute habs),
    Store.reply_read_of_reachable hsite huse.reachable (hd.of_isAbsolute habs),
    Alike.file?_eq huse habs hbelow hd h hd']

/-- A write is refused if a file is in the way of the object's directory. -/
theorem hasEffect_write_of_blocked (hblocked : d.Blocked (d.locate site.dir)) (source : Source) :
    HasEffect root (sh.block key) (sh.store root atomic) (.write key source) d := by
  refine .of_next_eq (.failed (.io (.system (d.obstacle (d.locate site.dir))))) fun d' h hd' => ?_
  have hlocate : d'.locate site.dir = d.locate site.dir := Disk.locate_of_base h.base _
  have hblocked' : d'.Blocked (d'.locate site.dir) := by
    rw [hlocate]
    exact (h.blocked_iff (hbelow d)).mpr hblocked
  have hobstacle : d'.obstacle (d'.locate site.dir) = d.obstacle (d.locate site.dir) := by
    rw [hlocate, Disk.obstacle, Disk.obstacle, h.below _ (hbelow d)]
  have hrun := Store.write_of_blocked hsite (hd'.of_isAbsolute habs) huse.reachable hblocked' source
  rw [Store.reply_write, Store.next_write, hrun, hobstacle]
  exact ⟨rfl, rfl⟩

/-- Otherwise it makes the root and the directories, and how it ends is told by what lies in the
directory of the object. -/
theorem hasEffect_write_of_way (hway : ¬ d.Blocked (d.locate site.dir))
    (deliveries : List Delivery) (failure : Option IoError) : HasEffect root (sh.block key)
      (sh.store root atomic) (.write key (.reader deliveries failure)) d := by
  have hin := below_file huse hbelow d
  obtain ⟨fits, hfits⟩ : ∃ fits : Bool, fits = true ↔ d.FitsTemp site.dir := by
    classical exact ⟨decide _, decide_eq_true_iff⟩
  obtain ⟨isDir, hplace⟩ :
      ∃ isDir : Bool, isDir = true ↔ d.view (d.locate site.file) = some .dir := by
    classical exact ⟨decide _, decide_eq_true_iff⟩
  let copied := (Source.reader deliveries failure).answer d
  refine ⟨.writing (Store.ending atomic fits isDir copied) (Source.collected deliveries)
    (d.locate site.dir) (d.locate site.file) d.view, fun d' h hd' => ?_⟩
  have hlocate : ∀ p, d'.locate p = d.locate p := Disk.locate_of_base h.base
  have hway' : ¬ d'.Blocked (d'.locate site.dir) := by
    rw [hlocate, h.blocked_iff (hbelow d)]
    exact hway
  have hfits' : fits = true ↔ d'.FitsTemp site.dir := by
    refine hfits.trans (Disk.fitsTemp_congr h.base fun n => ?_).symm
    rw [← Disk.view_eq_none, ← Disk.view_eq_none,
      h.below _ ((hbelow d).trans (List.prefix_append ..))]
  have hplace' : isDir = true ↔ d'.view (d'.locate site.file) = some .dir := by
    rw [hlocate, h.below _ hin]
    exact hplace
  have htree := hd'.of_isAbsolute habs
  obtain ⟨hanswer, hview⟩ :=
    Store.write_of_way hsite htree huse hway' hfits' hplace' deliveries failure
  rw [← Store.next_write] at hview
  have htree' := Store.tree_of_write htree huse hplace' (Store.next_unshared _ _ hd'.toUnshared)
    (Action.run_base _ d') hview
  rw [hlocate, hlocate] at hview
  refine .writing ?_ ?_ ?_ (htree'.of_isAbsolute habs.symm) ?_ hview ?_
  · rw [hlocate]
    exact hbelow d
  · rw [hlocate]
    exact hin
  · rwa [hlocate] at hway'
  · rw [Store.reply_write, hanswer]
    rfl
  · rw [hlocate]
    exact h.below

end operations

section deletions

variable {key : String} (hdepth : sh.depth ≠ 0) (hfollow : Disk.Followable (root.join ⟨sh.block key⟩))

include hdepth hfollow

/-- A deletion is refused if a file is in the way or in the place of the directory. -/
theorem hasEffect_delete_of_blocked (hslash : (root.join ⟨sh.block key⟩).endsInSlash = false)
    (hblocked : d.Blocked (d.locate root ++ [sh.block key])) (atomic : Bool) :
    HasEffect root (sh.block key) (sh.store root atomic) (.delete key) d := by
  have hentry := isEntryName_block key hdepth
  refine .of_next_eq (.failed (.io (.system .notDirectory))) fun d' h hd' => ?_
  have hrun : ((sh.store root atomic).delete key).run d' =
      (.error (.io (.system .notDirectory)), d') := by
    rw [run_delete_of_depth key hdepth root atomic d']
    refine Store.run_removing_of_blocked hfollow
      (hd'.of_isAbsolute (Path.isAbsolute_join hentry.isAbsolute_eq_false)) hslash ?_
    rw [Disk.locate_of_base h.base, Disk.locate_join hentry]
    exact (h.blocked_iff (List.prefix_refl _)).mpr hblocked
  rw [Store.reply_delete, Store.next_delete, hrun]
  exact ⟨rfl, rfl⟩

/-- Otherwise it removes the directory with all that lies in it. -/
theorem hasEffect_delete_of_way (hway : ¬ d.Blocked (d.locate root ++ [sh.block key]))
    (atomic : Bool) : HasEffect root (sh.block key) (sh.store root atomic) (.delete key) d := by
  have hentry := isEntryName_block key hdepth
  have habs : (root.join ⟨sh.block key⟩).isAbsolute = root.isAbsolute :=
    Path.isAbsolute_join hentry.isAbsolute_eq_false
  refine ⟨⟨.deleted, False, fun _ => none⟩, fun d' h hd' => ?_⟩
  have hlocate : d'.locate root = d.locate root := Disk.locate_of_base h.base _
  have hlocate' : d'.locate (root.join ⟨sh.block key⟩) = d.locate root ++ [sh.block key] := by
    rw [Disk.locate_join hentry, hlocate]
  have htree := hd'.of_isAbsolute habs
  have hway' : ¬ d'.Blocked (d'.locate (root.join ⟨sh.block key⟩)) := by
    rw [hlocate', h.blocked_iff (List.prefix_refl _)]
    exact hway
  obtain ⟨hok, hview⟩ := Store.view_removing_tree hfollow htree.closed (Disk.not_blocked.mp hway')
  rw [← run_delete_of_depth key hdepth root atomic d'] at hok hview
  rw [← Store.next_delete] at hview
  have htree' := Store.tree_of_removing hfollow htree (Store.next_unshared _ _ hd'.toUnshared)
    (Action.run_base _ d') hview
  simp only [hlocate'] at hview
  refine ⟨?_, htree'.of_isAbsolute habs.symm, False.elim, False.elim, fun _ l hl => ?_,
    fun l hl => ?_, fun l _ hl => ?_⟩
  · rw [Store.reply_delete, hok]
  · rw [hlocate] at hl
    rw [hview, if_neg fun hin => not_isPrefix_of_below hin hl]
  · rw [hlocate] at hl
    rw [hview, if_pos hl]
  · rw [hlocate] at hl
    rw [hview, if_neg hl]

end deletions

/-- With a zero byte in the root every operation on a key is refused. -/
theorem hasEffect_of_zero (hplain : root.Plain) (hzero : 0 ∈ root.bytes) (hdepth : sh.depth ≠ 0)
    {act : Act} {key : String} (hkey : act.key? = some key) (atomic : Bool) (d : Disk) :
    HasEffect root (sh.block key) (sh.store root atomic) act.operation d := by
  obtain ⟨site, hsite⟩ := exists_site sh root atomic key
  obtain ⟨hfile, hdir⟩ := zero_mem_site hsite hplain hzero
  have hzero' : 0 ∈ (root.join ⟨sh.block key⟩).bytes := by
    have hentry := isEntryName_block key hdepth
    by_contra hnot
    exact ((Path.zero_not_mem_join hentry.isAbsolute_eq_false).mp hnot).1 hzero
  refine .of_next_eq (.failed (.io .zeroByte)) fun d' _ _ => ?_
  refine Act.operation_of_key? (P := fun o => (sh.store root atomic).reply o d' =
    .failed (.io .zeroByte) ∧ (sh.store root atomic).next o d' = d') hkey ?has ?read ?write ?delete
  case has => exact ⟨Store.reply_has_of_zero hsite hfile d', Store.next_has_eq ..⟩
  case read => exact ⟨Store.reply_read_of_zero hsite hfile d', Store.next_read_eq ..⟩
  case write =>
    intro deliveries failure
    rw [Store.reply_write, Store.next_write, Store.run_write_of_zero hsite hdir]
    exact ⟨rfl, rfl⟩
  case delete =>
    rw [Store.reply_delete, Store.next_delete, run_delete_of_depth key hdepth root atomic d',
      Store.run_removing_of_zero hzero']
    exact ⟨rfl, rfl⟩

/-- Every operation on a key has an effect on the key's shard. -/
theorem hasEffect_of_key (hroot : ShortRoot root) (hdepth : sh.depth ≠ 0) (hd : d.Tree root)
    {act : Act} {key : String} (hkey : act.key? = some key) (atomic : Bool) :
    HasEffect root (sh.block key) (sh.store root atomic) act.operation d := by
  by_cases hzero : 0 ∈ root.bytes
  · exact hasEffect_of_zero hroot.plain hzero hdepth hkey atomic d
  have hroot' := hroot.root_empty hzero
  obtain ⟨site, hsite⟩ := exists_site sh root atomic key
  obtain ⟨huse, habs, hbelow⟩ := usable_site hsite hroot' hdepth
  refine Act.operation_of_key? (P := fun o =>
    HasEffect root (sh.block key) (sh.store root atomic) o d) hkey ?has ?read ?write ?delete
  case has => exact hasEffect_has hsite huse habs hbelow hd
  case read => exact hasEffect_read hsite huse habs hbelow hd
  case write =>
    intro deliveries failure
    by_cases hblocked : d.Blocked (d.locate site.dir)
    · exact hasEffect_write_of_blocked hsite huse habs hbelow hblocked _
    · exact hasEffect_write_of_way hsite huse habs hbelow hblocked deliveries failure
  case delete =>
    obtain ⟨hfollow, hslash⟩ := followable_block key hdepth hroot'
    by_cases hblocked : d.Blocked (d.locate root ++ [sh.block key])
    · exact hasEffect_delete_of_blocked hdepth hfollow hslash hblocked atomic
    · exact hasEffect_delete_of_way hdepth hfollow hblocked atomic

/-! ## Independence -/

/-- Two operations on different shards can be done in either order, on any tree: each answers the
same, and the same is left. -/
theorem shards_independent (sh : Sharding) (hblock : sh.blockSize ≤ sh.algorithm.hexLength)
    {root : Path} (hroot : ShortRoot root) {d : Disk} (hd : d.Tree root) (atomic atomic' : Bool)
    {act act' : Act} {key key' : String} (hkey : act.key? = some key)
    (hkey' : act'.key? = some key')
    (hne : (sh.digest key).take sh.blockSize ≠ (sh.digest key').take sh.blockSize) :
    let s := sh.store root atomic
    let s' := sh.store root atomic'
    s.reply act.operation (s'.next act'.operation d) = s.reply act.operation d ∧
      s'.reply act'.operation (s.next act.operation d) = s'.reply act'.operation d ∧
      ∀ l, (s'.next act'.operation (s.next act.operation d)).view l =
        (s.next act.operation (s'.next act'.operation d)).view l := by
  intro s s'
  have hdepth : sh.depth ≠ 0 := by
    rw [depth]
    exact (Nat.div_pos hblock sh.blockSize_pos).ne'
  have hne' : sh.block key ≠ sh.block key' := fun heq => hne (Text.encode_injective heq)
  obtain ⟨e, he⟩ := hasEffect_of_key hroot hdepth hd hkey atomic
  obtain ⟨e', he'⟩ := hasEffect_of_key hroot hdepth hd hkey' atomic'
  exact Effect.commute hne' hd he he'

/-- A plain write that fails half-way and an atomic write that succeeds, in a store that is new, so
that whichever comes first makes the root. -/
theorem shards_independent_writes :
    let root : Path := ⟨[0x73]⟩
    let s := standard.store root false
    let s' := standard.store root true
    let act : Act := .write "a" [.bytes ⟨#[1]⟩] (some (.custom "cut off"))
    let act' : Act := .writeBytes "b" ⟨#[2]⟩
    standard.blockSize ≤ standard.algorithm.hexLength ∧ ShortRoot root ∧ Disk.empty.Tree root ∧
      act.key? = some "a" ∧ act'.key? = some "b" ∧
      (standard.digest "a").take standard.blockSize ≠
        (standard.digest "b").take standard.blockSize ∧
      (s.reply act.operation Disk.empty).isFailed = true ∧
      (s'.reply act'.operation Disk.empty).isFailed = false ∧
      s.reply act.operation (s'.next act'.operation Disk.empty) =
        s.reply act.operation Disk.empty ∧
      s'.reply act'.operation (s.next act.operation Disk.empty) =
        s'.reply act'.operation Disk.empty ∧
      ∀ l, (s'.next act'.operation (s.next act.operation Disk.empty)).view l =
        (s.next act.operation (s'.next act'.operation Disk.empty)).view l := by
  intro root s s' act act'
  have hblock : standard.blockSize ≤ standard.algorithm.hexLength := by decide
  have hroot : ShortRoot root := ⟨⟨by decide, by decide⟩, by decide, by decide⟩
  have htree : Disk.empty.Tree root := Disk.wellFormed_empty.tree root
  have hkey : act.key? = some "a" := rfl
  have hkey' : act'.key? = some "b" := rfl
  have hne : (standard.digest "a").take standard.blockSize ≠
      (standard.digest "b").take standard.blockSize := by decide +kernel
  have hfailed : (s.reply act.operation Disk.empty).isFailed = true := by
    unfold s act root
    decide +kernel
  have hwritten : (s'.reply act'.operation Disk.empty).isFailed = false := by
    unfold s' act' root
    decide +kernel
  exact ⟨hblock, hroot, htree, hkey, hkey', hne, hfailed, hwritten,
    shards_independent standard hblock hroot htree false true hkey hkey' hne⟩

end BlobStore.Sharding
