import BlobStore.Proofs.Sharding.Catalog

/-!
# What lies below the root of a sharded store

`Shelved` ties a disk to a catalog.  Below the root there are directories on the way to
shelves and files on shelves, nothing else, and the file on a shelf holds the bytes that
the catalog has for its digest.  Since directories lie higher than all files, a new
directory is never in the way of a file.

Two changes keep it, and all operations come down to them: a shelf gets its directories and
possibly its file (`Shelved.grow`), and things are removed with all below them
(`Shelved.cut`).
-/

namespace BlobStore.Sharding

variable {sh : Sharding} {root : Path} {m : Catalog} {d d' : Disk} {h : List Char}

/-- A disk on which the objects of a catalog lie below a root, each on its shelf. -/
structure Shelved (sh : Sharding) (root : Path) (m : Catalog) (d : Disk) : Prop where
  wellFormed : d.WellFormed
  /-- relative paths do not begin below the root -/
  base : ¬ d.locate root <+: d.base
  /-- no file is where the root is or above it -/
  way : ∀ l, l <+: d.locate root → ∀ i, d.node? l ≠ some (.file i)
  dirs : ∀ l, d.view (d.locate root ++ l) = some .dir → ∃ h, sh.IsDigest h ∧ l <+: sh.shelfDirs h
  files : ∀ l b, d.view (d.locate root ++ l) = some (.file b) → ∃ h, sh.IsDigest h ∧ l = sh.shelf h
  objects : ∀ h, sh.IsDigest h → d.view (d.locate root ++ sh.shelf h) = (m h).map .file

/-- The directories of one digest are not above the file of another one, nor the other way
round. -/
theorem not_shelf_isPrefix_shelfDirs {h' : List Char} (hh : sh.IsDigest h) (hh' : sh.IsDigest h') :
    ¬ sh.shelf h <+: sh.shelfDirs h' := by
  intro hle
  have hlength := hle.length_le
  rw [hh.length_shelf, hh'.length_shelfDirs] at hlength
  omega

/-- At first nothing is where the root will be. -/
theorem shelved_empty (hd : d.WellFormed) (habsent : d.node? (d.locate root) = none)
    (hway : ∀ l, l <+: d.locate root → ∀ i, d.node? l ≠ some (.file i)) :
    Shelved sh root (fun _ => none) d := by
  have hnone (l : List Name) : d.view (d.locate root ++ l) = none :=
    hd.closed.none_of_none (List.prefix_append ..) (Disk.view_eq_none.mpr habsent)
  refine ⟨hd, fun hbase => ?_, hway, fun l hl => ?_, fun l b hl => ?_, fun h _ => hnone _⟩
  · have hdir := Disk.dirs_of_dir hd.closed hd.base_dir hbase
    rw [habsent] at hdir
    exact absurd hdir (by simp)
  · rw [hnone] at hl
    exact absurd hl (by simp)
  · rw [hnone] at hl
    exact absurd hl (by simp)

namespace Shelved

theorem congr (hs : Shelved sh root m d) {m' : Catalog} (hm : ∀ h, sh.IsDigest h → m' h = m h) :
    Shelved sh root m' d :=
  ⟨hs.wellFormed, hs.base, hs.way, hs.dirs, hs.files, fun h hh => by rw [hm h hh, hs.objects h hh]⟩

/-- No directory is where a file belongs. -/
theorem view_shelf_ne_dir (hs : Shelved sh root m d) (hh : sh.IsDigest h) :
    d.view (d.locate root ++ sh.shelf h) ≠ some .dir := by
  rw [hs.objects h hh]
  cases m h <;> simp

/-- No file is where a directory belongs, or above. -/
theorem way_shelfDirs (hs : Shelved sh root m d) (hh : sh.IsDigest h) {l : Location}
    (hl : l <+: d.locate root ++ sh.shelfDirs h) (i : Nat) : d.node? l ≠ some (.file i) := by
  intro hfile
  rcases List.prefix_or_prefix_of_prefix hl (List.prefix_append (d.locate root) _) with hle | hle
  · exact hs.way l hle i hfile
  · obtain ⟨rest, rfl⟩ := hle
    rw [List.prefix_append_right_inj] at hl
    obtain ⟨h', hh', rfl⟩ := hs.files rest _ (Disk.view_of_file hfile)
    exact not_shelf_isPrefix_shelfDirs hh' hh hl

/-- A name that is on no shelf is not used. -/
theorem view_of_not_mem_shelf (hs : Shelved sh root m d) {l : List Name} {n : Name}
    (hn : ∀ h, sh.IsDigest h → n ∉ sh.shelf h) (hl : n ∈ l) : d.view (d.locate root ++ l) = none := by
  cases hview : d.view (d.locate root ++ l) with
  | none => rfl
  | some entry =>
    cases entry with
    | dir =>
      obtain ⟨h, hh, hle⟩ := hs.dirs l hview
      exact absurd (List.mem_append_left _ (hle.subset hl)) (hn h hh)
    | file b =>
      obtain ⟨h, hh, rfl⟩ := hs.files l b hview
      exact absurd hl (hn h hh)

section grow

variable (hs : Shelved sh root m d) (hh : sh.IsDigest h) {stored : Prop} [Decidable stored]
  {b : ByteArray} (hd' : d'.Unshared) (hbase : d'.base = d.base)
  (hview : ∀ l, d'.view l =
    if l = d.locate root ++ sh.shelf h ∧ stored then some (.file b)
    else if l <+: d.locate root ++ sh.shelfDirs h then some .dir else d.view l)

include hs hh hd' hbase hview

/-- When a shelf gets its directories and, under a condition, its file, the disk is still a
tree. -/
theorem wellFormed_grow : d'.WellFormed := by
  refine ⟨hd', fun l n hl => ?_, ?_⟩
  · rw [hview] at hl ⊢
    by_cases hway : l <+: d.locate root ++ sh.shelfDirs h
    · rw [if_neg, if_pos hway]
      rintro ⟨rfl, -⟩
      rw [List.prefix_append_right_inj] at hway
      exact not_shelf_isPrefix_shelfDirs hh hh hway
    · -- what lies in `l` is not new, for then `l` would be on the way
      have hdir : d.view l = some .dir := by
        apply hs.wellFormed.closed l n
        split_ifs at hl with hfile habove
        · have heq : l = d.locate root ++ sh.shelfDirs h := by
            rw [shelf, ← List.append_assoc] at hfile
            exact (List.append_inj' hfile.1 rfl).1
          exact absurd (heq ▸ List.prefix_refl _) hway
        · exact absurd ((List.prefix_append ..).trans habove) hway
        · exact hl
      rw [if_neg, if_neg hway, hdir]
      rintro ⟨rfl, -⟩
      exact hs.view_shelf_ne_dir hh hdir
  · have hne : d.base ≠ d.locate root ++ sh.shelf h := fun heq =>
      hs.base (heq ▸ List.prefix_append ..)
    rw [hbase, hview, if_neg fun hfile => hne hfile.1]
    split_ifs
    · rfl
    · exact hs.wellFormed.base_dir

/-- A shelf that gets its directories and, under a condition, its file holds the bytes of this
file. -/
theorem grow : Shelved sh root (if stored then m.put h b else m) d' := by
  have hlocate : d'.locate root = d.locate root := Disk.locate_of_base hbase root
  have hapart {x : List Char} (hx : sh.IsDigest x) :
      ¬ d.locate root ++ sh.shelf x <+: d.locate root ++ sh.shelfDirs h := by
    rw [List.prefix_append_right_inj]
    exact not_shelf_isPrefix_shelfDirs hx hh
  constructor
  · exact hs.wellFormed_grow hh hd' hbase hview
  · rw [hlocate, hbase]
    exact hs.base
  · intro l hl i hfile
    rw [hlocate] at hl
    have hfile' := Disk.view_of_file hfile
    rw [hview, if_neg, if_pos (hl.trans (List.prefix_append ..))] at hfile'
    · exact absurd hfile' (by simp)
    · rintro ⟨rfl, -⟩
      exact hapart hh (hl.trans (List.prefix_append ..))
  · intro l hl
    rw [hlocate, hview] at hl
    split_ifs at hl with hfile hway
    · exact absurd hl (by simp)
    · rw [List.prefix_append_right_inj] at hway
      exact ⟨h, hh, hway⟩
    · exact hs.dirs l hl
  · intro l b' hl
    rw [hlocate, hview] at hl
    split_ifs at hl with hfile hway
    · exact ⟨h, hh, List.append_cancel_left hfile.1⟩
    · exact absurd hl (by simp)
    · exact hs.files l b' hl
  · intro x hx
    rw [hlocate, hview, if_neg (hapart hx), hs.objects x hx]
    simp only [List.append_cancel_left_eq]
    -- other digests have other shelves
    by_cases hstored : stored
    · by_cases hxh : x = h
      · subst hxh
        simp [hstored, Catalog.put]
      · simp [hstored, Catalog.put, hxh, shelf_injective.ne hxh]
    · simp [hstored]

end grow

/-- With something below the root all is removed that lies below it. -/
theorem cut (hs : Shelved sh root m d) {gone : Location → Prop} [DecidablePred gone]
    (hdown : ∀ l l', gone l → l <+: l' → gone l') (hunder : ∀ l, gone l → d.locate root <+: l)
    (hd' : d'.Unshared) (hbase : d'.base = d.base)
    (hview : ∀ l, d'.view l = if gone l then none else d.view l) :
    Shelved sh root (fun x => if gone (d.locate root ++ sh.shelf x) then none else m x) d' := by
  have hlocate : d'.locate root = d.locate root := Disk.locate_of_base hbase root
  have hkept {l : Location} {e : Entry} (hl : d'.view l = some e) : d.view l = some e := by
    rw [hview] at hl
    split_ifs at hl
    exact hl
  constructor
  · refine ⟨hd', fun l n hl => ?_, ?_⟩
    · rw [hview] at hl
      split_ifs at hl with hgone
      · exact absurd rfl hl
      · rw [hview, if_neg fun habove => hgone (hdown _ _ habove (List.prefix_append ..))]
        exact hs.wellFormed.closed l n hl
    · rw [hbase, hview, if_neg fun hgone => hs.base (hunder _ hgone)]
      exact hs.wellFormed.base_dir
  · rw [hlocate, hbase]
    exact hs.base
  · intro l hl i hfile
    obtain ⟨j, hj, -⟩ := Disk.view_eq_file.mp (hkept (Disk.view_of_file hfile))
    exact hs.way l (hlocate ▸ hl) j hj
  · intro l hl
    exact hs.dirs l (hlocate ▸ hkept hl)
  · intro l b hl
    exact hs.files l b (hlocate ▸ hkept hl)
  · intro x hx
    rw [hlocate, hview, hs.objects x hx]
    split_ifs <;> rfl

end Shelved

end BlobStore.Sharding
