import BlobStore.Proofs.Disk.Reach
import BlobStore.Store.Objects

/-!
# Removing

A removal that finds nothing succeeds, so with no file in the way and nothing unexpected at
the path it always succeeds, and what lay at or below the path's location is gone
(`view_removing_tree`, `view_removing_file`).
-/

namespace BlobStore.Store

theorem run_removing (r : Request) (d : Disk) :
    (removing r).run d = (match (d.perform r).1 with
      | .ok _ => .ok ()
      | .error e => if e.isNotFound then .ok () else .error (.io e), (d.perform r).2) := by
  rw [removing, Action.run_bind, Action.run_attempt]
  dsimp only
  cases (d.perform r).1 with
  | ok a => rfl
  | error e => cases hfound : e.isNotFound <;> simp [hfound]

/-- A removal fails as the request does, unless nothing was found. -/
theorem run_removing_of_error {r : Request} {d : Disk} {e : IoError}
    (h : d.perform r = (.error e, d)) (hfound : e.isNotFound = false) :
    (removing r).run d = (.error (.io e), d) := by
  rw [run_removing, h]
  simp [hfound]

theorem run_removing_of_missing {r : Request} {d : Disk}
    (h : d.perform r = (.error (.system .noEntry), d)) : (removing r).run d = (.ok (), d) := by
  rw [run_removing, h]
  rfl

/-- A deletion removes a directory or, if the placement has none, a file. -/
theorem delete_eq {s : Store} {key : String} {site : Site} (hsite : s.site key = .ok site) :
    s.delete key = if site.placement.firstSegment.isEmpty then removing (.unlink site.file)
      else removing (.removeTree (s.root.join (Path.ofString site.placement.firstSegment))) := by
  rw [delete, hsite]
  rfl

/-- Removing the tree at a plain path removes entries at or below its location, and that
only if there is a directory. -/
theorem view_removeTree {p : Path} (hp : p.Plain) (d : Disk) (l : Location) :
    (d.removeTree p).2.view l = d.view l ∨ d.locate p <+: l ∧ (d.removeTree p).2.view l = none ∧
      d.view (d.locate p) = some .dir := by
  rcases d.removeTree_cases p with heq | ⟨m, hm, hcase⟩
  · rw [heq]
    exact Or.inl rfl
  · obtain ⟨rfl, hdir⟩ := hm hp
    rcases hcase with heq | ⟨hne, heq⟩
    · rw [heq, Disk.view_eraseBelow]
      split_ifs with hl
      · exact Or.inr ⟨hl.1, rfl, Disk.view_eq_dir.mpr hdir⟩
      · exact Or.inl rfl
    · rw [heq, Disk.view_erase (hne hp), Disk.view_eraseBelow]
      split_ifs with hl hl'
      · exact Or.inr ⟨hl ▸ List.prefix_refl _, rfl, Disk.view_eq_dir.mpr hdir⟩
      · exact Or.inr ⟨hl'.1, rfl, Disk.view_eq_dir.mpr hdir⟩
      · exact Or.inl rfl

/-! ## Success -/

variable {d : Disk} {p : Path}

/-- A directory, or nothing, is removed with all that is in it. -/
theorem view_removing_tree (hp : Disk.Followable p) (hclosed : Closed d.view)
    (hway : ∀ m, m <+: d.locate p → ∀ i, d.node? m ≠ some (.file i)) :
    ((removing (.removeTree p)).run d).1 = .ok () ∧
      ∀ l, ((removing (.removeTree p)).run d).2.view l =
        if d.locate p <+: l then none else d.view l := by
  rw [run_removing]
  simp only [Disk.perform]
  cases hnode : d.node? (d.locate p) with
  | none =>
    rw [Disk.removeTree_of_missing hp (fun m hm => hway m (hm.trans (List.dropLast_prefix _))) hnode]
    refine ⟨rfl, fun l => ?_⟩
    dsimp only
    split_ifs with hl
    · exact hclosed.none_of_none hl (Disk.view_eq_none.mpr hnode)
    · rfl
  | some node =>
    cases node with
    | file i => exact absurd hnode (hway _ (List.prefix_refl _) i)
    | dir =>
      have hdirs (m : Location) (hm : m <+: (d.locate p).dropLast) : d.node? m = some .dir :=
        Disk.dirs_of_dir hclosed (Disk.view_eq_dir.mpr hnode) (hm.trans (List.dropLast_prefix _))
      rw [Disk.removeTree_of_dir hp hdirs hnode]
      refine ⟨rfl, fun l => ?_⟩
      dsimp only
      -- what is below goes first, then the directory
      rw [Disk.view_erase (hp.locate_ne_nil d), Disk.view_eraseBelow]
      by_cases heq : l = d.locate p
      · rw [if_pos heq, if_pos (heq ▸ List.prefix_refl _)]
      · rw [if_neg heq]
        simp only [heq, ne_eq, not_false_eq_true, and_true]

/-- At a path that ends in a dot all that is in the directory is removed, but the directory
is not, so that this fails if there is one. -/
theorem view_removing_of_not_trimmed (hp : p.Plain) (haccepted : p.Accepted)
    (hdot : ¬ p.Trimmed) (hne : p.names ≠ []) (hclosed : Closed d.view)
    (hway : ∀ m, m <+: d.locate p → ∀ i, d.node? m ≠ some (.file i)) :
    (((removing (.removeTree p)).run d).1 = .ok () ∨
        ((removing (.removeTree p)).run d).1 = .error (.io (.system .invalid))) ∧
      ∀ l, ((removing (.removeTree p)).run d).2.view l =
        if d.locate p <+: l ∧ l ≠ d.locate p then none else d.view l := by
  rw [run_removing]
  simp only [Disk.perform]
  cases hnode : d.node? (d.locate p) with
  | none =>
    rw [Disk.removeTree_of_not_trimmed_of_missing hp haccepted hdot hne hway hnode]
    refine ⟨Or.inl rfl, fun l => ?_⟩
    dsimp only
    split_ifs with hl
    · exact hclosed.none_of_none hl.1 (Disk.view_eq_none.mpr hnode)
    · rfl
  | some node =>
    cases node with
    | file i => exact absurd hnode (hway _ (List.prefix_refl _) i)
    | dir =>
      have hdirs (m : Location) (hm : m <+: d.locate p) : d.node? m = some .dir :=
        Disk.dirs_of_dir hclosed (Disk.view_eq_dir.mpr hnode) hm
      rw [Disk.removeTree_of_not_trimmed hp haccepted hdot hdirs]
      exact ⟨Or.inr rfl, fun l => Disk.view_eraseBelow ..⟩

/-- A file, or nothing, is removed. -/
theorem view_removing_file (hp : Disk.Followable p) (hslash : p.endsInSlash = false)
    (hclosed : Closed d.view)
    (hway : ∀ m, m <+: (d.locate p).dropLast → ∀ i, d.node? m ≠ some (.file i))
    (hplace : d.node? (d.locate p) ≠ some .dir) :
    ((removing (.unlink p)).run d).1 = .ok () ∧
      ∀ l, ((removing (.unlink p)).run d).2.view l =
        if d.locate p <+: l then none else d.view l := by
  have hbelow (l : Location) (hl : d.locate p <+: l) (hne : l ≠ d.locate p) : d.view l = none :=
    hclosed.none_of_prefix hl hne.symm fun h => hplace (Disk.view_eq_dir.mp h)
  rw [run_removing]
  simp only [Disk.perform]
  cases hnode : d.node? (d.locate p) with
  | none =>
    rw [Disk.unlink_of_missing hp hway hnode]
    refine ⟨rfl, fun l => ?_⟩
    dsimp only [Disk.changing]
    split_ifs with hl
    · by_cases heq : l = d.locate p
      · rw [heq, Disk.view_eq_none.mpr hnode]
      · exact hbelow l hl heq
    · rfl
  | some node =>
    cases node with
    | dir => exact absurd hnode hplace
    | file i =>
      have hdirs (m : Location) (hm : m <+: (d.locate p).dropLast) : d.node? m = some .dir := by
        refine Disk.view_eq_dir.mp
          (hclosed.dir_of_prefix (hm.trans (List.dropLast_prefix _)) ?_ (by simp [Disk.view_of_file hnode]))
        rintro rfl
        exact hp.locate_not_isPrefix d hm
      rw [(Disk.leads_of_dirs hp hslash hdirs).unlink_eq hnode]
      refine ⟨rfl, fun l => ?_⟩
      dsimp only [Disk.changing]
      rw [Disk.view_erase (hp.locate_ne_nil d)]
      by_cases heq : l = d.locate p
      · rw [if_pos heq, if_pos (heq ▸ List.prefix_refl _)]
      · rw [if_neg heq]
        split_ifs with hl
        · exact hbelow l hl heq
        · rfl

end BlobStore.Store
