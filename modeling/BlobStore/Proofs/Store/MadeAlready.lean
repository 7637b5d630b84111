import BlobStore.Proofs.Disk.AnyPath
import BlobStore.Proofs.Path.Parent
import BlobStore.Proofs.Store.Directories

/-!
# Directories that are there already

Making directories ends with a path that leads to a directory (`kind_makeFirst`), and where a path
leads to a directory there is nothing to make (`run_makeDirs_of_kind`).  The path need not be plain,
so it is known by what it leads to, and not by a location.

Above a file there always is such a directory: whoever finds the file has been there
(`run_makeDirs_parent?`).
-/

namespace BlobStore

namespace Disk

variable {d d' : Disk} {p : Path}

/-- A path leads to a directory if it can be followed and does not end in the name of anything
else. -/
theorem kind_eq_dir : d.kind p = .ok .dir ↔ ∃ t, d.target p = .ok t ∧
    ∀ n, t.last = .name n → n.length ≤ maxName ∧ d.node? (t.dir ++ [n]) = some .dir := by
  unfold kind resolve
  cases d.target p with
  | error e => simp [bind, Except.bind]
  | ok t =>
    obtain ⟨dir, last, slash⟩ := t
    cases last with
    | top => simp [bind, Except.bind, pure, Except.pure]
    | here => simp [bind, Except.bind, pure, Except.pure]
    | up => simp [bind, Except.bind, pure, Except.pure]
    | name n =>
      by_cases hlong : maxName < n.length
      · simp [find, hlong, bind, Except.bind, not_le.mpr hlong]
      · have hshort : n.length ≤ maxName := Nat.le_of_not_lt hlong
        cases hnode : d.node? (dir ++ [n]) with
        | none => simp [d.find_of_length_le dir hshort, hnode, bind, Except.bind, throw]
        | some node => cases node <;> cases slash <;>
            simp [d.find_of_length_le dir hshort, hnode, hshort, bind, Except.bind, pure, Except.pure]

/-- Where nothing is removed, a path to a directory still leads to one. -/
theorem kind_dir_mono (hbase : d'.base = d.base)
    (hdirs : ∀ l, d.node? l = some .dir → d'.node? l = some .dir) (h : d.kind p = .ok .dir) :
    d'.kind p = .ok .dir := by
  obtain ⟨t, htarget, hlast⟩ := kind_eq_dir.mp h
  refine kind_eq_dir.mpr ⟨t, target_mono hbase hdirs htarget, fun n hn => ?_⟩
  exact ⟨(hlast n hn).1, hdirs _ (hlast n hn).2⟩

/-- A directory that is there cannot be made. -/
theorem makeDir_of_kind (h : d.kind p = .ok .dir) : d.makeDir p = .error (.system .taken) := by
  obtain ⟨⟨dir, last, slash⟩, htarget, hlast⟩ := kind_eq_dir.mp h
  rw [makeDir, htarget]
  cases last with
  | name n =>
    obtain ⟨hshort, hnode⟩ := hlast n rfl
    simp only [d.find_of_length_le dir hshort, hnode, bind, Except.bind]
    rfl
  | _ => rfl

/-- A directory that has been made is there. -/
theorem kind_of_makeDir (h : d.makeDir p = .ok d') : d'.kind p = .ok .dir := by
  obtain ⟨⟨dir, last, slash⟩, htarget, hmake⟩ := exists_of_bind_eq_ok h
  cases last with
  | name n =>
    obtain ⟨o, hfind, hmake⟩ := exists_of_bind_eq_ok hmake
    obtain ⟨hnode, hshort⟩ := find_eq_ok hfind
    cases o with
    | some node => cases hmake
    | none =>
      obtain rfl := Except.ok.inj hmake
      have hne : dir ++ [n] ≠ [] := by simp
      have hbase : (d.insert (dir ++ [n]) .dir).base = d.base := rfl
      have hdirs (l : Location) (hl : d.node? l = some .dir) :
          (d.insert (dir ++ [n]) .dir).node? l = some .dir := node?_insert_of_some hne hnode hl
      refine kind_eq_dir.mpr ⟨⟨dir, .name n, slash⟩, target_mono hbase hdirs htarget, ?_⟩
      rintro _ ⟨⟩
      exact ⟨hshort, by rw [node?_insert hne, if_pos rfl]⟩
  | _ => cases hmake

end Disk

/-! ## Making directories again -/

section makingDirectories

variable {d d' : Disk} {p : Path} {above : List Path}

theorem kind_makeDir (h : (makeDir p).run d = (.ok (), d')) : d'.kind p = .ok .dir := by
  rw [run_makeDir] at h
  cases hmake : d.makeDir p with
  | ok d₁ =>
    rw [hmake] at h
    obtain rfl : d₁ = d' := (Prod.mk.inj h).2
    exact Disk.kind_of_makeDir hmake
  | error e =>
    simp only [hmake] at h
    split_ifs at h with hkind
    · exact (Prod.mk.inj h).2 ▸ hkind
    · cases h

/-- When directories have been made, their path leads to a directory. -/
theorem kind_makeFirst (hp : p.bytes ≠ []) (h : (makeFirst (p :: above)).run d = (.ok (), d')) :
    d'.kind p = .ok .dir := by
  rw [run_makeFirst_cons hp] at h
  cases hmake : d.makeDir p with
  | ok d₁ =>
    rw [hmake] at h
    obtain rfl : d₁ = d' := (Prod.mk.inj h).2
    exact Disk.kind_of_makeDir hmake
  | error e =>
    simp only [hmake] at h
    split at h
    · next heq => cases heq
    · -- the last step is to make the directory itself
      obtain ⟨-, d₁, -, hlast⟩ := Action.run_bind_eq_ok.mp h
      exact kind_makeDir hlast
    · split_ifs at h with hkind
      · exact (Prod.mk.inj h).2 ▸ hkind
      · cases h

/-- Nothing has to be made where a directory is. -/
theorem run_makeFirst_of_kind (hp : p.bytes ≠ []) (h : d.kind p = .ok .dir) (above : List Path) :
    (makeFirst (p :: above)).run d = (.ok (), d) := by
  rw [run_makeFirst_cons hp, Disk.makeDir_of_kind h]
  dsimp only
  rw [if_pos h]

theorem makeDirs_eq (p : Path) : ∃ above, makeDirs p = makeFirst (p :: above) := by
  rw [makeDirs, Path.ancestors, Path.ancestorsWithin]
  exact ⟨_, rfl⟩

theorem run_makeDirs_of_kind (h : p.bytes ≠ [] → d.kind p = .ok .dir) :
    (makeDirs p).run d = (.ok (), d) := by
  obtain ⟨above, habove⟩ := makeDirs_eq p
  rw [habove]
  by_cases hempty : p.bytes = []
  · rw [makeFirst, if_pos (by simp [Path.isEmpty, hempty])]
    rfl
  · exact run_makeFirst_of_kind hempty (h hempty) above

/-- Directories that have been made need not be made again, as long as no directory goes. -/
theorem run_makeDirs_of_run {d'' : Disk} (h : (makeDirs p).run d = (.ok (), d'))
    (hbase : d''.base = d'.base)
    (hdirs : ∀ l, d'.node? l = some .dir → d''.node? l = some .dir) :
    (makeDirs p).run d'' = (.ok (), d'') := by
  obtain ⟨above, habove⟩ := makeDirs_eq p
  rw [habove] at h
  exact run_makeDirs_of_kind fun hne => Disk.kind_dir_mono hbase hdirs (kind_makeFirst hne h)

end makingDirectories

/-! ## Above what is found -/

/-- The directory above anything that is found need not be made. -/
theorem run_makeDirs_parent? {d : Disk} {p above : Path} {found : Location × Node}
    (habove : p.parent? = some above) (h : d.resolve p = .ok found) :
    (makeDirs above).run d = (.ok (), d) := by
  refine run_makeDirs_of_kind fun hne => ?_
  obtain ⟨after, hafter, hpieces⟩ := Path.exists_pieces_parent? habove
  obtain ⟨l, hl⟩ := Disk.resolve_of_pieces hne (Path.isPrefix_parent? habove) hafter hpieces h
  rw [Disk.kind, hl]
  rfl

end BlobStore
