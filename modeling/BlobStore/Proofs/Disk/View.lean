import BlobStore.Disk.Lemmas
import Mathlib.Data.List.Infix
import Mathlib.Tactic.Common

/-!
# What a disk looks like

`Disk.view` shows directories and the bytes of files without the numbers of the files.
A change of one name or of one file is a change of the view at one location, provided
that no file has two names and every file's bytes are kept (`Disk.Unshared`): writing to
a file with two names would show at both.

Every change keeps `Unshared`.  A disk is a tree (`Disk.WellFormed`) if, moreover,
whatever lies on it lies in a directory.
-/

namespace BlobStore

/-- In a closed view every entry lies in a directory. -/
def Closed (v : Location → Option Entry) : Prop :=
  ∀ l n, v (l ++ [n]) ≠ none → v l = some .dir

/-- All entries above an entry are directories. -/
theorem Closed.dir_of_prefix {v : Location → Option Entry} (hv : Closed v) {l m : Location}
    (hlm : l <+: m) (hne : l ≠ m) (hm : v m ≠ none) : v l = some .dir := by
  obtain ⟨rest, rfl⟩ := hlm
  induction rest using List.reverseRecOn with
  | nil => exact absurd (List.append_nil l).symm hne
  | append_singleton rest n ih =>
    rw [← List.append_assoc] at hm
    have hdir : v (l ++ rest) = some .dir := hv _ n hm
    by_cases hrest : rest = []
    · rw [hrest, List.append_nil] at hdir
      exact hdir
    · exact ih (by simpa using hrest) (by simp [hdir])

/-- Below nothing there is nothing, and below a file neither. -/
theorem Closed.none_of_prefix {v : Location → Option Entry} (hv : Closed v) {l m : Location}
    (hlm : l <+: m) (hne : l ≠ m) (hl : v l ≠ some .dir) : v m = none := by
  by_contra hm
  exact hl (hv.dir_of_prefix hlm hne hm)

/-- Where there is nothing, there is nothing below either. -/
theorem Closed.none_of_none {v : Location → Option Entry} (hv : Closed v) {l m : Location}
    (hlm : l <+: m) (hl : v l = none) : v m = none := by
  by_cases heq : l = m
  · rw [← heq, hl]
  · exact hv.none_of_prefix hlm heq (by simp [hl])

namespace Disk

/-- No file has two names, and the bytes of every file are kept. -/
structure Unshared (d : Disk) : Prop where
  stored : ∀ {l i}, d.node? l = some (.file i) → i < d.contents.size
  single : ∀ {l m i}, d.node? l = some (.file i) → d.node? m = some (.file i) → l = m

/-- A disk is a tree: no file has two names, every entry lies in a directory, and
relative paths begin at a directory. -/
structure WellFormed (d : Disk) : Prop extends Unshared d where
  closed : Closed d.view
  base_dir : d.view d.base = some .dir

/-! ## Views and nodes -/

@[simp] theorem view_nil (d : Disk) : d.view [] = some .dir := rfl

theorem view_eq_none {d : Disk} {l : Location} : d.view l = none ↔ d.node? l = none := by
  rw [view]
  split <;> simp_all

theorem view_eq_dir {d : Disk} {l : Location} :
    d.view l = some .dir ↔ d.node? l = some .dir := by
  rw [view]
  split <;> simp_all

theorem view_eq_file {d : Disk} {l : Location} {b : ByteArray} :
    d.view l = some (.file b) ↔ ∃ i, d.node? l = some (.file i) ∧ d.bytes i = b := by
  rw [view]
  split <;> simp_all

theorem view_of_file {d : Disk} {l : Location} {i : Nat} (h : d.node? l = some (.file i)) :
    d.view l = some (.file (d.bytes i)) := view_eq_file.mpr ⟨i, h, rfl⟩

/-- Two disks look alike at a location if the same node is there and has the same
bytes. -/
theorem view_congr {d d' : Disk} {l : Location} (hnode : d'.node? l = d.node? l)
    (hbytes : ∀ i, d.node? l = some (.file i) → d'.bytes i = d.bytes i) :
    d'.view l = d.view l := by
  rw [view, view, hnode]
  cases hl : d.node? l with
  | none => rfl
  | some n =>
    cases n with
    | dir => rfl
    | file i => simp [hbytes i hl]

/-! ## Changes of a view -/

section changes

variable {d : Disk} {l m : Location}

theorem ne_of_node? {n : Node} (hnone : d.node? l = none) (hm : d.node? m = some n) : m ≠ l := by
  rintro rfl
  rw [hnone] at hm
  exact absurd hm (by simp)

/-- What is put where nothing was hides nothing. -/
theorem node?_insert_of_some (hl : l ≠ []) (hnone : d.node? l = none) {n n' : Node}
    (hm : d.node? m = some n) : (d.insert l n').node? m = some n := by
  rw [node?_insert hl, if_neg (ne_of_node? hnone hm), hm]

theorem node?_insertFile_of_some (hl : l ≠ []) (hnone : d.node? l = none) {n : Node}
    (hm : d.node? m = some n) : (d.insertFile l).node? m = some n := by
  rw [node?_insertFile hl, if_neg (ne_of_node? hnone hm), hm]

theorem view_insert_dir (hl : l ≠ []) :
    (d.insert l .dir).view m = if m = l then some .dir else d.view m := by
  split_ifs with hm
  · exact view_eq_dir.mpr (by rw [node?_insert hl, if_pos hm])
  · exact view_congr (by rw [node?_insert hl, if_neg hm]) fun _ _ => rfl

theorem view_erase (hl : l ≠ []) : (d.erase l).view m = if m = l then none else d.view m := by
  split_ifs with hm
  · exact view_eq_none.mpr (by rw [node?_erase hl, if_pos hm])
  · exact view_congr (by rw [node?_erase hl, if_neg hm]) fun _ _ => rfl

theorem view_eraseBelow :
    (d.eraseBelow l).view m = if l <+: m ∧ m ≠ l then none else d.view m := by
  split_ifs with hm
  · exact view_eq_none.mpr (by rw [node?_eraseBelow, if_pos hm])
  · exact view_congr (by rw [node?_eraseBelow, if_neg hm]) fun _ _ => rfl

theorem view_insertFile (hd : d.Unshared) (hl : l ≠ []) :
    (d.insertFile l).view m = if m = l then some (.file ByteArray.empty) else d.view m := by
  split_ifs with hm
  · exact view_eq_file.mpr ⟨d.contents.size, by rw [node?_insertFile hl, if_pos hm],
      by rw [bytes_insertFile, if_pos rfl]⟩
  · refine view_congr (by rw [node?_insertFile hl, if_neg hm]) fun i hi => ?_
    rw [bytes_insertFile, if_neg (hd.stored hi).ne]

theorem view_setBytes (hd : d.Unshared) {i : Nat} (hi : d.node? l = some (.file i))
    (b : ByteArray) :
    (d.setBytes i b).view m = if m = l then some (.file b) else d.view m := by
  split_ifs with hm
  · refine view_eq_file.mpr ⟨i, by rw [node?_setBytes, hm, hi], ?_⟩
    rw [bytes_setBytes, if_pos ⟨rfl, hd.stored hi⟩]
  · refine view_congr (node?_setBytes ..) fun j hj => ?_
    rw [bytes_setBytes, if_neg]
    -- no other location has the file with these bytes
    rintro ⟨rfl, -⟩
    exact hm (hd.single hj hi)

/-- A file under another name: the old name is gone, and the new one shows its bytes. -/
theorem view_erase_insert {old new : Location} (hold : old ≠ []) (hnew : new ≠ []) {i : Nat}
    (hi : d.node? old = some (.file i)) :
    ((d.erase old).insert new (.file i)).view m =
      if m = new then d.view old else if m = old then none else d.view m := by
  split_ifs with hm hm'
  · rw [view_of_file hi]
    exact view_eq_file.mpr ⟨i, by rw [node?_insert hnew, if_pos hm], rfl⟩
  · exact view_eq_none.mpr (by rw [node?_insert hnew, if_neg hm, node?_erase hold, if_pos hm'])
  · exact view_congr (by rw [node?_insert hnew, if_neg hm, node?_erase hold, if_neg hm'])
      fun _ _ => rfl

end changes

/-! ## No change shares a file -/

variable {d d' : Disk}

theorem file_of_insert_dir {l m : Location} (hl : l ≠ []) {i : Nat}
    (h : (d.insert l .dir).node? m = some (.file i)) : d.node? m = some (.file i) := by
  rw [node?_insert hl] at h
  split_ifs at h with hm
  · cases h
  · exact h

theorem file_of_erase {l m : Location} {i : Nat} (h : (d.erase l).node? m = some (.file i)) :
    d.node? m = some (.file i) := by
  by_cases hm : m = []
  · subst hm
    exact h
  · simp only [node?, hm, if_false, Disk.erase] at h ⊢
    rw [lookup_filter fun k => !(k == l)] at h
    split_ifs at h with hl
    exact h

theorem file_of_eraseBelow {l m : Location} {i : Nat}
    (h : (d.eraseBelow l).node? m = some (.file i)) : d.node? m = some (.file i) := by
  rw [node?_eraseBelow] at h
  split_ifs at h with hm
  exact h

namespace Unshared

/-- A disk on which no file has got another name is still without shared files. -/
theorem of_node? (hd : d.Unshared) (hsize : d.contents.size ≤ d'.contents.size)
    (hnode : ∀ l i, d'.node? l = some (.file i) → d.node? l = some (.file i)) : d'.Unshared where
  stored hi := (hd.stored (hnode _ _ hi)).trans_le hsize
  single hi hj := hd.single (hnode _ _ hi) (hnode _ _ hj)

theorem insert_dir (hd : d.Unshared) {l : Location} (hl : l ≠ []) :
    (d.insert l .dir).Unshared :=
  hd.of_node? le_rfl fun _ _ => file_of_insert_dir hl

theorem erase (hd : d.Unshared) (l : Location) : (d.erase l).Unshared :=
  hd.of_node? le_rfl fun _ _ => file_of_erase

theorem eraseBelow (hd : d.Unshared) (l : Location) : (d.eraseBelow l).Unshared :=
  hd.of_node? le_rfl fun _ _ => file_of_eraseBelow

theorem setBytes (hd : d.Unshared) (i : Nat) (b : ByteArray) : (d.setBytes i b).Unshared :=
  hd.of_node? (by simp [Disk.setBytes]) fun _ _ hi => hi

theorem insertFile (hd : d.Unshared) {l : Location} (hl : l ≠ []) :
    (d.insertFile l).Unshared := by
  have hsize : (d.insertFile l).contents.size = d.contents.size + 1 := by
    simp [Disk.insertFile]
  constructor
  · intro m i hi
    rw [node?_insertFile hl] at hi
    rw [hsize]
    split_ifs at hi with hm
    · simp_all
    · exact (hd.stored hi).trans (Nat.lt_succ_self _)
  · intro m k i hi hj
    rw [node?_insertFile hl] at hi hj
    -- the number of the new file is that of no other one
    split_ifs at hi hj with hm hk hk
    · exact hm.trans hk.symm
    · obtain rfl : d.contents.size = i := by simpa using hi
      exact absurd (hd.stored hj) (lt_irrefl _)
    · obtain rfl : d.contents.size = i := by simpa using hj
      exact absurd (hd.stored hi) (lt_irrefl _)
    · exact hd.single hi hj

theorem erase_insert (hd : d.Unshared) {old new : Location} (hold : old ≠ []) (hnew : new ≠ [])
    {i : Nat} (hi : d.node? old = some (.file i)) :
    ((d.erase old).insert new (.file i)).Unshared := by
  have hnode (l : Location) : ((d.erase old).insert new (.file i)).node? l =
      if l = new then some (.file i) else if l = old then none else d.node? l := by
    rw [node?_insert hnew, node?_erase hold]
  constructor
  · intro l j hj
    rw [hnode] at hj
    split_ifs at hj with hl hl'
    · obtain rfl : i = j := by simpa using hj
      exact hd.stored hi
    · exact hd.stored hj
  · intro l m j hj hk
    rw [hnode] at hj hk
    -- only the moved file can be at the new place, and it is at no other one
    split_ifs at hj hk with hl hm
    · exact hl.trans hm.symm
    · obtain rfl : i = j := by simpa using hj
      exact absurd (hd.single hk hi) ‹¬ m = old›
    · obtain rfl : i = j := by simpa using hk
      exact absurd (hd.single hj hi) ‹¬ l = old›
    · exact hd.single hj hk

end Unshared

/-! ## Disks that are trees -/

theorem node?_empty (l : Location) : empty.node? l = if l = [] then some .dir else none := rfl

theorem wellFormed_empty : empty.WellFormed where
  stored {l i} h := by
    rw [node?_empty] at h
    split_ifs at h
    cases h
  single {l m i} h := by
    rw [node?_empty] at h
    split_ifs at h
    cases h
  closed l n h := by
    rw [ne_eq, view_eq_none, node?_empty, if_neg (by simp)] at h
    exact absurd rfl h
  base_dir := rfl

/-- A view stays closed when something is put into a directory, unless it hides one. -/
theorem closed_update {v w : Location → Option Entry} {l : Location} {x : Entry} (hv : Closed v)
    (hdir : v l.dropLast = some .dir) (hx : v l = some .dir → x = .dir)
    (hw : ∀ m, w m = if m = l then some x else v m) : Closed w := by
  intro m n hmn
  -- what is put there lies in a directory already, and all else did before
  have hm : v m = some .dir := by
    rw [hw] at hmn
    split_ifs at hmn with heq
    · rwa [← heq, List.dropLast_concat] at hdir
    · exact hv m n hmn
  rw [hw]
  split_ifs with heq
  · rw [hx (heq ▸ hm)]
  · exact hm

namespace WellFormed

variable {l : Location}

theorem insert_dir (hd : d.WellFormed) (hl : l ≠ []) (hdir : d.view l.dropLast = some .dir) :
    (d.insert l .dir).WellFormed where
  toUnshared := hd.toUnshared.insert_dir hl
  closed := closed_update hd.closed hdir (fun _ => rfl) fun _ => view_insert_dir hl
  base_dir := by
    rw [view_insert_dir hl]
    split_ifs
    · rfl
    · exact hd.base_dir

theorem insertFile (hd : d.WellFormed) (hl : l ≠ []) (hdir : d.view l.dropLast = some .dir)
    (hfree : d.node? l ≠ some .dir) : (d.insertFile l).WellFormed where
  toUnshared := hd.toUnshared.insertFile hl
  closed :=
    closed_update hd.closed hdir (fun h => absurd (view_eq_dir.mp h) hfree)
      fun _ => view_insertFile hd.toUnshared hl
  base_dir := by
    have hbase : d.base ≠ l := by
      intro heq
      exact hfree (view_eq_dir.mp (heq ▸ hd.base_dir))
    rw [view_insertFile hd.toUnshared hl]
    exact (if_neg hbase).trans hd.base_dir

theorem setBytes (hd : d.WellFormed) (i : Nat) (b : ByteArray) : (d.setBytes i b).WellFormed where
  toUnshared := hd.toUnshared.setBytes i b
  closed m n hmn := by
    rw [ne_eq, view_eq_none, node?_setBytes, ← view_eq_none] at hmn
    rw [view_eq_dir, node?_setBytes, ← view_eq_dir]
    exact hd.closed m n hmn
  base_dir := by
    rw [view_eq_dir, node?_setBytes, ← view_eq_dir]
    exact hd.base_dir

end WellFormed

end Disk

end BlobStore
