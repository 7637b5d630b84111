import BlobStore.Proofs.Disk.Asking

/-!
# Files by number

A path leads to a file, and the file's number says where its bytes are kept.  Whoever has
opened a file knows its number and no longer needs its name: here a file is known by its number
(`Disk.number?`), and its bytes are `Disk.file?`.  Two paths may lead to the same file
(`Disk.SameFile`), so that writing by one of them shows at the other.

Nothing is asked of the paths.  Of the disk it is asked that the bytes of its files are kept on
it (`Disk.Stored`), which every action keeps.
-/

namespace BlobStore

namespace Disk

variable {d d' : Disk} {p q : Path} {i : Nat}

/-- The bytes of every file are kept on the disk. -/
def Stored (d : Disk) : Prop := ∀ l i, d.node? l = some (.file i) → i < d.contents.size

/-- The number of the file to which a path leads. -/
def number? (d : Disk) (p : Path) : Option Nat :=
  match d.resolve p with
  | .ok (_, .file i) => some i
  | _ => none

/-- The bytes of the file to which a path leads. -/
def file? (d : Disk) (p : Path) : Option ByteArray := (d.number? p).map d.bytes

/-- Two paths lead to the same file. -/
def SameFile (d : Disk) (p q : Path) : Prop := ∃ i, d.number? p = some i ∧ d.number? q = some i

/-! ## Disks with the bytes of their files -/

theorem Unshared.isStored (hd : d.Unshared) : d.Stored := fun _ _ h => hd.stored h

namespace Stored

theorem of_node? (hd : d.Stored) (hsize : d.contents.size ≤ d'.contents.size)
    (hnode : ∀ l i, d'.node? l = some (.file i) → ∃ m, d.node? m = some (.file i)) :
    d'.Stored := by
  intro l i hi
  obtain ⟨m, hm⟩ := hnode l i hi
  exact (hd m i hm).trans_le hsize

theorem insertFile (hd : d.Stored) {l : Location} (hl : l ≠ []) : (d.insertFile l).Stored := by
  have hsize : (d.insertFile l).contents.size = d.contents.size + 1 := by
    simp [Disk.insertFile]
  intro m i hi
  rw [node?_insertFile hl] at hi
  rw [hsize]
  split_ifs at hi with hm
  · simp_all
  · exact (hd m i hi).trans (Nat.lt_succ_self _)

end Stored

theorem Change.stored (h : d.Change d') (hd : d.Stored) : d'.Stored := by
  cases h with
  | nothing => exact hd
  | makeDir hl hnone => exact hd.of_node? le_rfl fun m _ hi => ⟨m, file_of_insert_dir hl hi⟩
  | makeFile hl hnone => exact hd.insertFile hl
  | setBytes i b => exact hd.of_node? (by simp [Disk.setBytes]) fun m _ hi => ⟨m, hi⟩
  | unlink hl => exact hd.of_node? le_rfl fun m _ hi => ⟨m, file_of_erase hi⟩
  | emptyDir l => exact hd.of_node? le_rfl fun m _ hi => ⟨m, file_of_eraseBelow hi⟩
  | removeDir l =>
    exact hd.of_node? le_rfl fun m _ hi => ⟨m, file_of_eraseBelow (file_of_erase hi)⟩
  | @move old new j hold hnew hj hdir =>
    refine hd.of_node? le_rfl fun m i hi => ?_
    rw [node?_insert hnew] at hi
    split_ifs at hi with hm
    · exact ⟨old, hj.trans hi⟩
    · exact ⟨m, file_of_erase hi⟩

/-! ## Numbers -/

theorem number?_eq_some :
    d.number? p = some i ↔ ∃ l, d.Leads p l ∧ d.node? l = some (.file i) := by
  unfold number?
  constructor
  · intro h
    split at h
    · next l j hresolve =>
      obtain rfl := Option.some.inj h
      exact ⟨l, resolve_eq_file.mp hresolve⟩
    · cases h
  · rintro ⟨l, hleads, hnode⟩
    rw [resolve_eq_file.mpr ⟨hleads, hnode⟩]

theorem file?_of_number? (h : d.number? p = some i) : d.file? p = some (d.bytes i) := by
  rw [file?, h, Option.map_some]

theorem file?_eq_some {b : ByteArray} :
    d.file? p = some b ↔ ∃ i, d.number? p = some i ∧ d.bytes i = b := Option.map_eq_some_iff

/-- Opening for reading gives the file's number and notes its size. -/
theorem openRead_eq_ok_file {h : Handle} {size : Nat} :
    d.openRead p = .ok (.file h size) ↔
      d.number? p = some h.number ∧ size = (d.bytes h.number).size := by
  rw [openRead_eq_file, number?_eq_some]
  constructor
  · rintro ⟨l, hleads, hnode, hsize⟩
    exact ⟨⟨l, hleads, hnode⟩, hsize⟩
  · rintro ⟨⟨l, hleads, hnode⟩, hsize⟩
    exact ⟨l, hleads, hnode, hsize⟩

theorem Stored.number?_lt (hd : d.Stored) (h : d.number? p = some i) : i < d.contents.size := by
  obtain ⟨l, -, hnode⟩ := number?_eq_some.mp h
  exact hd l i hnode

/-- Where nothing is removed, every path still leads to its file. -/
theorem number?_mono (hbase : d'.base = d.base)
    (hnode : ∀ l n, d.node? l = some n → d'.node? l = some n) (h : d.number? p = some i) :
    d'.number? p = some i := by
  obtain ⟨l, hleads, hfile⟩ := number?_eq_some.mp h
  exact number?_eq_some.mpr ⟨l, hleads.mono hbase fun m => hnode m _, hnode l _ hfile⟩

theorem Adds.number? (h : d.Adds d') (hi : d.number? p = some i) : d'.number? p = some i :=
  number?_mono h.base h.node hi

theorem Adds.file? (h : d.Adds d') {b : ByteArray} (hb : d.file? p = some b) :
    d'.file? p = some b := by
  obtain ⟨i, hi, rfl⟩ := file?_eq_some.mp hb
  rw [file?_of_number? (h.number? hi), bytes, h.contents, bytes]

/-- Writing to a file moves nothing. -/
theorem number?_setBytes {j : Nat} {b : ByteArray} (hi : d.number? p = some i) :
    (d.setBytes j b).number? p = some i :=
  number?_mono (d := d) rfl (fun _ _ hn => hn) hi

/-! ## A file that gets another path -/

section replacing

variable {file target : Path} (hreplace : d.replace file target = .ok d')
  (hi : d.number? file = some i)

include hreplace hi

theorem exists_replace_eq :
    ∃ old new, old ≠ [] ∧ d.Leads target new ∧ d.node? new ≠ some .dir ∧
      d.node? old = some (.file i) ∧ d' = (d.erase old).insert new (.file i) := by
  obtain ⟨old, new, j, hold, hnew, hdir, hj, rfl⟩ := replace_eq_ok hreplace
  obtain ⟨l, hleads, hnode⟩ := number?_eq_some.mp hi
  obtain rfl := hold.unique hleads.ends
  obtain rfl : j = i := by simpa [hj] using hnode
  exact ⟨old, new, hold.ne_nil, hnew, hdir, hj, rfl⟩

/-- What is not the file stays where it is, unless it has had to make room. -/
theorem node?_of_replace {l : Location} {n : Node} (hn : n ≠ .file i) (hl : d.node? l = some n) :
    d'.node? l = some n ∨ n ≠ .dir ∧ d'.node? l = some (.file i) := by
  obtain ⟨old, new, hold, hnew, hdir, hfile, rfl⟩ := exists_replace_eq hreplace hi
  rw [node?_insert hnew.ne_nil]
  split_ifs with hm
  · subst hm
    exact Or.inr ⟨fun h => hdir (h ▸ hl), rfl⟩
  · have hmold : l ≠ old := by
      rintro rfl
      exact hn (Option.some.inj (hl.symm.trans hfile))
    rw [node?_erase hold, if_neg hmold]
    exact Or.inl hl

theorem leads_of_replace {l : Location} (hleads : d.Leads p l) : d'.Leads p l := by
  have hbase : d'.base = d.base := by
    obtain ⟨old, new, -, -, -, -, rfl⟩ := exists_replace_eq hreplace hi
    rfl
  refine hleads.mono hbase fun m hm => ?_
  exact (node?_of_replace hreplace hi (by simp) hm).resolve_right fun h => h.1 rfl

/-- A file that has got another path is the one to which that path leads. -/
theorem number?_replace : d'.number? target = some i := by
  obtain ⟨old, new, -, hnew, -, -, heq⟩ := exists_replace_eq hreplace hi
  refine number?_eq_some.mpr ⟨new, leads_of_replace hreplace hi hnew, ?_⟩
  rw [heq, node?_insert hnew.ne_nil, if_pos rfl]

/-- A path to another file still leads there, unless that file has had to make room. -/
theorem number?_replace_other {j : Nat} (hj : d.number? q = some j) (hne : j ≠ i) :
    d'.number? q = some j ∨ d'.number? q = some i := by
  obtain ⟨l, hleads, hnode⟩ := number?_eq_some.mp hj
  have hleads' : d'.Leads q l := leads_of_replace hreplace hi hleads
  rcases node?_of_replace hreplace hi (by simp [hne]) hnode with h | ⟨-, h⟩
  · exact Or.inl (number?_eq_some.mpr ⟨l, hleads', h⟩)
  · exact Or.inr (number?_eq_some.mpr ⟨l, hleads', h⟩)

end replacing

/-! ## New files -/

/-- A new temporary file is the one to which its path leads. -/
theorem number?_insertFile {l : Location} (hleads : d.Leads p l) (hnone : d.node? l = none) :
    (d.insertFile l).number? p = some d.contents.size := by
  have hne := hleads.ne_nil
  refine number?_eq_some.mpr ⟨l, hleads.mono rfl fun m => node?_insertFile_of_some hne hnone, ?_⟩
  rw [node?_insertFile hne, if_pos rfl]

/-- A new file is in nobody's way. -/
theorem number?_insertFile_other {l : Location} (hl : l ≠ []) (hnone : d.node? l = none)
    (hi : d.number? q = some i) : (d.insertFile l).number? q = some i :=
  number?_mono (d := d) rfl (fun _ _ => node?_insertFile_of_some hl hnone) hi

/-! ## Filling a file -/

/-- A disk on which the file at a path, which may be new, has got other bytes.  All else is as
it was, but the file may have other paths, too. -/
structure Fills (d d' : Disk) (p : Path) (i : Nat) (b : ByteArray) : Prop where
  stored : d'.Stored
  fresh : d.number? p = some i ∨ d.number? p = none ∧ i = d.contents.size
  number : d'.number? p = some i
  names : ∀ q j, d.number? q = some j → d'.number? q = some j
  bytes_self : d'.bytes i = b
  bytes_other : ∀ j, j ≠ i → d'.bytes j = d.bytes j

/-- Opening a file for writing leaves it without bytes. -/
theorem fills_create (hd : d.Stored) {h : Handle} (hcreate : d.create p = .ok (h, d')) :
    d.Fills d' p h.number ByteArray.empty := by
  have hd' : d'.Stored := (change_create hcreate).stored hd
  obtain ⟨l, hleads, ⟨hfile, rfl⟩ | ⟨hnone, hnumber, rfl⟩⟩ := create_eq_ok hcreate
  · have hnumber := number?_eq_some.mpr ⟨l, hleads, hfile⟩
    refine ⟨hd', Or.inl hnumber, number?_setBytes hnumber, fun q j => number?_setBytes, ?_,
      fun j hj => ?_⟩
    · rw [bytes_setBytes, if_pos ⟨rfl, hd _ _ hfile⟩]
    · rw [bytes_setBytes, if_neg fun hji => hj hji.1]
  · have hne := hleads.ne_nil
    refine ⟨hd', Or.inr ⟨?_, hnumber⟩, ?_, fun q j hj => ?_, ?_, fun j hj => ?_⟩
    · rw [Option.eq_none_iff_forall_ne_some]
      intro j hj
      obtain ⟨m, hleads', hfile⟩ := number?_eq_some.mp hj
      rw [hleads'.ends.unique hleads.ends, hnone] at hfile
      exact absurd hfile (by simp)
    · rw [number?_insertFile hleads hnone, hnumber]
    · exact number?_insertFile_other hne hnone hj
    · rw [bytes_insertFile, if_pos hnumber]
    · rw [bytes_insertFile, if_neg (hnumber ▸ hj)]

namespace Fills

variable {b : ByteArray}

/-- What is appended to a file without bytes is all that is in it. -/
theorem append {h : Handle} (hf : d.Fills d' p h.number ByteArray.empty) (b : ByteArray) :
    d.Fills (d'.append h b) p h.number b := by
  have hlt : h.number < d'.contents.size := hf.stored.number?_lt hf.number
  refine ⟨hf.stored.of_node? (by simp [Disk.append, setBytes]) fun m _ hi => ⟨m, hi⟩, hf.fresh,
    number?_setBytes hf.number, fun q j hj => number?_setBytes (hf.names q j hj), ?_, fun j hj => ?_⟩
  · rw [Disk.append, bytes_setBytes, if_pos ⟨rfl, hlt⟩, hf.bytes_self, ByteArray.empty_append]
  · rw [Disk.append, bytes_setBytes, if_neg fun hji => hj hji.1]
    exact hf.bytes_other j hj

theorem file?_self (hf : d.Fills d' p i b) : d'.file? p = some b := by
  rw [file?_of_number? hf.number, hf.bytes_self]

/-- A path to another file leads to the same bytes as before. -/
theorem file?_other (hf : d.Fills d' p i b) {j : Nat} (hj : d.number? q = some j) (hne : j ≠ i) :
    d'.file? q = some (d.bytes j) := by
  rw [file?_of_number? (hf.names q j hj), hf.bytes_other j hne]

/-- A file that was there before has been filled only if both paths lead to it. -/
theorem sameFile_iff (hf : d.Fills d' p i b) (hd : d.Stored) {j : Nat} (hj : d.number? q = some j) :
    d.SameFile p q ↔ j = i := by
  constructor
  · rintro ⟨k, hp, hq⟩
    obtain rfl : j = k := by simpa [hj] using hq
    rcases hf.fresh with hi | ⟨hnone, -⟩
    · simpa [hp] using hi
    · simp [hp] at hnone
  · rintro rfl
    rcases hf.fresh with hi | ⟨-, rfl⟩
    · exact ⟨j, hi, hj⟩
    · exact absurd (hd.number?_lt hj) (lt_irrefl _)

end Fills

end Disk

theorem Action.run_stored {ε α : Type} (x : Action ε α) {d : Disk} (hd : d.Stored) :
    (x.run d).2.Stored :=
  x.run_invariant (fun _ _ hchange => hchange.stored) hd

end BlobStore
