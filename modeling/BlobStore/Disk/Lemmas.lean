import BlobStore.Disk.Basic

/-!
# What changes of a disk do to its nodes

Each change is described by what lies at a location afterwards: `node?_insert`,
`node?_erase`, `node?_eraseBelow` and `node?_insertFile` for nodes, `bytes_setBytes` and
`bytes_insertFile` for the bytes of files.
-/

namespace BlobStore.Disk

/-- Dropping the entries of some locations leaves the other ones as they are. -/
theorem lookup_filter (p : Location → Bool) (nodes : List (Location × Node)) (m : Location) :
    (nodes.filter fun e => p e.1).lookup m = if p m then nodes.lookup m else none := by
  induction nodes with
  | nil => simp
  | cons e nodes ih =>
    obtain ⟨l, n⟩ := e
    rw [List.filter_cons]
    by_cases hm : m = l
    · subst hm
      cases hp : p m
      · rw [if_neg (by simp), ih, hp]
        rfl
      · rw [if_pos (by simp), List.lookup_cons_self, if_pos rfl, List.lookup_cons_self]
    · have hne : (m == l) = false := by simp [hm]
      have hrest : ((l, n) :: nodes).lookup m = nodes.lookup m := by
        rw [List.lookup_cons, hne]
      rw [hrest, ← ih]
      split
      · rw [List.lookup_cons, hne]
      · rfl

@[simp] theorem node?_nil (d : Disk) : d.node? [] = some .dir := rfl

theorem node?_insert {l : Location} (hl : l ≠ []) (d : Disk) (n : Node) (m : Location) :
    (d.insert l n).node? m = if m = l then some n else d.node? m := by
  by_cases hm : m = l
  · subst hm
    simp [node?, insert, hl]
  · have hne : (m == l) = false := by simp [hm]
    simp [node?, insert, hm, List.lookup_cons, hne,
      lookup_filter (fun k => !(k == l)) d.nodes m]

theorem node?_erase {l : Location} (hl : l ≠ []) (d : Disk) (m : Location) :
    (d.erase l).node? m = if m = l then none else d.node? m := by
  have hfilter := lookup_filter (fun k => !(k == l)) d.nodes m
  by_cases hm : m = l
  · subst hm
    simp [node?, erase, hl, hfilter]
  · simp [node?, erase, hm, hfilter]

/-- What is properly below a location is gone, and all else is still there. -/
theorem node?_eraseBelow (d : Disk) (l m : Location) :
    (d.eraseBelow l).node? m = if l <+: m ∧ m ≠ l then none else d.node? m := by
  have hfilter := lookup_filter (fun k => !(l.isPrefixOf k && k != l)) d.nodes m
  by_cases hm : m = []
  · subst hm
    simp only [node?, List.prefix_nil, if_true]
    split
    · next h => exact absurd h.1.symm h.2
    · rfl
  · simp only [node?, hm, if_false, eraseBelow, hfilter]
    by_cases hp : l <+: m
    · have hb : l.isPrefixOf m = true := List.isPrefixOf_iff_prefix.2 hp
      by_cases hne : m = l <;> simp [hp, hb, hne]
    · have hb : l.isPrefixOf m = false := by
        rw [← Bool.not_eq_true, List.isPrefixOf_iff_prefix]
        exact hp
      simp [hp, hb]

theorem node?_insertFile {l : Location} (hl : l ≠ []) (d : Disk) (m : Location) :
    (d.insertFile l).node? m = if m = l then some (.file d.contents.size) else d.node? m :=
  node?_insert hl d (.file d.contents.size) m

@[simp] theorem node?_setBytes (d : Disk) (i : Nat) (b : ByteArray) (m : Location) :
    (d.setBytes i b).node? m = d.node? m := rfl

@[simp] theorem bytes_insert (d : Disk) (l : Location) (n : Node) (i : Nat) :
    (d.insert l n).bytes i = d.bytes i := rfl

@[simp] theorem bytes_erase (d : Disk) (l : Location) (i : Nat) :
    (d.erase l).bytes i = d.bytes i := rfl

@[simp] theorem bytes_eraseBelow (d : Disk) (l : Location) (i : Nat) :
    (d.eraseBelow l).bytes i = d.bytes i := rfl

theorem bytes_setBytes (d : Disk) (i : Nat) (b : ByteArray) (j : Nat) :
    (d.setBytes i b).bytes j = if j = i ∧ i < d.contents.size then b else d.bytes j := by
  by_cases hi : i < d.contents.size
  · by_cases hj : j = i
    · subst hj
      simp [bytes, setBytes, Array.getD_eq_getD_getElem?, hi]
    · simp [bytes, setBytes, Array.getD_eq_getD_getElem?, hj, Ne.symm hj]
  · simp [bytes, setBytes, hi, Array.setIfInBounds]

/-- A new file has no bytes, and no other file is changed by it. -/
theorem bytes_insertFile (d : Disk) (l : Location) (j : Nat) :
    (d.insertFile l).bytes j = if j = d.contents.size then ByteArray.empty else d.bytes j := by
  by_cases hj : j = d.contents.size
  · subst hj
    simp [bytes, insertFile, insert, Array.getD_eq_getD_getElem?]
  · simp [bytes, insertFile, insert, Array.getD_eq_getD_getElem?, Array.getElem?_push, hj]

end BlobStore.Disk
