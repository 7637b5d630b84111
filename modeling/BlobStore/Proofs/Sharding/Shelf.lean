import BlobStore.Proofs.Disk.Temporary
import BlobStore.Proofs.Store.Site

/-!
# The places of digests

A sharded layout puts the object of a key where the key's digest says: in a directory for
each whole block of the digest, under the digest as name.  `Sharding.shelf` is this list of
names.

All shelves are equally long, so no directory of one is the file of another, and different
digests have different shelves.
-/

namespace BlobStore

/-! ## Hexadecimal names -/

/-- A digit is one byte, and not one that has a meaning in paths. -/
theorem Text.utf8EncodeChar_isDigit {c : Char} (hc : Text.Hex.IsDigit c) :
    (String.utf8EncodeChar c).length = 1 ∧ 0 ∉ String.utf8EncodeChar c ∧
      0x2E ∉ String.utf8EncodeChar c ∧ Path.slash ∉ String.utf8EncodeChar c := by
  -- written with `all`, so that it is decided on the sixteen digits and not on all characters
  have hall : ("0123456789abcdef".toList.all fun x => decide
      ((String.utf8EncodeChar x).length = 1 ∧ 0 ∉ String.utf8EncodeChar x ∧
        0x2E ∉ String.utf8EncodeChar x ∧ Path.slash ∉ String.utf8EncodeChar x)) = true := by
    decide
  exact of_decide_eq_true (List.all_eq_true.mp hall c hc)

theorem Text.encode_isDigit {cs : List Char} (h : ∀ c ∈ cs, Text.Hex.IsDigit c) :
    (Text.encode cs).length = cs.length ∧ 0 ∉ Text.encode cs ∧ 0x2E ∉ Text.encode cs ∧
      Path.slash ∉ Text.encode cs := by
  have hchar := fun c hc => Text.utf8EncodeChar_isDigit (h c hc)
  exact ⟨Text.length_encode fun c hc => (hchar c hc).1,
    Text.not_mem_encode fun c hc => (hchar c hc).2.1,
    Text.not_mem_encode fun c hc => (hchar c hc).2.2.1,
    Text.not_mem_encode fun c hc => (hchar c hc).2.2.2⟩

/-- Hexadecimal text is a name that a directory entry can have. -/
theorem isEntryName_encode {cs : List Char} (hne : cs ≠ []) (h : ∀ c ∈ cs, Text.Hex.IsDigit c) :
    IsEntryName (Text.encode cs) := by
  obtain ⟨-, hzero, hdot, hslash⟩ := Text.encode_isDigit h
  refine ⟨by simpa using hne, ?_, ?_, hslash, hzero⟩
  · intro heq
    rw [heq] at hdot
    exact hdot (by decide)
  · intro heq
    rw [heq] at hdot
    exact hdot (by decide)

theorem slash_not_isDigit : ¬ Text.Hex.IsDigit '/' := by decide

namespace Sharding

/-! ## Blocks -/

variable {width : Nat} {cs : List Char}

@[simp] theorem length_blocks (width : Nat) (cs : List Char) :
    (blocks width cs).length = cs.length / width := by
  simp [blocks]

theorem of_mem_blocks {b : List Char} (h : b ∈ blocks width cs) :
    b.length = width ∧ width ≤ cs.length ∧ ∀ c ∈ b, c ∈ cs := by
  obtain ⟨i, hi, rfl⟩ := List.mem_map.mp h
  rw [List.mem_range] at hi
  have hwidth : 0 < width := Nat.pos_of_ne_zero (by rintro rfl; simp at hi)
  have hend : (i + 1) * width ≤ cs.length := (Nat.le_div_iff_mul_le hwidth).mp hi
  rw [Nat.succ_mul] at hend
  refine ⟨?_, by omega, fun c hc => List.mem_of_mem_drop (List.mem_of_mem_take hc)⟩
  rw [List.length_take, List.length_drop]
  omega

/-- A text that is at least as long as a block begins with the first block. -/
theorem blocks_eq_cons (width : Nat) (cs : List Char) (h : cs.length / width ≠ 0) :
    ∃ rest, blocks width cs = cs.take width :: rest := by
  obtain ⟨n, hn⟩ := Nat.exists_eq_succ_of_ne_zero h
  rw [blocks, hn, List.range_succ_eq_map, List.map_cons, Nat.zero_mul, List.drop_zero]
  exact ⟨_, rfl⟩

/-! ## Shelves -/

variable (sh : Sharding)

/-- The digest of a key, as its layout writes it. -/
def digest (key : String) : List Char := sh.algorithm.hexDigest key.toUTF8

/-- What the text of a digest looks like. -/
structure IsDigest (h : List Char) : Prop where
  length_eq : h.length = sh.algorithm.hexLength
  isDigit : ∀ c ∈ h, Text.Hex.IsDigit c

theorem isDigest_digest (key : String) : sh.IsDigest (sh.digest key) :=
  ⟨Digest.Algorithm.length_hexDigest .., fun _ hc => Digest.Algorithm.isDigit_of_mem_hexDigest hc⟩

/-- The directories of a digest, outermost first. -/
def shelfDirs (h : List Char) : List Name := (blocks sh.blockSize h).map Text.encode

/-- The directories of a digest and the name of its file. -/
def shelf (h : List Char) : List Name := sh.shelfDirs h ++ [Text.encode h]

/-- The number of directories of every digest. -/
def depth : Nat := sh.algorithm.hexLength / sh.blockSize

variable {sh} {h h' : List Char}

namespace IsDigest

theorem ne_nil (hh : sh.IsDigest h) : h ≠ [] := by
  intro hnil
  have hlength := hh.length_eq
  rw [hnil] at hlength
  cases halgorithm : sh.algorithm <;> rw [halgorithm] at hlength <;> exact absurd hlength (by decide)

theorem length_le (hh : sh.IsDigest h) : h.length ≤ 64 := by
  rw [hh.length_eq]
  cases sh.algorithm <;> decide

theorem length_shelfDirs (hh : sh.IsDigest h) : (sh.shelfDirs h).length = sh.depth := by
  rw [shelfDirs, List.length_map, length_blocks, hh.length_eq, depth]

theorem length_shelf (hh : sh.IsDigest h) : (sh.shelf h).length = sh.depth + 1 := by
  rw [shelf, List.length_append, hh.length_shelfDirs, List.length_singleton]

/-- Every name on a shelf is hexadecimal and short enough for a directory. -/
theorem of_mem_shelf (hh : sh.IsDigest h) {n : Name} (hn : n ∈ sh.shelf h) :
    ∃ cs, n = Text.encode cs ∧ cs ≠ [] ∧ (∀ c ∈ cs, Text.Hex.IsDigit c) ∧ n.length ≤ 64 := by
  rw [shelf, List.mem_append, List.mem_singleton, shelfDirs, List.mem_map] at hn
  have hlength := hh.length_le
  rcases hn with ⟨b, hb, rfl⟩ | rfl
  · obtain ⟨hwidth, hle, hmem⟩ := of_mem_blocks hb
    have hdigits : ∀ c ∈ b, Text.Hex.IsDigit c := fun c hc => hh.isDigit c (hmem c hc)
    have hpos := sh.blockSize_pos
    refine ⟨b, rfl, ?_, hdigits, ?_⟩
    · rintro rfl
      rw [List.length_nil] at hwidth
      omega
    · rw [(Text.encode_isDigit hdigits).1]
      omega
  · exact ⟨h, rfl, hh.ne_nil, hh.isDigit, by rw [(Text.encode_isDigit hh.isDigit).1]; exact hlength⟩

theorem isEntryName_of_mem_shelf (hh : sh.IsDigest h) {n : Name} (hn : n ∈ sh.shelf h) :
    IsEntryName n := by
  obtain ⟨cs, rfl, hne, hdigits, -⟩ := hh.of_mem_shelf hn
  exact isEntryName_encode hne hdigits

/-- No temporary file lies on a shelf. -/
theorem tempName_not_mem_shelf (hh : sh.IsDigest h) (i : Nat) : Disk.tempName i ∉ sh.shelf h := by
  intro hmem
  obtain ⟨cs, heq, -, hdigits, -⟩ := hh.of_mem_shelf hmem
  obtain ⟨rest, hrest⟩ := Disk.exists_tempName_eq i
  refine (Text.encode_isDigit hdigits).2.2.1 (heq ▸ ?_)
  rw [hrest]
  exact List.mem_cons_self

end IsDigest

theorem shelf_injective : Function.Injective sh.shelf := by
  intro h h' heq
  exact Text.encode_injective (List.cons_eq_cons.mp (List.append_inj' heq rfl).2).1

/-- The file of one digest is not above that of another one. -/
theorem eq_of_shelf_isPrefix (hh : sh.IsDigest h) (hh' : sh.IsDigest h')
    (hle : sh.shelf h <+: sh.shelf h') : h = h' :=
  shelf_injective (hle.eq_of_length (by rw [hh.length_shelf, hh'.length_shelf]))

/-- If there are directories, then the first one tells the first block of the digest. -/
theorem shelfDirs_eq_cons (hdepth : sh.depth ≠ 0) (hh : sh.IsDigest h) :
    ∃ rest, sh.shelfDirs h = Text.encode (h.take sh.blockSize) :: rest := by
  obtain ⟨rest, hblocks⟩ := blocks_eq_cons sh.blockSize h
    (by rw [hh.length_eq]; exact hdepth)
  rw [shelfDirs, hblocks]
  exact ⟨_, rfl⟩

/-- What a deletion removes: the first directory of a digest, or its file if there is none. -/
def cutAt (sh : Sharding) (h : List Char) : List Name :=
  if sh.depth = 0 then sh.shelf h else [Text.encode (h.take sh.blockSize)]

/-- The digests that a deletion removes are those with the same first block. -/
theorem cutAt_isPrefix_shelf (hh : sh.IsDigest h) (hh' : sh.IsDigest h') :
    sh.cutAt h <+: sh.shelf h' ↔ h'.take sh.blockSize = h.take sh.blockSize := by
  rw [cutAt]
  split_ifs with hdepth
  · -- blocks are longer than digests, so that the whole digest counts
    have hlong : sh.algorithm.hexLength ≤ sh.blockSize := by
      have := (Nat.div_eq_zero_iff_lt sh.blockSize_pos).mp hdepth
      omega
    rw [List.take_of_length_le (hh'.length_eq.trans_le hlong),
      List.take_of_length_le (hh.length_eq.trans_le hlong)]
    constructor
    · exact fun hle => (eq_of_shelf_isPrefix hh hh' hle).symm
    · rintro rfl
      exact List.prefix_refl _
  · obtain ⟨rest, hrest⟩ := shelfDirs_eq_cons hdepth hh'
    rw [shelf, hrest, List.cons_append, List.cons_prefix_cons, Text.encode_injective.eq_iff]
    simp [eq_comm]

end Sharding

end BlobStore
