import BlobStore.Proofs.Disk.Reach
import Mathlib.Algebra.Group.Nat.Defs
import Mathlib.Data.List.Nodup
import Mathlib.Data.List.Perm.Subperm

/-!
# Temporary files

A temporary file gets a name that is a mark followed by digits, so it can stand in every
directory and its path can be followed wherever the directory's can (`target_join`).
Making one puts a new file at a location where nothing was, and the path that is handed
back leads there (`createTemp_eq_ok`): whoever made the file can remove it.
-/

namespace BlobStore

/-- A name that a directory entry can have, but for its length. -/
structure IsEntryName (n : Name) : Prop where
  ne_nil : n ≠ []
  ne_dot : n ≠ Path.dot
  ne_dotDot : n ≠ Path.dotDot
  slash_not_mem : Path.slash ∉ n
  zero_not_mem : 0 ∉ n

namespace IsEntryName

variable {n : Name}

theorem isAbsolute_eq_false (hn : IsEntryName n) : (Path.mk n).isAbsolute = false := by
  rw [← Bool.not_eq_true, Path.isAbsolute_iff]
  rintro ⟨rest, hrest⟩
  exact hn.slash_not_mem (by simp [show n = Path.slash :: rest from hrest])

theorem pieces_eq (hn : IsEntryName n) : (Path.mk n).pieces = [n] :=
  Text.pieces_of_not_mem hn.ne_nil hn.slash_not_mem

theorem names_eq (hn : IsEntryName n) : (Path.mk n).names = [n] := by
  rw [Path.names, hn.pieces_eq]
  simp [hn.ne_dot]

theorem plain_join (hn : IsEntryName n) {p : Path} (hp : p.Plain) : (p.join ⟨n⟩).Plain := by
  refine hp.join hn.isAbsolute_eq_false ?_
  rw [hn.pieces_eq, List.mem_singleton]
  exact fun h => hn.ne_dotDot h.symm

end IsEntryName

namespace Disk

/-! ## Names of temporary files -/

/-- The digits of a temporary name. -/
def tempDigits (n : Nat) : List Char :=
  List.replicate (6 - (Nat.toDigits 10 n).length) '0' ++ Nat.toDigits 10 n

theorem tempName_eq (n : Nat) :
    tempName n = [0x2E, 0x74, 0x6D, 0x70] ++ (tempDigits n).map fun c => UInt8.ofNat c.toNat := rfl

theorem isDigit_of_mem_tempDigits {n : Nat} {c : Char} (hc : c ∈ tempDigits n) :
    c.isDigit = true := by
  rcases List.mem_append.mp hc with hzero | hdigit
  · rw [(List.mem_replicate.mp hzero).2]
    decide
  · exact Nat.isDigit_of_mem_toDigits (by decide) le_rfl hdigit

theorem toNat_of_isDigit {c : Char} (hc : c.isDigit = true) : 48 ≤ c.toNat ∧ c.toNat ≤ 57 := by
  simp only [Char.isDigit, Bool.and_eq_true, decide_eq_true_eq, ge_iff_le,
    UInt32.le_iff_toNat_le] at hc
  exact hc

theorem mem_tempName {n : Nat} {b : UInt8} (h : b ∈ tempName n) :
    b ∈ [0x2E, 0x74, 0x6D, 0x70] ∨ 48 ≤ b.toNat ∧ b.toNat ≤ 57 := by
  rw [tempName_eq, List.mem_append] at h
  refine h.imp id fun hdigit => ?_
  obtain ⟨c, hc, rfl⟩ := List.mem_map.mp hdigit
  obtain ⟨hlow, hhigh⟩ := toNat_of_isDigit (isDigit_of_mem_tempDigits hc)
  rw [UInt8.toNat_ofNat', Nat.mod_eq_of_lt (by omega)]
  exact ⟨hlow, hhigh⟩

/-- Every temporary name begins with the mark. -/
theorem exists_tempName_eq (n : Nat) :
    ∃ rest, tempName n = 0x2E :: 0x74 :: 0x6D :: 0x70 :: rest := ⟨_, rfl⟩

theorem isEntryName_tempName (n : Nat) : IsEntryName (tempName n) := by
  obtain ⟨rest, hrest⟩ := exists_tempName_eq n
  refine ⟨?_, ?_, ?_, fun h => ?_, fun h => ?_⟩
  · simp [hrest]
  · simp [hrest, Path.dot]
  · simp [hrest, Path.dotDot]
  · rcases mem_tempName h with hmem | hmem <;> revert hmem <;> decide
  · rcases mem_tempName h with hmem | hmem <;> revert hmem <;> decide

/-! ## Paths into a directory -/

variable {d d' : Disk} {p : Path} {n : Name}

theorem locate_join (hn : IsEntryName n) (p : Path) :
    d.locate (p.join ⟨n⟩) = d.locate p ++ [n] := by
  apply d.locate_append (Path.isAbsolute_join hn.isAbsolute_eq_false)
  rw [Path.names_join hn.isAbsolute_eq_false, hn.names_eq]

/-- The path of an entry of a directory can be followed if the directory's path can and
it is not too long. -/
theorem target_join (hn : IsEntryName n) {t : Target} :
    d.target (p.join ⟨n⟩) = .ok t ↔
      0 ∉ p.bytes ∧ (p.join ⟨n⟩).bytes.length ≤ maxPath ∧
        d.walk (d.start p) p.pieces = .ok t.dir ∧ t.last = .name n ∧ t.slash = false := by
  have hrel := hn.isAbsolute_eq_false
  have hzero : 0 ∉ (p.join ⟨n⟩).bytes ↔ 0 ∉ p.bytes := by
    rw [Path.zero_not_mem_join hrel]
    exact and_iff_left hn.zero_not_mem
  have hempty : (p.join ⟨n⟩).bytes ≠ [] := by
    obtain ⟨between, -, hbytes⟩ := Path.bytes_join (p := p) hrel
    rw [hbytes]
    simp [hn.ne_nil]
  have hslash : (p.join ⟨n⟩).endsInSlash = false := by
    rw [Path.endsInSlash_join hrel hn.ne_nil, Path.endsInSlash, decide_eq_false_iff_not]
    exact fun hlast => hn.slash_not_mem (List.mem_of_getLast? hlast)
  rw [target_eq_ok, hzero, Path.pieces_join hrel, hn.pieces_eq, List.dropLast_concat, start,
    Path.isAbsolute_join hrel, ← start, hslash, lastOf, List.getLast?_concat]
  simp only [hempty, hn.ne_dot, hn.ne_dotDot, ne_eq, not_false_eq_true, true_and, if_false]

/-- A temporary file is made where nothing was, and its path leads to it. -/
theorem leads_createTemp {temp : Path} {h : Handle}
    (hcreate : d.createTemp p = .ok (temp, h, d')) :
    ∃ l, d.Leads temp l ∧ d.node? l = none ∧ h.number = d.contents.size ∧ d' = d.insertFile l := by
  obtain ⟨t, htarget, rfl, hlong, hname, hnode, hnumber, rfl⟩ := createTemp_eq_ok hcreate
  have hentry : IsEntryName (d.freeName t.dir) := isEntryName_tempName _
  obtain ⟨hzero, -, hwalk, -, -⟩ := (target_join (isEntryName_tempName 0)).mp htarget
  -- the directory was followed with another name, to the same location
  have hfree : d.target (p.join ⟨d.freeName t.dir⟩) =
      .ok ⟨t.dir, .name (d.freeName t.dir), false⟩ :=
    (target_join hentry).mpr ⟨hzero, hlong, hwalk, rfl, rfl⟩
  exact ⟨_, ⟨t.dir, _, hfree, hname, rfl⟩, hnode, hnumber, rfl⟩

/-- In a plain directory the path is plain, too, so that the file is at the location that the
path names. -/
theorem locate_createTemp (hp : p.Plain) {temp : Path} {h : Handle}
    (hcreate : d.createTemp p = .ok (temp, h, d')) :
    d.Leads temp (d.locate temp) ∧ d.node? (d.locate temp) = none ∧
      h.number = d.contents.size ∧ d' = d.insertFile (d.locate temp) := by
  have htemp : temp.Plain := by
    obtain ⟨t, -, rfl, -⟩ := createTemp_eq_ok hcreate
    exact (isEntryName_tempName _).plain_join hp
  obtain ⟨l, hleads, hmade⟩ := leads_createTemp hcreate
  obtain rfl := hleads.eq_locate htemp
  exact ⟨hleads, hmade⟩

/-! ## When there can be one -/

/-- The path of an entry of a directory can be followed. -/
theorem followable_join (hn : IsEntryName n) (hname : n.length ≤ maxName) (hp : p.Plain)
    (haccepted : p.Accepted) (hlength : p.bytes.length + 1 + n.length ≤ maxPath) :
    Followable (p.join ⟨n⟩) := by
  have hrel := hn.isAbsolute_eq_false
  have hnames : (p.join ⟨n⟩).names = p.names ++ [n] := by
    rw [Path.names_join hrel, hn.names_eq]
  refine ⟨hn.plain_join hp, ⟨?_, ?_, fun m hm => ?_⟩, ?_, by simp [hnames]⟩
  · exact (Path.zero_not_mem_join hrel).mpr ⟨haccepted.zero_not_mem, hn.zero_not_mem⟩
  · exact (Path.length_join_le hrel).trans hlength
  · rw [hnames, List.mem_append, List.mem_singleton] at hm
    rcases hm with hm | rfl
    · exact haccepted.length_name_le m hm
    · exact hname
  · rw [Path.Trimmed, Path.pieces_join hrel, hn.pieces_eq, List.getLast?_concat]
    exact fun h => hn.ne_dot (Option.some.inj h)

theorem length_tempName (n : Nat) :
    (tempName n).length = max 6 (Nat.toDigits 10 n).length + 4 := by
  rw [tempName_eq, List.length_append, List.length_map, tempDigits, List.length_append,
    List.length_replicate, show [0x2E, 0x74, 0x6D, (0x70 : UInt8)].length = 4 from rfl]
  omega

theorem length_tempName_zero : (tempName 0).length = 10 := rfl

/-- The number can be read back from the digits. -/
theorem tempName_injective : Function.Injective tempName := by
  have hchar (c : Char) (hc : c.isDigit = true) : Char.ofNat (UInt8.ofNat c.toNat).toNat = c := by
    have hle := (toNat_of_isDigit hc).2
    rw [UInt8.toNat_ofNat', Nat.mod_eq_of_lt (by omega), Char.ofNat_toNat]
  have hback (n : Nat) : ((tempDigits n).map fun c => UInt8.ofNat c.toNat).map
      (fun b => Char.ofNat b.toNat) = tempDigits n := by
    rw [List.map_map, List.map_congr_left (g := id) fun c hc => ?_, List.map_id]
    exact hchar c (isDigit_of_mem_tempDigits hc)
  have hnumber (n : Nat) : Nat.ofDigitChars 10 (tempDigits n) 0 = n := by
    rw [tempDigits, Nat.ofDigitChars_append, Nat.ofDigitChars_replicate_zero, Nat.mul_zero,
      Nat.ofDigitChars_ten_toDigits]
  intro m n h
  rw [tempName_eq, tempName_eq, List.append_cancel_left_eq] at h
  calc
    m = Nat.ofDigitChars 10 (tempDigits m) 0 := (hnumber m).symm
    _ = Nat.ofDigitChars 10 (tempDigits n) 0 := by rw [← hback m, h, hback n]
    _ = n := hnumber n

/-- The first temporary name is chosen if it is free. -/
theorem freeName_eq {dir : Location} (h : d.node? (dir ++ [tempName 0]) = none) :
    d.freeName dir = tempName 0 := by
  rw [freeName, List.range_succ_eq_map, List.find?_cons_of_pos (by simp [h])]
  rfl

theorem mem_nodes_of_node? {l : Location} (hl : l ≠ []) (h : d.node? l ≠ none) :
    l ∈ d.nodes.map Prod.fst := by
  obtain ⟨node, hnode⟩ := Option.ne_none_iff_exists'.mp h
  rw [node?, if_neg hl] at hnode
  obtain ⟨before, after, hnodes, -⟩ := List.lookup_eq_some_iff.mp hnode
  rw [hnodes]
  simp

/-- The name that is chosen is the first that is free.  There is one, since there are more names
than nodes. -/
theorem exists_freeName_eq (d : Disk) (dir : Location) :
    ∃ n ≤ d.nodes.length, d.freeName dir = tempName n ∧ d.node? (dir ++ [tempName n]) = none ∧
      ∀ k < n, d.node? (dir ++ [tempName k]) ≠ none := by
  rw [freeName]
  cases hfind : (List.range (d.nodes.length + 1)).find? fun n =>
      (d.node? (dir ++ [tempName n])).isNone with
  | some n =>
    obtain ⟨hfree, hmem, hleast⟩ := List.find?_range_eq_some.mp hfind
    have hlt := List.mem_range.mp hmem
    refine ⟨n, by omega, rfl, by simpa using hfree, fun k hk => ?_⟩
    simpa [Option.isSome_iff_ne_none] using hleast k hk
  | none =>
    let candidates := (List.range (d.nodes.length + 1)).map fun n => dir ++ [tempName n]
    have hnodup : candidates.Nodup := by
      refine List.Nodup.map (fun m n h => tempName_injective ?_) List.nodup_range
      simpa using h
    have hsubset : candidates ⊆ d.nodes.map Prod.fst := by
      intro l hl
      obtain ⟨n, hn, rfl⟩ := List.mem_map.mp hl
      refine mem_nodes_of_node? (by simp) ?_
      simpa using List.find?_eq_none.mp hfind n hn
    have hlength := (hnodup.subperm hsubset).length_le
    rw [List.length_map, List.length_map, List.length_range] at hlength
    omega

/-- Which name is chosen depends only on which temporary names are free. -/
theorem freeName_congr {dir : Location}
    (h : ∀ n, d'.node? (dir ++ [tempName n]) = none ↔ d.node? (dir ++ [tempName n]) = none) :
    d'.freeName dir = d.freeName dir := by
  obtain ⟨m, -, hm, hmfree, hmleast⟩ := d.exists_freeName_eq dir
  obtain ⟨n, -, hn, hnfree, hnleast⟩ := d'.exists_freeName_eq dir
  rcases Nat.lt_trichotomy m n with hlt | rfl | hlt
  · exact absurd ((h m).mpr hmfree) (hnleast m hlt)
  · rw [hm, hn]
  · exact absurd ((h n).mp hnfree) (hmleast n hlt)

/-- If a name is free whose number is not beyond all measure, the name that is chosen can stand
in a directory. -/
theorem length_freeName_le {dir : Location} {n : Nat} (hn : n < 10 ^ 250)
    (hfree : d.node? (dir ++ [tempName n]) = none) : (d.freeName dir).length ≤ 254 := by
  obtain ⟨k, -, heq, -, hleast⟩ := d.exists_freeName_eq dir
  have hk : k ≤ n := not_lt.mp fun hlt => hleast n hlt hfree
  have hdigits : (Nat.toDigits 10 k).length ≤ 250 :=
    (Nat.length_toDigits_le_iff (by decide) (by decide)).mpr (hk.trans_lt hn)
  rw [heq, length_tempName]
  omega

/-- The name that is chosen for a temporary file in a directory can stand there, and the path of
the file is not too long. -/
def FitsTemp (d : Disk) (p : Path) : Prop :=
  (d.freeName (d.locate p)).length ≤ maxName ∧
    (if p.isAbsolute then 0 else d.baseLength + 1) +
      (p.join ⟨d.freeName (d.locate p)⟩).bytes.length ≤ maxPath

theorem fitsTemp_congr (hbase : d'.base = d.base)
    (h : ∀ n, d'.node? (d.locate p ++ [tempName n]) = none ↔
      d.node? (d.locate p ++ [tempName n]) = none) : d'.FitsTemp p ↔ d.FitsTemp p := by
  rw [FitsTemp, FitsTemp, locate_of_base hbase, freeName_congr h, baseLength, baseLength, hbase]

/-- In a directory that is there a temporary file is made, or its name or path is too long. -/
theorem createTemp_of_dirs (hp : p.Plain) (haccepted : p.Accepted)
    (hlength : p.bytes.length + 11 ≤ maxPath)
    (hdirs : ∀ m, m <+: d.locate p → d.node? m = some .dir) :
    (d.FitsTemp p → ∃ made, d.createTemp p = .ok made) ∧
      (¬ d.FitsTemp p → d.createTemp p = .error (.system .nameTooLong)) := by
  obtain ⟨n, -, heq, hfree, -⟩ := d.exists_freeName_eq (d.locate p)
  have hentry := isEntryName_tempName 0
  have hfollow : Followable (p.join ⟨tempName 0⟩) :=
    followable_join hentry (by decide) hp haccepted (by rw [length_tempName_zero]; omega)
  have hdrop : (d.locate (p.join ⟨tempName 0⟩)).dropLast = d.locate p := by
    rw [locate_join hentry, List.dropLast_concat]
  have htarget := target_of_dirs hfollow fun m hm => hdirs m (hdrop ▸ hm)
  rw [hdrop] at htarget
  simp only [createTemp, htarget, bind, Except.bind, FitsTemp, heq]
  generalize (if p.isAbsolute = true then 0 else d.baseLength + 1) = above
  constructor
  · rintro ⟨hname, hpath⟩
    have hfind : d.find (d.locate p) (tempName n) = .ok none := by
      rw [d.find_of_length_le _ hname, hfree]
    refine ⟨(p.join ⟨tempName n⟩, ⟨d.contents.size⟩, d.insertFile (d.locate p ++ [tempName n])), ?_⟩
    rw [if_neg (not_lt.mpr hpath), hfind]
    rfl
  · intro hlong
    split_ifs with hpath
    · rfl
    · have hname : maxName < (tempName n).length :=
        not_le.mp fun hle => hlong ⟨hle, not_lt.mp hpath⟩
      rw [find, if_pos hname]

/-- A temporary file can be made in a directory that is there, if there is room for the path
of the file. -/
theorem exists_createTemp_eq_ok (hp : p.Plain) (haccepted : p.Accepted)
    (hdirs : ∀ m, m <+: d.locate p → d.node? m = some .dir)
    (hname : (d.freeName (d.locate p)).length ≤ maxName)
    (hroom : (if p.isAbsolute then 0 else d.baseLength + 1) + p.bytes.length +
      (d.freeName (d.locate p)).length < maxPath) :
    ∃ made, d.createTemp p = .ok made := by
  obtain ⟨n, -, heq, -, -⟩ := d.exists_freeName_eq (d.locate p)
  have hten := length_tempName n
  have hlength : (p.join ⟨tempName n⟩).bytes.length ≤ p.bytes.length + 1 + (tempName n).length :=
    Path.length_join_le (isEntryName_tempName n).isAbsolute_eq_false
  rw [heq] at hname hroom
  refine (createTemp_of_dirs hp haccepted (by omega) hdirs).1 ⟨heq ▸ hname, ?_⟩
  rw [heq]
  omega

/-- So it can when the directory has just been made and the tree was not beyond all measure before:
a name that was free is free still, and its number is small. -/
theorem exists_createTemp_of_made (hp : p.Plain) (haccepted : p.Accepted)
    (hnodes : d.nodes.length < 10 ^ 250) (hbase : d'.base = d.base)
    (hfree : ∀ n, d.node? (d.locate p ++ [tempName n]) = none →
      d'.node? (d.locate p ++ [tempName n]) = none)
    (hdirs : ∀ m, m <+: d'.locate p → d'.node? m = some .dir)
    (hroom : (if p.isAbsolute then 0 else d.baseLength + 1) + p.bytes.length + 255 ≤ maxPath) :
    ∃ made, d'.createTemp p = .ok made := by
  obtain ⟨n, hn, -, hnone, -⟩ := d.exists_freeName_eq (d.locate p)
  have hnone' := hfree n hnone
  rw [← locate_of_base hbase] at hnone'
  have hname := length_freeName_le (hn.trans_lt hnodes) hnone'
  have hlong : d'.baseLength = d.baseLength := by rw [baseLength, hbase, baseLength]
  refine exists_createTemp_eq_ok hp haccepted hdirs (hname.trans (by decide)) ?_
  rw [hlong]
  omega

end Disk

end BlobStore
