import BlobStore.Proofs.Sharding.Shelf
import BlobStore.Proofs.Store.ClearWay
import BlobStore.Proofs.Store.Removing

/-!
# Sites in a sharded store

Every key has a site in a sharded store, at the shelf of its digest below the root
(`exists_site`).  If the root is one that can be followed and leaves room for the paths
of objects, so can all paths of the store be followed.
-/

namespace BlobStore

open Sharding (blocks)

variable {sh : Sharding} {key : String}

namespace Sharding

theorem toList_pathname (sh : Sharding) (key : String) :
    (sh.place key).pathname.toList = ['/'].intercalate (blocks sh.blockSize (sh.digest key)) :=
  String.toList_ofList

theorem toList_filename (sh : Sharding) (key : String) :
    (sh.place key).filename.toList = sh.digest key := String.toList_ofList

theorem blocks_ne_nil {h b : List Char} (hb : b ∈ blocks sh.blockSize h) : b ≠ [] := by
  rintro rfl
  have hpos := sh.blockSize_pos
  have hlength := (of_mem_blocks hb).1
  rw [List.length_nil] at hlength
  omega

theorem slash_not_mem_digest (sh : Sharding) (key : String) : '/' ∉ sh.digest key := fun h =>
  slash_not_isDigit ((sh.isDigest_digest key).isDigit _ h)

/-- Cutting the pathname at slashes gives the blocks back. -/
theorem pieces_pathname (sh : Sharding) (key : String) :
    Text.pieces '/' (sh.place key).pathname.toList = blocks sh.blockSize (sh.digest key) := by
  rw [toList_pathname, Text.pieces_intercalate, List.filter_eq_self]
  · intro b hb
    simpa using blocks_ne_nil hb
  · exact fun b hb hmem => sh.slash_not_mem_digest key ((of_mem_blocks hb).2.2 _ hmem)

theorem pieces_filename (sh : Sharding) (key : String) :
    Text.pieces '/' (sh.place key).filename.toList = [sh.digest key] := by
  rw [toList_filename]
  exact Text.pieces_of_not_mem (sh.isDigest_digest key).ne_nil (sh.slash_not_mem_digest key)

/-! ## The placement of a key -/

/-- A text of hexadecimal pieces that begins with one of them leads down. -/
theorem plain_of_hex {s : String} {c : Char} {cs : List Char} (hs : s.toList = c :: cs)
    (hc : Text.Hex.IsDigit c)
    (hpieces : ∀ b ∈ Text.pieces '/' s.toList, ∀ c ∈ b, Text.Hex.IsDigit c) :
    (Path.ofString s).Plain ∧ (Path.ofString s).isAbsolute = false := by
  have hone : ∀ x ∈ [c], Text.Hex.IsDigit x := by simpa using hc
  obtain ⟨hlength, -, hdot, hslash⟩ := Text.encode_isDigit hone
  obtain ⟨b, hb⟩ := List.length_eq_one_iff.mp hlength
  rw [hb, List.mem_singleton] at hdot hslash
  have hbytes : (Path.ofString s).bytes = b :: Text.encode cs := by
    rw [bytes_ofString, hs, ← List.singleton_append, Text.encode_append, hb, List.singleton_append]
  apply Path.plain_of_head hbytes (Ne.symm hdot) (Ne.symm hslash)
  intro hup
  rw [pieces_ofString, List.mem_map] at hup
  obtain ⟨piece, hmem, heq⟩ := hup
  exact (Text.encode_isDigit (hpieces piece hmem)).2.2.1 (heq ▸ by decide)

theorem plain_filename (sh : Sharding) (key : String) :
    (Path.ofString (sh.place key).filename).Plain ∧
      (Path.ofString (sh.place key).filename).isAbsolute = false := by
  have hdigest := sh.isDigest_digest key
  obtain ⟨c, cs, hcons⟩ := List.exists_cons_of_ne_nil hdigest.ne_nil
  refine plain_of_hex ((sh.toList_filename key).trans hcons) (hdigest.isDigit c (by simp [hcons])) ?_
  intro b hb
  rw [pieces_filename, List.mem_singleton] at hb
  exact hb ▸ hdigest.isDigit

theorem leadsDown_pathname (sh : Sharding) (key : String) :
    Store.leadsDown (sh.place key).pathname = true := by
  have hdigest := sh.isDigest_digest key
  cases hblocks : blocks sh.blockSize (sh.digest key) with
  | nil =>
    have hempty : (sh.place key).pathname = "" := by
      rw [← String.toList_eq_nil_iff, toList_pathname, hblocks]
      rfl
    rw [hempty]
    decide
  | cons b bs =>
    have hb : b ∈ blocks sh.blockSize (sh.digest key) := by simp [hblocks]
    obtain ⟨c, cs, rfl⟩ := List.exists_cons_of_ne_nil (blocks_ne_nil hb)
    have hdigit : ∀ b ∈ blocks sh.blockSize (sh.digest key), ∀ c ∈ b, Text.Hex.IsDigit c :=
      fun b hb c hc => hdigest.isDigit c ((of_mem_blocks hb).2.2 c hc)
    have hhead : ∃ rest, (sh.place key).pathname.toList = c :: rest := by
      rw [toList_pathname, hblocks]
      cases bs with
      | nil => exact ⟨cs, by simp⟩
      | cons b' bs => exact ⟨_, by rw [List.intercalate_cons_cons]; rfl⟩
    obtain ⟨rest, hrest⟩ := hhead
    obtain ⟨hplain, hrel⟩ := plain_of_hex hrest (hdigit _ hb c List.mem_cons_self)
      (by rw [pieces_pathname]; exact hdigit)
    exact leadsDown_of_plain hplain hrel

theorem accepted_place (sh : Sharding) (key : String) : (sh.place key).Accepted where
  lastPiece_ne_nil := by
    rw [Store.lastPiece, toList_filename, Text.parts_of_not_mem (sh.slash_not_mem_digest key)]
    exact (sh.isDigest_digest key).ne_nil
  pathname := sh.leadsDown_pathname key
  filename := leadsDown_of_plain (sh.plain_filename key).1 (sh.plain_filename key).2

/-- The names of the placement of a key are the shelf of its digest. -/
theorem names_place (sh : Sharding) (key : String) :
    (sh.place key).names = sh.shelf (sh.digest key) := by
  have hnames : ((blocks sh.blockSize (sh.digest key)).map Text.encode ++
      [Text.encode (sh.digest key)]).filter (· ≠ Path.dot) = sh.shelf (sh.digest key) := by
    rw [List.filter_eq_self.mpr]
    · rfl
    · intro n hn
      simpa using ((sh.isDigest_digest key).isEntryName_of_mem_shelf hn).ne_dot
  rw [Placement.names, Path.names, Path.names, pieces_ofString, pieces_ofString, pieces_pathname,
    pieces_filename, ← List.filter_append, List.map_singleton]
  exact hnames

/-- The first segment of a placement is the first block of the digest. -/
theorem firstSegment_place (sh : Sharding) (key : String) :
    (sh.place key).firstSegment =
      if sh.depth = 0 then "" else String.ofList ((sh.digest key).take sh.blockSize) := by
  have hsegments : (sh.place key).segments =
      (blocks sh.blockSize (sh.digest key)).map String.ofList :=
    congrArg (List.map String.ofList) (sh.pieces_pathname key)
  have hlength : (sh.digest key).length / sh.blockSize = sh.depth := by
    rw [(sh.isDigest_digest key).length_eq, depth]
  rw [Placement.firstSegment, hsegments]
  split_ifs with hdepth
  · rw [blocks, hlength, hdepth]
    rfl
  · obtain ⟨rest, hblocks⟩ := blocks_eq_cons sh.blockSize (sh.digest key)
      (by rw [hlength]; exact hdepth)
    rw [hblocks]
    rfl

/-! ## The text of a path -/

/-- Joined blocks take no more than one further character for each. -/
theorem length_intercalate_le {width : Nat} {bs : List (List Char)}
    (h : ∀ b ∈ bs, b.length = width) : (['/'].intercalate bs).length ≤ bs.length * (width + 1) := by
  induction bs with
  | nil => simp
  | cons b bs ih =>
    have hb := h b List.mem_cons_self
    have hrest := ih fun b' hb' => h b' (List.mem_cons_of_mem _ hb')
    cases bs with
    | nil =>
      rw [List.intercalate_singleton, List.length_singleton]
      omega
    | cons b' bs =>
      rw [List.intercalate_cons_cons, List.length_append, List.length_append, List.length_singleton,
        List.length_cons, Nat.succ_mul]
      omega

/-- A full path consists of hexadecimal digits and slashes. -/
theorem mem_fullPath {c : Char} (hc : c ∈ (sh.place key).fullPath.toList) :
    c = '/' ∨ Text.Hex.IsDigit c := by
  have hdigest := sh.isDigest_digest key
  rw [Placement.fullPath] at hc
  split_ifs at hc
  · rw [toList_filename] at hc
    exact Or.inr (hdigest.isDigit c hc)
  · rw [String.toList_append, String.toList_append, List.mem_append, List.mem_append,
      toList_filename, toList_pathname] at hc
    rcases hc with (hpath | hslash) | hname
    · rcases Text.mem_intercalate hpath with heq | ⟨b, hb, hcb⟩
      · exact Or.inl heq
      · exact Or.inr (hdigest.isDigit c ((of_mem_blocks hb).2.2 c hcb))
    · exact Or.inl (by simpa using hslash)
    · exact Or.inr (hdigest.isDigit c hname)

theorem length_pathname_le (sh : Sharding) (key : String) :
    ((sh.place key).pathname.toList).length ≤ 128 := by
  have hle := (sh.isDigest_digest key).length_le
  have hwidth : ∀ b ∈ blocks sh.blockSize (sh.digest key), b.length = sh.blockSize :=
    fun b hb => (of_mem_blocks hb).1
  have hblocks := length_intercalate_le hwidth
  have hmul := Nat.div_mul_le_self (sh.digest key).length sh.blockSize
  have hdiv := Nat.div_le_self (sh.digest key).length sh.blockSize
  rw [length_blocks, Nat.mul_succ] at hblocks
  rw [toList_pathname]
  omega

/-- The full path of a placement is short and holds no zero byte. -/
theorem bytes_fullPath (sh : Sharding) (key : String) :
    (Path.ofString (sh.place key).fullPath).bytes.length ≤ 193 ∧
      0 ∉ (Path.ofString (sh.place key).fullPath).bytes := by
  have hchar : ∀ c ∈ (sh.place key).fullPath.toList,
      (String.utf8EncodeChar c).length = 1 ∧ 0 ∉ String.utf8EncodeChar c := by
    intro c hc
    rcases mem_fullPath hc with rfl | hdigit
    · decide
    · obtain ⟨hone, hzero, -⟩ := Text.utf8EncodeChar_isDigit hdigit
      exact ⟨hone, hzero⟩
  rw [bytes_ofString, Text.length_encode fun c hc => (hchar c hc).1]
  refine ⟨?_, Text.not_mem_encode fun c hc => (hchar c hc).2⟩
  have hdigest := (sh.isDigest_digest key).length_le
  have hpathname := sh.length_pathname_le key
  rw [Placement.fullPath]
  split_ifs
  · rw [toList_filename]
    omega
  · rw [String.toList_append, String.toList_append, List.length_append, List.length_append,
      toList_filename, show ("/".toList).length = 1 from rfl]
    omega

/-! ## Paths below a root -/

/-- A root below which all paths of a sharded store can be followed: its names can stand in
directories, and it leaves room for the paths of objects. -/
structure Root (root : Path) (d : Disk) : Prop where
  plain : root.Plain
  zero_not_mem : 0 ∉ root.bytes
  length_name_le : ∀ n ∈ root.names, n.length ≤ Disk.maxName
  room : (if root.isAbsolute then 0 else d.baseLength + 1) + root.bytes.length + 256 ≤ Disk.maxPath

namespace Root

variable {root : Path} {d : Disk}

theorem of_base (h : Root root d) {d' : Disk} (hbase : d'.base = d.base) : Root root d' where
  plain := h.plain
  zero_not_mem := h.zero_not_mem
  length_name_le := h.length_name_le
  room := by
    rw [Disk.baseLength, hbase]
    exact h.room

theorem accepted (h : Root root d) : root.Accepted where
  zero_not_mem := h.zero_not_mem
  length_le := by
    have := h.room
    omega
  length_name_le := h.length_name_le

end Root

variable {root : Path} {d : Disk} {atomic : Bool}

/-- The site of a key in a sharded store. -/
theorem exists_site (sh : Sharding) (root : Path) (atomic : Bool) (key : String) :
    ∃ site, (Store.mk root (Layout.sharded sh) atomic).site key = .ok site :=
  Store.exists_site (sh.accepted_place key)

section sites

variable {site : Site}

theorem file_eq_join (hsite : (Store.mk root (Layout.sharded sh) atomic).site key = .ok site) :
    site.file = root.join (Path.ofString (sh.place key).fullPath) ∧
      (Path.ofString (sh.place key).fullPath).isAbsolute = false := by
  obtain ⟨hplacement, haccepted, hfile, -⟩ := Store.site_eq_ok hsite
  rw [show site.placement = sh.place key from hplacement] at hfile haccepted
  exact ⟨hfile, haccepted.isAbsolute_fullPath⟩

theorem length_file_le (hsite : (Store.mk root (Layout.sharded sh) atomic).site key = .ok site) :
    site.file.bytes.length ≤ root.bytes.length + 194 := by
  obtain ⟨hfile, hrel⟩ := file_eq_join hsite
  obtain ⟨hlength, -⟩ := sh.bytes_fullPath key
  have hjoin : (root.join (Path.ofString (sh.place key).fullPath)).bytes.length ≤ _ :=
    Path.length_join_le hrel
  rw [← hfile] at hjoin
  omega

/-- The names of a site are the shelf of the key's digest. -/
theorem names_site (hsite : (Store.mk root (Layout.sharded sh) atomic).site key = .ok site) :
    site.placement.names = sh.shelf (sh.digest key) := by
  rw [(Store.site_eq_ok hsite).1]
  exact sh.names_place key

theorem locate_file_of_plain (hroot : root.Plain)
    (hsite : (Store.mk root (Layout.sharded sh) atomic).site key = .ok site) (d' : Disk) :
    d'.locate site.file = d'.locate root ++ sh.shelf (sh.digest key) := by
  rw [(Store.below_of_site hroot hsite).locate_file d', names_site hsite]

theorem locate_dir_of_plain (hroot : root.Plain)
    (hsite : (Store.mk root (Layout.sharded sh) atomic).site key = .ok site) (d' : Disk) :
    d'.locate site.dir = d'.locate root ++ sh.shelfDirs (sh.digest key) := by
  rw [(Store.below_of_site hroot hsite).locate_dir d', names_site hsite, shelf,
    List.dropLast_concat]

variable (hroot : Root root d)
  (hsite : (Store.mk root (Layout.sharded sh) atomic).site key = .ok site)

include hroot hsite

theorem locate_file (d' : Disk) :
    d'.locate site.file = d'.locate root ++ sh.shelf (sh.digest key) :=
  locate_file_of_plain hroot.plain hsite d'

theorem locate_dir (d' : Disk) :
    d'.locate site.dir = d'.locate root ++ sh.shelfDirs (sh.digest key) :=
  locate_dir_of_plain hroot.plain hsite d'

/-- The path of an object can be followed, and no slash follows its last name. -/
theorem followable_file : Disk.Followable site.file ∧ site.file.endsInSlash = false := by
  have hdigest := sh.isDigest_digest key
  have hname := hdigest.isEntryName_of_mem_shelf (List.mem_append_right _ List.mem_cons_self)
  have hbelow := Store.below_of_site hroot.plain hsite
  obtain ⟨hfile, hrel⟩ := file_eq_join hsite
  have hnames : site.file.names = root.names ++ sh.shelf (sh.digest key) := by
    rw [hbelow.names_file, names_site hsite]
  refine ⟨⟨hbelow.plain_file, ⟨?_, ?_, fun n hn => ?_⟩, ?_, ?_⟩, Store.endsInSlash_file hsite⟩
  · rw [hfile, Path.zero_not_mem_join hrel]
    exact ⟨hroot.zero_not_mem, (sh.bytes_fullPath key).2⟩
  · have hroom := hroot.room
    have hlength := length_file_le hsite
    omega
  · rw [hnames, List.mem_append] at hn
    rcases hn with hn | hn
    · exact hroot.length_name_le n hn
    · obtain ⟨-, -, -, -, hle⟩ := hdigest.of_mem_shelf hn
      exact hle.trans (by decide)
  · rw [Path.Trimmed, hfile, Path.pieces_join hrel,
      Placement.pieces_fullPath, pieces_ofString (sh.place key).filename, pieces_filename,
      List.map_singleton, ← List.append_assoc, List.getLast?_concat]
    exact fun h => hname.ne_dot (Option.some.inj h)
  · rw [hnames]
    simp [shelf]

/-- The directory of an object can be followed, too, unless it is the top. -/
theorem followable_dir_of_ne (hne : root.names ++ sh.shelfDirs (sh.digest key) ≠ []) :
    Disk.Followable site.dir := by
  have hbelow := Store.below_of_site hroot.plain hsite
  rw [hbelow.dir_eq]
  refine (followable_file hroot hsite).1.above ?_
  rwa [hbelow.names_file, names_site hsite, shelf, ← List.append_assoc, List.dropLast_concat]

theorem followable_dir (hne : root.names ≠ []) : Disk.Followable site.dir :=
  followable_dir_of_ne hroot hsite (List.append_ne_nil_of_left_ne_nil hne _)

theorem room_dir : (if site.dir.isAbsolute then 0 else d.baseLength + 1) +
    site.dir.bytes.length + 11 ≤ Disk.maxPath := by
  have hbelow := Store.below_of_site hroot.plain hsite
  have hroom := hroot.room
  have habove := hbelow.plain_file.isPrefix_above.length_le
  have hlength := length_file_le hsite
  rw [hbelow.dir_eq, hbelow.plain_file.isAbsolute_above, hbelow.isAbsolute_file]
  dsimp only
  omega

end sites

/-! ## What a deletion removes -/

/-- The name of the first directory of a key, if there are directories. -/
def block (sh : Sharding) (key : String) : Name :=
  Text.encode ((sh.digest key).take sh.blockSize)

section block

variable (hdepth : sh.depth ≠ 0) (key)

include hdepth

theorem block_mem_shelf : sh.block key ∈ sh.shelf (sh.digest key) := by
  obtain ⟨rest, hrest⟩ := shelfDirs_eq_cons hdepth (sh.isDigest_digest key)
  rw [shelf, hrest]
  exact List.mem_append_left _ List.mem_cons_self

theorem isEntryName_block : IsEntryName (sh.block key) :=
  (sh.isDigest_digest key).isEntryName_of_mem_shelf (block_mem_shelf key hdepth)

/-- The path of the first directory can be followed. -/
theorem followable_block (hroot : Root root d) :
    Disk.Followable (root.join ⟨sh.block key⟩) ∧
      (root.join ⟨sh.block key⟩).endsInSlash = false := by
  have hentry := isEntryName_block key hdepth
  obtain ⟨-, -, -, -, hlength⟩ :=
    (sh.isDigest_digest key).of_mem_shelf (block_mem_shelf key hdepth)
  have hroom := hroot.room
  constructor
  · exact Disk.followable_join hentry (hlength.trans (by decide)) hroot.plain hroot.accepted
      (by omega)
  · rw [Path.endsInSlash_join hentry.isAbsolute_eq_false hentry.ne_nil, Path.endsInSlash,
      decide_eq_false_iff_not]
    exact fun hlast => hentry.slash_not_mem (List.mem_of_getLast? hlast)

/-- If there are directories, a deletion removes the first one. -/
theorem run_delete_of_depth (root : Path) (atomic : Bool) (d : Disk) :
    ((Store.mk root (Layout.sharded sh) atomic).delete key).run d =
      (Store.removing (.removeTree (root.join ⟨sh.block key⟩))).run d := by
  obtain ⟨site, hsite⟩ := exists_site sh root atomic key
  have hfirst : site.placement.firstSegment =
      String.ofList ((sh.digest key).take sh.blockSize) := by
    rw [(Store.site_eq_ok hsite).1]
    exact (sh.firstSegment_place key).trans (if_neg hdepth)
  have hempty : (String.ofList ((sh.digest key).take sh.blockSize)).isEmpty = false := by
    rw [← Bool.not_eq_true, String.isEmpty_iff, ← String.toList_eq_nil_iff, String.toList_ofList]
    exact fun hnil => (isEntryName_block key hdepth).ne_nil (by rw [block, hnil]; rfl)
  rw [Store.delete_eq hsite, hfirst, hempty, if_neg Bool.false_ne_true, ofString_ofList]
  rfl

end block

end Sharding

end BlobStore
