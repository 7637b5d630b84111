import BlobStore.Proofs.Sharding.Site
import BlobStore.Proofs.Store.Acceptance

/-!
# Cutting a digest

The pathname of a key in a sharded store is made from its digest in two steps, cutting and joining,
and taken apart in one, at the slashes.  Whatever the width of the blocks is, nothing is lost on the
way: the segments of the pathname are the blocks again (`segments_place`), and these put together
are the beginning of the digest that whole blocks can cover (`flatten_blocks`).

The cut is done on a machine that counts in words of 64 bits and takes pieces of a text by their
ends.  `Sharding.place?` is the placement made in this way.  It gives nothing if a number does not
fit into a word or a piece does not lie in the text, and this never happens
(`blocks?_eq_blocks`): every piece ends within the digest, which is short.
-/

namespace BlobStore

/-! ## Cutting with words of 64 bits -/

/-- A number, if it fits into a word. -/
def word? (n : Nat) : Option Nat := if n < 2 ^ 64 then some n else none

/-- The piece of a text between two positions, if it has them in this order. -/
def Text.slice? (cs : List Char) (start stop : Nat) : Option (List Char) :=
  if start ≤ stop ∧ stop ≤ cs.length then some ((cs.drop start).take (stop - start)) else none

namespace Sharding

/-- The piece of a given number, cut with words. -/
def block? (width : Nat) (cs : List Char) (i : Nat) : Option (List Char) := do
  let start ← word? (i * width)
  let next ← word? (i + 1)
  let stop ← word? (next * width)
  Text.slice? cs start stop

/-- The pieces of a width into which a text is cut, cut with words. -/
def blocks? (width : Nat) (cs : List Char) : Option (List (List Char)) :=
  (List.range (cs.length / width)).mapM (block? width cs)

/-- The placement of a key, made with words. -/
def place? (sh : Sharding) (key : String) : Option Placement := do
  let digest := sh.algorithm.hexDigest key.toUTF8
  let pieces ← blocks? sh.blockSize digest
  return ⟨String.ofList (['/'].intercalate pieces), String.ofList digest⟩

variable {width : Nat} {cs : List Char}

/-- A piece of a text that is not too long is cut within the text. -/
theorem block?_eq_some {i : Nat} (hi : i < cs.length / width) (hcs : cs.length < 2 ^ 64) :
    block? width cs i = some ((cs.drop (i * width)).take width) := by
  have hwidth : 0 < width := Nat.pos_of_ne_zero (by rintro rfl; simp at hi)
  have hend : (i + 1) * width ≤ cs.length := (Nat.le_div_iff_mul_le hwidth).mp hi
  have hsplit : (i + 1) * width = i * width + width := Nat.succ_mul i width
  have hnext : i + 1 ≤ (i + 1) * width := Nat.le_mul_of_pos_right _ hwidth
  have hwords : word? (i * width) = some (i * width) ∧ word? (i + 1) = some (i + 1) ∧
      word? ((i + 1) * width) = some ((i + 1) * width) :=
    ⟨if_pos (by omega), if_pos (by omega), if_pos (by omega)⟩
  have hslice : Text.slice? cs (i * width) ((i + 1) * width) =
      some ((cs.drop (i * width)).take width) := by
    rw [Text.slice?, if_pos ⟨by omega, hend⟩, hsplit, Nat.add_sub_cancel_left]
  simp only [block?, hwords, bind, Option.bind, hslice]

/-- No word is too small for the cut of a text that is not too long. -/
theorem blocks?_eq_blocks (width : Nat) (hcs : cs.length < 2 ^ 64) :
    blocks? width cs = some (blocks width cs) := by
  have hall (is : List Nat) (his : ∀ i ∈ is, i < cs.length / width) :
      is.mapM (block? width cs) = some (is.map fun i => (cs.drop (i * width)).take width) := by
    induction is with
    | nil => rfl
    | cons i is ih =>
      have hrest := ih fun j hj => his j (List.mem_cons_of_mem _ hj)
      simp [List.mapM_cons, block?_eq_some (his i List.mem_cons_self) hcs, hrest]
  exact hall _ fun i hi => List.mem_range.mp hi

/-! ## Putting together -/

/-- The pieces of a text put together are its beginning. -/
theorem flatten_blocks (width : Nat) (cs : List Char) :
    (blocks width cs).flatten = cs.take (cs.length / width * width) := by
  have hfirst (n : Nat) : ((List.range n).map fun i => (cs.drop (i * width)).take width).flatten =
      cs.take (n * width) := by
    induction n with
    | zero => simp
    | succ n ih =>
      rw [List.range_succ, List.map_append, List.flatten_append, ih, List.map_singleton,
        List.flatten_singleton, Nat.succ_mul, List.take_add]
  exact hfirst _

end Sharding

/-- One more piece is joined by one more separator. -/
theorem Text.intercalate_concat {α : Type} {sep : α} {ps : List (List α)} (hne : ps ≠ [])
    (q : List α) : [sep].intercalate (ps ++ [q]) = [sep].intercalate ps ++ sep :: q := by
  induction ps with
  | nil => exact absurd rfl hne
  | cons p ps ih =>
    cases ps with
    | nil => simp [List.intercalate_cons_cons]
    | cons p' ps =>
      rw [List.cons_append, List.cons_append, List.intercalate_cons_cons,
        List.intercalate_cons_cons, ← List.cons_append, ih (by simp)]
      simp only [List.append_assoc]

namespace Sharding

variable (sh : Sharding) (key : String)

theorem segments_place : (sh.place key).segments =
    (blocks sh.blockSize (sh.digest key)).map String.ofList :=
  congrArg (List.map String.ofList) (sh.pieces_pathname key)

/-- There are as many segments as whole blocks. -/
theorem length_segments : (sh.place key).segments.length = sh.depth := by
  rw [segments_place, List.length_map, length_blocks, (sh.isDigest_digest key).length_eq, depth]

/-- There is no segment if a block is longer than the whole digest. -/
theorem segments_eq_nil_iff :
    (sh.place key).segments = [] ↔ sh.algorithm.hexLength < sh.blockSize := by
  rw [← List.length_eq_zero_iff, length_segments, depth, Nat.div_eq_zero_iff_lt sh.blockSize_pos]

/-- The pathname is the segments between slashes. -/
theorem toList_pathname_eq_segments : (sh.place key).pathname.toList =
    ['/'].intercalate ((sh.place key).segments.map String.toList) := by
  rw [toList_pathname, segments_place, List.map_map]
  congr 1
  simp [Function.comp_def]

theorem pathname_eq_empty_iff : (sh.place key).pathname = "" ↔ (sh.place key).segments = [] := by
  constructor
  · intro hempty
    rw [Placement.segments, hempty]
    rfl
  · intro hnil
    rw [← String.toList_eq_nil_iff, toList_pathname_eq_segments, hnil]
    rfl

/-- The full path is the segments and the digest between slashes. -/
theorem toList_fullPath : (sh.place key).fullPath.toList =
    ['/'].intercalate (((sh.place key).segments ++ [(sh.place key).filename]).map String.toList) := by
  rw [Placement.fullPath, List.map_append, List.map_singleton]
  split_ifs with hempty
  · rw [(sh.pathname_eq_empty_iff key).mp (String.isEmpty_iff.mp hempty)]
    simp
  · have hne : (sh.place key).segments.map String.toList ≠ [] := by
      rw [ne_eq, List.map_eq_nil_iff, ← pathname_eq_empty_iff]
      exact fun h => hempty (String.isEmpty_iff.mpr h)
    rw [Text.intercalate_concat hne, ← toList_pathname_eq_segments, String.toList_append,
      String.toList_append, List.append_assoc]
    rfl

/-- No part of a pathname is empty, unless all of it is. -/
theorem nil_not_mem_parts (hne : (sh.place key).segments ≠ []) :
    [] ∉ textParts (sh.place key).pathname := by
  have hblocks : blocks sh.blockSize (sh.digest key) ≠ [] := by
    rwa [segments_place, ne_eq, List.map_eq_nil_iff] at hne
  rw [textParts, toList_pathname, Text.parts_intercalate hblocks]
  · exact fun hmem => blocks_ne_nil hmem rfl
  · exact fun b hb hmem => sh.slash_not_mem_digest key ((of_mem_blocks hb).2.2 _ hmem)

theorem length_of_mem_segments {segment : String} (h : segment ∈ (sh.place key).segments) :
    segment.length = sh.blockSize := by
  rw [segments_place, List.mem_map] at h
  obtain ⟨b, hb, rfl⟩ := h
  rw [String.length_ofList]
  exact (of_mem_blocks hb).1

theorem flatMap_segments : (sh.place key).segments.flatMap String.toList =
    (sh.digest key).take (sh.algorithm.hexLength / sh.blockSize * sh.blockSize) := by
  rw [segments_place, List.flatMap_map]
  simp only [String.toList_ofList, List.flatMap_id']
  rw [flatten_blocks, (sh.isDigest_digest key).length_eq]

/-- There is a first segment if the digest has a whole block. -/
theorem toList_firstSegment : (sh.place key).firstSegment.toList =
    if sh.blockSize ≤ sh.algorithm.hexLength then (sh.digest key).take sh.blockSize else [] := by
  have hdepth : sh.depth = 0 ↔ sh.algorithm.hexLength < sh.blockSize :=
    Nat.div_eq_zero_iff_lt sh.blockSize_pos
  rw [firstSegment_place]
  split_ifs with hzero hle hle
  · exact absurd (hdepth.mp hzero) (Nat.not_lt.mpr hle)
  · rfl
  · exact String.toList_ofList
  · exact absurd (hdepth.mpr (Nat.lt_of_not_le hle)) hzero

/-- A digest is so short that its placement can always be made with words. -/
theorem place?_eq_place : sh.place? key = some (sh.place key) := by
  have hshort : (sh.digest key).length < 2 ^ 64 := by
    have := (sh.isDigest_digest key).length_le
    omega
  have hblocks := blocks?_eq_blocks sh.blockSize hshort
  rw [digest] at hblocks
  simp only [place?, hblocks, bind, Option.bind]
  rfl

/-- Every store with the layout accepts its placements. -/
theorem exists_site_of_layout {s : Store} (hs : s.layout = Layout.sharded sh) :
    ∃ site, s.site key = .ok site ∧ site.placement = sh.place key := by
  have hplace : s.layout key = sh.place key := by
    rw [hs]
    rfl
  have haccepted : (s.layout key).Accepted := by
    rw [hplace]
    exact sh.accepted_place key
  obtain ⟨site, hsite⟩ := Store.exists_site haccepted
  exact ⟨site, hsite, (Store.site_eq_ok hsite).1.trans hplace⟩

/-- **A sharded layout cuts the digest of a key into blocks.**  For every algorithm, every width and
every key the placement can be made with words of 64 bits.  Its filename is the digest in lowercase
hexadecimal digits, of which the algorithm alone tells the number.  Its segments are as many as whole
blocks fit into the digest; each has the width of a block, and put together they are the beginning
of the digest.  The pathname is these segments between slashes, so that none of its parts is empty,
and the full path is the segments and the filename between slashes.  Every store accepts the
placement. -/
theorem place_cuts_digest (sh : Sharding) (key : String) :
    let p := sh.place key
    let width := sh.blockSize
    let length := sh.algorithm.hexLength
    (length = match sh.algorithm with | .sha1 => 40 | .blake3 => 64) ∧
    sh.place? key = some p ∧
    (p.filename.toList = Text.Hex.encode (sh.algorithm.digest key.toUTF8).toList ∧
      p.filename.length = length ∧ p.filename.utf8ByteSize = length ∧
      ∀ c ∈ p.filename.toList, Text.Hex.IsDigit c) ∧
    (p.segments.length = length / width ∧ (∀ segment ∈ p.segments, segment.length = width) ∧
      p.segments.flatMap String.toList = p.filename.toList.take (length / width * width)) ∧
    (p.pathname.toList = ['/'].intercalate (p.segments.map String.toList) ∧
      (width ≤ length → [] ∉ textParts p.pathname) ∧ (length < width → p.pathname = "")) ∧
    p.firstSegment.toList = (if width ≤ length then p.filename.toList.take width else []) ∧
    p.fullPath.toList = ['/'].intercalate ((p.segments ++ [p.filename]).map String.toList) ∧
    ∀ s : Store, s.layout = Layout.sharded sh →
      ∃ site, s.site key = .ok site ∧ site.placement = p := by
  intro p width length
  have hdigest := sh.isDigest_digest key
  have hfilename : p.filename.toList = sh.digest key := sh.toList_filename key
  have hdigit : ∀ c ∈ p.filename.toList, Text.Hex.IsDigit c := by
    rw [hfilename]
    exact hdigest.isDigit
  have hlength : p.filename.length = length := by
    rw [← String.length_toList, hfilename, hdigest.length_eq]
  have hbytes : p.filename.utf8ByteSize = length := by
    rw [show p.filename.utf8ByteSize = (Path.ofString p.filename).bytes.length from rfl,
      bytes_ofString, (Text.encode_isDigit hdigit).1, String.length_toList, hlength]
  refine ⟨?_, sh.place?_eq_place key, ⟨hfilename, hlength, hbytes, hdigit⟩,
    ⟨sh.length_segments key, fun _ => sh.length_of_mem_segments key, ?_⟩,
    ⟨sh.toList_pathname_eq_segments key, fun hle => ?_, fun hlt => ?_⟩, ?_,
    sh.toList_fullPath key, fun s hs => sh.exists_site_of_layout key hs⟩
  · show sh.algorithm.hexLength = _
    cases sh.algorithm <;> rfl
  · rw [hfilename]
    exact sh.flatMap_segments key
  · apply sh.nil_not_mem_parts key
    rw [ne_eq, segments_eq_nil_iff]
    exact Nat.not_lt.mpr hle
  · exact (sh.pathname_eq_empty_iff key).mpr ((sh.segments_eq_nil_iff key).mpr hlt)
  · rw [hfilename]
    exact sh.toList_firstSegment key

/-- The standard width divides the 40 digits of the SHA-1 digest of `hello`. -/
example : standard.place "hello" =
    ⟨"aaf4c/61ddc/c5e8a/2dabe/de0f3/b482c/d9aea/9434d",
      "aaf4c61ddcc5e8a2dabede0f3b482cd9aea9434d"⟩ := by decide +kernel

/-- Of the 64 digits of the BLAKE3 digest, four are left over by blocks of 20. -/
example : (Sharding.mk .blake3 20 (by decide)).place "hello" =
    ⟨"ea8f163db38682925e44/91c5e58d4bb3506ef8c1/4eb78a86e908c5624a67",
      "ea8f163db38682925e4491c5e58d4bb3506ef8c14eb78a86e908c5624a67200f"⟩ := by decide +kernel

end Sharding

end BlobStore
