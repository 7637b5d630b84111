import BlobStore.Proofs.Store.Refusal

/-!
# The components of a location

The path of an object is made as a text, with a slash between root, pathname and filename where one
is wanted, its directory by cutting that text from the end, and the directory that a deletion
removes by joining the root and the first segment.  As texts the three need not have much to do with
each other: the root may begin with a dot, go up again and end in slashes, and the placement may
repeat its slashes and hold dots.

Read by components they agree (`Store.location_components`).  The components of the file are those
of the root and then the parts of the placement that count, the directory has all of them but the
last, and the first segment is the first one after the root.
-/

namespace BlobStore

/-! ## The first segment -/

namespace Placement.Accepted

variable {p : Placement}

theorem plain_firstSegment (h : p.Accepted) (hfirst : p.firstSegment ≠ "") :
    (Path.ofString p.firstSegment).Plain := by
  obtain ⟨n, -, -, hbytes, hmem, -⟩ := h.head_names hfirst
  obtain ⟨-, -, hup⟩ := h.path_firstSegment hfirst
  refine Path.plain_iff.mpr ⟨hbytes ▸ Path.ne_nil_of_mem_names hmem, fun hhere => ?_, hup⟩
  rcases Path.split_eq_here_iff.mp hhere with hdot | ⟨rest, hrest⟩
  · exact Path.ne_dot_of_mem_names hmem (hbytes.symm.trans hdot)
  · refine Path.slash_not_mem_of_mem_names hmem ?_
    rw [← hbytes, hrest]
    simp

/-- The first segment of an accepted placement is the first part of the pathname that counts. -/
theorem solidIn_pathname (h : p.Accepted) (hfirst : p.firstSegment ≠ "") :
    ∃ rest, solidIn p.pathname = p.firstSegment.toList :: rest := by
  obtain ⟨n, ns, hnames, hbytes, hmem, -⟩ := h.head_names hfirst
  rw [names_ofString] at hmem
  rw [bytes_ofString] at hbytes
  rw [names, names_ofString] at hnames
  cases hsolid : solidIn p.pathname with
  | nil => simp [hsolid] at hmem
  | cons part rest =>
    rw [hsolid, List.map_cons, List.cons_append] at hnames
    obtain rfl : part = p.firstSegment.toList :=
      Text.encode_injective ((List.cons_eq_cons.mp hnames).1.trans hbytes.symm)
    exact ⟨rest, rfl⟩

end Placement.Accepted

namespace Store

/-- The component that a part of a text stands for. -/
def partComponent (part : List Char) : Component := .name (Text.encode part)

/-- **The components of a location.**  A key whose placement is accepted has a location, whatever
the text of the root.  The components of its file are those of the root, then the parts of the
pathname that count, and then those of the filename, of which there is at least one.  Its directory
has all of these but the last one.  If there is a first segment, it is the first part of the
pathname that counts, so that the directory which a deletion removes has one component more than
the root, and the components of the object's directory begin with those of that directory. -/
theorem location_components (s : Store) (key : String)
    (haccepted : ¬ (LacksName (s.layout key).filename ∨ Strays (s.layout key))) :
    let p := s.layout key
    let first := s.root.join (Path.ofString p.firstSegment)
    ∃ site, s.site key = .ok site ∧
      site.file.components = s.root.components ++
        (solidIn p.pathname).map partComponent ++ (solidIn p.filename).map partComponent ∧
      solidIn p.filename ≠ [] ∧
      site.dir.components = site.file.components.dropLast ∧
      (p.firstSegment ≠ "" →
        (∃ rest, solidIn p.pathname = p.firstSegment.toList :: rest) ∧
        first.components = s.root.components ++ [partComponent p.firstSegment.toList] ∧
        first.components <+: site.dir.components) := by
  intro p first
  obtain ⟨site, hsite⟩ := exists_site_of_not_refused haccepted
  obtain ⟨hplacement, hplaced, -, -⟩ := site_eq_ok hsite
  rw [hplacement] at hplaced
  have hfile : site.file.components = s.root.components ++
      (solidIn p.pathname).map partComponent ++ (solidIn p.filename).map partComponent := by
    rw [components_file hsite, Placement.solidParts_eq, List.map_append, List.append_assoc]
    rfl
  have hdir : site.dir.components = site.file.components.dropLast :=
    Path.components_parent? (parent?_file hsite)
  have hsolid : solidIn p.filename ≠ [] := solidIn_filename_ne_nil hsite
  refine ⟨site, hsite, hfile, hsolid, hdir, fun hfirst => ?_⟩
  obtain ⟨rest, hrest⟩ := hplaced.solidIn_pathname hfirst
  have hfirstComponents : first.components =
      s.root.components ++ [partComponent p.firstSegment.toList] := by
    obtain ⟨hrel, htake, -⟩ := hplaced.path_firstSegment hfirst
    rw [Path.components_join (hplaced.plain_firstSegment hfirst) hrel, htake,
      Placement.names_eq_solidParts, Placement.solidParts_eq, hrest]
    rfl
  refine ⟨⟨rest, hrest⟩, hfirstComponents, ?_⟩
  -- what is cut off at the end is a part of the filename
  rw [hdir, hfile, List.dropLast_append_of_ne_nil (by simpa using hsolid), hfirstComponents, hrest,
    List.map_cons, List.append_assoc, List.prefix_append_right_inj, List.cons_append]
  exact ⟨_, rfl⟩

/-- A root that goes up again, with slashes at its end, and a key that repeats a slash and holds a
dot. -/
theorem location_components_dots :
    let s : Store := ⟨Path.ofString "./x//../", Layout.identity, false⟩
    let above := [Component.here, partComponent ['x'], .up, partComponent ['a'], partComponent ['b'],
      partComponent ['c'], partComponent ['a'], partComponent ['b']]
    ∃ site, s.site "a//b/./c" = .ok site ∧ site.dir.components = above ∧
      site.file.components = above ++ [partComponent ['c']] := by
  intro s above
  obtain ⟨site, hsite, hfile, -, hdir, -⟩ := location_components s "a//b/./c" (by decide)
  have hcomponents : site.file.components = above ++ [partComponent ['c']] := by
    rw [hfile]
    decide
  refine ⟨site, hsite, ?_, hcomponents⟩
  rw [hdir, hcomponents, List.dropLast_concat]

end Store

end BlobStore
