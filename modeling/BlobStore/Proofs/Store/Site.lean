import BlobStore.Proofs.Disk.Locate
import BlobStore.Proofs.Path.Above
import BlobStore.Store.Basic

/-!
# Where objects lie

A placement is accepted if both its texts lead nowhere but down.  Whatever the layout
makes of a key, the object's file then lies properly below the root: its names are those
of the root, of the pathname and of the filename, one after the other
(`Site.Below.names_file`), its directory has all of them but the last, and the directory
that a deletion removes is the first one below the root (`Site.Below.first`).
-/

namespace BlobStore

/-- The names of a placement below the root of its store. -/
def Placement.names (p : Placement) : List Name :=
  (Path.ofString p.pathname).names ++ (Path.ofString p.filename).names

/-! ## Texts as paths -/

theorem bytes_ofString (s : String) : (Path.ofString s).bytes = Text.encode s.toList := by
  rw [Path.ofString, String.toUTF8_eq_toByteArray, ← String.utf8Encode_toList]
  simp [List.utf8Encode, Text.encode]

theorem bytes_ofString_append (s t : String) :
    (Path.ofString (s ++ t)).bytes = (Path.ofString s).bytes ++ (Path.ofString t).bytes := by
  rw [bytes_ofString, bytes_ofString, bytes_ofString, String.toList_append, Text.encode_append]

theorem ofString_ofList (cs : List Char) :
    Path.ofString (String.ofList cs) = ⟨Text.encode cs⟩ := by
  have hbytes := bytes_ofString (String.ofList cs)
  rw [String.toList_ofList] at hbytes
  exact congrArg Path.mk hbytes

/-- Text is known from its bytes. -/
theorem Text.encode_injective : Function.Injective Text.encode := by
  intro cs ds h
  have hpath : Path.ofString (String.ofList cs) = Path.ofString (String.ofList ds) := by
    rw [ofString_ofList, ofString_ofList, h]
  have hbytes := Array.toList_inj.mp (congrArg Path.bytes hpath)
  exact String.ofList_injective (String.toByteArray_inj.mp (ByteArray.ext hbytes))

theorem bytes_ofString_eq_nil {s : String} : (Path.ofString s).bytes = [] ↔ s = "" := by
  rw [bytes_ofString, Text.encode_eq_nil, String.toList_eq_nil_iff]

/-- A text whose components are all names is a relative plain path, unless it is empty. -/
theorem plain_of_leadsDown {s : String} (h : Store.leadsDown s = true) (hne : s ≠ "") :
    (Path.ofString s).Plain ∧ (Path.ofString s).isAbsolute = false := by
  have hname : ∀ c ∈ (Path.ofString s).components, ∃ n, c = .name n := by
    intro c hc
    have := List.all_eq_true.mp h c hc
    cases c with
    | name n => exact ⟨n, rfl⟩
    | top => cases this
    | here => cases this
    | up => cases this
  have hplain : (Path.ofString s).Plain := by
    refine ⟨bytes_ofString_eq_nil.not.mpr hne, fun c hc => ?_⟩
    obtain ⟨n, rfl⟩ := hname c hc
    simp
  refine ⟨hplain, ?_⟩
  rw [← Bool.not_eq_true]
  intro habs
  obtain ⟨n, hn⟩ := hname .top (by rw [hplain.components_eq, if_pos habs]; simp)
  cases hn

/-- A relative plain path leads nowhere but down. -/
theorem leadsDown_of_plain {s : String} (h : (Path.ofString s).Plain)
    (hrel : (Path.ofString s).isAbsolute = false) : Store.leadsDown s = true := by
  rw [Store.leadsDown, h.components_eq, hrel, if_neg (by simp), List.nil_append, List.all_map,
    List.all_eq_true]
  intro n _
  rfl

/-- The pieces of a text are those between its slashes. -/
theorem pieces_ofString (s : String) :
    (Path.ofString s).pieces = (Text.pieces '/' s.toList).map Text.encode := by
  rw [Path.pieces, bytes_ofString, Text.pieces_encode]

namespace Placement

variable {p : Placement}

/-- A placement is accepted if its filename ends in a name and both its texts lead
nowhere but down. -/
structure Accepted (p : Placement) : Prop where
  lastPiece_ne_nil : Store.lastPiece p.filename ≠ []
  pathname : Store.leadsDown p.pathname = true
  filename : Store.leadsDown p.filename = true

theorem Accepted.filename_ne_empty (h : p.Accepted) : p.filename ≠ "" := by
  intro hempty
  refine h.lastPiece_ne_nil ?_
  rw [hempty]
  decide

theorem Accepted.plain_filename (h : p.Accepted) :
    (Path.ofString p.filename).Plain ∧ (Path.ofString p.filename).isAbsolute = false :=
  plain_of_leadsDown h.filename h.filename_ne_empty

theorem pieces_fullPath (p : Placement) : (Path.ofString p.fullPath).pieces =
    (Path.ofString p.pathname).pieces ++ (Path.ofString p.filename).pieces := by
  rw [fullPath]
  split_ifs with hempty
  · rw [String.isEmpty_iff.mp hempty]
    rfl
  · simp only [Path.pieces, bytes_ofString, String.toList_append, Text.encode_append]
    rw [List.append_assoc]
    exact Text.pieces_append_cons ..

theorem names_fullPath (p : Placement) : (Path.ofString p.fullPath).names = p.names := by
  rw [Path.names, pieces_fullPath, List.filter_append]
  rfl

theorem Accepted.isAbsolute_fullPath (h : p.Accepted) :
    (Path.ofString p.fullPath).isAbsolute = false := by
  rw [fullPath]
  split_ifs with hempty
  · exact h.plain_filename.2
  · have hne : p.pathname ≠ "" := fun heq => hempty (String.isEmpty_iff.mpr heq)
    obtain ⟨hplain, hrel⟩ := plain_of_leadsDown h.pathname hne
    obtain ⟨c, cs, hbytes⟩ := List.exists_cons_of_ne_nil hplain.bytes_ne_nil
    rw [Path.isAbsolute, hbytes] at hrel
    rw [Path.isAbsolute, bytes_ofString_append, bytes_ofString_append, hbytes]
    exact hrel

theorem Accepted.dotDot_not_mem (h : p.Accepted) :
    Path.dotDot ∉ (Path.ofString p.fullPath).pieces := by
  rw [pieces_fullPath, List.mem_append, not_or]
  refine ⟨?_, h.plain_filename.1.dotDot_not_mem_pieces⟩
  by_cases hempty : p.pathname = ""
  · rw [hempty]
    decide
  · exact (plain_of_leadsDown h.pathname hempty).1.dotDot_not_mem_pieces

theorem Accepted.names_filename_ne_nil (h : p.Accepted) : (Path.ofString p.filename).names ≠ [] :=
  h.plain_filename.1.names_ne_nil h.plain_filename.2

/-- The full path of a placement ends as its filename does. -/
theorem getLast?_parts_fullPath (p : Placement) :
    (Text.parts Path.slash (Path.ofString p.fullPath).bytes).getLast? =
      some (Text.encode (Store.lastPiece p.filename)) := by
  have hlast : ((Text.parts '/' p.filename.toList).map Text.encode).getLast? =
      some (Text.encode (Store.lastPiece p.filename)) := by
    rw [List.getLast?_map, Store.lastPiece,
      List.getLast?_eq_some_getLast (Text.parts_ne_nil '/' p.filename.toList)]
    rfl
  rw [bytes_ofString, Text.parts_encode, fullPath]
  split_ifs
  · exact hlast
  · have hsplit : (p.pathname ++ "/" ++ p.filename).toList =
        p.pathname.toList ++ '/' :: p.filename.toList := by
      rw [String.toList_append, String.toList_append, List.append_assoc]
      rfl
    rw [hsplit, Text.parts_append_cons, List.map_append, List.getLast?_append_of_ne_nil, hlast]
    simpa using Text.parts_ne_nil '/' p.filename.toList

/-- The first segment of an accepted placement is its first name. -/
theorem Accepted.head_names (h : p.Accepted) (hfirst : p.firstSegment ≠ "") :
    ∃ n ns, p.names = n :: ns ∧ (Path.ofString p.firstSegment).bytes = n ∧
      n ∈ (Path.ofString p.pathname).names ∧ n ≠ Path.dotDot := by
  have hne : p.pathname ≠ "" := by
    intro hempty
    refine hfirst ?_
    rw [firstSegment, segments, hempty]
    rfl
  obtain ⟨hplain, hrel⟩ := plain_of_leadsDown h.pathname hne
  obtain ⟨n, ps, hpieces, hnames⟩ := hplain.exists_names_eq_cons hrel
  have hup : n ≠ Path.dotDot := fun heq =>
    hplain.dotDot_not_mem_pieces (by rw [hpieces, heq]; exact List.mem_cons_self)
  refine ⟨n, _, by rw [names, hnames, List.cons_append], ?_, by simp [hnames], hup⟩
  rw [pieces_ofString] at hpieces
  obtain ⟨cs, css, hcs, rfl, -⟩ := List.map_eq_cons_iff.mp hpieces
  have hsegment : p.firstSegment = String.ofList cs := by
    rw [firstSegment, segments, show (Text.parts '/' p.pathname.toList).filter (!·.isEmpty) = cs :: css
      from hcs]
    rfl
  rw [hsegment, bytes_ofString, String.toList_ofList]

/-- As a path, the first segment is a single name. -/
theorem Accepted.path_firstSegment (h : p.Accepted) (hfirst : p.firstSegment ≠ "") :
    (Path.ofString p.firstSegment).isAbsolute = false ∧
      (Path.ofString p.firstSegment).names = p.names.take 1 ∧
      Path.dotDot ∉ (Path.ofString p.firstSegment).pieces := by
  obtain ⟨n, ns, hcons, hbytes, hmem, hup⟩ := h.head_names hfirst
  have hslash : Path.slash ∉ n := Path.slash_not_mem_of_mem_names hmem
  have hpieces : (Path.ofString p.firstSegment).pieces = [n] := by
    rw [Path.pieces, hbytes]
    exact Text.pieces_of_not_mem (Path.ne_nil_of_mem_names hmem) hslash
  refine ⟨?_, ?_, ?_⟩
  · rw [← Bool.not_eq_true, Path.isAbsolute_iff, hbytes]
    rintro ⟨rest, rfl⟩
    simp at hslash
  · rw [Path.names, hpieces, hcons]
    simp [Path.ne_dot_of_mem_names hmem]
  · rw [hpieces, List.mem_singleton]
    exact Ne.symm hup

end Placement

/-! ## Sites -/

/-- What is known about a site in a store with a plain root. -/
structure Site.Below (site : Site) (root : Path) : Prop where
  plain_file : site.file.Plain
  plain_dir : site.dir.Plain
  isAbsolute_file : site.file.isAbsolute = root.isAbsolute
  names_file : site.file.names = root.names ++ site.placement.names
  names_ne_nil : site.placement.names ≠ []
  dir_eq : site.dir = site.file.above
  first : site.placement.firstSegment ≠ "" →
    (root.join (Path.ofString site.placement.firstSegment)).Plain ∧
      ∀ d : Disk, d.locate (root.join (Path.ofString site.placement.firstSegment)) =
        d.locate root ++ site.placement.names.take 1

namespace Store

theorem site_eq_ok {s : Store} {key : String} {site : Site} (h : s.site key = .ok site) :
    site.placement = s.layout key ∧ site.placement.Accepted ∧
      site.file = s.root.join (Path.ofString site.placement.fullPath) ∧
      site.dir = site.file.parent?.getD s.root := by
  unfold Store.site at h
  dsimp only at h
  split_ifs at h with hempty hdown
  obtain rfl := Except.ok.inj h
  simp only [Bool.or_eq_true, not_or, Bool.not_eq_true, Bool.not_eq_false'] at hdown
  exact ⟨rfl, ⟨hempty, hdown.1, hdown.2⟩, rfl, rfl⟩

/-- Under a root that is a text, the place of an object is shown as the text of the root and that
of the placement, with a slash between them unless the root is empty or ends in one. -/
theorem display_location {s : Store} {key root : String} {file : Path}
    (hroot : s.root = Path.ofString root) (h : s.location key = .ok file) :
    file.display =
      root ++ (if s.root.isEmpty || s.root.endsInSlash then "" else "/") ++
        (s.layout key).fullPath := by
  rw [location] at h
  cases hsite : s.site key with
  | error e =>
    rw [hsite] at h
    cases h
  | ok site =>
    rw [hsite] at h
    obtain rfl := Except.ok.inj h
    obtain ⟨hplacement, haccepted, hfile, -⟩ := site_eq_ok hsite
    have hbytes : site.file.bytes = (Path.ofString
        (root ++ (if s.root.isEmpty || s.root.endsInSlash then "" else "/") ++
          site.placement.fullPath)).bytes := by
      rw [bytes_ofString_append, bytes_ofString_append, ← hroot, hfile, Path.join,
        haccepted.isAbsolute_fullPath, if_neg (by simp), List.append_assoc]
      split_ifs <;> rfl
    rw [← hplacement, show site.file = _ from congrArg Path.mk hbytes, Path.display_ofString]

theorem exists_site {s : Store} {key : String} (h : (s.layout key).Accepted) :
    ∃ site, s.site key = .ok site := by
  unfold Store.site
  dsimp only
  rw [if_neg h.lastPiece_ne_nil, h.pathname, h.filename]
  exact ⟨_, rfl⟩

/-- The path of an object ends in a name or in a dot, and not in a slash. -/
theorem endsInSlash_file {s : Store} {key : String} {site : Site} (h : s.site key = .ok site) :
    site.file.endsInSlash = false := by
  obtain ⟨-, haccepted, hfile, -⟩ := site_eq_ok h
  have hlast := site.placement.getLast?_parts_fullPath
  have hslash := Text.getLast?_ne_of_parts hlast (by simpa using haccepted.lastPiece_ne_nil)
  have hne : (Path.ofString site.placement.fullPath).bytes ≠ [] := by
    intro hempty
    rw [hempty] at hlast
    simpa [haccepted.lastPiece_ne_nil] using (Option.some.inj hlast).symm
  rw [hfile, Path.endsInSlash_join haccepted.isAbsolute_fullPath hne, Path.endsInSlash,
    decide_eq_false_iff_not]
  exact hslash

theorem trimmed_file {s : Store} {key : String} {site : Site} (h : s.site key = .ok site)
    (hdot : lastPiece (s.layout key).filename ≠ ['.']) : site.file.Trimmed := by
  obtain ⟨hplacement, haccepted, hfile, -⟩ := site_eq_ok h
  have hlast := Text.getLast?_pieces site.placement.getLast?_parts_fullPath
    (by simpa using haccepted.lastPiece_ne_nil)
  have hpieces : (Path.ofString site.placement.fullPath).pieces.getLast? =
      some (Text.encode (lastPiece site.placement.filename)) := hlast
  rw [hfile, Path.Trimmed, Path.pieces_join haccepted.isAbsolute_fullPath,
    List.getLast?_append, hpieces, hplacement]
  intro heq
  have hencode : Text.encode (lastPiece (s.layout key).filename) = Text.encode ['.'] :=
    Option.some.inj heq
  exact hdot (Text.encode_injective hencode)

/-- Every site lies below the root. -/
theorem below_of_site {s : Store} (hroot : s.root.Plain) {key : String} {site : Site}
    (h : s.site key = .ok site) : site.Below s.root := by
  obtain ⟨-, haccepted, hfile, hdir⟩ := site_eq_ok h
  have hrel := haccepted.isAbsolute_fullPath
  have hplain : site.file.Plain := by
    rw [hfile]
    exact hroot.join hrel haccepted.dotDot_not_mem
  have habs : site.file.isAbsolute = s.root.isAbsolute := by
    rw [hfile, Path.isAbsolute_join hrel]
  have hnames : site.file.names = s.root.names ++ site.placement.names := by
    rw [hfile, Path.names_join hrel, Placement.names_fullPath]
  have hne : site.placement.names ≠ [] :=
    List.append_ne_nil_of_right_ne_nil _ haccepted.names_filename_ne_nil
  have habove : site.dir = site.file.above := by
    rw [hdir, hplain.parent?_eq (hnames ▸ List.append_ne_nil_of_right_ne_nil _ hne)]
    rfl
  have hplaindir : site.dir.Plain := by
    rw [habove]
    apply hplain.plain_above
    intro hempty
    -- a relative root has a name, which the directory keeps
    have hdirabs : site.file.above.isAbsolute = false := by simp [Path.isAbsolute, hempty]
    have hdirnames : site.file.above.names = [] := by
      simp [Path.names, Path.pieces, hempty]
    rw [hplain.isAbsolute_above, habs] at hdirabs
    rw [hplain.names_above, hnames, List.dropLast_append_of_ne_nil hne] at hdirnames
    exact hroot.names_ne_nil hdirabs (List.append_eq_nil_iff.mp hdirnames).1
  refine ⟨hplain, hplaindir, habs, hnames, hne, habove, fun hfirst => ?_⟩
  obtain ⟨hrel', htake, hup⟩ := haccepted.path_firstSegment hfirst
  refine ⟨hroot.join hrel' hup, fun d => ?_⟩
  apply d.locate_append (Path.isAbsolute_join hrel')
  rw [Path.names_join hrel', htake]

end Store

namespace Site.Below

variable {site : Site} {root : Path}

theorem locate_file (h : site.Below root) (d : Disk) :
    d.locate site.file = d.locate root ++ site.placement.names :=
  d.locate_append h.isAbsolute_file h.names_file

theorem locate_dir (h : site.Below root) (d : Disk) :
    d.locate site.dir = d.locate root ++ site.placement.names.dropLast := by
  rw [h.dir_eq]
  apply d.locate_append
  · rw [h.plain_file.isAbsolute_above, h.isAbsolute_file]
  · rw [h.plain_file.names_above, h.names_file, List.dropLast_append_of_ne_nil h.names_ne_nil]

end Site.Below

end BlobStore
