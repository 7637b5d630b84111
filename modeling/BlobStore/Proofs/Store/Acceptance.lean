import BlobStore.Proofs.Path.Parent
import BlobStore.Proofs.Store.Contents
import BlobStore.Proofs.Store.Site

/-!
# Which keys are refused

A key is refused before anything is asked of the file system, and every operation refuses it for
the same reason (`Store.refuses_of_site`), exactly if its placement is not accepted
(`Store.exists_refuses_iff`).  Whether a text leads nowhere but down is read off its
parts between slashes: it must not begin with a slash or with the part `.`, and must not hold the
part `..` (`leadsDown_iff`).

A part `.` in any other place is no reason to refuse a key.  Such a part counts for nothing
instead: the components of an object's path are those of the root and the solid parts of its
placement (`Store.components_file`), so that a key may have the location of another one
(`Store.dot_parts`).
-/

namespace BlobStore

open Text (parts)

/-! ## Texts by their parts -/

/-- The parts of a text between its slashes. -/
abbrev textParts (text : String) : List (List Char) := parts '/' text.toList

/-- A text that begins with a slash. -/
def IsAbsolute (text : String) : Prop := text.toList.head? = some '/'

/-- A text of which the first part is a single dot. -/
def BeginsWithDot (text : String) : Prop := (textParts text).head? = some ['.']

/-- A text that begins at the top or goes up. -/
def LeadsOut (text : String) : Prop := IsAbsolute text ∨ ['.', '.'] ∈ textParts text

instance (text : String) : Decidable (IsAbsolute text) := inferInstanceAs (Decidable (_ = _))

instance (text : String) : Decidable (BeginsWithDot text) := inferInstanceAs (Decidable (_ = _))

instance (text : String) : Decidable (LeadsOut text) := inferInstanceAs (Decidable (_ ∨ _))

/-- The first part is a single character if nothing or a separator follows that. -/
theorem Text.head?_parts_eq_singleton {α : Type} [DecidableEq α] {sep c : α} (hc : c ≠ sep)
    {cs : List α} :
    (parts sep cs).head? = some [c] ↔ cs = [c] ∨ ∃ rest, cs = c :: sep :: rest := by
  constructor
  · intro h
    -- the first part goes on as long as no separator comes
    cases cs with
    | nil => simp at h
    | cons b cs =>
      by_cases hb : b = sep
      · subst hb
        simp at h
      · obtain ⟨q, qs, hq, hcons⟩ := parts_cons_of_ne hb cs
        rw [hcons, List.head?_cons] at h
        obtain ⟨rfl, rfl⟩ := List.cons_eq_cons.mp (Option.some.inj h)
        cases cs with
        | nil => exact Or.inl rfl
        | cons d ds =>
          by_cases hd : d = sep
          · exact Or.inr ⟨ds, by rw [hd]⟩
          · obtain ⟨q, qs', -, hcons'⟩ := parts_cons_of_ne hd ds
            rw [hcons'] at hq
            simp at hq
  · rintro (rfl | ⟨rest, rfl⟩)
    · rw [parts_of_not_mem (by simpa using Ne.symm hc)]
      rfl
    · obtain ⟨q, qs, hq, hcons⟩ := parts_cons_of_ne hc (sep :: rest)
      rw [parts_cons_self] at hq
      obtain ⟨rfl, -⟩ := List.cons_eq_cons.mp hq
      rw [hcons]
      rfl

theorem isAbsolute_ofString {text : String} :
    (Path.ofString text).isAbsolute = true ↔ IsAbsolute text := by
  rw [Path.isAbsolute, decide_eq_true_iff, bytes_ofString, IsAbsolute]
  cases text.toList with
  | nil => simp
  | cons c cs =>
    obtain ⟨b, bs, hbytes⟩ := List.exists_cons_of_ne_nil (String.utf8EncodeChar_ne_nil (c := c))
    rw [Text.encode_cons, hbytes, List.cons_append, List.head?_cons, List.head?_cons]
    constructor
    · intro hb
      obtain rfl := Option.some.inj hb
      rw [(Text.slash_mem_utf8EncodeChar c).mp (hbytes ▸ List.mem_cons_self)]
    · intro hc
      obtain rfl := Option.some.inj hc
      exact congrArg some (List.cons_eq_cons.mp hbytes).1.symm

theorem split_ofString_eq_here {text : String} :
    (Path.ofString text).split.1 = some .here ↔ BeginsWithDot text := by
  have hencode : (parts Path.slash (Path.ofString text).bytes).head? = some Path.dot ↔
      BeginsWithDot text := by
    rw [bytes_ofString, Text.parts_encode, List.head?_map, BeginsWithDot]
    constructor
    · intro h
      obtain ⟨part, hpart, hdot⟩ := Option.map_eq_some_iff.mp h
      rw [hpart]
      exact congrArg some (Text.encode_injective hdot)
    · intro h
      rw [h]
      rfl
  rw [← hencode, Path.split_eq_here_iff]
  exact (Text.head?_parts_eq_singleton (by decide)).symm

theorem dotDot_mem_pieces_ofString {text : String} :
    Path.dotDot ∈ (Path.ofString text).pieces ↔ ['.', '.'] ∈ textParts text := by
  rw [Path.pieces, ← Path.dotDot_mem_parts, bytes_ofString, Text.parts_encode, List.mem_map]
  constructor
  · rintro ⟨part, hmem, hpart⟩
    obtain rfl : part = ['.', '.'] := Text.encode_injective hpart
    exact hmem
  · intro hmem
    exact ⟨_, hmem, rfl⟩

/-- What leads nowhere but down is seen from the parts of a text. -/
theorem leadsDown_iff {text : String} :
    Store.leadsDown text = true ↔ ¬ BeginsWithDot text ∧ ¬ LeadsOut text := by
  by_cases hempty : text = ""
  · subst hempty
    decide
  · rw [LeadsOut, not_or, ← isAbsolute_ofString, ← split_ofString_eq_here,
      ← dotDot_mem_pieces_ofString, Bool.not_eq_true]
    constructor
    · intro h
      obtain ⟨hplain, hrel⟩ := plain_of_leadsDown h hempty
      exact ⟨hplain.split_ne_here, hrel, hplain.dotDot_not_mem_pieces⟩
    · rintro ⟨hhere, hrel, hup⟩
      exact leadsDown_of_plain
        (Path.plain_iff.mpr ⟨bytes_ofString_eq_nil.not.mpr hempty, hhere, hup⟩) hrel

/-! ## Refusals -/

namespace Store

variable {s : Store} {key : String}

/-- A key that every operation refuses for the same reason, without a change to the disk. -/
structure Refuses (s : Store) (key : String) (fault : KeyFault) : Prop where
  location : s.location key = .error (.invalidKey key fault)
  has : ∀ d, (s.has key).run d = (.error (.invalidKey key fault), d)
  read : ∀ d, (s.read key).run d = (.error (.invalidKey key fault), d)
  write : ∀ source d, (s.write key source).run d = (.error (.invalidKey key fault), d)
  delete : ∀ d, (s.delete key).run d = (.error (.invalidKey key fault), d)

/-- The part of a placement that leads out of the root, or begins with a dot. -/
def Strays (p : Placement) : Prop :=
  (BeginsWithDot p.pathname ∨ LeadsOut p.pathname) ∨ BeginsWithDot p.filename ∨ LeadsOut p.filename

/-- A placement is accepted if its filename ends in a name and it does not stray. -/
theorem accepted_iff {p : Placement} : p.Accepted ↔ lastPiece p.filename ≠ [] ∧ ¬ Strays p := by
  rw [Strays, not_or, not_or, not_or, ← leadsDown_iff, ← leadsDown_iff]
  exact ⟨fun h => ⟨h.lastPiece_ne_nil, h.pathname, h.filename⟩, fun h => ⟨h.1, h.2.1, h.2.2⟩⟩

/-- The only reason for which a key has no site is the key itself. -/
theorem site_eq_error {e : StoreError} (h : s.site key = .error e) :
    ∃ fault, e = .invalidKey key fault := by
  unfold site at h
  dsimp only at h
  split_ifs at h
  · exact ⟨_, (Except.error.inj h).symm⟩
  · exact ⟨_, (Except.error.inj h).symm⟩

/-- Without a site every operation ends before it has begun. -/
theorem refuses_of_site {fault : KeyFault} (h : s.site key = .error (.invalidKey key fault)) :
    s.Refuses key fault where
  location := by
    rw [Store.location, h]
    rfl
  has d := by rw [Store.has, Action.run_bind, Action.run_ofExcept, h]
  read d := by rw [Store.read, Action.run_bind, Action.run_ofExcept, h]
  write source d := by rw [Store.write, Action.run_bind, Action.run_ofExcept, h]
  delete d := by rw [Store.delete, Action.run_bind, Action.run_ofExcept, h]

theorem refuses_iff_site {fault : KeyFault} :
    s.Refuses key fault ↔ s.site key = .error (.invalidKey key fault) := by
  refine ⟨fun h => ?_, refuses_of_site⟩
  have hlocation := h.location
  rw [location] at hlocation
  cases hsite : s.site key with
  | error e =>
    rw [hsite] at hlocation
    exact congrArg Except.error (Except.error.inj hlocation)
  | ok site =>
    rw [hsite] at hlocation
    cases hlocation

/-- A key is refused exactly if its placement is not accepted. -/
theorem exists_refuses_iff : (∃ fault, s.Refuses key fault) ↔ ¬ (s.layout key).Accepted := by
  constructor
  · rintro ⟨fault, hrefuses⟩ haccepted
    obtain ⟨site, hsite⟩ := exists_site haccepted
    rw [refuses_iff_site.mp hrefuses] at hsite
    cases hsite
  · intro hnot
    cases hsite : s.site key with
    | ok site =>
      obtain ⟨hplacement, haccepted, -⟩ := site_eq_ok hsite
      exact absurd (hplacement ▸ haccepted) hnot
    | error e =>
      obtain ⟨fault, rfl⟩ := site_eq_error hsite
      exact ⟨fault, refuses_of_site hsite⟩

end Store

/-! ## Parts that count for nothing -/

/-- The parts of a text that count in a path. -/
def solidIn (text : String) : List (List Char) :=
  (textParts text).filter fun part => part ≠ [] ∧ part ≠ ['.']

/-- The names of a text as a path are the parts of it that count. -/
theorem names_ofString (text : String) :
    (Path.ofString text).names = (solidIn text).map Text.encode := by
  rw [Path.names, pieces_ofString, List.filter_map, Text.pieces, List.filter_filter]
  congr 1
  apply List.filter_congr
  intro part _
  have hdot : Text.encode part = Path.dot ↔ part = ['.'] :=
    ⟨fun h => Text.encode_injective h, fun h => h ▸ rfl⟩
  rw [Bool.eq_iff_iff]
  simp [hdot, and_comm]

/-- The parts of a placement that count in a path, those of the pathname first. -/
def Placement.solidParts (p : Placement) : List (List Char) :=
  (textParts p.pathname ++ textParts p.filename).filter fun part => part ≠ [] ∧ part ≠ ['.']

theorem Placement.solidParts_eq (p : Placement) :
    p.solidParts = solidIn p.pathname ++ solidIn p.filename :=
  List.filter_append ..

/-- The names of a placement are its solid parts. -/
theorem Placement.names_eq_solidParts (p : Placement) :
    p.names = p.solidParts.map Text.encode := by
  rw [names, names_ofString, names_ofString, solidParts_eq, List.map_append]

namespace Placement.Accepted

variable {p : Placement}

theorem fullPath_ne_nil (h : p.Accepted) : (Path.ofString p.fullPath).bytes ≠ [] := by
  intro hempty
  have hnames : (Path.ofString p.fullPath).names = [] := by
    simp [Path.names, Path.pieces, hempty]
  rw [names_fullPath] at hnames
  exact h.names_filename_ne_nil (List.append_eq_nil_iff.mp hnames).2

/-- The full path of an accepted placement leads nowhere but down. -/
theorem plain_fullPath (h : p.Accepted) : (Path.ofString p.fullPath).Plain := by
  refine Path.plain_iff.mpr ⟨h.fullPath_ne_nil, ?_, h.dotDot_not_mem⟩
  rw [Ne, split_ofString_eq_here, fullPath]
  split_ifs with hempty
  · exact (leadsDown_iff.mp h.filename).1
  · -- the first part of the whole is that of the pathname
    have hfirst : (textParts (p.pathname ++ "/" ++ p.filename)).head? =
        (textParts p.pathname).head? := by
      have hsplit : (p.pathname ++ "/" ++ p.filename).toList =
          p.pathname.toList ++ '/' :: p.filename.toList := by
        rw [String.toList_append, String.toList_append, List.append_assoc]
        rfl
      rw [textParts, hsplit, Text.parts_append_cons,
        List.head?_append_of_ne_nil _ (Text.parts_ne_nil '/' p.pathname.toList)]
    rw [BeginsWithDot, hfirst]
    exact (leadsDown_iff.mp h.pathname).1

end Placement.Accepted

namespace Store

variable {s : Store} {key : String}

/-- The components of an object's path are those of the root and the solid parts of its
placement, whatever the text of the root. -/
theorem components_file {site : Site} (h : s.site key = .ok site) :
    site.file.components =
      s.root.components ++ (s.layout key).solidParts.map (.name ∘ Text.encode) := by
  obtain ⟨hplacement, haccepted, hfile, -⟩ := site_eq_ok h
  have hnames : site.placement.names.map Component.name =
      (s.layout key).solidParts.map (.name ∘ Text.encode) := by
    rw [hplacement, Placement.names_eq_solidParts, List.map_map]
  rw [hfile, ← hnames, Path.components_join haccepted.plain_fullPath haccepted.isAbsolute_fullPath,
    Placement.names_fullPath]

theorem solidIn_filename_ne_nil {site : Site} (h : s.site key = .ok site) :
    solidIn (s.layout key).filename ≠ [] := by
  obtain ⟨hplacement, haccepted, -, -⟩ := site_eq_ok h
  have hnames := haccepted.names_filename_ne_nil
  rw [hplacement, names_ofString] at hnames
  exact fun hnil => hnames (by rw [hnil, List.map_nil])

/-- The path of an object has a parent, since it ends in a name. -/
theorem parent?_file {site : Site} (h : s.site key = .ok site) : site.file.parent? = some site.dir := by
  have hcomponents := components_file h
  obtain ⟨-, -, -, hdir⟩ := site_eq_ok h
  obtain ⟨part, hpart⟩ := List.exists_mem_of_ne_nil _ (solidIn_filename_ne_nil h)
  have hmem : .name (Text.encode part) ∈ site.file.components := by
    rw [hcomponents, Placement.solidParts_eq]
    exact List.mem_append_right _
      (List.mem_map.mpr ⟨part, List.mem_append_right _ hpart, rfl⟩)
  obtain ⟨above, habove⟩ := Path.exists_parent? hmem
  rw [hdir, habove]
  rfl

/-- **A dot is refused at the beginning and counts for nothing elsewhere.**  If the pathname or
the filename of a key begins with the part `.`, then every operation refuses the key and leaves
the disk as it is.  Otherwise a part `.` is no reason to refuse the key: only a filename that
ends in no name, a slash at the beginning and a part `..` are.  A key that is not refused has
the location that its solid parts give, and so has every other key with the same solid parts. -/
theorem dot_parts (s : Store) (key : String) :
    let p := s.layout key
    (BeginsWithDot p.pathname ∨ BeginsWithDot p.filename → ∃ fault, s.Refuses key fault) ∧
    (¬ (BeginsWithDot p.pathname ∨ BeginsWithDot p.filename) →
      ((∃ fault, s.Refuses key fault) ↔
        lastPiece p.filename = [] ∨ LeadsOut p.pathname ∨ LeadsOut p.filename) ∧
      ((¬ ∃ fault, s.Refuses key fault) → ∃ file, s.location key = .ok file ∧
        file.components = s.root.components ++ p.solidParts.map (.name ∘ Text.encode) ∧
        ∀ key₂ file₂, s.location key₂ = .ok file₂ →
          (s.layout key₂).solidParts = p.solidParts → file₂.components = file.components)) := by
  intro p
  constructor
  · rintro (hdot | hdot)
    · exact exists_refuses_iff.mpr fun h => (accepted_iff.mp h).2 (Or.inl (Or.inl hdot))
    · exact exists_refuses_iff.mpr fun h => (accepted_iff.mp h).2 (Or.inr (Or.inl hdot))
  · intro hdot
    obtain ⟨hpathname, hfilename⟩ := not_or.mp hdot
    constructor
    · have hstrays : Strays p ↔ LeadsOut p.pathname ∨ LeadsOut p.filename := by
        rw [Strays, or_iff_right hpathname, or_iff_right hfilename]
      rw [exists_refuses_iff, accepted_iff, not_and_or, not_not, not_not, hstrays]
    · intro haccepted
      obtain ⟨site, hsite⟩ := exists_site (not_not.mp (exists_refuses_iff.not.mp haccepted))
      refine ⟨site.file, location_eq_ok.mpr ⟨site, hsite, rfl⟩, components_file hsite, ?_⟩
      intro key₂ file₂ hfile₂ hsolid
      obtain ⟨site₂, hsite₂, rfl⟩ := location_eq_ok.mp hfile₂
      rw [components_file hsite₂, components_file hsite, hsolid]

/-- The key `a/./b` has the location of the key `a/b`; `./a` is refused, and so is `a/./`. -/
theorem dot_parts_inside :
    let s : Store := ⟨⟨[0x73]⟩, Layout.identity, false⟩
    (∃ fault, s.Refuses "./a" fault) ∧ (∃ fault, s.Refuses "a/./" fault) ∧
      ∃ file, s.location "a/./b" = .ok file ∧
        ∀ file₂, s.location "a/b" = .ok file₂ → file₂.components = file.components := by
  intro s
  obtain ⟨hleading, -⟩ := dot_parts s "./a"
  obtain ⟨-, htrailing⟩ := dot_parts s "a/./"
  obtain ⟨-, hinside⟩ := dot_parts s "a/./b"
  obtain ⟨hrefused, hlocation⟩ := hinside (by decide)
  obtain ⟨file, hfile, -, hothers⟩ := hlocation (by rw [hrefused]; decide)
  refine ⟨hleading (by decide), (htrailing (by decide)).1.mpr (by decide), file, hfile, ?_⟩
  intro file₂ hfile₂
  exact hothers "a/b" file₂ hfile₂ (by decide)

/-- The part `.` inside a key is not refused: what is stored under `a/b` is found under
`a/./b`, and what is written there is written over it. -/
theorem dot_inside_not_refused :
    let s : Store := ⟨⟨[0x73]⟩, Layout.identity, false⟩
    let stored := ((s.write "a/b" (.ofBytes ⟨#[7, 8]⟩)).run Disk.empty).2
    let rewritten := ((s.write "a/./b" (.ofBytes ⟨#[9]⟩)).run stored).2
    ['.'] ∈ textParts (s.layout "a/./b").pathname ∧
      (s.location "a/./b").toOption = some (Path.ofString "s/a/./b/a/./b") ∧
      ((s.has "a/./b").run Disk.empty).1.toOption = some false ∧
      ((s.has "a/./b").run stored).1.toOption = some true ∧
      stored.file? (Path.ofString "s/a/b/a/b") = some ⟨#[7, 8]⟩ ∧
      rewritten.file? (Path.ofString "s/a/b/a/b") = some ⟨#[9]⟩ := by
  decide +kernel

end Store

end BlobStore
