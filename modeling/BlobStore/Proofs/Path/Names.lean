import BlobStore.Proofs.Text.Pieces

/-!
# The names of a path

Three readings of one text have to agree.  `Path.components` is what the check of a
placement sees, the pieces between slashes are what a system call follows, and joining
works on the text.  For a *plain* path, one without `.` at its beginning and without `..`,
all three come down to a list of names: the components are the names, after the slash of an
absolute path (`Plain.components_eq`), and joining appends names (`names_join`,
`Plain.join`).
-/

namespace BlobStore.Path

open Text (parts pieces)

/-- The parts of a path that a system call follows one after the other. -/
def pieces (p : Path) : List (List UInt8) := Text.pieces slash p.bytes

/-- The pieces of a path that lead from one directory to another one: all but the
single dots. -/
def names (p : Path) : List (List UInt8) := p.pieces.filter (· ≠ dot)

/-- A path is plain if all its components are names, after a slash that makes it
absolute. -/
structure Plain (p : Path) : Prop where
  bytes_ne_nil : p.bytes ≠ []
  normal : ∀ c ∈ p.components, c ≠ .here ∧ c ≠ .up

/-! ## Components of pieces -/

theorem component_eq_none {piece : List UInt8} :
    component piece = none ↔ piece = [] ∨ piece = dot := by
  unfold component
  split_ifs with h <;> simp [h]

theorem component_of_name {piece : List UInt8} (hne : piece ≠ []) (hdot : piece ≠ dot)
    (hup : piece ≠ dotDot) : component piece = some (.name piece) := by
  simp [component, hne, hdot, hup]

theorem component_ne_here (piece : List UInt8) : component piece ≠ some .here := by
  unfold component
  split_ifs <;> simp

theorem component_eq_up {piece : List UInt8} : component piece = some .up ↔ piece = dotDot := by
  unfold component
  split_ifs with hnone hup
  · rcases hnone with rfl | rfl <;> simp [dot, dotDot]
  · simp [hup]
  · simp [hup]

/-- Without `..` the components of some parts are those that count, as names. -/
theorem filterMap_component {ps : List (List UInt8)} (h : dotDot ∉ ps) :
    ps.filterMap component = ((ps.filter (!·.isEmpty)).filter (· ≠ dot)).map .name := by
  induction ps with
  | nil => rfl
  | cons p ps ih =>
    rw [List.mem_cons, not_or] at h
    rw [List.filterMap_cons]
    by_cases hp : component p = none
    · rw [hp]
      rcases component_eq_none.mp hp with rfl | rfl
      · simpa using ih h.2
      · simpa [dot] using ih h.2
    · obtain ⟨hne, hdot⟩ := not_or.mp (component_eq_none.not.mp hp)
      rw [component_of_name hne hdot (Ne.symm h.1)]
      simpa [hne, hdot] using ih h.2

/-! ## The beginning of a path -/

theorem isAbsolute_iff {p : Path} : p.isAbsolute = true ↔ ∃ rest, p.bytes = slash :: rest := by
  unfold isAbsolute
  cases p.bytes <;> simp

theorem split_of_absolute {p : Path} {rest : List UInt8} (h : p.bytes = slash :: rest) :
    p.split = (some .top, rest) := by
  rw [split, h]
  rfl

/-- A relative path begins with a dot by itself or with no component by itself. -/
theorem split_of_relative {p : Path} (h : p.isAbsolute = false) :
    p.split.1 = some .here ∨ p.split = (none, p.bytes) := by
  unfold split
  split
  · next rest hbytes =>
    rw [isAbsolute_iff.mpr ⟨rest, hbytes⟩] at h
    exact absurd h (by simp)
  · exact Or.inl rfl
  · exact Or.inl rfl
  · exact Or.inr rfl

theorem components_eq_split (p : Path) :
    p.components = p.split.1.toList ++ (parts slash p.split.2).filterMap component := rfl

/-- A path begins with a dot by itself if its text is a dot, or a dot and a slash follow
each other at its beginning. -/
theorem split_eq_here_iff {p : Path} :
    p.split.1 = some .here ↔ p.bytes = dot ∨ ∃ rest, p.bytes = 0x2E :: slash :: rest := by
  constructor
  · intro h
    unfold split at h
    split at h
    · exact absurd h (by simp)
    · next hbytes => exact Or.inl hbytes
    · next rest hbytes => exact Or.inr ⟨rest, hbytes⟩
    · exact absurd h (by simp)
  · rintro (hbytes | ⟨rest, hbytes⟩) <;> rw [split, hbytes] <;> rfl

theorem here_mem_components {p : Path} : .here ∈ p.components ↔ p.split.1 = some .here := by
  have hnot : Component.here ∉ (parts slash p.split.2).filterMap component := by
    rw [List.mem_filterMap]
    rintro ⟨piece, -, hpiece⟩
    exact component_ne_here piece hpiece
  simp only [components_eq_split, List.mem_append, hnot, or_false, Option.mem_toList]

/-- What follows the beginning of a path has the same pieces, unless that is a dot. -/
theorem pieces_split {p : Path} (h : p.split.1 ≠ some .here) :
    Text.pieces slash p.split.2 = p.pieces := by
  cases habs : p.isAbsolute with
  | true =>
    obtain ⟨rest, hbytes⟩ := isAbsolute_iff.mp habs
    rw [split_of_absolute hbytes, pieces, hbytes, Text.pieces_cons_self]
  | false =>
    rcases split_of_relative habs with hhere | hnone
    · exact absurd hhere h
    · rw [hnone, pieces]

theorem dotDot_mem_parts {cs : List UInt8} :
    dotDot ∈ parts slash cs ↔ dotDot ∈ Text.pieces slash cs := by
  simp [Text.pieces, dotDot]

/-- Empty parts are no components. -/
theorem filterMap_filter_isEmpty (ps : List (List UInt8)) :
    (ps.filter (!·.isEmpty)).filterMap component = ps.filterMap component := by
  rw [List.filterMap_filter]
  refine List.filterMap_congr fun piece _ => ?_
  cases piece with
  | nil => rfl
  | cons b bs => rfl

theorem filterMap_pieces (cs : List UInt8) :
    (Text.pieces slash cs).filterMap component = (parts slash cs).filterMap component :=
  filterMap_filter_isEmpty _

/-- The components of a path are its beginning and those of its pieces. -/
theorem components_eq_pieces (p : Path) :
    p.components = p.split.1.toList ++ p.pieces.filterMap component := by
  rw [components_eq_split, ← filterMap_pieces]
  by_cases hhere : p.split.1 = some .here
  · -- the dot at the beginning is a piece that counts for nothing
    rcases split_eq_here_iff.mp hhere with hbytes | ⟨rest, hbytes⟩
    · rw [pieces, split, hbytes]
      rfl
    · have hpieces : p.pieces = dot :: Text.pieces slash rest := by
        rw [pieces, hbytes]
        exact Text.pieces_append_cons slash dot rest
      have hsplit : p.split = (some .here, slash :: rest) := by
        rw [split, hbytes]
        rfl
      rw [hpieces, hsplit, Text.pieces_cons_self]
      rfl
  · rw [pieces_split hhere]

/-- A path is plain if and only if it does not begin with a dot and has no piece `..`. -/
theorem plain_iff {p : Path} :
    p.Plain ↔ p.bytes ≠ [] ∧ p.split.1 ≠ some .here ∧ dotDot ∉ p.pieces := by
  have hup (h : p.split.1 ≠ some .here) : .up ∈ p.components ↔ dotDot ∈ p.pieces := by
    rw [← pieces_split h, ← dotDot_mem_parts, components_eq_split, List.mem_append, List.mem_filterMap]
    constructor
    · rintro (hfirst | ⟨piece, hmem, hpiece⟩)
      · -- the beginning of a path never leads up
        cases habs : p.isAbsolute with
        | true =>
          obtain ⟨rest, hbytes⟩ := isAbsolute_iff.mp habs
          rw [split_of_absolute hbytes] at hfirst
          simp at hfirst
        | false =>
          rcases split_of_relative habs with hhere | hnone
          · exact absurd hhere h
          · simp [hnone] at hfirst
      · exact component_eq_up.mp hpiece ▸ hmem
    · intro hmem
      exact Or.inr ⟨dotDot, hmem, component_eq_up.mpr rfl⟩
  constructor
  · intro hp
    have hhere : p.split.1 ≠ some .here :=
      fun h => (hp.normal _ (here_mem_components.mpr h)).1 rfl
    exact ⟨hp.bytes_ne_nil, hhere, fun h => (hp.normal _ ((hup hhere).mpr h)).2 rfl⟩
  · rintro ⟨hbytes, hhere, hdots⟩
    refine ⟨hbytes, fun c hc => ⟨?_, ?_⟩⟩
    · rintro rfl
      exact hhere (here_mem_components.mp hc)
    · rintro rfl
      exact hdots ((hup hhere).mp hc)

/-- A text that begins with neither a dot nor a slash and has no piece `..` is a plain
relative path. -/
theorem plain_of_head {p : Path} {b : UInt8} {rest : List UInt8} (hbytes : p.bytes = b :: rest)
    (hdot : b ≠ 0x2E) (hslash : b ≠ slash) (hup : dotDot ∉ p.pieces) :
    p.Plain ∧ p.isAbsolute = false := by
  constructor
  · refine plain_iff.mpr ⟨by simp [hbytes], fun hhere => ?_, hup⟩
    rcases split_eq_here_iff.mp hhere with heq | ⟨after, heq⟩ <;> rw [hbytes] at heq
    · exact hdot (List.cons_eq_cons.mp heq).1
    · exact hdot (List.cons_eq_cons.mp heq).1
  · rw [isAbsolute, hbytes]
    simpa using hslash

/-! ## Names of plain paths -/

namespace Plain

variable {p q : Path}

theorem split_ne_here (h : p.Plain) : p.split.1 ≠ some .here := (plain_iff.mp h).2.1

theorem dotDot_not_mem_pieces (h : p.Plain) : dotDot ∉ p.pieces := (plain_iff.mp h).2.2

theorem split_eq (h : p.Plain) (hrel : p.isAbsolute = false) : p.split = (none, p.bytes) :=
  (split_of_relative hrel).resolve_left h.split_ne_here

/-- The components of what follows the beginning of a plain path are its names. -/
theorem filterMap_split (h : p.Plain) :
    (parts slash p.split.2).filterMap component = p.names.map .name := by
  have hup : dotDot ∉ parts slash p.split.2 := by
    rw [dotDot_mem_parts, pieces_split h.split_ne_here]
    exact h.dotDot_not_mem_pieces
  rw [filterMap_component hup, names, ← pieces_split h.split_ne_here]
  rfl

theorem components_eq (h : p.Plain) :
    p.components = (if p.isAbsolute then [.top] else []) ++ p.names.map .name := by
  rw [components_eq_split, h.filterMap_split]
  cases habs : p.isAbsolute with
  | true =>
    obtain ⟨rest, hbytes⟩ := isAbsolute_iff.mp habs
    rw [split_of_absolute hbytes]
    rfl
  | false => rw [h.split_eq habs]; rfl

/-- A plain path that is not absolute begins with a name. -/
theorem exists_names_eq_cons (h : p.Plain) (hrel : p.isAbsolute = false) :
    ∃ n ps, p.pieces = n :: ps ∧ p.names = n :: ps.filter (· ≠ dot) := by
  obtain ⟨c, cs, hbytes⟩ := List.exists_cons_of_ne_nil h.bytes_ne_nil
  have hc : c ≠ slash := by
    rintro rfl
    rw [isAbsolute_iff.mpr ⟨cs, hbytes⟩] at hrel
    exact absurd hrel (by simp)
  obtain ⟨piece, ps, hparts, hcons⟩ := Text.parts_cons_of_ne hc cs
  have hdot : c :: piece ≠ dot := by
    intro heq
    obtain ⟨rfl, rfl⟩ := List.cons_eq_cons.mp heq
    -- if the first part is a dot, then the text is a dot, alone or followed by a slash
    refine h.split_ne_here (split_eq_here_iff.mpr ?_)
    cases cs with
    | nil => exact Or.inl hbytes
    | cons d ds =>
      by_cases hd : d = slash
      · exact Or.inr ⟨ds, hd ▸ hbytes⟩
      · obtain ⟨q, qs, -, hcons'⟩ := Text.parts_cons_of_ne hd ds
        rw [hcons'] at hparts
        simp at hparts
  refine ⟨c :: piece, ps.filter (!·.isEmpty), ?_, ?_⟩
  · simp [pieces, Text.pieces, hbytes, hcons]
  · simp [names, pieces, Text.pieces, hbytes, hcons, hdot]

theorem names_ne_nil (h : p.Plain) (hrel : p.isAbsolute = false) : p.names ≠ [] := by
  obtain ⟨n, ps, -, hnames⟩ := h.exists_names_eq_cons hrel
  simp [hnames]

end Plain

theorem ne_nil_of_mem_names {p : Path} {n : List UInt8} (h : n ∈ p.names) : n ≠ [] :=
  Text.ne_nil_of_mem_pieces (List.mem_filter.mp h).1

theorem ne_dot_of_mem_names {p : Path} {n : List UInt8} (h : n ∈ p.names) : n ≠ dot := by
  simpa using (List.mem_filter.mp h).2

theorem slash_not_mem_of_mem_names {p : Path} {n : List UInt8} (h : n ∈ p.names) : slash ∉ n :=
  Text.not_mem_of_mem_pieces (List.mem_filter.mp h).1

/-- A zero byte stands in a name if anywhere. -/
theorem zero_mem_bytes_iff {p : Path} : 0 ∈ p.bytes ↔ ∃ n ∈ p.names, 0 ∈ n := by
  have hpieces : 0 ∈ p.bytes ↔ 0 ∈ p.pieces.flatten := by
    rw [pieces, Text.flatten_pieces, List.mem_filter]
    simp [slash]
  rw [hpieces, List.mem_flatten]
  constructor
  · rintro ⟨n, hn, hzero⟩
    refine ⟨n, List.mem_filter.mpr ⟨hn, decide_eq_true ?_⟩, hzero⟩
    rintro rfl
    exact absurd hzero (by decide)
  · rintro ⟨n, hn, hzero⟩
    exact ⟨n, (List.mem_filter.mp hn).1, hzero⟩

/-! ## Joining -/

section join

variable {p q : Path}

theorem pieces_join (hq : q.isAbsolute = false) :
    (p.join q).pieces = p.pieces ++ q.pieces := by
  by_cases hempty : p.bytes = []
  · simp [join, hq, pieces, isEmpty, hempty]
  have hempty : p.isEmpty = false := by simpa [isEmpty] using hempty
  rw [join, hq, hempty]
  cases hend : p.endsInSlash with
  | true =>
    obtain ⟨front, hfront⟩ := List.getLast?_eq_some_iff.mp (of_decide_eq_true hend)
    simp only [pieces, hfront, Bool.false_eq_true, if_false, Bool.or_true, if_true]
    rw [List.append_assoc, List.singleton_append, Text.pieces_append_cons,
      Text.pieces_append_self]
  | false =>
    simp only [pieces, Bool.false_eq_true, if_false, Bool.or_false]
    exact Text.pieces_append_cons slash p.bytes q.bytes

theorem names_join (hq : q.isAbsolute = false) :
    (p.join q).names = p.names ++ q.names := by
  rw [names, pieces_join hq, List.filter_append]
  rfl

/-- Joining adds text at the end only. -/
theorem bytes_join (hq : q.isAbsolute = false) :
    ∃ between, (between = [] ∨ between = [slash]) ∧
      (p.join q).bytes = p.bytes ++ between ++ q.bytes := by
  rw [join, hq]
  cases p.isEmpty || p.endsInSlash with
  | true => exact ⟨[], Or.inl rfl, by simp⟩
  | false => exact ⟨[slash], Or.inr rfl, by simp⟩

theorem length_join_le (hq : q.isAbsolute = false) :
    (p.join q).bytes.length ≤ p.bytes.length + 1 + q.bytes.length := by
  obtain ⟨between, hbetween, hbytes⟩ := bytes_join (p := p) hq
  rw [hbytes, List.length_append, List.length_append]
  rcases hbetween with rfl | rfl <;> simp

theorem zero_not_mem_join (hq : q.isAbsolute = false) :
    0 ∉ (p.join q).bytes ↔ 0 ∉ p.bytes ∧ 0 ∉ q.bytes := by
  obtain ⟨between, hbetween, hbytes⟩ := bytes_join (p := p) hq
  rw [hbytes]
  rcases hbetween with rfl | rfl <;> simp [slash]

theorem endsInSlash_join (hq : q.isAbsolute = false) (hne : q.bytes ≠ []) :
    (p.join q).endsInSlash = q.endsInSlash := by
  obtain ⟨between, -, hbytes⟩ := bytes_join (p := p) hq
  rw [endsInSlash, hbytes, List.getLast?_append_of_ne_nil _ hne, endsInSlash]

theorem isAbsolute_join (hq : q.isAbsolute = false) :
    (p.join q).isAbsolute = p.isAbsolute := by
  by_cases hempty : p.bytes = []
  · rw [join, hq]
    simpa [isAbsolute, isEmpty, hempty] using hq
  obtain ⟨between, -, hbytes⟩ := bytes_join (p := p) hq
  obtain ⟨c, cs, hcs⟩ := List.exists_cons_of_ne_nil hempty
  simp [isAbsolute, hbytes, hcs]

/-- A dot at the beginning of a joined path was at the beginning of the first path. -/
theorem split_join_eq_here (hp : p.bytes ≠ []) (hq : q.isAbsolute = false) :
    (p.join q).split.1 = some .here ↔ p.split.1 = some .here := by
  rw [split_eq_here_iff, split_eq_here_iff]
  constructor
  · intro hhere
    obtain ⟨between, -, hbytes⟩ := bytes_join (p := p) hq
    obtain ⟨c, cs, hcs⟩ := List.exists_cons_of_ne_nil hp
    rw [hbytes, hcs] at hhere
    cases cs with
    | nil =>
      refine Or.inl (hcs.trans ?_)
      rcases hhere with hdot | ⟨rest, hrest⟩
      · exact congrArg (fun l => [l]) (List.cons_eq_cons.mp hdot).1
      · exact congrArg (fun l => [l]) (List.cons_eq_cons.mp hrest).1
    | cons d ds =>
      rcases hhere with hdot | ⟨rest, hrest⟩
      · simp [dot] at hdot
      · simp only [List.cons_append, List.cons_eq_cons] at hrest
        exact Or.inr ⟨ds, by rw [hcs, hrest.1, hrest.2.1]⟩
  · rintro (hdot | ⟨rest, hrest⟩)
    · exact Or.inr ⟨q.bytes, by simp [join, hq, isEmpty, endsInSlash, hdot, dot, slash]⟩
    · obtain ⟨between, -, hbytes⟩ := bytes_join (p := p) hq
      exact Or.inr ⟨rest ++ between ++ q.bytes, by rw [hbytes, hrest]; rfl⟩

theorem Plain.join (h : p.Plain) (hq : q.isAbsolute = false) (hup : dotDot ∉ q.pieces) :
    (p.join q).Plain := by
  obtain ⟨between, -, hbytes⟩ := bytes_join (p := p) hq
  refine plain_iff.mpr ⟨by simp [hbytes, h.bytes_ne_nil], ?_, ?_⟩
  · exact (split_join_eq_here h.bytes_ne_nil hq).not.mpr h.split_ne_here
  · rw [pieces_join hq, List.mem_append, not_or]
    exact ⟨h.dotDot_not_mem_pieces, hup⟩

/-- The beginning of a joined path is that of the first path. -/
theorem split_join (hp : p.bytes ≠ []) (hq : q.isAbsolute = false) :
    (p.join q).split.1 = p.split.1 := by
  have habs : (p.join q).isAbsolute = p.isAbsolute := isAbsolute_join hq
  have hhere := split_join_eq_here hp hq
  cases hrel : p.isAbsolute with
  | true =>
    obtain ⟨rest, hbytes⟩ := isAbsolute_iff.mp hrel
    obtain ⟨rest', hbytes'⟩ := isAbsolute_iff.mp (habs.trans hrel)
    rw [split_of_absolute hbytes, split_of_absolute hbytes']
  | false =>
    rcases split_of_relative hrel with hp' | hp'
    · rw [hp', hhere.mpr hp']
    · rcases split_of_relative (habs.trans hrel) with hjoin | hjoin
      · rw [hjoin, hhere.mp hjoin]
      · rw [hjoin, hp']

/-- A plain path that is joined to another one adds its names to the components. -/
theorem components_join (hq : q.Plain) (hrel : q.isAbsolute = false) :
    (p.join q).components = p.components ++ q.names.map .name := by
  by_cases hp : p.bytes = []
  · obtain rfl : p = ⟨[]⟩ := congrArg Path.mk hp
    have hjoin : Path.join ⟨[]⟩ q = q := by simp [join, hrel, isEmpty]
    rw [hjoin, hq.components_eq, hrel]
    rfl
  · have hnames : q.pieces.filterMap component = q.names.map .name := by
      rw [pieces, filterMap_pieces,
        filterMap_component (dotDot_mem_parts.not.mpr hq.dotDot_not_mem_pieces)]
      rfl
    rw [components_eq_pieces, components_eq_pieces p, split_join hp hrel, pieces_join hrel,
      List.filterMap_append, hnames, List.append_assoc]

end join

/-! ## Texts -/

theorem toString?_ofString (s : String) : (ofString s).toString? = some s :=
  Text.fromUTF8?_toUTF8 s

/-- A path that is a text is shown as this text. -/
theorem display_of_toString? {p : Path} {s : String} (h : p.toString? = some s) :
    p.display = s := by
  rw [toString?] at h
  rw [display, Text.lossy, h]

theorem display_ofString (s : String) : (ofString s).display = s :=
  display_of_toString? (toString?_ofString s)

end BlobStore.Path
