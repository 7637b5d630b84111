import BlobStore.Proofs.Path.Names
import Mathlib.Data.List.DropRight

/-!
# The parent of any path

`Path.parent?` cuts the text of a path from its end: parts without components, the last component,
and again parts without components.  A path need not be plain to have a parent: it may begin with a
dot and go up again.  Its parent has all its components but the last one (`components_parent?`).  As
a text it is a beginning of the path (`isPrefix_parent?`), and the path goes on after it with at
least one more piece (`exists_pieces_parent?`).

The beginning of a path is a component by itself, so the parent must be shown to begin as the path
does (`split_parentOf`): cutting at the end might have uncovered a dot, and does not, since trimmed
parts never end in one.
-/

namespace BlobStore.Path

open Text (parts)

variable {p q : Path}

/-! ## Trimmed parts -/

theorem trimEnd_eq_rdropWhile (ps : List (List UInt8)) :
    trimEnd ps = ps.rdropWhile fun piece => (component piece).isNone := rfl

/-- What is trimmed away has no components. -/
theorem filterMap_trimEnd (ps : List (List UInt8)) :
    (trimEnd ps).filterMap component = ps.filterMap component := by
  have hsplit := List.rdropWhile_append_rtakeWhile (p := fun piece => (component piece).isNone) (l := ps)
  rw [← trimEnd_eq_rdropWhile] at hsplit
  conv_rhs => rw [← hsplit, List.filterMap_append]
  have hnone : (ps.rtakeWhile fun piece => (component piece).isNone).filterMap component = [] := by
    rw [List.filterMap_eq_nil_iff]
    intro piece hpiece
    simpa using List.mem_rtakeWhile_imp hpiece
  rw [hnone, List.append_nil]

/-- Trimmed parts end in one that has a component. -/
theorem component_getLast_trimEnd {ps : List (List UInt8)} (h : trimEnd ps ≠ []) :
    ∃ c, component ((trimEnd ps).getLast h) = some c := by
  have hlast : ¬ (component ((trimEnd ps).getLast h)).isNone :=
    List.rdropWhile_last_not (fun piece => (component piece).isNone) ps h
  exact Option.ne_none_iff_exists'.mp (by simpa using hlast)

/-- All is trimmed away if nothing has a component. -/
theorem trimEnd_eq_nil {ps : List (List UInt8)} :
    trimEnd ps = [] ↔ ps.filterMap component = [] := by
  rw [← filterMap_trimEnd]
  constructor
  · intro h
    rw [h]
    rfl
  · intro h
    by_contra hne
    obtain ⟨c, hc⟩ := component_getLast_trimEnd hne
    exact List.not_mem_nil (h ▸ List.mem_filterMap.mpr ⟨_, List.getLast_mem hne, hc⟩)

/-- Without the last trimmed part the last component is gone. -/
theorem filterMap_trimEnd_dropLast (ps : List (List UInt8)) :
    (trimEnd (trimEnd ps).dropLast).filterMap component = (ps.filterMap component).dropLast := by
  rw [filterMap_trimEnd]
  by_cases h : trimEnd ps = []
  · rw [h, trimEnd_eq_nil.mp h]
    rfl
  · obtain ⟨c, hc⟩ := component_getLast_trimEnd h
    rw [← filterMap_trimEnd ps]
    conv_rhs => rw [← List.dropLast_append_getLast h, List.filterMap_append]
    simp [hc]

/-! ## Kept parts -/

/-- The parts of a path that its parent keeps. -/
def keptParts (p : Path) : List (List UInt8) :=
  trimEnd (trimEnd (parts slash p.split.2)).dropLast

theorem isPrefix_keptParts (p : Path) : p.keptParts <+: parts slash p.split.2 :=
  ((List.rdropWhile_prefix _ _).trans (List.dropLast_prefix _)).trans (List.rdropWhile_prefix _ _)

/-- The kept parts are found again in the text that they are joined to. -/
theorem pieces_intercalate_keptParts (p : Path) :
    Text.pieces slash ([slash].intercalate p.keptParts) = p.keptParts.filter (!·.isEmpty) :=
  Text.pieces_intercalate fun _ hpiece =>
    Text.not_mem_of_mem_parts ((isPrefix_keptParts p).subset hpiece)

/-- The kept parts do not end in a piece that leads nowhere. -/
theorem getLast?_keptParts (p : Path) : (p.keptParts.filter (!·.isEmpty)).getLast? ≠ some dot := by
  by_cases h : p.keptParts = []
  · simp [h]
  · obtain ⟨c, hc⟩ := component_getLast_trimEnd h
    have hlast : ¬ (p.keptParts.getLast h = [] ∨ p.keptParts.getLast h = dot) := by
      rw [← component_eq_none]
      exact fun hnone => absurd (hc.symm.trans hnone) (by simp)
    rw [not_or] at hlast
    rw [← List.dropLast_append_getLast h, List.filter_append]
    simp [hlast.1, hlast.2]

/-! ## The text of a beginning -/

/-- The text of a beginning that is a component by itself. -/
def opening : Option Component → List UInt8
  | some .top => [slash]
  | some .here => dot
  | _ => []

theorem bytes_eq_opening (p : Path) : p.bytes = opening p.split.1 ++ p.split.2 := by
  unfold split
  split
  · next rest hbytes => exact hbytes
  · next hbytes => exact hbytes
  · next rest hbytes => exact hbytes
  · rfl

/-- The beginning of a path is not one of its names. -/
theorem split_ne_name (p : Path) (n : List UInt8) : p.split.1 ≠ some (.name n) := by
  unfold split
  split <;> simp

theorem split_eq_top_iff : p.split.1 = some .top ↔ p.isAbsolute = true := by
  constructor
  · intro htop
    by_contra hrel
    rw [Bool.not_eq_true] at hrel
    rcases split_of_relative hrel with hhere | hnone
    · simp [hhere] at htop
    · simp [hnone] at htop
  · intro habs
    obtain ⟨rest, hbytes⟩ := isAbsolute_iff.mp habs
    rw [split_of_absolute hbytes]

/-- What follows a dot at the beginning is nothing, or comes after a slash. -/
theorem split_snd_of_here (h : p.split.1 = some .here) :
    p.split.2 = [] ∨ ∃ rest, p.split.2 = slash :: rest := by
  have hbytes := p.bytes_eq_opening
  rw [h] at hbytes
  rcases split_eq_here_iff.mp h with hdot | ⟨rest, hrest⟩
  · exact Or.inl (List.append_cancel_left (hbytes.symm.trans hdot))
  · exact Or.inr ⟨rest, List.append_cancel_left (hbytes.symm.trans hrest)⟩

/-- The pieces of a path are the dot at its beginning, if there is one, and those of the rest. -/
theorem pieces_eq_opening (p : Path) :
    p.pieces = Text.pieces slash (opening p.split.1) ++ Text.pieces slash p.split.2 := by
  by_cases hhere : p.split.1 = some .here
  · have hbytes := p.bytes_eq_opening
    rw [hhere] at hbytes ⊢
    rcases split_snd_of_here hhere with hrest | ⟨rest, hrest⟩
    · rw [pieces, hbytes, hrest]
      rfl
    · rw [pieces, hbytes, hrest, Text.pieces_append_cons, Text.pieces_cons_self]
  · have hopening : Text.pieces slash (opening p.split.1) = [] := by
      cases hsplit : p.split.1 with
      | none => rfl
      | some first =>
        cases first with
        | here => exact absurd hsplit hhere
        | top => rfl
        | up => rfl
        | name n => rfl
    rw [← pieces_split hhere, hopening, List.nil_append]

/-! ## The parent -/

/-- The text that is left of a path without its last component after the beginning. -/
def parentOf (p : Path) : Path := ⟨opening p.split.1 ++ [slash].intercalate p.keptParts⟩

theorem isPrefix_intercalate_keptParts (p : Path) :
    [slash].intercalate p.keptParts <+: p.split.2 := by
  obtain ⟨dropped, hdropped⟩ := isPrefix_keptParts p
  conv_rhs => rw [← Text.intercalate_parts slash p.split.2, ← hdropped]
  exact Text.isPrefix_intercalate _ _ _

theorem isPrefix_parentOf (p : Path) : p.parentOf.bytes <+: p.bytes := by
  conv_rhs => rw [p.bytes_eq_opening]
  rw [parentOf, List.prefix_append_right_inj]
  exact p.isPrefix_intercalate_keptParts

/-- A parent is what is left of the text, unless nothing but the beginning counts. -/
theorem parent?_eq_ite (p : Path) :
    p.parent? = if trimEnd (parts slash p.split.2) = [] then
        if p.split.1 = some .here then some ⟨[]⟩ else none
      else some p.parentOf := by
  unfold parent?
  dsimp only
  split
  · next hnil => rw [if_pos hnil]
  · next piece pieces hcons =>
    rw [if_neg (by simp [hcons]), ← hcons]
    rfl

/-! ## The beginning of a parent -/

theorem isAbsolute_of_isPrefix (h : q.bytes <+: p.bytes) (hp : p.isAbsolute = false) :
    q.isAbsolute = false := by
  rw [← Bool.not_eq_true, isAbsolute_iff] at hp ⊢
  rintro ⟨rest, hrest⟩
  obtain ⟨after, hafter⟩ := h
  exact hp ⟨rest ++ after, by rw [← hafter, hrest, List.cons_append]⟩

/-- If a beginning of a path begins with a dot by itself, the path does as well, unless the dot is
all there is. -/
theorem eq_dot_or_split_eq_here (h : q.bytes <+: p.bytes) (hq : q.split.1 = some .here) :
    q.bytes = dot ∨ p.split.1 = some .here := by
  refine (split_eq_here_iff.mp hq).imp id ?_
  rintro ⟨rest, hrest⟩
  obtain ⟨after, hafter⟩ := h
  refine split_eq_here_iff.mpr (Or.inr ⟨rest ++ after, ?_⟩)
  rw [← hafter, hrest]
  rfl

/-- Nothing or a slash follows a dot at the beginning, and so it does after a cut. -/
theorem split_dot_append (hhere : p.split.1 = some .here) {rest : List UInt8}
    (hrest : rest <+: p.split.2) : (Path.mk (dot ++ rest)).split = (some .here, rest) := by
  cases rest with
  | nil => rfl
  | cons b bs =>
    rcases split_snd_of_here hhere with hnil | ⟨after, hafter⟩
    · simp [hnil] at hrest
    · rw [hafter, List.cons_prefix_cons] at hrest
      obtain ⟨rfl, -⟩ := hrest
      rfl

/-- What is left of a path begins as the path does. -/
theorem split_parentOf (p : Path) :
    p.parentOf.split = (p.split.1, [slash].intercalate p.keptParts) := by
  cases habs : p.isAbsolute with
  | true =>
    obtain ⟨rest, hbytes⟩ := isAbsolute_iff.mp habs
    rw [parentOf, split_of_absolute hbytes]
    rfl
  | false =>
    rcases split_of_relative habs with hhere | hnone
    · rw [parentOf, hhere]
      exact split_dot_append hhere p.isPrefix_intercalate_keptParts
    · have hbytes : p.parentOf.bytes = [slash].intercalate p.keptParts := by
        rw [parentOf, hnone]
        rfl
      have hrel := isAbsolute_of_isPrefix p.isPrefix_parentOf habs
      rw [hnone, ← hbytes]
      refine (split_of_relative hrel).resolve_left fun hhere => ?_
      rcases eq_dot_or_split_eq_here p.isPrefix_parentOf hhere with hdot | hp
      · -- a dot that is alone has been trimmed away
        refine p.getLast?_keptParts ?_
        rw [← pieces_intercalate_keptParts, ← hbytes, hdot]
        rfl
      · rw [hnone] at hp
        cases hp

/-! ## Parents of all paths -/

/-- **A parent has all components but the last.**  This is so of every path that has a parent,
whether or not it begins with a dot or goes up again. -/
theorem components_parent? (h : p.parent? = some q) : q.components = p.components.dropLast := by
  rw [parent?_eq_ite] at h
  split_ifs at h with hnil hhere
  · obtain rfl := Option.some.inj h
    rw [components_eq_split p, hhere, trimEnd_eq_nil.mp hnil]
    rfl
  · obtain rfl := Option.some.inj h
    rw [components_eq_split, components_eq_split p, split_parentOf,
      List.dropLast_append_of_ne_nil (trimEnd_eq_nil.not.mp hnil), ← filterMap_pieces,
      pieces_intercalate_keptParts, filterMap_filter_isEmpty, keptParts, filterMap_trimEnd_dropLast]

/-- A path with a name among its components has a parent. -/
theorem exists_parent? {n : List UInt8} (h : .name n ∈ p.components) : ∃ q, p.parent? = some q := by
  rw [components_eq_split, List.mem_append] at h
  have hcounts : (parts slash p.split.2).filterMap component ≠ [] := by
    rcases h with hfirst | hrest
    · exact absurd (Option.mem_toList.mp hfirst) (split_ne_name p n)
    · exact List.ne_nil_of_mem hrest
  exact ⟨_, by rw [parent?_eq_ite, if_neg (trimEnd_eq_nil.not.mpr hcounts)]⟩

/-- A parent is a beginning of the text. -/
theorem isPrefix_parent? (h : p.parent? = some q) : q.bytes <+: p.bytes := by
  rw [parent?_eq_ite] at h
  split_ifs at h
  · obtain rfl := Option.some.inj h
    exact List.nil_prefix
  · obtain rfl := Option.some.inj h
    exact p.isPrefix_parentOf

/-- The last component is among the parts that are not kept. -/
theorem dropped_ne_nil {dropped : List (List UInt8)}
    (hdropped : p.keptParts ++ dropped = parts slash p.split.2)
    (hcounts : (parts slash p.split.2).filterMap component ≠ []) :
    dropped.filter (!·.isEmpty) ≠ [] := by
  intro hempty
  have hnone : dropped.filterMap component = [] := by
    rw [← filterMap_filter_isEmpty, hempty, List.filterMap_nil]
  have hall : (parts slash p.split.2).filterMap component = p.keptParts.filterMap component := by
    rw [← hdropped, List.filterMap_append, hnone, List.append_nil]
  -- what is kept has one component less
  have hkept : p.keptParts.filterMap component =
      ((parts slash p.split.2).filterMap component).dropLast :=
    filterMap_trimEnd_dropLast _
  have hlength := congrArg List.length (hall.trans hkept)
  have hpos := List.length_pos_iff.mpr hcounts
  rw [List.length_dropLast] at hlength
  omega

/-- A path goes on after its parent. -/
theorem exists_pieces_parent? (h : p.parent? = some q) :
    ∃ after, after ≠ [] ∧ p.pieces = q.pieces ++ after := by
  rw [parent?_eq_ite] at h
  split_ifs at h with hnil hhere
  · obtain rfl := Option.some.inj h
    refine ⟨p.pieces, ?_, rfl⟩
    rw [pieces_eq_opening, hhere]
    exact List.append_ne_nil_of_left_ne_nil (by decide) _
  · obtain rfl := Option.some.inj h
    obtain ⟨dropped, hdropped⟩ := isPrefix_keptParts p
    refine ⟨_, dropped_ne_nil hdropped (trimEnd_eq_nil.not.mp hnil), ?_⟩
    rw [pieces_eq_opening p, pieces_eq_opening p.parentOf, split_parentOf,
      pieces_intercalate_keptParts, List.append_assoc, ← List.filter_append, hdropped]
    rfl

end BlobStore.Path
