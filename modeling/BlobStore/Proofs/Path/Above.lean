import BlobStore.Proofs.Path.Parent

/-!
# What is above a path

For a plain path the text that is left without its last name, `Path.above`, is a slash or nothing
and then the parts that its parent keeps.  It is a beginning of the path's text, has all its names
but the last, and ends in no dot (`Plain.parent?_eq`, `Plain.names_above`, `trimmed_above`).
-/

namespace BlobStore.Path

open Text (parts pieces)

/-! ## Trimmed paths -/

/-- The text of a path does not end in a piece that leads nowhere. -/
def Trimmed (p : Path) : Prop := p.pieces.getLast? ≠ some dot

/-- The pieces of a trimmed path end in its last name. -/
theorem Trimmed.pieces_eq {p : Path} (h : p.Trimmed) (hn : p.names ≠ []) :
    p.pieces = p.pieces.dropLast ++ [p.names.getLast hn] ∧
      p.pieces.dropLast.filter (· ≠ dot) = p.names.dropLast := by
  have hpieces : p.pieces ≠ [] := by
    intro hnil
    exact hn (by rw [names, hnil]; rfl)
  have hdot : p.pieces.getLast hpieces ≠ dot := by
    intro hdot
    exact h (by rw [List.getLast?_eq_some_getLast hpieces, hdot])
  have hnames : p.names = p.pieces.dropLast.filter (· ≠ dot) ++ [p.pieces.getLast hpieces] := by
    conv_lhs => rw [names, ← List.dropLast_append_getLast hpieces, List.filter_append]
    simp [hdot]
  constructor
  · conv_lhs => rw [← List.dropLast_append_getLast hpieces]
    simp [hnames]
  · simp [hnames]

/-- The pieces of a path that is not trimmed end in a dot, which is none of its names. -/
theorem pieces_eq_of_not_trimmed {p : Path} (h : ¬ p.Trimmed) :
    p.pieces = p.pieces.dropLast ++ [dot] ∧ p.pieces.dropLast.filter (· ≠ dot) = p.names := by
  have hlast : p.pieces.getLast? = some dot := not_not.mp h
  obtain ⟨before, hbefore⟩ := List.getLast?_eq_some_iff.mp hlast
  rw [names, hbefore, List.dropLast_concat]
  exact ⟨rfl, by simp⟩

/-! ## Above the last name -/

/-- The slash of an absolute path. -/
def lead (p : Path) : List UInt8 := if p.isAbsolute then [slash] else []

/-- The text that is left of a plain path without its last name. -/
def above (p : Path) : Path := ⟨p.lead ++ [slash].intercalate p.keptParts⟩

theorem pieces_above (p : Path) : p.above.pieces = p.keptParts.filter (!·.isEmpty) := by
  rw [← pieces_intercalate_keptParts, pieces, above, lead]
  cases p.isAbsolute <;> simp

theorem trimmed_above (p : Path) : p.above.Trimmed := by
  rw [Trimmed, pieces_above]
  exact p.getLast?_keptParts

namespace Plain

variable {p : Path}

/-- What is above a plain path is what is left of it without its last component. -/
theorem parentOf_eq (h : p.Plain) : p.parentOf = p.above := by
  have hlead : opening p.split.1 = p.lead := by
    rw [lead]
    cases habs : p.isAbsolute with
    | true =>
      obtain ⟨rest, hbytes⟩ := isAbsolute_iff.mp habs
      rw [split_of_absolute hbytes]
      rfl
    | false => rw [h.split_eq habs]; rfl
  rw [parentOf, hlead, above]

theorem isPrefix_above (h : p.Plain) : p.above.bytes <+: p.bytes :=
  h.parentOf_eq ▸ p.isPrefix_parentOf

theorem split_above (h : p.Plain) : p.above.split = (p.split.1, [slash].intercalate p.keptParts) :=
  h.parentOf_eq ▸ p.split_parentOf

theorem isAbsolute_above (h : p.Plain) : p.above.isAbsolute = p.isAbsolute := by
  rw [Bool.eq_iff_iff, ← split_eq_top_iff, ← split_eq_top_iff, h.split_above]

theorem dotDot_not_mem_keptParts (h : p.Plain) : dotDot ∉ p.keptParts := by
  intro hmem
  refine h.dotDot_not_mem_pieces ?_
  rw [← pieces_split h.split_ne_here, ← dotDot_mem_parts]
  exact (isPrefix_keptParts p).subset hmem

theorem names_above (h : p.Plain) : p.above.names = p.names.dropLast := by
  -- names are compared as components, which trimming leaves alone
  have hmap : p.above.names.map Component.name = p.names.dropLast.map Component.name := by
    rw [names, pieces_above, ← filterMap_component h.dotDot_not_mem_keptParts, keptParts,
      filterMap_trimEnd_dropLast, h.filterMap_split, List.map_dropLast]
  exact List.map_injective_iff.mpr (fun a b hab => Component.name.inj hab) hmap

theorem plain_above (h : p.Plain) (hne : p.above.bytes ≠ []) : p.above.Plain := by
  refine plain_iff.mpr ⟨hne, ?_, fun hup => ?_⟩
  · rw [h.split_above]
    exact h.split_ne_here
  · rw [pieces_above] at hup
    exact h.dotDot_not_mem_keptParts (List.mem_filter.mp hup).1

theorem trimEnd_ne_nil (h : p.Plain) (hn : p.names ≠ []) :
    trimEnd (parts slash p.split.2) ≠ [] := by
  rw [Ne, trimEnd_eq_nil, h.filterMap_split, List.map_eq_nil_iff]
  exact hn

/-- The parent of a plain path with names is what is above its last name. -/
theorem parent?_eq (h : p.Plain) (hn : p.names ≠ []) : p.parent? = some p.above := by
  rw [parent?_eq_ite, if_neg (h.trimEnd_ne_nil hn), h.parentOf_eq]

/-- The top has no parent. -/
theorem parent?_eq_none (h : p.Plain) (hn : p.names = []) : p.parent? = none := by
  have hnil : trimEnd (parts slash p.split.2) = [] := by
    rw [trimEnd_eq_nil, h.filterMap_split, hn, List.map_nil]
  rw [parent?_eq_ite, if_pos hnil, if_neg h.split_ne_here]

theorem length_above_lt (h : p.Plain) (hn : p.names ≠ []) :
    p.above.bytes.length < p.bytes.length := by
  apply lt_of_le_of_ne h.isPrefix_above.length_le
  intro hlength
  have hbytes : p.above = p := congrArg Path.mk (h.isPrefix_above.eq_of_length hlength)
  -- a path that is its own parent has as many names without the last one
  have hnames := h.names_above
  rw [hbytes] at hnames
  have := congrArg List.length hnames
  rw [List.length_dropLast] at this
  have := List.length_pos_iff.mpr hn
  omega

end Plain

end BlobStore.Path
